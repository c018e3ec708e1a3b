/-!
# Decoding bytes that may not be text

Bytes are decoded as UTF-8, and each longest sequence that starts a character but cannot be
completed becomes one replacement character.
-/

namespace GlyphLayout
namespace Text

/-- The character that stands for bytes that decode to nothing. -/
def replacementChar : Char := '\uFFFD'

/-- A character whose first bytes have been read. -/
structure PartialChar where
  /-- The bits of the code point read so far. -/
  bits : Nat
  /-- The least byte that may follow. -/
  least : UInt8
  /-- The greatest byte that may follow. -/
  greatest : UInt8
  /-- How many bytes are missing after the next one. -/
  missing : Nat
deriving Repr, DecidableEq

/-- Reads the first byte of a character: what it completes, and what it begins. -/
def decodeLead (byte : UInt8) : List Char × Option PartialChar :=
  let code := byte.toNat
  if byte < 0x80 then ([Char.ofNat code], none)
  else if byte < 0xC2 then ([replacementChar], none)
  else if byte < 0xE0 then ([], some ⟨code - 0xC0, 0x80, 0xBF, 0⟩)
  else if byte = 0xE0 then ([], some ⟨0, 0xA0, 0xBF, 1⟩)
  else if byte = 0xED then ([], some ⟨0xD, 0x80, 0x9F, 1⟩)
  else if byte < 0xF0 then ([], some ⟨code - 0xE0, 0x80, 0xBF, 1⟩)
  else if byte = 0xF0 then ([], some ⟨0, 0x90, 0xBF, 2⟩)
  else if byte < 0xF4 then ([], some ⟨code - 0xF0, 0x80, 0xBF, 2⟩)
  else if byte = 0xF4 then ([], some ⟨4, 0x80, 0x8F, 2⟩)
  else ([replacementChar], none)

/-- Decodes the remaining bytes after the start of a character. -/
def decodeFrom (pending : Option PartialChar) : List UInt8 → List Char
  | [] => if pending.isSome then [replacementChar] else []
  | byte :: bytes =>
      match pending with
      | some start =>
          if start.least ≤ byte && byte ≤ start.greatest then
            let bits := start.bits * 0x40 + (byte.toNat - 0x80)
            match start.missing with
            | 0 => Char.ofNat bits :: decodeFrom none bytes
            | missing + 1 => decodeFrom (some ⟨bits, 0x80, 0xBF, missing⟩) bytes
          else
            let (chars, next) := decodeLead byte
            replacementChar :: (chars ++ decodeFrom next bytes)
      | none =>
          let (chars, next) := decodeLead byte
          chars ++ decodeFrom next bytes

/-- The text that bytes stand for. -/
def decode (bytes : ByteArray) : String :=
  String.ofList (decodeFrom none bytes.data.toList)

end Text
end GlyphLayout
