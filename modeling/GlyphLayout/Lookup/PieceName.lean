import GlyphLayout.Text.Joined
import GlyphLayout.Text.Numeral

/-!
# Names of pieces

A lookup may be one of several pieces that stand for a single lookup.  The name of a piece is
the name of that lookup, a backslash and the number of the piece.
-/

namespace GlyphLayout

/-- The name of a lookup, taken apart. -/
structure LookupId where
  /-- The name of the lookup that a piece belongs to; the whole name if it is no piece. -/
  base : String
  /-- The number of the piece. -/
  piece : Option UInt32
deriving Repr, DecidableEq

namespace LookupId

/-- The lookup is a piece of another. -/
def isPiece (id : LookupId) : Bool :=
  id.piece.isSome

/-- The number behind the last backslash of a reversed name, and what stands in front of it. -/
def pieceOfReversed? (reversed : List Char) : Option (String × UInt32) :=
  match reversed.dropWhile Char.isDigit with
  | '\\' :: c :: cs =>
      let digits := (reversed.takeWhile Char.isDigit).reverse
      match Text.digits? 10 digits with
      | some number =>
          if number < 0x100000000 then
            some (String.ofList (c :: cs).reverse, UInt32.ofNat number)
          else
            none
      | none => none
  | _ => none

/-- Takes the name of a lookup apart. -/
def ofName (name : String) : LookupId :=
  match pieceOfReversed? name.toList.reverse with
  | some (base, number) => ⟨base, some number⟩
  | none => ⟨name, none⟩

/-- The name of the piece at an index that counts from zero.  The first has no number. -/
def pieceName (base : String) (index : Nat) : String :=
  if index = 0 then base else base ++ "\\" ++ Text.decimal (index + 1)

end LookupId
end GlyphLayout
