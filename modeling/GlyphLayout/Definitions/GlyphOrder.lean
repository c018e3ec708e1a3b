/-!
# Glyph orders

The names of the glyphs of a font by their ids.
-/

namespace GlyphLayout

/-- The names of the glyphs of a font; the glyph with id `n` comes at index `n`. -/
structure GlyphOrder where
  names : Array String
deriving Repr, DecidableEq

namespace GlyphOrder

/-- The number of glyphs. -/
def size (order : GlyphOrder) : Nat :=
  order.names.size

/-- The name of the glyph with the given id. -/
def get? (order : GlyphOrder) (id : UInt16) : Option String :=
  order.names[id.toNat]?

end GlyphOrder
end GlyphLayout
