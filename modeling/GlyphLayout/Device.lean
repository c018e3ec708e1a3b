/-!
# Device adjustments

A correction of a value at one size of the type.
-/

namespace GlyphLayout

/-- A correction of a value by `delta` units at the size of `ppem` pixels per em. -/
structure DeviceAdjustment where
  /-- The size at which the correction applies. -/
  ppem : UInt16
  /-- The amount of the correction. -/
  delta : Int16
deriving Repr, DecidableEq

end GlyphLayout
