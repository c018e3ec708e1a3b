import GlyphLayout.Device
import GlyphLayout.Text.Joined

/-!
# Anchors and values

Points and value records, with their device adjustments.  A value record that only changes
the advance has a short form, the advance alone.
-/

namespace GlyphLayout
namespace Feature

open Text (joined decimal)

/-- A device adjustment as a feature file has it. -/
def deviceEntry (adjustment : DeviceAdjustment) : String :=
  decimal adjustment.ppem.toNat ++ " " ++ decimal adjustment.delta.toInt

/-- The device adjustments of a value. -/
def deviceText (adjustments : List DeviceAdjustment) : String :=
  match adjustments with
  | [] => "<device NULL>"
  | adjustments => "<device " ++ joined ", " (adjustments.map deviceEntry) ++ ">"

/-- A point at which glyphs are attached to each other. -/
structure Anchor where
  x : Int16
  y : Int16
  xDevices : List DeviceAdjustment := []
  yDevices : List DeviceAdjustment := []
deriving Repr, DecidableEq

/-- An anchor as a feature file has it. -/
def Anchor.text (anchor : Anchor) : String :=
  let devices :=
    if anchor.xDevices.isEmpty && anchor.yDevices.isEmpty then ""
    else " " ++ deviceText anchor.xDevices ++ " " ++ deviceText anchor.yDevices
  "<anchor " ++ decimal anchor.x.toInt ++ " " ++ decimal anchor.y.toInt ++ devices ++ ">"

/-- An anchor that may be missing. -/
def anchorText : Option Anchor → String
  | some anchor => anchor.text
  | none => "<anchor NULL>"

/-- How far a glyph is moved, and how its advance changes. -/
structure Value where
  x : Option Int16 := none
  y : Option Int16 := none
  advance : Option Int16 := none
  xDevices : List DeviceAdjustment := []
  yDevices : List DeviceAdjustment := []
  advanceDevices : List DeviceAdjustment := []
deriving Repr, DecidableEq

namespace Value

/-- Some value has device adjustments. -/
def hasDevices (value : Value) : Bool :=
  !(value.xDevices.isEmpty && value.yDevices.isEmpty && value.advanceDevices.isEmpty)

/-- Nothing is set. -/
def isEmpty (value : Value) : Bool :=
  value.x.isNone && value.y.isNone && value.advance.isNone && !value.hasDevices

/-- The advance, if nothing else is set. -/
def justAdvance? (value : Value) : Option Int16 :=
  if value.x.isNone && value.y.isNone && !value.hasDevices then value.advance else none

/-- The number that stands for a part of a value, zero if the part is missing. -/
def partText (part : Option Int16) : String :=
  decimal (part.getD 0).toInt

/-- A value with all its parts written out. -/
def fullText (value : Value) : String :=
  let devices :=
    if value.hasDevices then
      " " ++ deviceText value.xDevices ++ " " ++ deviceText value.yDevices ++ " "
        ++ deviceText value.advanceDevices ++ " " ++ deviceText []
    else ""
  "<" ++ partText value.x ++ " " ++ partText value.y ++ " " ++ partText value.advance ++ " 0"
    ++ devices ++ ">"

/-- A value as a feature file has it. -/
def text (value : Value) : String :=
  match value.justAdvance? with
  | some advance => decimal advance.toInt
  | none => value.fullText

end Value
end Feature
end GlyphLayout
