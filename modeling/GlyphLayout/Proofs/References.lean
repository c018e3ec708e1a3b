import GlyphLayout.Lookup.Compilation
import GlyphLayout.Proofs.Failures

/-!
# References that lead nowhere

Coverages and the rules that are made from them are resolved against the definitions of a
project.  They fail with nothing but references to what is not defined.
-/

namespace GlyphLayout

variable {α : Type}

/-- Something that a coverage or a rule refers to is missing. -/
def ConversionError.isReference : ConversionError → Bool
  | undefinedGroup .. | undefinedMarkAnchor .. | undefinedAnchor .. | pairOutOfRange .. => true
  | missingGlyphOrder .. | glyphIdOutOfRange .. | unknownRangeGlyph .. => true
  | _ => false

/-- Nothing ends the step but a reference. -/
abbrev FailsByReference (result : Except ConversionError α) : Prop :=
  FailsOnly (fun error => error.isReference = true) result

/-- What fails by references alone may as well be said to fail in some other way. -/
@[simp] theorem FailsByReference.or
    {result : Except ConversionError α}
    {other : ConversionError → Prop}
    (fails : FailsByReference result) :
    FailsOnly (fun error => error.isReference = true ∨ other error) result :=
  fails.mono fun _ => .inl

namespace Definitions

open Source (Coverage CoverageItem Location LookupDefinition PairAdjustment Positioning)

variable {definitions : Definitions} {location : Location}

/-! ## Coverages -/

/-- A group may be missing. -/
@[simp] theorem failsByReference_group {name : String} :
    FailsByReference (definitions.group name location) := by
  unfold group
  split <;> simp [ConversionError.isReference]

/-- A range cannot be resolved without a glyph order. -/
@[simp] theorem failsByReference_orderForRange {first : String} :
    FailsByReference (definitions.orderForRange first location) := by
  unfold orderForRange
  split <;> simp [ConversionError.isReference]

/-- An end of a range may be a glyph without a definition. -/
@[simp] theorem failsByReference_rangeEnd {glyph : String} :
    FailsByReference (definitions.rangeEnd glyph location) := by
  unfold rangeEnd
  split <;> simp [ConversionError.isReference]

/-- A range fails because of its ends, or for want of a glyph order. -/
@[simp] theorem failsByReference_rangeIds {first last : String} :
    FailsByReference (definitions.rangeIds first last location) := by
  simp [rangeIds]

/-- The glyph order may be too short for an id in a range. -/
@[simp] theorem failsByReference_nameInRange {first : String} {id : UInt16} :
    FailsByReference (definitions.nameInRange first location id) := by
  unfold nameInRange
  simp only [failsOnly_bind_iff, failsByReference_orderForRange, true_and]
  intro order _
  split <;> simp [ConversionError.isReference]

@[simp] theorem failsByReference_glyphInRange {first : String} {id : UInt16} :
    FailsByReference (definitions.glyphInRange first location id) := by
  unfold glyphInRange
  split <;> simp

mutual

/-- Whatever is said of groups and of ranges is said of every item, since glyphs do not fail and
lists fail through their items. -/
theorem failsOnly_resolveItem
    {sort : ConversionError → Prop}
    (groups : ∀ name, FailsOnly sort (definitions.group name location))
    (ranges : ∀ first last, FailsOnly sort (definitions.resolveItem location (.range first last)))
    (item : CoverageItem) :
    FailsOnly sort (definitions.resolveItem location item) := by
  match item with
  | .glyph name => simp [resolveItem]
  | .group name => simp [resolveItem, groups name]
  | .enumeration items => simp [resolveItem, failsOnly_resolve groups ranges items]
  | .range first last => exact ranges first last

/-- A coverage is resolved with no other failures than its groups and its ranges have. -/
theorem failsOnly_resolve
    {sort : ConversionError → Prop}
    (groups : ∀ name, FailsOnly sort (definitions.group name location))
    (ranges : ∀ first last, FailsOnly sort (definitions.resolveItem location (.range first last)))
    (items : List CoverageItem) :
    FailsOnly sort (definitions.resolve location items) := by
  match items with
  | [] => simp [resolve]
  | item :: rest =>
      simp [resolve, failsOnly_resolveItem groups ranges item, failsOnly_resolve groups ranges rest]

end

/-- A coverage is resolved unless a group or a range in it cannot be. -/
@[simp] theorem failsByReference_resolve (items : List CoverageItem) :
    FailsByReference (definitions.resolve location items) :=
  failsOnly_resolve (fun _ => failsByReference_group) (fun _ _ => by simp [resolveItem]) items

@[simp] theorem failsByReference_resolveSequence {coverages : List Coverage} :
    FailsByReference (definitions.resolveSequence location coverages) := by
  simp [resolveSequence]

@[simp] theorem failsByReference_resolveCollapsed {coverage : Coverage} :
    FailsByReference (definitions.resolveCollapsed location coverage) := by
  simp [resolveCollapsed]

mutual

@[simp] theorem failsByReference_expandItem (item : CoverageItem) :
    FailsByReference (definitions.expandItem location item) := by
  match item with
  | .glyph name => simp [expandItem]
  | .group name => simp [expandItem]
  | .enumeration items => simp [expandItem, failsByReference_expand items]
  | .range first last => simp [expandItem]

/-- A coverage is expanded unless a group or a range in it cannot be. -/
@[simp] theorem failsByReference_expand (items : List CoverageItem) :
    FailsByReference (definitions.expand location items) := by
  match items with
  | [] => simp [expand]
  | item :: rest => simp [expand, failsByReference_expandItem item, failsByReference_expand rest]

end

@[simp] theorem failsByReference_glyphCount {coverage : Coverage} :
    FailsByReference (definitions.glyphCount location coverage) := by
  simp [glyphCount]

/-! ## Rules of lookups -/

@[simp] theorem failsByReference_lookupFlags {lookup : LookupDefinition} :
    FailsByReference (definitions.lookupFlags lookup) := by
  unfold lookupFlags
  split <;> simp

/-- A context fails because of the coverages on its two sides. -/
@[simp] theorem failsByReference_ruleContext
    {lookup : LookupDefinition}
    {context : Source.ContextDefinition} :
    FailsByReference (definitions.ruleContext lookup context) := by
  simp [ruleContext]

@[simp] theorem failsByReference_ruleContexts {lookup : LookupDefinition} :
    FailsByReference (definitions.ruleContexts lookup) := by
  unfold ruleContexts
  split <;> simp

/-- The indices of a pair may lie outside the lists. -/
@[simp] theorem failsByReference_pairCoverages
    {firsts seconds : List Coverage}
    {pair : PairAdjustment} :
    FailsByReference (pairCoverages location firsts seconds pair) := by
  unfold pairCoverages
  split <;> simp [ConversionError.isReference]

@[simp] theorem failsByReference_pairRules
    {firsts seconds : List Coverage}
    {pairs : List PairAdjustment} :
    FailsByReference (definitions.pairRules location firsts seconds pairs) := by
  simp [pairRules, pairRule]

@[simp] theorem failsByReference_pairSize {pair : PairRule} :
    FailsByReference (definitions.pairSize location pair) := by
  unfold pairSize
  split <;> simp

/-- A glyph of a coverage may have no anchor for the class of marks. -/
@[simp] theorem failsByReference_membersOf {marks : Coverage × String} :
    FailsByReference (definitions.membersOf location marks) := by
  simp only [membersOf, failsOnly_bind_iff, failsByReference_expand, true_and]
  intro glyphs _
  refine failsOnly_mapM fun glyph _ => ?_
  split <;> simp [ConversionError.isReference]

@[simp] theorem failsByReference_attachedMarks {marks : List (Coverage × String)} :
    FailsByReference (definitions.attachedMarks location marks) := by
  simp [attachedMarks]

/-- A base may have no anchor for a class. -/
@[simp] theorem failsByReference_anchorsForClass {glyph markClass : String} :
    FailsByReference (definitions.anchorsForClass location glyph markClass) := by
  unfold anchorsForClass
  split
  · simp [ConversionError.isReference]
  · split <;> simp [ConversionError.isReference]

@[simp] theorem failsByReference_attachmentRule {classes : List String} {glyph : String} :
    FailsByReference (definitions.attachmentRule location classes glyph) := by
  unfold attachmentRule
  refine failsOnly_bind_iff.mpr ⟨by simp, fun anchors _ => ?_⟩
  split
  · simp
  · split <;> simp

@[simp] theorem failsByReference_attachmentRules {bases : Coverage} {classes : List String} :
    FailsByReference (definitions.attachmentRules location bases classes) := by
  unfold attachmentRules
  refine failsOnly_bind_iff.mpr ⟨by simp, fun glyphs _ => ?_⟩
  split <;> simp

/-- A glyph may have no anchor of the given name. -/
@[simp] theorem failsByReference_joinAnchor {glyph name : String} :
    FailsByReference (definitions.joinAnchor location glyph name) := by
  unfold joinAnchor
  split <;> simp [ConversionError.isReference]

@[simp] theorem failsByReference_joinRules {entries exits : List String} :
    FailsByReference (definitions.joinRules location entries exits) := by
  induction entries generalizing exits with
  | nil => simp [joinRules]
  | cons glyph entries ih =>
      unfold joinRules
      refine failsOnly_bind_iff.mpr ⟨by simp, fun entry _ => ?_⟩
      dsimp only
      split <;> simp [ih]

/-- Plain rules fail because of the indices, the coverages or the anchors of a positioning. -/
@[simp] theorem failsByReference_plainRules {positioning : Positioning} :
    FailsByReference (definitions.plainRules location positioning) := by
  cases positioning <;> simp [plainRules, cursiveRules]

@[simp] theorem failsByReference_inputSequences {positioning : Positioning} :
    FailsByReference (definitions.inputSequences location positioning) := by
  cases positioning <;> simp [inputSequences]

/-- Pairs are cut unless one of them cannot be counted. -/
@[simp] theorem failsByReference_pairPieces {limit : Nat} {pairs : List PairRule} :
    FailsByReference (Compilation.pairPieces definitions location limit pairs) := by
  simp [Compilation.pairPieces]

end Definitions
end GlyphLayout
