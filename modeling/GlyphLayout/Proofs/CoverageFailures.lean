import GlyphLayout.Proofs.GlyphTable
import GlyphLayout.Proofs.Leaves
import GlyphLayout.Proofs.References

/-!
# Failures of coverages

A coverage is resolved into references and expanded into glyphs by two recursions, which read
ranges in different ways: one goes by the glyph order alone, the other prefers the names of the
project.  With the definitions of a project both fail together.  The glyphs that it defines lie
in the glyph order, and so do the ids between two of them.
-/

namespace GlyphLayout

/-- The error is not about an id outside the glyph order. -/
def ConversionError.KeepsToOrder (error : ConversionError) : Prop :=
  ∀ glyph id glyphs location, error ≠ glyphIdOutOfRange glyph id glyphs location

namespace Definitions

open Source (Coverage CoverageItem Location Statement)

variable {definitions : Definitions} {location : Location}

/-! ## Two readings of a coverage -/

mutual

theorem related_error?_item
    (related : Option ConversionError → Option ConversionError → Prop)
    (refl : ∀ failure, related failure failure)
    (joined : ∀ {first second third fourth}, related first second → related third fourth →
      related (first.or third) (second.or fourth))
    (ranges : ∀ start stop,
      related (error? (definitions.resolveItem location (.range start stop)))
        (error? (definitions.expandItem location (.range start stop))))
    (item : CoverageItem) :
    related (error? (definitions.resolveItem location item))
      (error? (definitions.expandItem location item)) := by
  match item with
  | .glyph name =>
      simp only [resolveItem, expandItem, error?_pure]
      exact refl none
  | .group name =>
      simp only [resolveItem, expandItem, error?_bind_pure]
      exact refl _
  | .enumeration items =>
      simp only [resolveItem, expandItem, error?_bind_pure]
      exact related_error?_items related refl joined ranges items
  | .range start stop => exact ranges start stop

/-- The failures of the two readings are related as those of ranges are, if the relation has equal
failures and keeps to one step after the other. -/
theorem related_error?_items
    (related : Option ConversionError → Option ConversionError → Prop)
    (refl : ∀ failure, related failure failure)
    (joined : ∀ {first second third fourth}, related first second → related third fourth →
      related (first.or third) (second.or fourth))
    (ranges : ∀ start stop,
      related (error? (definitions.resolveItem location (.range start stop)))
        (error? (definitions.expandItem location (.range start stop))))
    (items : List CoverageItem) :
    related (error? (definitions.resolve location items))
      (error? (definitions.expand location items)) := by
  match items with
  | [] =>
      simp only [resolve, expand, error?_pure]
      exact refl none
  | item :: rest =>
      simp only [resolve, expand, error?_bind_bind_pure]
      exact joined (related_error?_item related refl joined ranges item)
        (related_error?_items related refl joined ranges rest)

end

/-! ## Coverages that can be resolved -/

/-- The glyph of a range can be named if the glyph order has it. -/
theorem exists_glyphInRange
    {first : String}
    {id : UInt16}
    (named : ∃ name, definitions.nameInRange first location id = .ok name) :
    ∃ glyph, definitions.glyphInRange first location id = .ok glyph := by
  unfold glyphInRange
  split
  · exact ⟨_, rfl⟩
  · exact named

/-- Whatever can be resolved can be expanded. -/
theorem exists_expand_of_resolve
    {coverage : Coverage}
    (resolved : ∃ glyphs, definitions.resolve location coverage = .ok glyphs) :
    ∃ glyphs, definitions.expand location coverage = .ok glyphs := by
  rw [← error?_eq_none_iff] at resolved ⊢
  refine related_error?_items (fun first second => first = none → second = none) (fun _ => id)
    (fun head tail none => ?_) (fun start stop none => ?_) coverage resolved
  · rw [Option.or_eq_none_iff] at none ⊢
    exact ⟨head none.1, tail none.2⟩
  · obtain ⟨_, resolved⟩ := error?_eq_none_iff.mp none
    obtain ⟨ids, ranged, rest⟩ := except_bind_eq_ok_iff.mp resolved
    obtain ⟨names, named, _⟩ := except_bind_eq_ok_iff.mp rest
    have each := exists_except_mapM_iff.mp ⟨names, named⟩
    obtain ⟨glyphs, expanded⟩ := exists_except_mapM_of_forall fun id member =>
      exists_glyphInRange (each id member)
    exact error?_eq_none_iff.mpr ⟨glyphs, except_bind_eq_ok_iff.mpr ⟨ids, ranged, expanded⟩⟩

/-! ## Ids in the glyph order -/

/-- If there is a glyph order, it has the ids of the glyphs that are defined. -/
def InOrder (definitions : Definitions) : Prop :=
  ∀ order name entry, definitions.glyphOrder = some order →
    definitions.glyphs.get? name = some entry → entry.id.toNat < order.size

theorem inOrder_of_collect
    {statements : List Statement}
    {glyphOrder : Option GlyphOrder}
    {log : List Notice}
    (collected : collect statements glyphOrder = ⟨log, .ok definitions⟩) :
    definitions.InOrder := by
  intro order name entry given found
  obtain rfl : glyphOrder = some order := (glyphOrder_of_collect collected).symm.trans given
  have named := (glyphsNamed_of_collect collected).named name entry found
  exact (Array.getElem?_eq_some_iff.mp named).1

theorem toNat_le_of_mem_idsBetween
    {first last id : UInt16}
    (member : id ∈ idsBetween first last) :
    id.toNat ≤ last.toNat := by
  obtain ⟨number, inside, rfl⟩ := List.mem_map.mp member
  rw [List.mem_range'_1] at inside
  have small : number < UInt16.size := by
    have bound := last.toNat_lt
    simp only [UInt16.size]
    omega
  rw [UInt16.toNat_ofNat_of_lt' small]
  omega

/-- The glyph order has a name for every id of a range. -/
theorem InOrder.exists_nameInRange
    {first last : String}
    {ids : List UInt16}
    {id : UInt16}
    (inOrder : definitions.InOrder)
    (ranged : definitions.rangeIds first last location = .ok ids)
    (member : id ∈ ids) :
    ∃ name, definitions.nameInRange first location id = .ok name := by
  obtain ⟨order, start, stop, given, _, found, rfl⟩ := exists_of_rangeIds ranged
  have inside : id.toNat < order.size :=
    Nat.lt_of_le_of_lt (toNat_le_of_mem_idsBetween member) (inOrder order last stop given found)
  obtain ⟨name, named⟩ : ∃ name, order.get? id = some name :=
    ⟨_, Array.getElem?_eq_getElem inside⟩
  refine ⟨name, except_bind_eq_ok_iff.mpr ⟨order, orderForRange_eq_ok_iff.mpr given, ?_⟩⟩
  rw [named]
  rfl

/-- A range fails only if its ids are not known. -/
theorem InOrder.error?_resolveItem_range
    (inOrder : definitions.InOrder)
    (first last : String) :
    error? (definitions.resolveItem location (.range first last)) =
      error? (definitions.rangeIds first last location) := by
  rw [resolveItem]
  cases ranged : definitions.rangeIds first last location with
  | error error => rfl
  | ok ids =>
      obtain ⟨names, named⟩ := exists_except_mapM_of_forall fun id member =>
        inOrder.exists_nameInRange ranged member
      exact error?_eq_none_iff.mpr
        ⟨_, except_bind_eq_ok_iff.mpr ⟨ids, rfl, except_bind_eq_ok_iff.mpr ⟨names, named, rfl⟩⟩⟩

theorem InOrder.error?_expandItem_range
    (inOrder : definitions.InOrder)
    (first last : String) :
    error? (definitions.expandItem location (.range first last)) =
      error? (definitions.rangeIds first last location) := by
  rw [expandItem]
  cases ranged : definitions.rangeIds first last location with
  | error error => rfl
  | ok ids =>
      obtain ⟨glyphs, expanded⟩ := exists_except_mapM_of_forall fun id member =>
        exists_glyphInRange (inOrder.exists_nameInRange ranged member)
      exact error?_eq_none_iff.mpr ⟨glyphs, except_bind_eq_ok_iff.mpr ⟨ids, rfl, expanded⟩⟩

/-! ## Errors of coverages -/

theorem keepsToOrder_group {name : String} :
    FailsOnly ConversionError.KeepsToOrder (definitions.group name location) := by
  unfold group
  split <;> simp [ConversionError.KeepsToOrder]

theorem keepsToOrder_rangeIds {first last : String} :
    FailsOnly ConversionError.KeepsToOrder (definitions.rangeIds first last location) := by
  have order : FailsOnly ConversionError.KeepsToOrder
      (definitions.orderForRange first location) := by
    unfold orderForRange
    split <;> simp [ConversionError.KeepsToOrder]
  have ends (glyph : String) : FailsOnly ConversionError.KeepsToOrder
      (definitions.rangeEnd glyph location) := by
    unfold rangeEnd
    split <;> simp [ConversionError.KeepsToOrder]
  simp [rangeIds, order, ends]

theorem InOrder.keepsToOrder_resolve
    (inOrder : definitions.InOrder)
    (coverage : Coverage) :
    FailsOnly ConversionError.KeepsToOrder (definitions.resolve location coverage) := by
  refine failsOnly_resolve (fun _ => keepsToOrder_group) (fun first last => ?_) coverage
  rw [failsOnly_iff_error?, inOrder.error?_resolveItem_range, ← failsOnly_iff_error?]
  exact keepsToOrder_rangeIds

/-- With the definitions of a project a coverage can be resolved exactly if it can be expanded, or
both end in the same error.  It is never about an id outside the glyph order, since the glyph order
has every id of a range. -/
theorem error?_resolve_eq_error?_expand
    {statements : List Statement}
    {glyphOrder : Option GlyphOrder}
    {log : List Notice}
    (collected : collect statements glyphOrder = ⟨log, .ok definitions⟩)
    (location : Location)
    (coverage : Coverage) :
    error? (definitions.resolve location coverage) = error? (definitions.expand location coverage)
      ∧ (∀ glyph id glyphs place,
          error? (definitions.resolve location coverage) ≠
            some (.glyphIdOutOfRange glyph id glyphs place))
      ∧ ∀ first last ids, definitions.rangeIds first last location = .ok ids →
          ∀ id ∈ ids, ∃ name, definitions.nameInRange first location id = .ok name := by
  have inOrder := inOrder_of_collect collected
  refine ⟨?_, ?_, fun first last ids ranged id => inOrder.exists_nameInRange ranged⟩
  · refine related_error?_items Eq (fun _ => rfl) (fun head tail => ?_) (fun first last => ?_)
      coverage
    · rw [head, tail]
    · rw [inOrder.error?_resolveItem_range, inOrder.error?_expandItem_range]
  · intro glyph id glyphs place failed
    exact failsOnly_iff_error?.mp (inOrder.keepsToOrder_resolve coverage) _ failed glyph id glyphs
      place rfl

/-- The first glyph and the third of a font; the second has no definition. -/
def glyphsApart : List Statement :=
  [.glyph ⟨"a", 0, [], none, none, ⟨1, 1⟩⟩,
    .glyph ⟨"c", 2, [], none, none, ⟨2, 1⟩⟩]

theorem error?_resolve_eq_error?_expand_glyphsApart :
    ∃ log definitions,
      collect glyphsApart (some ⟨#["a", "b", "c"]⟩) = ⟨log, .ok definitions⟩
        ∧ error? (definitions.resolve ⟨3, 1⟩ [.enumeration [.range "a" "c", .group "none"]]) =
            error? (definitions.expand ⟨3, 1⟩ [.enumeration [.range "a" "c", .group "none"]])
        ∧ definitions.rangeIds "a" "c" ⟨3, 1⟩ = .ok [0, 1, 2]
        ∧ ∃ name, definitions.nameInRange "a" ⟨3, 1⟩ 1 = .ok name := by
  have ids : (collect glyphsApart (some ⟨#["a", "b", "c"]⟩)).result.toOption.map
      (fun definitions => (definitions.rangeIds "a" "c" ⟨3, 1⟩).toOption) =
        some (some [0, 1, 2]) := by
    decide +kernel
  obtain ⟨log, definitions, collected⟩ : ∃ log definitions,
      collect glyphsApart (some ⟨#["a", "b", "c"]⟩) = ⟨log, .ok definitions⟩ :=
    Outcome.exists_of_isOk (by decide +kernel)
  simp only [collected, Except.toOption, Option.map_some, Option.some.injEq] at ids
  have ranged := except_eq_ok_of_toOption ids
  obtain ⟨same, _, named⟩ := error?_resolve_eq_error?_expand collected ⟨3, 1⟩
    [.enumeration [.range "a" "c", .group "none"]]
  exact ⟨log, definitions, collected, same, ranged, named "a" "c" _ ranged 1 (by decide)⟩

end Definitions
end GlyphLayout
