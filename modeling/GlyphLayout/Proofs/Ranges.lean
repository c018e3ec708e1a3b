import GlyphLayout.Proofs.GlyphDefinitions

/-!
# Ranges

A range is given by the names of two glyphs and runs over ids.  It holds its ends, and has them
first and last, exactly if the last definition of the first glyph does not have a higher id than
that of the last glyph.  Otherwise it is empty.
-/

namespace GlyphLayout
namespace Definitions

open Feature (Glyphs)
open Source (Location Statement)

/-! ## Ids -/

section

variable {first last : UInt16}

theorem length_idsBetween :
    (idsBetween first last).length = last.toNat + 1 - first.toNat := by
  simp [idsBetween]

theorem head?_idsBetween (ascending : first ≤ last) : (idsBetween first last).head? = some first := by
  have nonempty : last.toNat + 1 - first.toNat ≠ 0 := by
    have := UInt16.le_iff_toNat_le.mp ascending
    omega
  simp [idsBetween, List.head?_range', nonempty]

theorem getLast?_idsBetween (ascending : first ≤ last) :
    (idsBetween first last).getLast? = some last := by
  have ordered := UInt16.le_iff_toNat_le.mp ascending
  have nonempty : last.toNat + 1 - first.toNat ≠ 0 := by omega
  have final : first.toNat + (last.toNat + 1 - first.toNat) - 1 = last.toNat := by omega
  simp [idsBetween, List.getLast?_range', nonempty, final]

end

/-! ## Members -/

variable {definitions : Definitions} {location : Location}

theorem outputName_of_get?
    {name : String}
    {entry : GlyphEntry}
    (found : definitions.glyphs.get? name = some entry) :
    definitions.outputName name = entry.outputName := by
  simp [outputName, found]

/-- The members of a range are the names of the ids from one end to the other. -/
theorem exists_of_resolveItem_range
    {first last : String}
    {reference : Glyphs}
    (resolved : definitions.resolveItem location (.range first last) = .ok reference) :
    ∃ order start stop, ∃ names : List String,
      definitions.glyphOrder = some order
        ∧ definitions.glyphs.get? first = some start
        ∧ definitions.glyphs.get? last = some stop
        ∧ names.map some = (idsBetween start.id stop.id).map order.get?
        ∧ reference = .inline (names.map .glyph) := by
  obtain ⟨ids, ranged, result⟩ := except_bind_eq_ok_iff.mp resolved
  obtain ⟨names, named, result⟩ := except_bind_eq_ok_iff.mp result
  cases result
  have listed := names_of_rangeIds ranged named
  obtain ⟨order, start, stop, given, startFound, stopFound, -⟩ := exists_of_rangeIds ranged
  simp only [entriesBetween, given, startFound, stopFound] at listed
  exact ⟨order, start, stop, names, given, startFound, stopFound, listed, rfl⟩

/--
A range that can be resolved is a class of as many glyphs as there are ids from that of the last
definition of its first glyph up to that of its last one.  The names of both ends are among its
members exactly if these ids ascend, and then they are the first and the last of them.
-/
theorem ends_mem_range_iff
    {statements : List Statement}
    {glyphOrder : Option GlyphOrder}
    {log : List Notice}
    {first last : String}
    {reference : Glyphs}
    (collected : collect statements glyphOrder = ⟨log, .ok definitions⟩)
    (resolved : definitions.resolveItem location (.range first last) = .ok reference) :
    ∃ start stop members,
      (glyphIds statements first).getLast? = some start
        ∧ (glyphIds statements last).getLast? = some stop
        ∧ reference = .inline members
        ∧ members.length = stop.toNat + 1 - start.toNat
        ∧ (.glyph (definitions.outputName first) ∈ members
            ∧ .glyph (definitions.outputName last) ∈ members ↔ start ≤ stop)
        ∧ (start ≤ stop →
            members.head? = some (.glyph (definitions.outputName first))
              ∧ members.getLast? = some (.glyph (definitions.outputName last))) := by
  obtain ⟨order, start, stop, names, given, startFound, stopFound, listed, rfl⟩ :=
    exists_of_resolveItem_range resolved
  obtain rfl : glyphOrder = some order := (glyphOrder_of_collect collected).symm.trans given
  have known := glyphsNamed_of_collect collected
  have startId : (glyphIds statements first).getLast? = some start.id := by
    rw [← known.id_eq, startFound, Option.map_some]
  have stopId : (glyphIds statements last).getLast? = some stop.id := by
    rw [← known.id_eq, stopFound, Option.map_some]
  have count : (names.map Glyphs.glyph).length = stop.id.toNat + 1 - start.id.toNat := by
    have same := congrArg List.length listed
    rw [List.length_map, List.length_map, length_idsBetween] at same
    rw [List.length_map, same]
  have ends (ascending : start.id ≤ stop.id) :
      (names.map Glyphs.glyph).head? = some (.glyph (definitions.outputName first))
        ∧ (names.map Glyphs.glyph).getLast? = some (.glyph (definitions.outputName last)) := by
    have atStart := congrArg List.head? listed
    have atStop := congrArg List.getLast? listed
    rw [List.head?_map, List.head?_map, head?_idsBetween ascending, Option.map_some,
      known.named first start startFound] at atStart
    rw [List.getLast?_map, List.getLast?_map, getLast?_idsBetween ascending, Option.map_some,
      known.named last stop stopFound] at atStop
    rw [outputName_of_get? startFound, outputName_of_get? stopFound]
    constructor
    · simpa using atStart
    · simpa using atStop
  refine ⟨start.id, stop.id, names.map .glyph, startId, stopId, rfl, count, ?_, ends⟩
  constructor
  · rintro ⟨inside, -⟩
    have positive := List.length_pos_of_mem inside
    rw [count] at positive
    exact UInt16.le_iff_toNat_le.mpr (by omega)
  · intro ascending
    obtain ⟨atStart, atStop⟩ := ends ascending
    exact ⟨List.mem_of_head? atStart, List.mem_of_getLast? atStop⟩

/-- Three letters of a font, the first of which has had another id before. -/
def lettersInFont : List Statement :=
  [glyphOf "b" 3 none, glyphOf "b" 1 none, glyphOf "c" 2 none, glyphOf "d" 3 none]

/-- The font of these letters. -/
def letterFont : GlyphOrder :=
  ⟨#[".notdef", "beta", "gamma", "delta"]⟩

theorem ends_mem_range_iff_lettersInFont :
    ∃ log definitions reference start stop, ∃ members : List Glyphs,
      collect lettersInFont (some letterFont) = ⟨log, .ok definitions⟩
        ∧ definitions.resolveItem ⟨1, 1⟩ (.range "b" "d") = .ok reference
        ∧ (glyphIds lettersInFont "b").getLast? = some start
        ∧ (glyphIds lettersInFont "d").getLast? = some stop
        ∧ reference = .inline members
        ∧ members.length = stop.toNat + 1 - start.toNat
        ∧ .glyph (definitions.outputName "b") ∈ members
        ∧ .glyph (definitions.outputName "d") ∈ members := by
  have resolves : (collect lettersInFont (some letterFont)).result.toOption.bind
      (fun definitions => (definitions.resolveItem ⟨1, 1⟩ (.range "b" "d")).toOption) =
        some (.inline [.glyph "beta", .glyph "gamma", .glyph "delta"]) := by
    decide +kernel
  obtain ⟨log, definitions, collected⟩ : ∃ log definitions,
      collect lettersInFont (some letterFont) = ⟨log, .ok definitions⟩ :=
    Outcome.exists_of_isOk (by decide +kernel)
  simp only [collected, Except.toOption, Option.bind_some] at resolves
  have resolved := except_eq_ok_of_toOption resolves
  obtain ⟨start, stop, members, startId, stopId, same, count, among, -⟩ :=
    ends_mem_range_iff collected resolved
  have ascending : start ≤ stop := by
    have low : (glyphIds lettersInFont "b").getLast? = some 1 := by decide
    have high : (glyphIds lettersInFont "d").getLast? = some 3 := by decide
    cases startId.symm.trans low
    cases stopId.symm.trans high
    decide
  exact ⟨log, definitions, _, start, stop, members, collected, resolved, startId, stopId, same,
    count, among.mpr ascending⟩

/-- A range from the glyph of a higher id to that of a lower one leaves out both. -/
theorem exists_not_ends_mem_range :
    ¬ ∀ (statements : List Statement) (glyphOrder : Option GlyphOrder) (log : List Notice)
      (definitions : Definitions) (location : Location) (first last : String)
      (reference : Glyphs),
      collect statements glyphOrder = ⟨log, .ok definitions⟩ →
        definitions.resolveItem location (.range first last) = .ok reference →
          ∃ members, reference = .inline members
            ∧ .glyph (definitions.outputName first) ∈ members
            ∧ .glyph (definitions.outputName last) ∈ members := by
  intro always
  have resolves : (collect lettersInFont (some letterFont)).result.toOption.bind
      (fun definitions => (definitions.resolveItem ⟨1, 1⟩ (.range "d" "b")).toOption) =
        some (.inline []) := by
    decide +kernel
  obtain ⟨log, definitions, collected⟩ : ∃ log definitions,
      collect lettersInFont (some letterFont) = ⟨log, .ok definitions⟩ :=
    Outcome.exists_of_isOk (by decide +kernel)
  simp only [collected, Except.toOption, Option.bind_some] at resolves
  obtain ⟨members, same, inside, -⟩ :=
    always _ _ _ _ _ _ _ _ collected (except_eq_ok_of_toOption resolves)
  cases same
  cases inside

end Definitions
end GlyphLayout
