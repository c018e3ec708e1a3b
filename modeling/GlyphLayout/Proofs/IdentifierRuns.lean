import GlyphLayout.Proofs.Identifier
import GlyphLayout.Proofs.Table

/-!
# Runs of an identifier pool

A new pool is asked for the identifiers of some names, one call after the other.  Every call
ends after a bounded number of tries with an identifier that may stand in a feature file, equal
names and only equal names share one, and a name that is an identifier already is its own unless
another name has it.
-/

namespace GlyphLayout
namespace IdentifierKind

/-! ## What may stand in a feature file -/

/-- The text can stand in a feature file as an identifier. -/
structure IsIdentifier (kind : IdentifierKind) (text : String) : Prop where
  start : ∃ c cs, text.toList = c :: cs ∧ (c.isAlpha ∨ c = '_')
  characters : ∀ c ∈ text.toList,
    c.isAlphanum ∨ c = '_' ∨ c = '.' ∨ (kind = .label ∧ c = '-')

theorem allowsStart_iff {c : Char} : allowsStart c = true ↔ c.isAlpha ∨ c = '_' := by
  simp [allowsStart]

theorem allows_iff {kind : IdentifierKind} {c : Char} :
    kind.allows c = true ↔
      c.isAlphanum ∨ c = '_' ∨ c = '.' ∨ (kind = .label ∧ c = '-') := by
  simp [allows, or_assoc]

theorem allows_underscore (kind : IdentifierKind) : kind.allows '_' = true := by
  simp [allows]

theorem isIdentifier_iff {kind : IdentifierKind} {text : String} :
    kind.IsIdentifier text ↔
      text.toList.head?.any allowsStart = true ∧ text.toList.all kind.allows = true := by
  rw [List.all_eq_true]
  constructor
  · rintro ⟨⟨c, cs, split, starts⟩, characters⟩
    refine ⟨?_, fun c member => allows_iff.mpr (characters c member)⟩
    rw [split]
    exact allowsStart_iff.mpr starts
  · rintro ⟨starts, characters⟩
    refine ⟨?_, fun c member => allows_iff.mp (characters c member)⟩
    cases split : text.toList with
    | nil =>
        rw [split] at starts
        cases starts
    | cons c cs =>
        rw [split] at starts
        exact ⟨c, cs, rfl, allowsStart_iff.mp starts⟩

instance (kind : IdentifierKind) (text : String) : Decidable (kind.IsIdentifier text) :=
  decidable_of_iff' _ isIdentifier_iff

/-- Whatever the name, its spelling is an identifier. -/
theorem isIdentifier_spell (kind : IdentifierKind) (name : List Char) :
    kind.IsIdentifier (String.ofList (kind.spell name)) := by
  have body : ∀ chars : List Char,
      (chars.map fun c => if kind.allows c then c else '_').all kind.allows = true := by
    intro chars
    rw [List.all_map, List.all_eq_true]
    intro c _
    dsimp only [Function.comp]
    split
    · assumption
    · exact kind.allows_underscore
  rw [isIdentifier_iff, String.toList_ofList]
  cases name with
  | nil => exact ⟨rfl, by simp [spell, allows_underscore]⟩
  | cons c cs =>
      have all := body (c :: cs)
      unfold spell
      dsimp only
      split
      · rename_i starts
        have kept : kind.allows c = true := by
          rcases allowsStart_iff.mp starts with letter | rfl
          · exact allows_iff.mpr (.inl (by simp [Char.isAlphanum, letter]))
          · exact kind.allows_underscore
        exact ⟨by simp [kept, starts], all⟩
      · exact ⟨rfl, by rw [List.all_cons, kind.allows_underscore, all]; rfl⟩

/-- An identifier is its own spelling. -/
theorem spell_of_isIdentifier
    {kind : IdentifierKind}
    {name : String}
    (legal : kind.IsIdentifier name) :
    String.ofList (kind.spell name.toList) = name := by
  obtain ⟨⟨c, cs, split, starts⟩, characters⟩ := legal
  have same : (name.toList.map fun c => if kind.allows c then c else '_') = name.toList := by
    refine (List.map_congr_left fun c member => ?_).trans (List.map_id _)
    exact if_pos (allows_iff.mpr (characters c member))
  have kept : kind.spell name.toList = name.toList := by
    unfold spell
    rw [same, split]
    exact if_pos (allowsStart_iff.mpr starts)
  rw [kept, String.ofList_toList]

end IdentifierKind

/-! ## Tries -/

/-- The text with some underscores behind it. -/
def padded (text : String) (count : Nat) : String :=
  text ++ String.ofList (List.replicate count '_')

theorem padded_zero (text : String) : padded text 0 = text := by
  simp [padded]

theorem padded_underscore (text : String) (count : Nat) :
    padded (text ++ "_") count = padded text (count + 1) := by
  rw [← String.toList_inj]
  simp [padded, List.replicate_succ]

theorem IdentifierKind.IsIdentifier.padded
    {kind : IdentifierKind}
    {text : String}
    (legal : kind.IsIdentifier text)
    (count : Nat) :
    kind.IsIdentifier (padded text count) := by
  obtain ⟨⟨c, cs, split, starts⟩, characters⟩ := legal
  refine ⟨⟨c, cs ++ List.replicate count '_', by simp [GlyphLayout.padded, split], starts⟩, ?_⟩
  intro c member
  rw [GlyphLayout.padded, String.toList_append, String.toList_ofList, List.mem_append] at member
  rcases member with inText | filler
  · exact characters c inText
  · exact .inr (.inl (List.eq_of_mem_replicate filler))

/--
The first free candidate is found after at most as many tries as there are texts that are taken,
and all candidates before it are taken.
-/
theorem exists_tries (taken : List String) (candidate : String) :
    ∃ tries ≤ taken.length, firstFree taken candidate = padded candidate tries
      ∧ ∀ fewer < tries, padded candidate fewer ∈ taken := by
  induction taken, candidate using firstFree.induct with
  | case1 taken candidate member ih =>
      obtain ⟨tries, bound, found, busy⟩ := ih
      have positive := List.length_pos_of_mem member
      rw [List.length_erase_of_mem member] at bound
      refine ⟨tries + 1, by omega, ?_, fun fewer less => ?_⟩
      · rw [firstFree, if_pos member, found, padded_underscore]
      · cases fewer with
        | zero => rwa [padded_zero]
        | succ fewer =>
            rw [← padded_underscore]
            exact List.mem_of_mem_erase (busy fewer (by omega))
  | case2 taken candidate free =>
      refine ⟨0, Nat.zero_le _, by rw [firstFree, if_neg free, padded_zero], ?_⟩
      exact fun fewer less => absurd less (Nat.not_lt_zero fewer)

/-! ## Calls -/

/-- A name and the identifier that it was given. -/
abbrev Call := String × String

/--
The identifier is the first that no other name has been given, among the spelling of the name
and the spelling with more and more underscores; there are no more tries than earlier calls.
-/
def IdentifierKind.Chooses (kind : IdentifierKind) (earlier : List Call) (call : Call) : Prop :=
  ∃ tries ≤ earlier.length, call.2 = padded (String.ofList (kind.spell call.1.toList)) tries
    ∧ ∀ fewer < tries, ∃ other ∈ earlier, other.1 ≠ call.1
        ∧ other.2 = padded (String.ofList (kind.spell call.1.toList)) fewer

namespace IdentifierKind

variable {kind : IdentifierKind} {earlier : List Call} {call : Call}

theorem Chooses.append
    (chooses : kind.Chooses earlier call)
    (later : List Call) :
    kind.Chooses (earlier ++ later) call := by
  obtain ⟨tries, bound, found, busy⟩ := chooses
  refine ⟨tries, by rw [List.length_append]; omega, found, fun fewer less => ?_⟩
  obtain ⟨other, member, facts⟩ := busy fewer less
  exact ⟨other, List.mem_append_left _ member, facts⟩

theorem Chooses.isIdentifier (chooses : kind.Chooses earlier call) :
    kind.IsIdentifier call.2 := by
  obtain ⟨tries, _, found, _⟩ := chooses
  rw [found]
  exact (kind.isIdentifier_spell _).padded tries

/-- An identifier stays as it is unless another name has been given it. -/
theorem Chooses.keeps
    (chooses : kind.Chooses earlier call)
    (legal : kind.IsIdentifier call.1) :
    call.2 = call.1 ∨ ∃ other ∈ earlier, other.1 ≠ call.1 ∧ other.2 = call.1 := by
  obtain ⟨tries, _, found, busy⟩ := chooses
  rw [spell_of_isIdentifier legal] at found busy
  cases tries with
  | zero => exact .inl (found.trans (padded_zero _))
  | succ tries =>
      obtain ⟨other, member, different, same⟩ := busy 0 (Nat.succ_pos tries)
      exact .inr ⟨other, member, different, same.trans (padded_zero _)⟩

end IdentifierKind

namespace IdentifierPool

variable {pool : IdentifierPool} {earlier : List Call}

/-- The pool has been asked for the identifiers of the calls, and for no others. -/
structure Records (pool : IdentifierPool) (earlier : List Call) : Prop where
  mem_entries : ∀ call, call ∈ pool.assigned.entries ↔ call ∈ earlier
  length_le : pool.assigned.entries.length ≤ earlier.length
  distinct : pool.Distinct
  chooses : ∀ call ∈ earlier, pool.kind.Chooses earlier call

theorem records_nil (kind : IdentifierKind) : (⟨kind, ∅⟩ : IdentifierPool).Records [] where
  mem_entries _ := Iff.rfl
  length_le := Nat.le_refl 0
  distinct := distinct_empty kind
  chooses := nofun

@[simp] theorem kind_identify (pool : IdentifierPool) (name : String) :
    (pool.identify name).2.kind = pool.kind := by
  unfold identify
  split <;> rfl

/-- Two calls give the same identifier exactly if they are about the same name. -/
theorem Records.same_iff
    (records : pool.Records earlier)
    {first second : Call}
    (isFirst : first ∈ earlier)
    (isSecond : second ∈ earlier) :
    first.2 = second.2 ↔ first.1 = second.1 := by
  have foundFirst := OrderedMap.get?_of_mem ((records.mem_entries first).mpr isFirst)
  have foundSecond := OrderedMap.get?_of_mem ((records.mem_entries second).mpr isSecond)
  constructor
  · intro same
    exact records.distinct _ _ _ foundFirst (same ▸ foundSecond)
  · intro same
    rw [same, foundSecond] at foundFirst
    exact (Option.some.inj foundFirst).symm

/-- The call that comes next gives the first identifier that is free. -/
theorem Records.chooses_identify (records : pool.Records earlier) (name : String) :
    pool.kind.Chooses earlier (name, (pool.identify name).1) := by
  unfold identify
  split
  · rename_i identifier known
    exact records.chooses _ ((records.mem_entries _).mp (OrderedMap.get?_eq_some_iff.mp known))
  · rename_i unknown
    obtain ⟨tries, bound, found, busy⟩ := exists_tries pool.assigned.values
      (String.ofList (pool.kind.spell name.toList))
    rw [OrderedMap.values, List.length_map] at bound
    refine ⟨tries, Nat.le_trans bound records.length_le, found, fun fewer less => ?_⟩
    obtain ⟨other, member, same⟩ := List.mem_map.mp (busy fewer less)
    refine ⟨other, (records.mem_entries other).mp member, ?_, same⟩
    rintro rfl
    rw [OrderedMap.get?_of_mem member] at unknown
    cases unknown

/-- A call adds an entry unless it is a repetition. -/
theorem entries_identify (pool : IdentifierPool) (name : String) :
    (pool.identify name).2.assigned.entries =
      if (name, (pool.identify name).1) ∈ pool.assigned.entries then pool.assigned.entries
      else pool.assigned.entries ++ [(name, (pool.identify name).1)] := by
  unfold identify
  split
  · rename_i identifier known
    rw [if_pos (OrderedMap.get?_eq_some_iff.mp known)]
  · rename_i unknown
    have fresh : name ∉ pool.assigned.keys := by
      rw [← OrderedMap.contains_iff_mem_keys, OrderedMap.contains, unknown]
      exact Bool.false_ne_true
    rw [if_neg fun member => fresh (List.mem_map_of_mem member)]
    exact OrderedMap.entries_insert_of_not_mem _ _ fresh

/-- One more call is recorded. -/
theorem Records.identify (records : pool.Records earlier) (name : String) :
    (pool.identify name).2.Records (earlier ++ [(name, (pool.identify name).1)]) := by
  constructor
  case mem_entries =>
    intro call
    rw [entries_identify, List.mem_append, List.mem_singleton]
    split
    · rename_i repeated
      rw [records.mem_entries]
      refine ⟨.inl, fun either => either.elim id fun same => ?_⟩
      exact same ▸ (records.mem_entries _).mp repeated
    · rw [List.mem_append, List.mem_singleton, records.mem_entries]
  case length_le =>
    have before := records.length_le
    rw [entries_identify, List.length_append]
    split
    · omega
    · simpa using before
  case distinct => exact records.distinct.identify name
  case chooses =>
    rw [kind_identify]
    intro call member
    rcases List.mem_append.mp member with before | new
    · exact (records.chooses call before).append _
    · rw [List.mem_singleton.mp new]
      exact (records.chooses_identify name).append _

/-- The calls with which a pool is asked for the identifiers of some names. -/
def callsOf (pool : IdentifierPool) (names : List String) : List Call :=
  names.zip (pool.identifyAll names).1

theorem callsOf_cons (pool : IdentifierPool) (name : String) (names : List String) :
    pool.callsOf (name :: names) =
      (name, (pool.identify name).1) :: (pool.identify name).2.callsOf names := rfl

/-- Each name is asked for once, in order. -/
theorem map_fst_callsOf (pool : IdentifierPool) (names : List String) :
    (pool.callsOf names).map Prod.fst = names := by
  induction names generalizing pool with
  | nil => rfl
  | cons name names ih => rw [callsOf_cons, List.map_cons, ih]

/-- A whole run is recorded. -/
theorem Records.identifyAll (records : pool.Records earlier) (names : List String) :
    (pool.identifyAll names).2.Records (earlier ++ pool.callsOf names) := by
  induction names generalizing pool earlier with
  | nil =>
      rw [callsOf, List.zip_nil_left, List.append_nil]
      exact records
  | cons name names ih =>
      have later := ih (records.identify name)
      rwa [List.append_assoc, List.singleton_append, ← callsOf_cons] at later

/-- Every call of a run gives the first identifier that is free behind the calls before it. -/
theorem Records.chooses_of_callsOf
    (records : pool.Records earlier)
    {names : List String}
    {before after : List Call}
    {call : Call}
    (split : pool.callsOf names = before ++ call :: after) :
    pool.kind.Chooses (earlier ++ before) call := by
  induction names generalizing pool earlier before with
  | nil => simp [callsOf] at split
  | cons name names ih =>
      rw [callsOf_cons] at split
      cases before with
      | nil =>
          obtain ⟨rfl, -⟩ := List.cons.inj split
          rw [List.append_nil]
          exact records.chooses_identify name
      | cons first before =>
          obtain ⟨rfl, rest⟩ := List.cons.inj split
          have chooses := ih (records.identify name) rest
          rwa [kind_identify, List.append_assoc, List.singleton_append] at chooses

/--
In a run of a new pool every call gives an identifier.  Two calls give the same exactly if they
are about the same name.  It takes no more tries to find one than there are earlier calls, and a
name that is an identifier is its own unless an earlier call gave it to another name.
-/
theorem identifiers_of_new_pool (kind : IdentifierKind) (names : List String) :
    let calls := (⟨kind, ∅⟩ : IdentifierPool).callsOf names
    calls.map Prod.fst = names
      ∧ (∀ call ∈ calls, kind.IsIdentifier call.2)
      ∧ (∀ first ∈ calls, ∀ second ∈ calls, first.2 = second.2 ↔ first.1 = second.1)
      ∧ ∀ earlier call later, calls = earlier ++ call :: later →
          kind.Chooses earlier call
            ∧ (kind.IsIdentifier call.1 → call.2 = call.1
                ∨ ∃ other ∈ earlier, other.1 ≠ call.1 ∧ other.2 = call.1) := by
  have start := records_nil kind
  have done := start.identifyAll names
  have each : ∀ earlier call later,
      (⟨kind, ∅⟩ : IdentifierPool).callsOf names = earlier ++ call :: later →
        kind.Chooses earlier call :=
    fun earlier call later split => start.chooses_of_callsOf split
  refine ⟨map_fst_callsOf _ names, fun call member => ?_, fun first isFirst second isSecond => ?_,
    fun earlier call later split => ?_⟩
  · obtain ⟨earlier, later, split⟩ := List.append_of_mem member
    exact (each earlier call later split).isIdentifier
  · exact done.same_iff isFirst isSecond
  · exact ⟨each earlier call later split, (each earlier call later split).keeps⟩

/-- The spelling of another name takes the identifier `a_b` before it is asked for. -/
theorem identifiers_of_new_pool_taken :
    (⟨.label, ∅⟩ : IdentifierPool).callsOf ["a b", "kern", "a_b"] =
        [("a b", "a_b"), ("kern", "kern")] ++ ("a_b", "a_b_") :: []
      ∧ IdentifierKind.label.IsIdentifier "a_b"
      ∧ ∃ other ∈ [("a b", "a_b"), ("kern", "kern")], other.1 ≠ "a_b" ∧ other.2 = "a_b" := by
  have split : (⟨.label, ∅⟩ : IdentifierPool).callsOf ["a b", "kern", "a_b"] =
      [("a b", "a_b"), ("kern", "kern")] ++ ("a_b", "a_b_") :: [] := by decide +kernel
  have legal : IdentifierKind.label.IsIdentifier "a_b" := by decide +kernel
  obtain ⟨-, -, -, stable⟩ := identifiers_of_new_pool .label ["a b", "kern", "a_b"]
  obtain ⟨-, keeps⟩ := stable _ _ _ split
  exact ⟨split, legal, (keeps legal).resolve_left (by decide)⟩

end IdentifierPool
end GlyphLayout
