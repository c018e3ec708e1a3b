import GlyphLayout.Proofs.AttachmentRules
import Mathlib.Data.List.Count
import Mathlib.Data.List.Perm.Subperm

/-!
# Rules of cursive attachments

The entries and the exits of a cursive attachment are lists in which a glyph may stand more than
once.  Each entry gets a rule and uses up one exit of its glyph; each exit that is left gets a
rule of its own.  So a glyph gets one rule exactly if neither list repeats it.
-/

namespace GlyphLayout

open Feature (Anchor Rule)
open Source (Coverage Location Statement)

namespace Definitions

/-! ## Joins -/

section Joins

variable (definitions : Definitions) (entries exits : List String)

/-- The rule joins a glyph at points that it has, each on a side on which the glyph is listed. -/
def Joins (glyph : String) (rule : Rule) : Prop :=
  ∃ entry exit, rule = .cursive (.glyph (definitions.outputName glyph)) entry exit
    ∧ (∀ point ∈ entry, glyph ∈ entries ∧ definitions.pointAt? glyph "entry" 1 = some point)
    ∧ (∀ point ∈ exit, glyph ∈ exits ∧ definitions.pointAt? glyph "exit" 1 = some point)
    ∧ (entry.isSome ∨ exit.isSome)

/-- The rule joins a glyph on every side on which the glyph is listed, and on no other. -/
def JoinsFully (glyph : String) (rule : Rule) : Prop :=
  ∃ entry exit, rule = .cursive (.glyph (definitions.outputName glyph)) entry exit
    ∧ (entry.isSome ↔ glyph ∈ entries) ∧ (exit.isSome ↔ glyph ∈ exits)

/-- Each glyph that is listed on some side has one rule, which joins it fully. -/
def HasOneJoinEach (rules : List Rule) : Prop :=
  ∃ joined : List String, joined.Nodup
    ∧ (∀ glyph, glyph ∈ joined ↔ glyph ∈ entries ∨ glyph ∈ exits)
    ∧ List.Forall₂ (definitions.JoinsFully entries exits) joined rules

end Joins

variable {definitions : Definitions} {location : Location} {entries exits : List String}
  {rules : List Rule}

theorem Joins.mono
    {otherEntries otherExits : List String}
    {glyph : String}
    {rule : Rule}
    (joins : definitions.Joins entries exits glyph rule)
    (ofEntries : entries ⊆ otherEntries)
    (ofExits : exits ⊆ otherExits) :
    definitions.Joins otherEntries otherExits glyph rule := by
  obtain ⟨entry, exit, shape, entered, left, some⟩ := joins
  exact ⟨entry, exit, shape, fun point given => (entered point given).imp_left (ofEntries ·),
    fun point given => (left point given).imp_left (ofExits ·), some⟩

/-! ## Anchors of a join -/

theorem joinAnchor_eq_ok_iff
    {glyph name : String}
    {point : Anchor} :
    definitions.joinAnchor location glyph name = .ok point ↔
      definitions.pointAt? glyph name 1 = some point := by
  have first (points : SortedMap UInt16 Anchor) : points.get? (UInt16.ofNat 1) =
      (points.entries.find? (·.1.toNat = 1)).map Prod.snd :=
    SortedMap.get?_ofNat (by decide)
  unfold joinAnchor pointAt?
  simp only [← first]
  split <;> rename_i found <;> simp [found]

/-! ## All rules -/

/-- Each entry gets a rule, and each exit that no entry has used. -/
theorem forall₂_joins
    (written : definitions.joinRules location entries exits = .ok rules) :
    List.Forall₂ (definitions.Joins entries exits) (entries ++ exits.diff entries) rules := by
  induction entries generalizing exits rules with
  | nil =>
      refine forall₂_imp_of_mem (forall₂_of_joinRules_nil written) ?_
      rintro glyph listed _ ⟨point, found, rfl⟩
      refine ⟨none, some point, rfl, nofun, ?_, .inr rfl⟩
      rintro _ ⟨⟩
      exact ⟨listed, joinAnchor_eq_ok_iff.mp found⟩
  | cons glyph entries ih =>
      obtain ⟨entry, exit, rest, tail, rfl, entered, left, leaves⟩ :=
        exists_of_joinRules_cons written
      rw [List.cons_append, List.diff_cons]
      refine .cons ?_ ((ih tail).imp fun _ _ joins =>
        joins.mono (List.subset_cons_self ..) (List.erase_subset ..))
      refine ⟨some entry, exit, rfl, ?_, ?_, .inl rfl⟩
      · rintro _ ⟨⟩
        exact ⟨List.mem_cons_self .., joinAnchor_eq_ok_iff.mp entered⟩
      · intro point given
        exact ⟨leaves.mp (Option.isSome_iff_exists.mpr ⟨point, given⟩),
          joinAnchor_eq_ok_iff.mp (left point given)⟩

/-- If no glyph gets a second rule, each is joined on every side on which it is listed. -/
theorem forall₂_joinsFully
    (written : definitions.joinRules location entries exits = .ok rules)
    (distinct : (entries ++ exits.diff entries).Nodup) :
    List.Forall₂ (definitions.JoinsFully entries exits) (entries ++ exits.diff entries)
      rules := by
  induction entries generalizing exits rules with
  | nil =>
      refine forall₂_imp_of_mem (forall₂_of_joinRules_nil written) ?_
      rintro glyph listed _ ⟨point, _, rfl⟩
      exact ⟨none, some point, rfl, by simp, iff_of_true rfl listed⟩
  | cons glyph entries ih =>
      obtain ⟨entry, exit, rest, tail, rfl, _, _, leaves⟩ := exists_of_joinRules_cons written
      rw [List.cons_append, List.diff_cons] at distinct ⊢
      obtain ⟨fresh, distinct⟩ := List.nodup_cons.mp distinct
      refine .cons ⟨some entry, exit, rfl, by simp, leaves⟩
        (forall₂_imp_of_mem (ih tail distinct) ?_)
      -- The glyph of a later rule is another one, so the lists say the same about it.
      rintro other listed _ ⟨entry, exit, shape, enters, leaves⟩
      have different : other ≠ glyph := fun same => fresh (same ▸ listed)
      refine ⟨entry, exit, shape, ?_, ?_⟩
      · rw [enters, List.mem_cons, or_iff_right different]
      · rw [leaves, List.mem_erase_of_ne different]

/-- A glyph gets as many rules as it has places on the side on which it has more. -/
theorem count_append_diff (glyph : String) :
    (entries ++ exits.diff entries).count glyph =
      max (entries.count glyph) (exits.count glyph) := by
  rw [List.count_append, List.count_diff]
  omega

theorem nodup_append_diff_iff :
    (entries ++ exits.diff entries).Nodup ↔ entries.Nodup ∧ exits.Nodup := by
  simp only [List.nodup_iff_count_le_one, count_append_diff, Nat.max_le, forall_and]

/-- Each glyph has one rule exactly if neither side lists a glyph twice. -/
theorem hasOneJoinEach_iff
    (written : definitions.joinRules location entries exits = .ok rules) :
    definitions.HasOneJoinEach entries exits rules ↔ entries.Nodup ∧ exits.Nodup := by
  have mem_iff (glyph : String) :
      glyph ∈ entries ++ exits.diff entries ↔ glyph ∈ entries ∨ glyph ∈ exits := by
    simp only [← List.count_pos_iff, count_append_diff]
    omega
  rw [← nodup_append_diff_iff]
  constructor
  · rintro ⟨joined, distinct, members, pairwise⟩
    -- As many rules as distinct glyphs leave no place for a glyph that is repeated.
    have sameLength : (entries ++ exits.diff entries).length = joined.length :=
      (forall₂_joins written).length_eq.trans pairwise.length_eq.symm
    have within : joined ⊆ entries ++ exits.diff entries := fun glyph listed =>
      (mem_iff glyph).mpr ((members glyph).mp listed)
    exact ((List.subperm_of_subset distinct within).perm_of_length_le
      (Nat.le_of_eq sameLength)).nodup distinct
  · intro distinct
    exact ⟨_, distinct, mem_iff, forall₂_joinsFully written distinct⟩

/--
The rules of a cursive attachment that is translated join a glyph as often as it stands among
the entries or among the exits, whichever is more.  There is one rule for each glyph exactly if
neither the entries nor the exits repeat a glyph.
-/
theorem cursiveRules_hasOneJoinEach_iff
    {exitCoverages entryCoverages : List Coverage}
    (translated : definitions.cursiveRules location exitCoverages entryCoverages = .ok rules) :
    ∃ entryParts exitParts joined,
      entryCoverages.mapM (definitions.expand location) = .ok entryParts
        ∧ exitCoverages.mapM (definitions.expand location) = .ok exitParts
        ∧ List.Forall₂ (definitions.Joins entryParts.flatten exitParts.flatten) joined rules
        ∧ (∀ glyph, joined.count glyph =
            max (entryParts.flatten.count glyph) (exitParts.flatten.count glyph))
        ∧ (definitions.HasOneJoinEach entryParts.flatten exitParts.flatten rules ↔
            entryParts.flatten.Nodup ∧ exitParts.flatten.Nodup) := by
  obtain ⟨entryParts, ofEntries, translated⟩ := except_bind_eq_ok_iff.mp translated
  obtain ⟨exitParts, ofExits, written⟩ := except_bind_eq_ok_iff.mp translated
  exact ⟨entryParts, exitParts, _, ofEntries, ofExits, forall₂_joins written, count_append_diff,
    hasOneJoinEach_iff written⟩

/-- A project in which two glyphs have both an entry and an exit. -/
def joinedGlyphs : List Statement :=
  [anchorOn "entry" "a" 1 10, anchorOn "exit" "a" 1 20,
    anchorOn "entry" "b" 1 30, anchorOn "exit" "b" 1 40]

theorem cursiveRules_hasOneJoinEach_iff_overlapping :
    ∃ definitions rules, (collect joinedGlyphs none).result = .ok definitions
      ∧ definitions.cursiveRules ⟨1, 1⟩ [[.glyph "b"]] [[.glyph "a"], [.glyph "b"]] = .ok rules
      ∧ rules.map Rule.text =
          ["pos cursive a <anchor 10 0> <anchor NULL>;",
            "pos cursive b <anchor 30 0> <anchor 40 0>;"]
      ∧ definitions.HasOneJoinEach ["a", "b"] ["b"] rules := by
  have texts : (collect joinedGlyphs none).result.toOption.map (fun definitions =>
      (definitions.cursiveRules ⟨1, 1⟩ [[.glyph "b"]] [[.glyph "a"], [.glyph "b"]]).toOption.map
        (List.map Rule.text)) =
      some (some ["pos cursive a <anchor 10 0> <anchor NULL>;",
        "pos cursive b <anchor 30 0> <anchor 40 0>;"]) := by
    decide +kernel
  obtain ⟨definitions, collected, texts⟩ := Option.map_eq_some_iff.mp texts
  obtain ⟨rules, translated, texts⟩ := Option.map_eq_some_iff.mp texts
  have translated := except_eq_ok_of_toOption translated
  obtain ⟨_, _, _, ofEntries, ofExits, _, _, iff⟩ := cursiveRules_hasOneJoinEach_iff translated
  cases ofEntries
  cases ofExits
  exact ⟨definitions, rules, except_eq_ok_of_toOption collected, translated, texts,
    iff.mpr (by decide)⟩

/-- A glyph that stands twice among the entries has two rules. -/
theorem exists_not_hasOneJoinEach :
    ¬ ∀ (statements : List Statement) (glyphOrder : Option GlyphOrder) (definitions : Definitions)
      (location : Location) (exits entries : List Coverage) (rules : List Rule)
      (exitParts entryParts : List (List String)),
      (collect statements glyphOrder).result = .ok definitions →
        definitions.cursiveRules location exits entries = .ok rules →
        exits.mapM (definitions.expand location) = .ok exitParts →
        entries.mapM (definitions.expand location) = .ok entryParts →
        definitions.HasOneJoinEach entryParts.flatten exitParts.flatten rules := by
  intro always
  have counted : (collect joinedGlyphs none).result.toOption.map (fun definitions =>
      (definitions.cursiveRules ⟨1, 1⟩ [[.glyph "a"]] [[.glyph "a"], [.glyph "a"]]).toOption.map
        (List.map Rule.text)) =
      some (some ["pos cursive a <anchor 10 0> <anchor 20 0>;",
        "pos cursive a <anchor 10 0> <anchor NULL>;"]) := by
    decide +kernel
  obtain ⟨definitions, collected, counted⟩ := Option.map_eq_some_iff.mp counted
  obtain ⟨rules, translated, texts⟩ := Option.map_eq_some_iff.mp counted
  obtain ⟨joined, distinct, members, pairwise⟩ := always _ none definitions ⟨1, 1⟩
    [[.glyph "a"]] [[.glyph "a"], [.glyph "a"]] rules [["a"]] [["a"], ["a"]]
    (except_eq_ok_of_toOption collected) (except_eq_ok_of_toOption translated) rfl rfl
  have few : joined.length ≤ ["a"].length :=
    (List.subperm_of_subset distinct fun glyph listed => by
      simpa using (members glyph).mp listed).length_le
  have many := congrArg List.length texts
  rw [List.length_map, ← pairwise.length_eq] at many
  simp at few many
  omega

end Definitions
end GlyphLayout
