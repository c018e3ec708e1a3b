import GlyphLayout.Proofs.Naming

/-!
# Features by names

Features refer to lookups by labels.  As long as labels tell names apart, the references come
out the same whatever the labels are, so two tables that label the same names give features
that differ in the labels only.
-/

namespace GlyphLayout

open Feature (FeatureBlock LanguageSystem)

namespace Feature

/-- The labels that a feature refers to. -/
def FeatureBlock.references (feature : FeatureBlock) : List String :=
  feature.systems.flatMap LanguageSystem.lookups

theorem FeatureBlock.references_relabel (rename : String → String) (feature : FeatureBlock) :
    (feature.relabel rename).references = feature.references.map rename := by
  rw [references, references, relabel, List.flatMap_map, List.map_flatMap]
  rfl

end Feature

namespace MergedLookups

variable {merged other : MergedLookups} {first second : String → String} {names : List String}

/-- Two tables of labels that stand for the same names, as far as the first one goes. -/
structure Agree (first second : String → String) (names : List String)
    (merged other : MergedLookups) : Prop where
  /-- The labels of the first table tell the names apart. -/
  firstApart : ∀ name ∈ names, ∀ another ∈ names, first name = first another → name = another
  /-- So do the labels of the second. -/
  secondApart : ∀ name ∈ names, ∀ another ∈ names, second name = second another → name = another
  /-- The labels under a key stand for one name, or there is none. -/
  found : ∀ key label, merged.labels.get? key = some label →
    ∃ name : Option String, (∀ some ∈ name, some ∈ names) ∧ label = name.map first
      ∧ other.labels.get? key = some (name.map second)

theorem contains_map
    {rename : String → String}
    (apart : ∀ name ∈ names, ∀ another ∈ names, rename name = rename another → name = another)
    {chosen : List String}
    {name : String}
    (inside : ∀ some ∈ chosen, some ∈ names)
    (known : name ∈ names) :
    (chosen.map rename).contains (rename name) = chosen.contains name := by
  rw [Bool.eq_iff_iff, List.contains_iff_mem, List.contains_iff_mem, List.mem_map]
  constructor
  · rintro ⟨another, member, same⟩
    exact apart another (inside another member) name known same ▸ member
  · exact fun member => ⟨name, member, rfl⟩

theorem map_ite_concat
    {rename : String → String}
    {chosen : List String}
    {name : String} :
    (if chosen.contains name then chosen.map rename else chosen.map rename ++ [rename name]) =
      (if chosen.contains name then chosen else chosen ++ [name]).map rename := by
  split <;> simp

/-- One more reference. -/
theorem Agree.addReference
    (agree : Agree first second names merged other)
    {feature : Tag}
    {references : FeatureLookups}
    {chosen : List String}
    (inside : ∀ name ∈ chosen, name ∈ names)
    {reference : String}
    {log : List Notice}
    {labels : List String}
    (added : merged.addReference feature references (chosen.map first) reference =
      ⟨log, .ok labels⟩) :
    ∃ (later : List Notice) (more : List String),
      other.addReference feature references (chosen.map second) reference =
          ⟨later, .ok (more.map second)⟩
        ∧ labels = more.map first ∧ ∀ name ∈ more, name ∈ names := by
  unfold MergedLookups.addReference at added ⊢
  cases found : merged.labels.get? (Text.lowercase reference) with
  | none =>
      rw [found] at added
      exact (Outcome.fail_ne_ok added).elim
  | some label =>
      obtain ⟨name, known, rfl, again⟩ := agree.found _ _ found
      rw [found] at added
      rw [again]
      cases name with
      | none =>
          cases added
          exact ⟨_, chosen, rfl, rfl, inside⟩
      | some name =>
          have knownName : name ∈ names := known name rfl
          simp only [Option.map_some] at added ⊢
          rw [contains_map agree.firstApart inside knownName, map_ite_concat] at added
          rw [contains_map agree.secondApart inside knownName, map_ite_concat]
          cases added
          refine ⟨_, _, rfl, rfl, fun another member => ?_⟩
          split at member
          · exact inside another member
          · rcases List.mem_append.mp member with before | own
            · exact inside another before
            · exact List.mem_singleton.mp own ▸ knownName

/-- All references of a feature in one language system. -/
theorem Agree.references
    (agree : Agree first second names merged other)
    {feature : Tag}
    {references : FeatureLookups}
    {log : List Notice}
    {labels : List String}
    (resolved : merged.references feature references = ⟨log, .ok labels⟩) :
    ∃ (later : List Notice) (chosen : List String),
      other.references feature references = ⟨later, .ok (chosen.map second)⟩
        ∧ labels = chosen.map first ∧ ∀ name ∈ chosen, name ∈ names := by
  unfold MergedLookups.references at resolved ⊢
  suffices general : ∀ (lookups chosen : List String) (log : List Notice),
      (∀ name ∈ chosen, name ∈ names) →
      lookups.foldlM (merged.addReference feature references) (chosen.map first) =
        ⟨log, .ok labels⟩ →
      ∃ (later : List Notice) (more : List String),
        lookups.foldlM (other.addReference feature references) (chosen.map second) =
            ⟨later, .ok (more.map second)⟩
          ∧ labels = more.map first ∧ ∀ name ∈ more, name ∈ names from
    general references.lookups [] log (by simp) resolved
  intro lookups
  induction lookups with
  | nil =>
      intro chosen log inside result
      cases result
      exact ⟨[], chosen, rfl, rfl, inside⟩
  | cons lookup lookups ih =>
      intro chosen log inside result
      rw [List.foldlM_cons] at result
      obtain ⟨_, _, _, step, rest, _⟩ := Outcome.bind_eq_ok_iff.mp result
      obtain ⟨before, more, stepAgain, rfl, insideMore⟩ := agree.addReference inside step
      obtain ⟨after, all, restAgain, same, insideAll⟩ := ih more _ insideMore rest
      refine ⟨before ++ after, all, ?_, same, insideAll⟩
      rw [List.foldlM_cons]
      exact Outcome.bind_eq_ok_iff.mpr ⟨before, _, after, stepAgain, restAgain, rfl⟩

theorem Agree.scriptSystems
    (agree : Agree first second names merged other)
    {feature : Tag}
    {script : Tag × OrderedMap Tag FeatureLookups}
    {log : List Notice}
    {systems : List LanguageSystem}
    (resolved : merged.scriptSystems feature script = ⟨log, .ok systems⟩) :
    ∃ (later : List Notice) (common : List LanguageSystem),
      other.scriptSystems feature script =
          ⟨later, .ok (common.map (LanguageSystem.relabel second))⟩
        ∧ systems = common.map (LanguageSystem.relabel first)
        ∧ ∀ system ∈ common, ∀ name ∈ system.lookups, name ∈ names := by
  apply Outcome.mapM_parallel _ _ _ resolved
  intro entry part value result
  obtain ⟨_, _, _, labels, same, _⟩ := Outcome.bind_eq_ok_iff.mp result
  cases same
  obtain ⟨later, chosen, again, rfl, inside⟩ := agree.references labels
  refine ⟨later, ⟨script.1, entry.1, chosen⟩, ?_, rfl, inside⟩
  exact Outcome.bind_eq_ok_iff.mpr ⟨later, _, [], again, rfl, (List.append_nil later).symm⟩

theorem Agree.featureBlock
    (agree : Agree first second names merged other)
    {feature : Tag × OrderedMap Tag (OrderedMap Tag FeatureLookups)}
    {log : List Notice}
    {block : FeatureBlock}
    (resolved : merged.featureBlock feature = ⟨log, .ok block⟩) :
    ∃ (later : List Notice) (common : FeatureBlock),
      other.featureBlock feature = ⟨later, .ok (FeatureBlock.relabel second common)⟩
        ∧ block = FeatureBlock.relabel first common
        ∧ ∀ name ∈ common.references, name ∈ names := by
  obtain ⟨_, systems, _, each, same, _⟩ := Outcome.bind_eq_ok_iff.mp resolved
  cases same
  obtain ⟨later, common, again, rfl, inside⟩ := Outcome.mapM_parallel
    (List.map (LanguageSystem.relabel first)) (List.map (LanguageSystem.relabel second))
    (fun systems : List LanguageSystem =>
      ∀ system ∈ systems, ∀ name ∈ system.lookups, name ∈ names)
    each fun script part value result => agree.scriptSystems result
  refine ⟨later, ⟨feature.1, common.flatten⟩, ?_, ?_, ?_⟩
  · refine Outcome.bind_eq_ok_iff.mpr ⟨later, _, [], again, ?_, (List.append_nil later).symm⟩
    simp only [FeatureBlock.relabel, List.map_flatten]
    rfl
  · simp only [FeatureBlock.relabel, List.map_flatten]
  · intro name member
    obtain ⟨system, present, within⟩ := List.mem_flatMap.mp member
    obtain ⟨systems, held, has⟩ := List.mem_flatten.mp present
    exact inside systems held system has name within

/-- The features of two tables that stand for the same names differ in the labels only. -/
theorem Agree.featureBlocks
    (agree : Agree first second names merged other)
    {features : LanguageSystems}
    {log : List Notice}
    {blocks : List FeatureBlock}
    (resolved : merged.featureBlocks features = ⟨log, .ok blocks⟩) :
    ∃ (later : List Notice) (common : List FeatureBlock),
      other.featureBlocks features = ⟨later, .ok (common.map (FeatureBlock.relabel second))⟩
        ∧ blocks = common.map (FeatureBlock.relabel first)
        ∧ ∀ feature ∈ common, ∀ name ∈ feature.references, name ∈ names :=
  Outcome.mapM_parallel _ _ _ resolved fun _ _ _ result => agree.featureBlock result

/-! ## Features that can be written -/

/-- References are found in every table that has an entry for each key of the first one. -/
theorem references_of_keys
    (keys : ∀ key, (merged.labels.get? key).isSome → (other.labels.get? key).isSome)
    {feature : Tag}
    {references : FeatureLookups}
    {log : List Notice}
    {labels : List String}
    (resolved : merged.references feature references = ⟨log, .ok labels⟩) :
    ∃ later more, other.references feature references = ⟨later, .ok more⟩ := by
  unfold MergedLookups.references at resolved ⊢
  suffices general : ∀ (lookups chosen others : List String) (log : List Notice),
      lookups.foldlM (merged.addReference feature references) chosen = ⟨log, .ok labels⟩ →
      ∃ later more,
        lookups.foldlM (other.addReference feature references) others = ⟨later, .ok more⟩ from
    general references.lookups [] [] log resolved
  intro lookups
  induction lookups with
  | nil => exact fun _ others _ _ => ⟨[], others, rfl⟩
  | cons lookup lookups ih =>
      intro chosen others log result
      rw [List.foldlM_cons] at result
      obtain ⟨_, _, _, step, rest, _⟩ := Outcome.bind_eq_ok_iff.mp result
      have found : (other.labels.get? (Text.lowercase lookup)).isSome := by
        apply keys _
        unfold MergedLookups.addReference at step
        cases present : merged.labels.get? (Text.lowercase lookup) with
        | none =>
            rw [present] at step
            exact (Outcome.fail_ne_ok step).elim
        | some label => rfl
      obtain ⟨before, next, stepAgain⟩ : ∃ before next,
          other.addReference feature references others lookup = ⟨before, .ok next⟩ := by
        obtain ⟨label, same⟩ := Option.isSome_iff_exists.mp found
        unfold MergedLookups.addReference
        rw [same]
        cases label with
        | none => exact ⟨_, _, rfl⟩
        | some label => exact ⟨_, _, rfl⟩
      obtain ⟨after, more, restAgain⟩ := ih _ next _ rest
      refine ⟨before ++ after, more, ?_⟩
      rw [List.foldlM_cons]
      exact Outcome.bind_eq_ok_iff.mpr ⟨before, next, after, stepAgain, restAgain, rfl⟩

/-- So are all features. -/
theorem featureBlocks_of_keys
    (keys : ∀ key, (merged.labels.get? key).isSome → (other.labels.get? key).isSome)
    {features : LanguageSystems}
    {log : List Notice}
    {blocks : List FeatureBlock}
    (resolved : merged.featureBlocks features = ⟨log, .ok blocks⟩) :
    ∃ later more, other.featureBlocks features = ⟨later, .ok more⟩ := by
  apply Outcome.mapM_of_mapM _ resolved
  intro feature part block written
  obtain ⟨_, systems, _, each, _, _⟩ := Outcome.bind_eq_ok_iff.mp written
  obtain ⟨later, others, eachAgain⟩ := Outcome.mapM_of_mapM (other.scriptSystems feature.1)
    each fun script _ _ traversed => Outcome.mapM_of_mapM _ traversed fun entry _ _ system => by
      obtain ⟨_, _, _, resolvedHere, _, _⟩ := Outcome.bind_eq_ok_iff.mp system
      obtain ⟨later, labels, again⟩ := references_of_keys keys resolvedHere
      exact ⟨later, _, Outcome.bind_eq_ok_iff.mpr
        ⟨later, labels, [], again, rfl, (List.append_nil later).symm⟩⟩
  exact ⟨later, _, Outcome.bind_eq_ok_iff.mpr
    ⟨later, others, [], eachAgain, rfl, (List.append_nil later).symm⟩⟩

end MergedLookups
end GlyphLayout
