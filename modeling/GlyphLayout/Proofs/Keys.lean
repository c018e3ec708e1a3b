import GlyphLayout.Proofs.GeneratedNames
import Mathlib.Data.List.Forall2

/-!
# Keys under generated names

Lookups are kept under their names in lowercase.  Names that are generated from different
names are different, so the only key that can come up twice is one that has been generated
from one name and is another one.
-/

namespace GlyphLayout
namespace Compilation

/-- The keys of the lookups that have been compiled for a name under generated names. -/
def generatedKeys (name : String) (compiled : List CompiledLookup) : List String :=
  (compiled.filter fun lookup => lookup.sourceName ≠ name).map CompiledLookup.key

/-- No name that has been generated for one of the names is, in any case, another of them. -/
def NoNameTaken (names : List String) (compiled : List (List CompiledLookup)) : Prop :=
  ∀ key ∈ (List.zipWith generatedKeys names compiled).flatten, ∀ name ∈ names,
    key ≠ Text.lowercase name

theorem map_lowercase_suffixed
    {suffixes : List (List Char)}
    (areSuffixes : ∀ suffix ∈ suffixes, IsSuffix suffix)
    (name : String) :
    (suffixes.map (suffixed name)).map Text.lowercase =
      suffixes.map (suffixed (Text.lowercase name)) := by
  rw [List.map_map]
  exact List.map_congr_left fun suffix member =>
    lowercase_suffixed (areSuffixes suffix member) name

/-- The keys of lookups with one name are that name's and those of names generated from it. -/
theorem keys_of_namedAfter
    {name : String}
    {drafts : List CompiledLookup}
    (named : NamedAfter name (drafts.map CompiledLookup.sourceName)) :
    ∃ suffixes : List (List Char), suffixes.Nodup ∧ (∀ suffix ∈ suffixes, IsSuffix suffix)
      ∧ (drafts.map CompiledLookup.key).Perm
          (Text.lowercase name :: generatedKeys name drafts)
      ∧ (generatedKeys name drafts).Perm
          (suffixes.map (suffixed (Text.lowercase name))) := by
  obtain ⟨suffixes, nodup, areSuffixes, perm⟩ := named
  have different : ∀ other ∈ suffixes.map (suffixed name), decide (other ≠ name) = true := by
    intro other member
    obtain ⟨suffix, inside, rfl⟩ := List.mem_map.mp member
    exact decide_eq_true (suffixed_ne_self (areSuffixes suffix inside) name)
  have keys (some : List CompiledLookup) : some.map CompiledLookup.key =
      (some.map CompiledLookup.sourceName).map Text.lowercase := by
    rw [List.map_map]
    rfl
  have generated : (generatedKeys name drafts).Perm
      (suffixes.map (suffixed (Text.lowercase name))) := by
    have filtered := perm.filter fun other => decide (other ≠ name)
    rw [List.filter_cons_of_neg (by simp), List.filter_eq_self.mpr different,
      List.filter_map] at filtered
    have lowered := filtered.map Text.lowercase
    rw [map_lowercase_suffixed areSuffixes] at lowered
    rw [generatedKeys, keys]
    exact lowered
  refine ⟨suffixes, nodup, areSuffixes, ?_, generated⟩
  have lowered := perm.map Text.lowercase
  rw [List.map_cons, map_lowercase_suffixed areSuffixes] at lowered
  rw [keys]
  exact lowered.trans (generated.symm.cons _)

theorem nodup_keys_of_namedAfter
    {name : String}
    {drafts : List CompiledLookup}
    (named : NamedAfter name (drafts.map CompiledLookup.sourceName)) :
    (drafts.map CompiledLookup.key).Nodup := by
  obtain ⟨suffixes, nodup, areSuffixes, perm, generated⟩ := keys_of_namedAfter named
  rw [perm.nodup_iff, (generated.cons _).nodup_iff, List.nodup_cons]
  constructor
  · intro member
    obtain ⟨suffix, inside, same⟩ := List.mem_map.mp member
    exact suffixed_ne_self (areSuffixes suffix inside) _ same
  · apply nodup.map_on
    intro first inFirst second inSecond same
    exact (suffixed_inj (areSuffixes first inFirst) (areSuffixes second inSecond) same).2

/-- Names generated from different names are different. -/
theorem disjoint_generatedKeys
    {name other : String}
    {drafts more : List CompiledLookup}
    (named : NamedAfter name (drafts.map CompiledLookup.sourceName))
    (otherNamed : NamedAfter other (more.map CompiledLookup.sourceName))
    (different : Text.lowercase name ≠ Text.lowercase other) :
    (generatedKeys name drafts).Disjoint (generatedKeys other more) := by
  obtain ⟨_, _, areSuffixes, _, generated⟩ := keys_of_namedAfter named
  obtain ⟨_, _, areOthers, _, otherGenerated⟩ := keys_of_namedAfter otherNamed
  intro key inFirst inSecond
  obtain ⟨first, isFirst, rfl⟩ := List.mem_map.mp (generated.subset inFirst)
  obtain ⟨second, isSecond, same⟩ := List.mem_map.mp (otherGenerated.subset inSecond)
  exact different
    (suffixed_inj (areOthers second isSecond) (areSuffixes first isFirst) same).1.symm

/-- Each list of lookups is named after one of the names. -/
abbrev AllNamedAfter : List String → List (List CompiledLookup) → Prop :=
  List.Forall₂ fun name drafts =>
    NamedAfter name (drafts.map CompiledLookup.sourceName)

theorem exists_of_mem_generatedKeys
    {names : List String}
    {compiled : List (List CompiledLookup)}
    {key : String}
    (member : key ∈ (List.zipWith generatedKeys names compiled).flatten) :
    ∃ name drafts, (name, drafts) ∈ names.zip compiled ∧ key ∈ generatedKeys name drafts := by
  obtain ⟨keys, present, inside⟩ := List.mem_flatten.mp member
  rw [← List.map_uncurry_zip_eq_zipWith] at present
  obtain ⟨⟨name, drafts⟩, paired, rfl⟩ := List.mem_map.mp present
  exact ⟨name, drafts, paired, inside⟩

/-- Generated names never stand in each other's way. -/
theorem nodup_generatedKeys
    {names : List String}
    {compiled : List (List CompiledLookup)}
    (named : AllNamedAfter names compiled)
    (differ : (names.map Text.lowercase).Nodup) :
    (List.zipWith generatedKeys names compiled).flatten.Nodup := by
  induction named with
  | nil => exact List.nodup_nil
  | @cons name drafts names compiled head tail ih =>
      rw [List.map_cons, List.nodup_cons] at differ
      rw [List.zipWith_cons_cons, List.flatten_cons, List.nodup_append']
      refine ⟨?_, ih differ.2, fun key here later => ?_⟩
      · have all := nodup_keys_of_namedAfter head
        obtain ⟨_, _, _, perm, _⟩ := keys_of_namedAfter head
        exact (List.nodup_cons.mp (perm.nodup_iff.mp all)).2
      · obtain ⟨other, more, paired, inMore⟩ := exists_of_mem_generatedKeys later
        have different : Text.lowercase name ≠ Text.lowercase other := fun same =>
          differ.1 (List.mem_map.mpr ⟨other, (List.of_mem_zip paired).1, same.symm⟩)
        have otherNamed := (List.forall₂_iff_zip.mp tail).2 paired
        exact disjoint_generatedKeys head otherNamed different here inMore

/-- The keys of all lookups are those of the names and those of generated ones. -/
theorem keys_perm
    {names : List String}
    {compiled : List (List CompiledLookup)}
    (named : AllNamedAfter names compiled) :
    (compiled.flatten.map CompiledLookup.key).Perm
      (names.map Text.lowercase
        ++ (List.zipWith generatedKeys names compiled).flatten) := by
  induction named with
  | nil => exact .refl _
  | @cons name drafts names compiled head _ ih =>
      obtain ⟨_, _, _, perm, _⟩ := keys_of_namedAfter head
      rw [List.flatten_cons, List.map_append, List.map_cons, List.zipWith_cons_cons,
        List.flatten_cons, List.cons_append]
      calc
        drafts.map CompiledLookup.key ++ compiled.flatten.map CompiledLookup.key
        _ |>.Perm ((Text.lowercase name :: generatedKeys name drafts)
              ++ (names.map Text.lowercase
                ++ (List.zipWith generatedKeys names compiled).flatten)) := perm.append ih
        _ |>.Perm (Text.lowercase name ::
              (names.map Text.lowercase
                ++ (generatedKeys name drafts
                  ++ (List.zipWith generatedKeys names compiled).flatten))) :=
            (List.perm_append_comm_assoc ..).cons _

/-- Keys differ exactly if no generated name is one of the names. -/
theorem nodup_keys_iff
    {names : List String}
    {compiled : List (List CompiledLookup)}
    (named : AllNamedAfter names compiled)
    (differ : (names.map Text.lowercase).Nodup) :
    (compiled.flatten.map CompiledLookup.key).Nodup ↔ NoNameTaken names compiled := by
  rw [(keys_perm named).nodup_iff, List.nodup_append']
  constructor
  · rintro ⟨_, _, disjoint⟩ key generated name member rfl
    exact disjoint (List.mem_map_of_mem member) generated
  · intro free
    refine ⟨differ, nodup_generatedKeys named differ, fun key own generated => ?_⟩
    obtain ⟨name, member, rfl⟩ := List.mem_map.mp own
    exact free _ generated name member rfl

end Compilation
end GlyphLayout
