import GlyphLayout.Assembly.Subtables

/-!
# Feature blocks

One block for each feature.  Its scripts come in ascending order, with the default script in
front of all others, and the languages of a script in the order of the project.
-/

namespace GlyphLayout

open Feature (FeatureBlock LanguageSystem)

/-- The tag of the default script. -/
def defaultScript : Tag := ⟨"DFLT", (isTagName_iff _).mp rfl⟩

/-- The order of scripts in a feature block. -/
def scriptLe (first second : Tag) : Bool :=
  first = defaultScript || (second ≠ defaultScript && !(second < first))

namespace MergedLookups

/-- Adds the label of a lookup that a feature refers to, unless it is there already. -/
def addReference (merged : MergedLookups) (feature : Tag) (references : FeatureLookups)
    (labels : List String) (name : String) : Outcome (List String) :=
  match merged.labels.get? (Text.lowercase name) with
  | none => Outcome.fail (.undefinedLookup name feature references.location)
  | some none => do
      Outcome.tell (.pieceReferenced name)
      return labels
  | some (some label) => return if labels.contains label then labels else labels ++ [label]

/-- The labels of the lookups that a feature refers to in one language system. -/
def references (merged : MergedLookups) (feature : Tag) (references : FeatureLookups) :
    Outcome (List String) :=
  references.lookups.foldlM (merged.addReference feature references) []

/-- The language systems of a feature for one script. -/
def scriptSystems (merged : MergedLookups) (feature : Tag)
    (script : Tag × OrderedMap Tag FeatureLookups) : Outcome (List LanguageSystem) :=
  script.2.entries.mapM fun (language, references) => do
    return ⟨script.1, language, ← merged.references feature references⟩

/-- The block of a feature. -/
def featureBlock (merged : MergedLookups)
    (feature : Tag × OrderedMap Tag (OrderedMap Tag FeatureLookups)) :
    Outcome FeatureBlock := do
  let scripts := feature.2.entries.mergeSort fun first second => scriptLe first.1 second.1
  let systems ← scripts.mapM (merged.scriptSystems feature.1)
  return ⟨feature.1, systems.flatten⟩

/-- The blocks of all features. -/
def featureBlocks (merged : MergedLookups) (features : LanguageSystems) :
    Outcome (List FeatureBlock) :=
  features.entries.mapM merged.featureBlock

end MergedLookups
end GlyphLayout
