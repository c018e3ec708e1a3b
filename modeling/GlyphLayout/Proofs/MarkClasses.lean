import GlyphLayout.Proofs.GlyphClasses
import GlyphLayout.Proofs.MarkUse

/-!
# Mark classes that rules name

Rules name a mark class because an attaching lookup lists it; a mark class statement is active
because a lookup attaches its glyph.  The two come apart when all that is listed under a class
are coverages without glyphs.
-/

namespace GlyphLayout

open Feature (Attachment Document Rule)
open Source (Coverage Location LookupDefinition Positioning Statement)

namespace Feature

/-- The mark classes that a rule names; the text of a ligature leaves out those without anchor. -/
def Rule.markClasses : Rule → List String
  | markToBase _ marks => marks.map Attachment.markClass
  | markToMark _ marks => marks.map Attachment.markClass
  | markToLigature _ components =>
      components.flatMap fun marks =>
        (marks.filter (·.anchor.isSome)).map Attachment.markClass
  | _ => []

@[simp] theorem Rule.markClasses_relabel {rename : String → String} {rule : Rule} :
    (rule.relabel rename).markClasses = rule.markClasses := by
  cases rule <;> rfl

namespace Document

/-- The mark classes that the rules of all lookups name. -/
def markReferences (document : Document) : List String :=
  document.lookups.flatMap fun block => block.rules.flatMap Rule.markClasses

/-- Every mark class that a rule names has an active statement. -/
def MarkClassesBacked (document : Document) : Prop :=
  ∀ className ∈ document.markReferences,
    ∃ definition ∈ document.markClasses, definition.className = className ∧ definition.used

end Document
end Feature

/-- The lookup attaches marks and lists a coverage under the class. -/
def Source.LookupDefinition.ListsMarkClass (lookup : LookupDefinition) (markClass : String) :
    Prop :=
  ∃ bases marks coverage, lookup.payload = .positioning (.attach bases marks)
    ∧ (coverage, markClass) ∈ marks

namespace Definitions

variable {definitions : Definitions} {location : Location}

theorem className_of_mem_attachmentsAt
    {glyph className : String}
    {classes : List String}
    {anchors : List (SortedMap UInt16 Feature.Anchor × String)}
    {index : Nat}
    (found : classes.mapM (definitions.anchorsForClass location glyph) = .ok anchors)
    (member : className ∈ (attachmentsAt anchors index).map Attachment.markClass) :
    ∃ markClass ∈ classes, definitions.markClassName? markClass = some className := by
  rw [attachmentsAt, List.map_map] at member
  obtain ⟨⟨points, _⟩, present, rfl⟩ := List.mem_map.mp member
  obtain ⟨markClass, listed, anchored⟩ := exists_of_mem_except_mapM found present
  refine ⟨markClass, listed, ?_⟩
  unfold anchorsForClass at anchored
  split at anchored
  · cases anchored
  · split at anchored
    · cases anchored
    · rename_i named
      cases anchored
      exact named

/-- Only an attachment has plain rules that name a mark class, and it lists the class. -/
theorem PlainForm.listsMarkClass
    {positioning : Positioning}
    {rule : Rule}
    {className : String}
    (form : PlainForm definitions location positioning rule)
    (named : className ∈ rule.markClasses) :
    ∃ bases marks coverage markClass, positioning = .attach bases marks
      ∧ (coverage, markClass) ∈ marks
      ∧ definitions.markClassName? markClass = some className := by
  cases form with
  | pair => cases named
  | single => cases named
  | join => cases named
  | @attachment bases marks _ _ anchors _ _ _ anchored shape =>
      have listed : ∃ index,
          className ∈ (attachmentsAt anchors index).map Attachment.markClass := by
        rcases shape with rfl | ⟨count, rfl⟩ | rfl
        · exact ⟨0, named⟩
        · obtain ⟨_, component, inside⟩ := List.mem_flatMap.mp named
          obtain ⟨index, _, rfl⟩ := List.mem_map.mp component
          exact ⟨index, List.map_subset _ (List.filter_subset_self _) inside⟩
        · exact ⟨0, named⟩
      obtain ⟨index, listed⟩ := listed
      obtain ⟨markClass, inside, same⟩ := className_of_mem_attachmentsAt anchored listed
      obtain ⟨⟨coverage, _⟩, present, rfl⟩ := List.mem_map.mp (List.mem_eraseDups.mp inside)
      exact ⟨bases, marks, coverage, _, rfl, present, same⟩

/-- A substitution names no mark class. -/
theorem markClasses_substitutionRule
    {kind : Source.SubstitutionKind}
    {context : Feature.Context}
    {input output : List Feature.Glyphs}
    {rule : Rule}
    (shaped : substitutionRule kind context input output = some rule) :
    rule.markClasses = [] := by
  cases substitutionForm_of_substitutionRule shaped <;> rfl

end Definitions

namespace Compilation

variable {definitions : Definitions} {options : Options} {lookup : LookupDefinition}

/-- A mark class that a rule names is listed by the lookup that the rule is written for. -/
theorem Translates.listsMarkClass
    {drafts : List CompiledLookup}
    {draft : CompiledLookup}
    {rule : Rule}
    {className : String}
    (translated : Translates definitions options lookup drafts)
    (present : draft ∈ drafts)
    (member : rule ∈ draft.rules)
    (named : className ∈ rule.markClasses) :
    ∃ markClass, lookup.ListsMarkClass markClass
      ∧ definitions.markClassName? markClass = some className := by
  cases translated.origin present member with
  | plain payload form =>
      obtain ⟨bases, marks, coverage, markClass, rfl, listed, same⟩ := form.listsMarkClass named
      exact ⟨markClass, ⟨bases, marks, coverage, payload, listed⟩, same⟩
  | input _ _ _ _ _ shape =>
      rcases shape with rfl | ⟨target, rfl⟩ <;> cases named
  | mapping _ _ _ _ _ shape =>
      rcases shape with rfl | ⟨output, _, shaped⟩
      · cases named
      · rw [Definitions.markClasses_substitutionRule shaped] at named
        cases named

end Compilation

/-! ## Conversions -/

open Compilation

/--
The mark classes that the rules of a converted project name are listed by its lookups.  They
all have active statements exactly when, for each of them, some lookup attaches a mark.
-/
theorem convert_markClassesBacked_iff
    {statements : List Statement}
    {glyphOrder : Option GlyphOrder}
    {options : Options}
    {log : List Notice}
    {document : Document}
    (converted : convert statements glyphOrder options = ⟨log, .ok document⟩) :
    ∃ definitions, (Definitions.collect statements glyphOrder).result = .ok definitions
      ∧ (∀ className ∈ document.markReferences, ∃ lookup ∈ lookupsOf statements, ∃ markClass,
          lookup.ListsMarkClass markClass
            ∧ definitions.markClassName? markClass = some className)
      ∧ (document.MarkClassesBacked ↔
          ∀ className ∈ document.markReferences, ∃ lookup ∈ lookupsOf statements, ∃ member,
            definitions.Attaches lookup member
              ∧ definitions.markClassName? member.markClass = some className) := by
  obtain ⟨_, definitions, _, state, collected, compiled, _, marks_eq, gathers⟩ :=
    sources_of_convert converted
  have named := Definitions.classesNamed_of_collect collected
  refine ⟨definitions, by rw [collected], ?_, ?_⟩
  · intro className member
    obtain ⟨block, listed, member⟩ := List.mem_flatMap.mp member
    obtain ⟨rule, held, names⟩ := List.mem_flatMap.mp member
    cases (gathers block listed).stems held with
    | comment text => cases names
    | subtable => cases names
    | flags => cases names
    | rule defined translated present written rename =>
        rw [Rule.markClasses_relabel] at names
        exact ⟨_, defined, translated.listsMarkClass present written names⟩
  · rw [Document.MarkClassesBacked, marks_eq, Definitions.markClassBlocks]
    refine forall₂_congr fun className _ => ?_
    constructor
    · rintro ⟨_, inside, rfl, used⟩
      obtain ⟨entry, present, rfl⟩ := List.mem_map.mp inside
      obtain ⟨lookup, listed, attaches⟩ := (uses_iff_of_ofStatements compiled).mp used
      have found := named.markClassName_of_place present
      exact ⟨lookup, listed, _, attaches, found.trans (by simp only [found, Option.getD_some])⟩
    · rintro ⟨lookup, listed, member, attaches, same⟩
      have used : state.uses member :=
        (uses_iff_of_ofStatements compiled).mpr ⟨lookup, listed, attaches⟩
      obtain ⟨entry, present, rfl⟩ :=
        Definitions.hasMarkAnchor_iff.mp (hasMarkAnchor_of_uses compiled used)
      refine ⟨_, List.mem_map_of_mem present, ?_, used⟩
      exact (congrArg (Option.getD · _) same).trans (Option.getD_some ..)

/-- A lookup that attaches the marks of a coverage at an anchor of a base. -/
def attaching (marks : Coverage) : Statement :=
  lookupNamed "marks" [] (.positioning (.attach [.glyph "a"] [(marks, "top")]))

theorem convert_markClassesBacked_iff_oneMark :
    ∃ log document,
      convert (markedBase "top" ++ [attaching [.glyph "acute"]]) none {} = ⟨log, .ok document⟩
        ∧ document.markReferences = ["top"]
        ∧ document.MarkClassesBacked
        ∧ ∃ definitions,
            (Definitions.collect (markedBase "top" ++ [attaching [.glyph "acute"]])
                none).result = .ok definitions
              ∧ ∀ className ∈ document.markReferences,
                  ∃ lookup ∈ lookupsOf (markedBase "top" ++ [attaching [.glyph "acute"]]),
                    ∃ member, definitions.Attaches lookup member
                      ∧ definitions.markClassName? member.markClass = some className := by
  have references : (convert (markedBase "top" ++ [attaching [.glyph "acute"]])
      none {}).result.toOption.map Document.markReferences = some ["top"] := by
    decide +kernel
  have active : (convert (markedBase "top" ++ [attaching [.glyph "acute"]])
      none {}).result.toOption.map (fun document => document.markClasses.map fun definition =>
        (definition.className, definition.used)) = some [("top", true)] := by
    decide +kernel
  obtain ⟨log, document, converted⟩ : ∃ log document,
      convert (markedBase "top" ++ [attaching [.glyph "acute"]]) none {} =
        ⟨log, .ok document⟩ :=
    Outcome.exists_of_isOk (by decide +kernel)
  simp only [converted, Except.toOption, Option.map_some, Option.some.injEq] at references active
  have backed : document.MarkClassesBacked := by
    intro className member
    rw [references, List.mem_singleton] at member
    have inside : (className, true) ∈ document.markClasses.map fun definition =>
        (definition.className, definition.used) := by
      rw [active, member]
      exact List.mem_singleton_self _
    obtain ⟨definition, present, same⟩ := List.mem_map.mp inside
    exact ⟨definition, present, congrArg Prod.fst same, congrArg Prod.snd same⟩
  obtain ⟨definitions, collected, _, iff⟩ := convert_markClassesBacked_iff converted
  exact ⟨log, document, converted, references, backed, definitions, collected, iff.mp backed⟩

/-- A rule names a class that is listed, even if no glyph is listed under it. -/
theorem exists_not_markClassesBacked :
    ¬ ∀ (statements : List Statement) (glyphOrder : Option GlyphOrder) (options : Options)
      (log : List Notice) (document : Document),
      convert statements glyphOrder options = ⟨log, .ok document⟩ →
        document.MarkClassesBacked := by
  intro always
  have references : (convert (markedBase "top" ++ [attaching [.enumeration []]])
      none {}).result.toOption.map Document.markReferences = some ["top"] := by
    decide +kernel
  have inactive : (convert (markedBase "top" ++ [attaching [.enumeration []]])
      none {}).result.toOption.map (fun document => document.markClasses.map
        Feature.MarkClass.used) = some [false] := by
    decide +kernel
  obtain ⟨log, document, converted⟩ : ∃ log document,
      convert (markedBase "top" ++ [attaching [.enumeration []]]) none {} =
        ⟨log, .ok document⟩ :=
    Outcome.exists_of_isOk (by decide +kernel)
  simp only [converted, Except.toOption, Option.map_some, Option.some.injEq]
    at references inactive
  obtain ⟨definition, present, _, used⟩ := always _ none {} log document converted "top"
    (by rw [references]; exact List.mem_singleton_self _)
  have unused : definition.used ∈ [false] := inactive ▸ List.mem_map_of_mem present
  rw [used] at unused
  exact absurd unused (by decide)

end GlyphLayout
