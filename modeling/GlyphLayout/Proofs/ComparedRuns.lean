import GlyphLayout.Conversion
import GlyphLayout.Proofs.Comparison
import GlyphLayout.Proofs.Respelling

/-!
# Comparing conversions

The run of a conversion is compared with one for other definitions and for the same project in
another spelling.  Coverages and references to groups are all that is looked up by way of the
definitions that may differ, so it is enough to compare those: then rules, lookups and whole
compilations are the same as well.
-/

namespace GlyphLayout

open Source (ContextDefinition Coverage CoverageItem GroupDefinition Location LookupDefinition
  Mapping PairAdjustment Positioning Statement Substitution SubstitutionKind)

/-! ## What does not depend on the spelling -/

section

variable (spell : String → String)

/-- The rule for a pair, with the references of its coverages in another spelling. -/
def PairRule.respell (pair : PairRule) : PairRule :=
  { pair with
    first := Coverage.respell spell pair.first
    second := Coverage.respell spell pair.second }

/-- Another spelling empties no coverage. -/
theorem isEmpty_respell (items : List CoverageItem) :
    (Coverage.respell spell items).isEmpty = items.isEmpty := by
  cases items <;> rfl

/-- A group stays a group in another spelling, so a pair stands for each pair of glyphs in both or
in neither. -/
theorem any_isGroup_respell (items : List CoverageItem) :
    ((Coverage.respell spell items).any fun item => !item.isGroup) =
      items.any fun item => !item.isGroup := by
  induction items with
  | nil => rfl
  | cons item rest ih =>
      rw [Coverage.respell, List.any_cons, List.any_cons, ih]
      cases item <;> rfl

/-- A pair counts as much in another spelling. -/
theorem countsOnce_respell (first second : Coverage) :
    countsOnce (Coverage.respell spell first) (Coverage.respell spell second) =
      countsOnce first second := by
  rcases first with _ | ⟨_ | _ | _ | _, _ | _⟩ <;>
    rcases second with _ | ⟨_ | _ | _ | _, _ | _⟩ <;>
      simp [Coverage.respell, CoverageItem.respell, countsOnce]

theorem nthFromOne?_map
    {α β : Type}
    (change : α → β)
    (items : List α)
    (index : UInt16) :
    nthFromOne? (items.map change) index = (nthFromOne? items index).map change := by
  unfold nthFromOne?
  split
  · rfl
  · rw [List.getElem?_map]

/-- The indices of a pair refer to the same coverages, or to none in both spellings. -/
theorem pairCoverages_respell
    (location : Location)
    (firsts seconds : List Coverage)
    (pair : PairAdjustment) :
    pairCoverages location (firsts.map (Coverage.respell spell))
        (seconds.map (Coverage.respell spell)) pair =
      Prod.map (Coverage.respell spell) (Coverage.respell spell) <$>
        pairCoverages location firsts seconds pair := by
  simp only [pairCoverages, nthFromOne?_map, List.length_map]
  cases nthFromOne? firsts pair.first <;> cases nthFromOne? seconds pair.second <;> rfl

/-- A rule does not know how the references of its coverages were spelled. -/
theorem map_rule_respell (pairs : List PairRule) :
    (pairs.map (PairRule.respell spell)).map PairRule.rule = pairs.map PairRule.rule := by
  rw [List.map_map]
  rfl

theorem map_fst_respell {α : Type} (items : List (Coverage × α)) :
    (items.map (Prod.map (Coverage.respell spell) id)).map Prod.fst =
      (items.map Prod.fst).map (Coverage.respell spell) := by
  simp

theorem map_snd_respell {α : Type} (items : List (Coverage × α)) :
    (items.map (Prod.map (Coverage.respell spell) id)).map Prod.snd = items.map Prod.snd := by
  simp

/-- What keeps a lookup from having contextual rules does so in every spelling. -/
theorem obstacle?_respell
    (lookup : LookupDefinition)
    (positioning : Positioning) :
    Compilation.obstacle? (lookup.respell spell) (positioning.respell spell) =
      Compilation.obstacle? lookup positioning := by
  cases positioning <;> rfl

end

/-! ## Definitions of two runs -/

/-- How the definitions of the second run are made from those of the first one. -/
structure Variation where
  glyphOrder : Option GlyphOrder → Option GlyphOrder
  features : LanguageSystems → LanguageSystems

namespace Definitions

/-- The definitions of the second run. -/
def vary (variation : Variation) (definitions : Definitions) : Definitions :=
  { definitions with
    glyphOrder := variation.glyphOrder definitions.glyphOrder
    features := variation.features definitions.features }

/-- What is looked up in the definitions is the same in both runs, where the second project spells
the references of the first one in another way. -/
structure Compares (comparison : Comparison) (variation : Variation) (spell : String → String)
    (definitions : Definitions) : Prop where
  group : ∀ name location, comparison.Same (definitions.group name location)
    ((definitions.vary variation).group (spell name) location)
  orderForRange : ∀ first location, comparison.Same (definitions.orderForRange first location)
    ((definitions.vary variation).orderForRange first location)

variable {comparison : Comparison} (variation : Variation) {spell : String → String}
  {definitions : Definitions} {location : Location}

/-! ## Steps that are the same for all definitions -/

/-- Glyph classes are kept apart from what varies. -/
theorem classify_vary
    (glyph : Source.GlyphDefinition)
    (output : Feature.Glyphs) :
    (definitions.vary variation).classify glyph output =
      (definitions.classify glyph output).vary variation := by
  obtain ⟨name, id, unicodes, _ | kind, components, location⟩ := glyph
  · rfl
  · cases kind <;> rfl

/-- A glyph is taken in alike if both runs give it the same name. -/
theorem addGlyph_vary
    {glyph : Source.GlyphDefinition}
    (named : (definitions.vary variation).nameFor glyph = definitions.nameFor glyph) :
    (definitions.vary variation).addGlyph glyph =
      vary variation <$> definitions.addGlyph glyph := by
  rw [addGlyph, addGlyph, named, map_bind]
  refine bind_congr fun output => ?_
  rw [classify_vary]
  rfl

/-- Mark classes are named alike, since both runs have the same pool of names. -/
theorem nameMarkClass_vary (markClass : String) :
    (definitions.vary variation).nameMarkClass markClass =
      (definitions.nameMarkClass markClass).vary variation := by
  have sameClasses : (definitions.vary variation).markClasses = definitions.markClasses := rfl
  unfold nameMarkClass
  rw [sameClasses]
  split <;> rfl

/-- Anchors need neither a glyph order nor features. -/
theorem addAnchor_vary (anchor : Source.AnchorDefinition) :
    (definitions.vary variation).addAnchor anchor =
      vary variation <$> definitions.addAnchor anchor := by
  rw [addAnchor, addAnchor, map_bind]
  refine bind_congr fun _ => ?_
  dsimp only
  split
  · simp only [addMarkAnchor, nameMarkClass_vary]
    rfl
  · rfl

theorem addSetting_vary (setting : Source.Setting) :
    (definitions.vary variation).addSetting setting =
      vary variation <$> definitions.addSetting setting := by
  unfold addSetting
  split
  · rfl
  · rw [map_bind]
    rfl

/-- Anchors and names of glyphs are the same in both runs. -/
theorem joinRules_vary (entries exits : List String) :
    (definitions.vary variation).joinRules location entries exits =
      definitions.joinRules location entries exits := by
  induction entries generalizing exits with
  | nil => rfl
  | cons glyph entries ih =>
      simp only [joinRules, ih]
      rfl

variable {variation}

/-! ## Coverages -/

/-- The ends of a range have the ids of their definitions in both runs, and each run asks for a
glyph order first. -/
theorem same_rangeIds
    (compares : Compares comparison variation spell definitions)
    (first last : String) :
    comparison.Same (definitions.rangeIds first last location)
      ((definitions.vary variation).rangeIds first last location) :=
  (compares.orderForRange first location).bind fun _ => .refl _

theorem same_nameInRange
    (compares : Compares comparison variation spell definitions)
    (first : String)
    (id : UInt16) :
    comparison.Same (definitions.nameInRange first location id)
      ((definitions.vary variation).nameInRange first location id) :=
  (compares.orderForRange first location).bind fun _ => .refl _

/-- A glyph of a range is named alike: by its definition, or else by the glyph order. -/
theorem same_glyphInRange
    (compares : Compares comparison variation spell definitions)
    (first : String)
    (id : UInt16) :
    comparison.Same (definitions.glyphInRange first location id)
      ((definitions.vary variation).glyphInRange first location id) := by
  have sameNames : (definitions.vary variation).namesById = definitions.namesById := rfl
  unfold glyphInRange
  rw [sameNames]
  split
  · exact .refl _
  · exact same_nameInRange compares first id

mutual

/-- An item is resolved to the same glyphs. Groups and ranges are the cases with something to
compare. -/
theorem same_resolveItem
    (compares : Compares comparison variation spell definitions)
    (item : CoverageItem) :
    comparison.Same (definitions.resolveItem location item)
      ((definitions.vary variation).resolveItem location (item.respell spell)) := by
  match item with
  | .glyph name =>
      simp only [CoverageItem.respell, resolveItem]
      exact .refl _
  | .group name =>
      simp only [CoverageItem.respell, resolveItem]
      exact (compares.group name location).bind fun _ => .refl _
  | .enumeration items =>
      simp only [CoverageItem.respell, resolveItem]
      exact (same_resolve compares items).bind fun _ => .refl _
  | .range first last =>
      simp only [CoverageItem.respell, resolveItem]
      exact (same_rangeIds compares first last).bind fun ids =>
        (Comparison.Same.mapM (same_nameInRange compares first) ids).bind fun _ => .refl _

/-- A coverage is resolved to the same glyphs, item by item. -/
theorem same_resolve
    (compares : Compares comparison variation spell definitions)
    (items : List CoverageItem) :
    comparison.Same (definitions.resolve location items)
      ((definitions.vary variation).resolve location (Coverage.respell spell items)) := by
  match items with
  | [] =>
      simp only [Coverage.respell, resolve]
      exact .refl _
  | item :: rest =>
      simp only [Coverage.respell, resolve]
      exact (same_resolveItem compares item).bind fun _ =>
        (same_resolve compares rest).bind fun _ => .refl _

end

mutual

/-- An item is expanded to the same names of glyphs. -/
theorem same_expandItem
    (compares : Compares comparison variation spell definitions)
    (item : CoverageItem) :
    comparison.Same (definitions.expandItem location item)
      ((definitions.vary variation).expandItem location (item.respell spell)) := by
  match item with
  | .glyph name =>
      simp only [CoverageItem.respell, expandItem]
      exact .refl _
  | .group name =>
      simp only [CoverageItem.respell, expandItem]
      exact (compares.group name location).bind fun _ => .refl _
  | .enumeration items =>
      simp only [CoverageItem.respell, expandItem]
      exact same_expand compares items
  | .range first last =>
      simp only [CoverageItem.respell, expandItem]
      exact (same_rangeIds compares first last).bind fun ids =>
        .mapM (same_glyphInRange compares first) ids

theorem same_expand
    (compares : Compares comparison variation spell definitions)
    (items : List CoverageItem) :
    comparison.Same (definitions.expand location items)
      ((definitions.vary variation).expand location (Coverage.respell spell items)) := by
  match items with
  | [] =>
      simp only [Coverage.respell, expand]
      exact .refl _
  | item :: rest =>
      simp only [Coverage.respell, expand]
      exact (same_expandItem compares item).bind fun _ =>
        (same_expand compares rest).bind fun _ => .refl _

end

variable (compares : Compares comparison variation spell definitions)

include compares

/-- Several coverages are resolved to the same glyphs, one after the other. -/
theorem same_resolveSequence (coverages : List Coverage) :
    comparison.Same (definitions.resolveSequence location coverages)
      ((definitions.vary variation).resolveSequence location
        (coverages.map (Coverage.respell spell))) :=
  (Comparison.Same.mapM_map (same_resolve compares) coverages).bind fun _ => .refl _

theorem same_resolveCollapsed (coverage : Coverage) :
    comparison.Same (definitions.resolveCollapsed location coverage)
      ((definitions.vary variation).resolveCollapsed location
        (Coverage.respell spell coverage)) :=
  (same_resolve compares coverage).bind fun _ => .refl _

theorem same_glyphCount (coverage : Coverage) :
    comparison.Same (definitions.glyphCount location coverage)
      ((definitions.vary variation).glyphCount location (Coverage.respell spell coverage)) :=
  (same_expand compares coverage).bind fun _ => .refl _

/-! ## Rules of lookups -/

/-- The flags of a lookup refer to groups by way of the definitions of both runs. -/
theorem same_lookupFlags (lookup : LookupDefinition) :
    comparison.Same (definitions.lookupFlags lookup)
      ((definitions.vary variation).lookupFlags (lookup.respell spell)) := by
  unfold lookupFlags LookupDefinition.respell
  cases lookup.marks with
  | all | none => exact .refl _
  | attachment name | filterSet name =>
      exact (compares.group name _).bind fun _ => .refl _

theorem same_ruleContext
    (lookup : LookupDefinition)
    (context : ContextDefinition) :
    comparison.Same (definitions.ruleContext lookup context)
      ((definitions.vary variation).ruleContext (lookup.respell spell)
        (context.respell spell)) :=
  (same_resolveSequence compares context.left).bind fun _ =>
    (same_resolveSequence compares context.right).bind fun _ => .refl _

/-- A lookup has the same contexts for its rules, however many it defines. -/
theorem same_ruleContexts (lookup : LookupDefinition) :
    comparison.Same (definitions.ruleContexts lookup)
      ((definitions.vary variation).ruleContexts (lookup.respell spell)) := by
  have each := same_ruleContext compares lookup
  unfold ruleContexts
  have contexts : (lookup.respell spell).contexts =
      lookup.contexts.map (ContextDefinition.respell spell) := rfl
  rw [contexts]
  match lookup.contexts with
  | [] => exact .refl _
  | [only] => exact (each only).bind fun _ => .refl _
  | first :: second :: rest => exact .mapM_map each (first :: second :: rest)

/-- The rules for a pair are the same; only the coverages that come with them are spelled
differently. -/
theorem same_pairRule
    (firsts seconds : List Coverage)
    (pair : PairAdjustment) :
    comparison.Same
      (PairRule.respell spell <$> definitions.pairRule location firsts seconds pair)
      ((definitions.vary variation).pairRule location (firsts.map (Coverage.respell spell))
        (seconds.map (Coverage.respell spell)) pair) := by
  rw [pairRule, pairRule, pairCoverages_respell, map_bind]
  refine (Comparison.Same.refl _).bind_map fun coverages => ?_
  rw [map_bind]
  refine (same_resolveCollapsed compares coverages.1).bind fun _ => ?_
  rw [map_bind]
  refine (same_resolveCollapsed compares coverages.2).bind fun _ => ?_
  simp only [List.any_append, any_isGroup_respell]
  exact .refl _

theorem same_pairRules
    (firsts seconds : List Coverage)
    (pairs : List PairAdjustment) :
    comparison.Same
      (List.map (PairRule.respell spell) <$>
        definitions.pairRules location firsts seconds pairs)
      ((definitions.vary variation).pairRules location (firsts.map (Coverage.respell spell))
        (seconds.map (Coverage.respell spell)) pairs) :=
  .map_mapM (same_pairRule compares firsts seconds) pairs

/-- A pair adds as much to the size of a subtable. -/
theorem same_pairSize (pair : PairRule) :
    comparison.Same (definitions.pairSize location pair)
      ((definitions.vary variation).pairSize location (pair.respell spell)) := by
  unfold pairSize PairRule.respell
  rw [countsOnce_respell]
  split
  · exact .refl _
  · exact (same_glyphCount compares pair.first).bind fun _ =>
      (same_glyphCount compares pair.second).bind fun _ => .refl _

theorem sameRun_reportOverlaps
    (lookup : String)
    (side : Side)
    (coverages : List Coverage) :
    comparison.SameRun (definitions.reportOverlaps location lookup side coverages)
      ((definitions.vary variation).reportOverlaps location lookup side
        (coverages.map (Coverage.respell spell))) :=
  (Comparison.Same.lift (.mapM_map (same_expand compares) coverages)).bind fun _ => .refl _

/-- An attachment has the same marks, since a class of marks is no reference that is respelled. -/
theorem same_attachedMarks (marks : List (Coverage × String)) :
    comparison.Same (definitions.attachedMarks location marks)
      ((definitions.vary variation).attachedMarks location
        (marks.map (Prod.map (Coverage.respell spell) id))) := by
  refine (Comparison.Same.mapM_map (fun mark => ?_) marks).bind fun _ => .refl _
  exact (same_expand compares mark.1).bind fun _ => .refl _

theorem same_attachmentRules
    (bases : Coverage)
    (classes : List String) :
    comparison.Same (definitions.attachmentRules location bases classes)
      ((definitions.vary variation).attachmentRules location (Coverage.respell spell bases)
        classes) :=
  (same_expand compares bases).bind fun _ => .refl _

/-- The rules that join glyphs are the same, since both runs expand exits and entries to the same
glyphs. -/
theorem same_cursiveRules (exits entries : List Coverage) :
    comparison.Same (definitions.cursiveRules location exits entries)
      ((definitions.vary variation).cursiveRules location (exits.map (Coverage.respell spell))
        (entries.map (Coverage.respell spell))) := by
  refine (Comparison.Same.mapM_map (same_expand compares) entries).bind fun _ =>
    (Comparison.Same.mapM_map (same_expand compares) exits).bind fun _ => ?_
  rw [joinRules_vary]
  exact .refl _

/-- Plain rules are the same for every kind of positioning. -/
theorem same_plainRules (positioning : Positioning) :
    comparison.Same (definitions.plainRules location positioning)
      ((definitions.vary variation).plainRules location (positioning.respell spell)) := by
  cases positioning with
  | pairs firsts seconds pairs =>
      refine (same_pairRules compares firsts seconds pairs).bind_map fun pairs => ?_
      rw [map_rule_respell]
      exact .refl _
  | singles adjustments =>
      refine (Comparison.Same.mapM_map (fun adjustment => ?_) adjustments).bind fun _ => .refl _
      exact (same_resolveCollapsed compares adjustment.1).bind fun _ => .refl _
  | attach bases marks =>
      rw [Positioning.respell, plainRules, plainRules, map_snd_respell]
      exact (same_attachedMarks compares marks).bind fun _ =>
        (same_attachmentRules compares bases _).bind fun _ => .refl _
  | cursive exits entries =>
      exact (same_cursiveRules compares exits entries).bind fun _ => .refl _

/-- So is the input to which the rules in a context apply. -/
theorem same_inputSequences (positioning : Positioning) :
    comparison.Same (definitions.inputSequences location positioning)
      ((definitions.vary variation).inputSequences location (positioning.respell spell)) := by
  cases positioning with
  | pairs firsts seconds pairs =>
      refine Comparison.Same.mapM (fun pair => ?_) pairs
      rw [pairCoverages_respell]
      refine (Comparison.Same.refl _).bind_map fun coverages => ?_
      exact (same_resolveCollapsed compares coverages.1).bind fun _ =>
        (same_resolveCollapsed compares coverages.2).bind fun _ => .refl _
  | singles adjustments =>
      rw [Positioning.respell, inputSequences, inputSequences, map_fst_respell]
      exact (same_resolveSequence compares _).bind fun _ => .refl _
  | attach bases marks =>
      rw [Positioning.respell, inputSequences, inputSequences, map_fst_respell]
      exact (same_resolveSequence compares _).bind fun _ => .refl _
  | cursive exits entries => exact .refl _

/-- A mapping has the same rule, with the same notices on the way. -/
theorem sameRun_mappingRule
    (kind : SubstitutionKind)
    (context : RuleContext)
    (mapping : Mapping) :
    comparison.SameRun (definitions.mappingRule kind context mapping)
      ((definitions.vary variation).mappingRule kind context (mapping.respell spell)) := by
  have sides : ((mapping.respell spell).input.isEmpty || (mapping.respell spell).output.isEmpty) =
      (mapping.input.isEmpty || mapping.output.isEmpty) := by
    rw [Mapping.respell, isEmpty_respell, isEmpty_respell]
  unfold mappingRule
  rw [sides]
  split
  · exact .refl _
  · refine (Comparison.Same.lift (same_resolve compares mapping.input)).bind fun input => ?_
    split
    · exact .refl _
    · refine (Comparison.Same.lift (same_resolve compares mapping.output)).bind fun _ => ?_
      exact .refl _

theorem sameRun_substitutionRules
    (substitution : Substitution)
    (context : RuleContext) :
    comparison.SameRun (definitions.substitutionRules substitution context)
      ((definitions.vary variation).substitutionRules (substitution.respell spell) context) :=
  (Comparison.SameRun.mapM_map (sameRun_mappingRule compares substitution.kind context)
    substitution.mappings).bind fun _ => .refl _

/-! ## Taking in definitions -/

/-- A group is taken in under its own name, with the same glyphs. -/
theorem sameRun_addGroup (group : GroupDefinition) :
    comparison.SameRun (vary variation <$> definitions.addGroup group)
      ((definitions.vary variation).addGroup (group.respell spell)) := by
  rw [addGroup, addGroup, map_bind]
  refine (Comparison.Same.lift (same_resolve compares group.members)).bind fun members => ?_
  rw [map_bind]
  refine (Comparison.Same.lift (same_expand compares group.members)).bind fun glyphs => ?_
  dsimp only
  rw [map_bind]
  exact .refl _

/-- A statement is taken in as by the first run if its glyph is named and its script is as there. -/
theorem sameRun_add
    {statement : Statement}
    (named : ∀ glyph, statement = .glyph glyph →
      (definitions.vary variation).nameFor glyph = definitions.nameFor glyph)
    (scripts : ∀ script, statement = .script script →
      (definitions.vary variation).addScript (script.respell spell) =
        vary variation <$> definitions.addScript script) :
    comparison.SameRun (vary variation <$> definitions.add statement)
      ((definitions.vary variation).add (statement.respell spell)) := by
  cases statement with
  | glyph glyph =>
      rw [Statement.respell, add, add, addGlyph_vary variation (named glyph rfl),
        Outcome.liftM_map]
      exact .refl _
  | group group => exact sameRun_addGroup compares group
  | script script =>
      rw [Statement.respell, add, add, scripts script rfl, Outcome.liftM_map]
      exact .refl _
  | anchor anchor =>
      rw [Statement.respell, add, add, addAnchor_vary]
      exact .refl _
  | setting setting =>
      rw [Statement.respell, add, add, addSetting_vary]
      exact .refl _
  | lookup lookup => exact .refl _

end Definitions

/-! ## Lookups -/

namespace Compilation

variable {comparison : Comparison} {variation : Variation} {spell : String → String}
  {definitions : Definitions} {options : Options} {lookup : LookupDefinition}
  {positioning : Positioning}
  (compares : Definitions.Compares comparison variation spell definitions)

include compares

/-- A helper has the same plain rules, under the same label. -/
theorem sameRun_addHelper
    (state : Compilation)
    (location : Location)
    (parent : CompiledLookup) :
    comparison.SameRun (state.addHelper definitions location positioning parent)
      (state.addHelper (definitions.vary variation) location (positioning.respell spell)
        parent) :=
  (Comparison.SameRun.refl _).bind fun _ =>
    (Comparison.Same.lift (Definitions.same_plainRules compares positioning)).bind
      fun _ => .refl _

theorem sameRun_helperFor
    (progress : Progress)
    (location : Location)
    (parent : CompiledLookup) :
    comparison.SameRun (helperFor progress definitions location positioning parent)
      (helperFor progress (definitions.vary variation) location (positioning.respell spell)
        parent) := by
  unfold helperFor
  split
  · exact .refl _
  · exact sameRun_addHelper compares ..

/-- The rules of a context are written alike, step by step. -/
theorem sameRun_writeContext
    (parent : CompiledLookup)
    (progress : Progress)
    (context : RuleContext) :
    comparison.SameRun
      (writeContext definitions options lookup positioning parent progress context)
      (writeContext (definitions.vary variation) options (lookup.respell spell)
        (positioning.respell spell) parent progress context) := by
  have inputs : comparison.Same (definitions.inputSequences lookup.location positioning)
      ((definitions.vary variation).inputSequences lookup.location (positioning.respell spell)) :=
    Definitions.same_inputSequences compares positioning
  unfold writeContext
  rw [obstacle?_respell]
  split
  · exact (Comparison.Same.lift (Definitions.same_plainRules compares positioning)).bind
      fun _ => .refl _
  · split
    · exact .refl _
    · split
      · exact (Comparison.Same.lift inputs).bind fun _ => .refl _
      · exact (sameRun_helperFor compares ..).bind fun _ =>
          (Comparison.Same.lift inputs).bind fun _ => .refl _

theorem sameRun_addContextual
    (state : Compilation)
    (contexts : List RuleContext)
    (draft : CompiledLookup) :
    comparison.SameRun
      (state.addContextual definitions options lookup positioning contexts draft)
      (state.addContextual (definitions.vary variation) options (lookup.respell spell)
        (positioning.respell spell) contexts draft) :=
  (Comparison.SameRun.foldlM (sameRun_writeContext compares _) contexts _).bind fun _ => .refl _

/-- Pairs are cut at the same places. -/
theorem same_pairPieces
    (location : Location)
    (limit : Nat)
    (pairs : List PairRule) :
    comparison.Same (pairPieces definitions location limit pairs)
      (pairPieces (definitions.vary variation) location limit
        (pairs.map (PairRule.respell spell))) := by
  refine (Comparison.Same.mapM_map (fun pair => ?_) pairs).bind fun _ => .refl _
  exact (Definitions.same_pairSize compares pair).bind fun _ => .refl _

/-- A list of pairs becomes the same lookup or the same pieces. -/
theorem sameRun_addPairs
    (state : Compilation)
    (location : Location)
    (firsts seconds : List Coverage)
    (pairs : List PairAdjustment)
    (draft : CompiledLookup) :
    comparison.SameRun
      (state.addPairs definitions options location firsts seconds pairs draft)
      (state.addPairs (definitions.vary variation) options location
        (firsts.map (Coverage.respell spell)) (seconds.map (Coverage.respell spell)) pairs
        draft) := by
  unfold addPairs
  refine (Comparison.Same.lift_map
    (Definitions.same_pairRules compares firsts seconds pairs)).bind_map fun pairs => ?_
  dsimp only
  rw [map_rule_respell]
  split
  · exact .refl _
  · split
    · exact .refl _
    · exact (Comparison.Same.lift (same_pairPieces compares ..)).bind fun _ => .refl _

/-- A positioning lookup is compiled alike, be it in contexts or not. -/
theorem sameRun_addPositioning
    (state : Compilation)
    (contexts : List RuleContext)
    (draft : CompiledLookup) :
    comparison.SameRun
      (state.addPositioning definitions options lookup positioning contexts draft)
      (state.addPositioning (definitions.vary variation) options (lookup.respell spell)
        (positioning.respell spell) contexts draft) := by
  cases positioning with
  | pairs firsts seconds pairs =>
      unfold addPositioning
      refine (Definitions.sameRun_reportOverlaps compares ..).bind fun _ =>
        (Definitions.sameRun_reportOverlaps compares ..).bind fun _ => ?_
      split
      · exact sameRun_addPairs compares ..
      · exact sameRun_addContextual compares ..
  | singles | attach | cursive => exact sameRun_addContextual compares ..

theorem sameRun_addSubstitution
    (state : Compilation)
    (substitution : Substitution)
    (contexts : List RuleContext)
    (draft : CompiledLookup) :
    comparison.SameRun
      (state.addSubstitution definitions substitution contexts draft)
      (state.addSubstitution (definitions.vary variation) (substitution.respell spell) contexts
        draft) :=
  (Comparison.SameRun.mapM (Definitions.sameRun_substitutionRules compares substitution)
    contexts).bind fun _ => .refl _

theorem sameRun_addStatement
    (state : Compilation)
    (statement : Statement) :
    comparison.SameRun
      (addStatement definitions options state statement)
      (addStatement (definitions.vary variation) options state (statement.respell spell)) := by
  cases statement with
  | lookup lookup =>
      unfold addStatement Statement.respell addLookup
      refine (Comparison.Same.lift (Definitions.same_lookupFlags compares lookup)).bind
        fun flags => (Comparison.Same.lift
          (Definitions.same_ruleContexts compares lookup)).bind fun contexts => ?_
      dsimp only
      obtain ⟨name, processBase, marks, direction, reversal, comments, contexts, payload,
        location⟩ := lookup
      cases payload with
      | substitution substitution => exact sameRun_addSubstitution compares ..
      | positioning positioning => exact sameRun_addPositioning compares ..
  | _ => exact .refl _

/-- The lookups of a project are compiled alike, one statement after the other. -/
theorem sameRun_ofStatements (statements : List Statement) :
    comparison.SameRun
      (ofStatements definitions options statements)
      (ofStatements (definitions.vary variation) options
        (statements.map (Statement.respell spell))) :=
  (Comparison.SameRun.foldlM_map (sameRun_addStatement compares) statements {}).bind
    fun _ => .refl _

end Compilation
end GlyphLayout
