import GlyphLayout.Lookup.Partition
import GlyphLayout.Lookup.PieceName
import GlyphLayout.Lookup.Positioning
import GlyphLayout.Lookup.Substitution

/-!
# Compiling lookups

Each lookup of a project becomes one or more lookups of a feature file.  A feature file cannot
position glyphs inside a contextual rule, so a positioning lookup with contexts becomes two:
a helper with the plain rules, and the lookup itself with rules that apply the helper.  A pair
positioning lookup with more pairs than a limit becomes several pieces.
-/

namespace GlyphLayout

open Feature (Flags Rule)
open Source (Location LookupDefinition PairAdjustment Payload Positioning Statement Substitution)

/-- How a project is converted. -/
structure Options where
  /-- Constructs that a feature file cannot express end the conversion. -/
  strict : Bool := true
  /-- The greatest size of a subtable of pairs. -/
  pairLimit : Option Nat := none
deriving Repr, DecidableEq

/-- What the rules of a lookup do. -/
inductive LookupKind where
  | substitution
  /-- The rules position pairs outside any context, so the lookup may be a subtable. -/
  | pairs
  /-- The rules position glyphs in some other way. -/
  | positioning
deriving Repr, DecidableEq

/-- A lookup of a feature file, with what is known about its source. -/
structure CompiledLookup where
  id : LookupId
  /-- The name that the project uses. -/
  sourceName : String
  label : String
  kind : LookupKind
  comments : Option String := none
  flags : Flags := {}
  useExtension : Bool := false
  rules : List Rule := []
deriving Repr, DecidableEq

namespace CompiledLookup

/-- The statement that sets the flags, unless they change nothing. -/
def flagRules (lookup : CompiledLookup) : List Rule :=
  if lookup.flags.isDefault then [] else [.flags lookup.flags]

/-- The comments of a lookup as rules. -/
def commentRules (lookup : CompiledLookup) : List Rule :=
  lookup.comments.toList.map Rule.comment

/-- The block of a lookup: comments, flags and rules. -/
def block (lookup : CompiledLookup) : Feature.Lookup where
  name := lookup.label
  useExtension := lookup.useExtension
  rules := lookup.commentRules ++ lookup.flagRules ++ lookup.rules

end CompiledLookup

/-- The lookups that have been compiled so far. -/
structure Compilation where
  labels : IdentifierPool := ⟨.label, ∅⟩
  /-- The lookups by their lowercased names, in the order in which they are written. -/
  lookups : OrderedMap String CompiledLookup := ∅
  /-- The marks that some rule attaches. -/
  usedMarks : SortedMap MarkMember Unit := ∅
  /-- The constructs that have been reported. -/
  reported : List Construct := []

namespace Compilation

/-- Some rule attaches the mark. -/
def uses (state : Compilation) (member : MarkMember) : Bool :=
  (state.usedMarks.get? member).isSome

/-- The marks that some rule attaches, in order. -/
def usedMembers (state : Compilation) : List MarkMember :=
  state.usedMarks.entries.map Prod.fst

/-- Notes that some rule attaches the marks. -/
def useMarks (state : Compilation) (members : List MarkMember) : Compilation :=
  { state with
    usedMarks := members.foldl (fun used member => used.insert member ()) state.usedMarks }

/-- Adds a lookup, which takes the place of one with the same name in any case. -/
def register (state : Compilation) (lookup : CompiledLookup) : Outcome Compilation := do
  let key := Text.lowercase lookup.sourceName
  Outcome.tellIf (state.lookups.contains key) (.lookupRedefined lookup.sourceName)
  return { state with lookups := state.lookups.insert key lookup }

/-- Ends the conversion at a construct, or skips it and reports the first of its kind. -/
def skipConstruct (state : Compilation) (options : Options) (construct : Construct)
    (location : Location) : Outcome Compilation :=
  if options.strict then
    Outcome.fail (.unsupported construct location)
  else if construct ∈ state.reported then
    return state
  else do
    Outcome.tell (.constructSkipped location construct)
    return { state with reported := construct :: state.reported }

/-- Adds the lookup with the plain rules of another, and gives its label. -/
def addHelper (state : Compilation) (definitions : Definitions) (location : Location)
    (positioning : Positioning) (parent : CompiledLookup) : Outcome (Compilation × String) := do
  let sourceName := parent.sourceName ++ " target"
  let (label, labels) := state.labels.identify sourceName
  Outcome.tell (.helperAdded parent.sourceName label)
  let plain ← definitions.plainRules location positioning
  let helper : CompiledLookup := {
    id := ⟨sourceName, none⟩
    sourceName
    label
    kind := .positioning
    flags := parent.flags
    useExtension := parent.useExtension
    rules := plain.rules }
  let next ← { state.useMarks plain.marks with labels }.register helper
  return (next, label)

/-- A positioning lookup whose rules are being written, context by context. -/
structure Progress where
  state : Compilation
  rules : List Rule := []
  /-- The label of the helper, if one has been needed. -/
  helper : Option String := none

/-- The helper of a lookup, which is added when it is first needed. -/
def helperFor (progress : Progress) (definitions : Definitions) (location : Location)
    (positioning : Positioning) (parent : CompiledLookup) : Outcome (Compilation × String) :=
  match progress.helper with
  | some label => return (progress.state, label)
  | none => progress.state.addHelper definitions location positioning parent

/-- The construct that keeps a lookup from having contextual rules. -/
def obstacle? (lookup : LookupDefinition) (positioning : Positioning) : Option Construct :=
  if lookup.reversal then some .contextualReversal
  else
    match positioning with
    | .cursive .. => some .contextualCursive
    | _ => none

/-- Writes the rules of a positioning lookup for one context. -/
def writeContext (definitions : Definitions) (options : Options) (lookup : LookupDefinition)
    (positioning : Positioning) (parent : CompiledLookup) (progress : Progress)
    (context : RuleContext) : Outcome Progress := do
  if !context.isContextual then
    let plain ← definitions.plainRules lookup.location positioning
    return { progress with
      state := progress.state.useMarks plain.marks
      rules := progress.rules ++ plain.rules }
  else
    match obstacle? lookup positioning with
    | some construct =>
        let state ← progress.state.skipConstruct options construct lookup.location
        return { progress with state }
    | none =>
        if context.ignored then
          let inputs ← definitions.inputSequences lookup.location positioning
          let rules := inputs.map fun input => Rule.ignorePos context.context input
          return { progress with rules := progress.rules ++ rules }
        else
          let (state, label) ←
            helperFor progress definitions lookup.location positioning parent
          let inputs ← definitions.inputSequences lookup.location positioning
          let rules := inputs.map fun input =>
            Rule.chainPos context.context (input.map fun item => (item, some label))
          return { state, rules := progress.rules ++ rules, helper := some label }

/-- Adds the pieces of a pair positioning lookup, numbered from `index` on. -/
def addPieces (draft : CompiledLookup) (state : Compilation) (index : Nat) :
    List (List Rule) → Outcome Compilation
  | [] => return state
  | rules :: rest => do
      let sourceName := LookupId.pieceName draft.sourceName index
      let (label, labels) :=
        if index = 0 then (draft.label, state.labels) else state.labels.identify sourceName
      let next ← { state with labels }.register { draft with
        id := ⟨draft.sourceName, some (UInt32.ofNat (index + 1))⟩
        sourceName
        label
        comments := if index = 0 then draft.comments else none
        rules }
      addPieces draft next (index + 1) rest

/-- The pieces of the rules for some pairs. -/
def pairPieces (definitions : Definitions) (location : Location) (limit : Nat)
    (pairs : List PairRule) : Except ConversionError (List (List Rule)) := do
  let sized ← pairs.mapM fun pair => do
    return (pair.rule, ← definitions.pairSize location pair)
  return (partition Prod.snd limit sized).map (List.map Prod.fst)

/-- Adds a pair positioning lookup without contexts, in pieces if it is too large. -/
def addPairs (state : Compilation) (definitions : Definitions) (options : Options)
    (location : Location) (firsts seconds : List Source.Coverage) (pairs : List PairAdjustment)
    (draft : CompiledLookup) : Outcome Compilation := do
  let pairs ← definitions.pairRules location firsts seconds pairs
  let whole := { draft with rules := pairs.map PairRule.rule }
  match options.pairLimit with
  | none => state.register whole
  | some limit =>
      if draft.id.isPiece then
        state.register whole
      else
        let pieces ← pairPieces definitions location limit pairs
        if pieces.length < 2 then
          state.register whole
        else
          Outcome.tell (.pairsSplit draft.sourceName pieces.length limit)
          addPieces draft state 0 pieces

/-- Adds a positioning lookup whose rules are written context by context. -/
def addContextual (state : Compilation) (definitions : Definitions) (options : Options)
    (lookup : LookupDefinition) (positioning : Positioning) (contexts : List RuleContext)
    (draft : CompiledLookup) : Outcome Compilation := do
  let parent := { draft with kind := .positioning }
  let progress ←
    contexts.foldlM (writeContext definitions options lookup positioning parent) { state }
  progress.state.register { parent with rules := progress.rules }

/-- Adds a positioning lookup. -/
def addPositioning (state : Compilation) (definitions : Definitions) (options : Options)
    (lookup : LookupDefinition) (positioning : Positioning) (contexts : List RuleContext)
    (draft : CompiledLookup) : Outcome Compilation := do
  match positioning with
  | .pairs firsts seconds pairs =>
      definitions.reportOverlaps lookup.location lookup.name .first firsts
      definitions.reportOverlaps lookup.location lookup.name .second seconds
      if contexts.all (!·.isContextual) then
        state.addPairs definitions options lookup.location firsts seconds pairs
          { draft with kind := .pairs }
      else
        state.addContextual definitions options lookup positioning contexts draft
  | _ => state.addContextual definitions options lookup positioning contexts draft

/-- Adds a substitution lookup. -/
def addSubstitution (state : Compilation) (definitions : Definitions)
    (substitution : Substitution) (contexts : List RuleContext) (draft : CompiledLookup) :
    Outcome Compilation := do
  let rules ← contexts.mapM (definitions.substitutionRules substitution)
  state.register { draft with rules := rules.flatten }

/-- Compiles a lookup. -/
def addLookup (definitions : Definitions) (options : Options) (state : Compilation)
    (lookup : LookupDefinition) : Outcome Compilation := do
  let flags ← definitions.lookupFlags lookup
  let contexts ← definitions.ruleContexts lookup
  let (label, labels) := state.labels.identify lookup.name
  let named := { state with labels }
  let draft : CompiledLookup := {
    id := .ofName lookup.name
    sourceName := lookup.name
    label
    kind := .substitution
    comments := lookup.comments
    flags }
  match lookup.payload with
  | .substitution substitution =>
      named.addSubstitution definitions substitution contexts draft
  | .positioning positioning =>
      named.addPositioning definitions options lookup positioning contexts
        { draft with useExtension := definitions.useExtension }

/-- Compiles a statement; only lookups matter. -/
def addStatement (definitions : Definitions) (options : Options) (state : Compilation) :
    Statement → Outcome Compilation
  | .lookup lookup => addLookup definitions options state lookup
  | _ => return state

/-- Compiles the lookups of a project. -/
def ofStatements (definitions : Definitions) (options : Options) (statements : List Statement) :
    Outcome Compilation := do
  let state ← statements.foldlM (addStatement definitions options) {}
  Outcome.tell (.lookupsDone state.lookups.size)
  return state

end Compilation
end GlyphLayout
