import GlyphLayout.Proofs.AttachmentRules

/-!
# Anchors that attachments keep

An attachment asks of a base that it has an anchor for each class, and its rule has the points of
the components that the base has.  A point at any other component is left out, and a base whose
anchor has no other points gets a rule without a point.
-/

namespace GlyphLayout

open Feature (Anchor Attachment Rule)
open Source (Coverage Location Statement)

/-! ## What a text holds -/

namespace Text

/-- The piece stands somewhere in the text. -/
def Holds (text piece : String) : Prop :=
  ∃ before after, text = before ++ piece ++ after

theorem Holds.refl (text : String) : Holds text text :=
  ⟨"", "", by simp⟩

theorem Holds.trans
    {text part piece : String}
    (outer : Holds text part)
    (inner : Holds part piece) :
    Holds text piece := by
  obtain ⟨before, after, rfl⟩ := outer
  obtain ⟨start, rest, rfl⟩ := inner
  exact ⟨before ++ start, rest ++ after, by simp only [String.append_assoc]⟩

theorem holds_joined
    {separator piece : String}
    {pieces : List String}
    (member : piece ∈ pieces) :
    Holds (joined separator pieces) piece := by
  induction pieces with
  | nil => cases member
  | cons first rest ih =>
      rcases rest with _ | ⟨next, rest⟩
      · rw [List.mem_singleton.mp member]
        exact .refl _
      · rw [joined_cons_cons]
        rcases List.mem_cons.mp member with rfl | inside
        · exact ⟨"", separator ++ joined separator (next :: rest), by
            simp only [String.empty_append, String.append_assoc]⟩
        · exact .trans ⟨first ++ separator, "", by simp⟩ (ih inside)

end Text

namespace Feature

/-- The attachments of a rule, for one component after the other. -/
def Rule.slots : Rule → List (List Attachment)
  | markToBase _ marks => [marks]
  | markToMark _ marks => [marks]
  | markToLigature _ components => components
  | _ => []

/-- An attachment at a point is written, whichever component it is for. -/
theorem Rule.holds_text_of_mem_slots
    {rule : Rule}
    {slot : List Attachment}
    {attachment : Attachment}
    (listed : slot ∈ rule.slots)
    (attached : attachment ∈ slot)
    (placed : attachment.anchor.isSome) :
    Text.Holds rule.text attachment.text := by
  have among {marks : List Attachment} (inside : attachment ∈ marks) :
      Text.Holds (Text.joined " " (marks.map Attachment.text)) attachment.text :=
    Text.holds_joined (List.mem_map_of_mem inside)
  have inComponent : Text.Holds (componentText slot) attachment.text := by
    have present : attachment ∈ slot.filter (·.anchor.isSome) :=
      List.mem_filter.mpr ⟨attached, placed⟩
    unfold componentText
    split
    · rename_i none
      rw [none] at present
      cases present
    · exact among present
  cases rule with
  | markToBase base marks =>
      rw [List.mem_singleton.mp listed] at attached
      exact .trans ⟨"pos base " ++ base.text ++ " ", ";", rfl⟩ (among attached)
  | markToMark base marks =>
      rw [List.mem_singleton.mp listed] at attached
      exact .trans ⟨"pos mark " ++ base.text ++ " ", ";", rfl⟩ (among attached)
  | markToLigature base components =>
      have held : Text.Holds
          (Text.joined ("\n" ++ indent ++ indent ++ "ligComponent ") (components.map componentText))
          (componentText slot) :=
        Text.holds_joined (List.mem_map_of_mem listed)
      exact .trans ⟨"pos ligature " ++ base.text ++ " ", ";", rfl⟩ (held.trans inComponent)
  | _ => cases listed

end Feature

/-! ## Points that have been collected -/

/-- No key of a map stands twice. -/
theorem SortedMap.eq_of_mem_of_key_eq
    {κ ν : Type} [LT κ] [Std.Irrefl (α := κ) (· < ·)]
    {map : SortedMap κ ν}
    {first second : κ × ν}
    (firstPresent : first ∈ map.entries)
    (secondPresent : second ∈ map.entries)
    (same : first.1 = second.1) :
    first = second := by
  have distinct : (map.entries.map Prod.fst).Nodup := by
    refine List.pairwise_map.mpr (map.sorted.imp fun {first second} below same => ?_)
    rw [same] at below
    exact Std.Irrefl.irrefl _ below
  exact List.inj_on_of_nodup_map distinct firstPresent secondPresent same

/-- An insertion leaves no map without keys. -/
theorem SortedMap.put_ne_nil
    {κ ν : Type} [LT κ] [DecidableLT κ]
    (key : κ) (value : ν) (entries : List (κ × ν)) :
    put key value entries ≠ [] := by
  unfold put
  split
  · exact List.cons_ne_nil _ _
  · split
    · exact List.cons_ne_nil _ _
    · split <;> exact List.cons_ne_nil _ _

namespace Definitions

/-- A point is added to its anchor, and other anchors stay as they are. -/
theorem anchor?_addBaseAnchor
    {definitions : Definitions}
    {glyph name other otherName : String}
    {component : UInt16}
    {point : Anchor} :
    (definitions.addBaseAnchor glyph name component point).anchor? other otherName =
      if other = glyph ∧ otherName = name
      then some (((definitions.anchor? glyph name).getD ∅).insert component point)
      else definitions.anchor? other otherName := by
  have points : ((definitions.anchors.getD glyph ∅).getD name ∅) =
      (definitions.anchor? glyph name).getD ∅ := by
    unfold anchor? OrderedMap.getD
    cases definitions.anchors.get? glyph <;> rfl
  simp only [addBaseAnchor, points, anchor?, OrderedMap.get?_insert]
  by_cases here : other = glyph
  · subst here
    by_cases same : otherName = name
    · simp [OrderedMap.get?_insert, same]
    · simp only [if_true, Option.bind_some, OrderedMap.get?_insert, same, and_false, if_false]
      unfold OrderedMap.getD
      cases definitions.anchors.get? other <;> rfl
  · simp [here]

/-- Every anchor has a point, at some component. -/
def AnchorsFilled (definitions : Definitions) : Prop :=
  ∀ glyph name points, definitions.anchor? glyph name = some points → points.entries ≠ []

theorem AnchorsFilled.add
    {definitions next : Definitions}
    {statement : Statement}
    {log : List Notice}
    (filled : definitions.AnchorsFilled)
    (added : definitions.add statement = ⟨log, .ok next⟩) :
    next.AnchorsFilled := by
  cases addStep_of_add added with
  | baseAnchor plain =>
      intro glyph name points found
      rw [anchor?_addBaseAnchor] at found
      split at found
      · cases found
        exact SortedMap.put_ne_nil _ _ _
      · exact filled glyph name points found
  | glyph | group | script | markAnchor | setting | lookup => exact filled

/-- Anchors that have been collected have points. -/
theorem anchorsFilled_of_collect
    {statements : List Statement}
    {glyphOrder : Option GlyphOrder}
    {definitions : Definitions}
    {log : List Notice}
    (collected : collect statements glyphOrder = ⟨log, .ok definitions⟩) :
    definitions.AnchorsFilled :=
  @collect_induction_add _ _ _ _ (fun _ => AnchorsFilled) nofun
    (fun _ _ _ _ _ filled added => filled.add added) collected

/-- A point that stands at a component is the one that is found there. -/
theorem pointAt?_of_mem
    {definitions : Definitions}
    {glyph name : String}
    {points : SortedMap UInt16 Anchor}
    {entry : UInt16 × Anchor}
    (given : definitions.anchor? glyph name = some points)
    (member : entry ∈ points.entries) :
    definitions.pointAt? glyph name entry.1.toNat = some entry.2 := by
  obtain ⟨first, found⟩ : ∃ first,
      points.entries.find? (·.1.toNat = entry.1.toNat) = some first :=
    Option.isSome_iff_exists.mp (List.find?_isSome.mpr ⟨entry, member, by simp⟩)
  have same : first.1 = entry.1 :=
    UInt16.toNat_inj.mp (by simpa using List.find?_some found)
  have first_eq := SortedMap.eq_of_mem_of_key_eq (List.mem_of_find?_eq_some found) member same
  rw [pointAt?, given, Option.bind_some, found, first_eq, Option.map_some]

/-! ## Points that a rule keeps -/

variable (definitions : Definitions)

/-- The number of components that the rule for a glyph has slots for. -/
def slotCount (glyph : String) : Nat :=
  if definitions.isMark glyph then 1
  else match definitions.ligatureComponents? glyph with
    | some count => count.toNat
    | none => 1

/-- The anchors of a glyph for some classes have no point at a component without a slot. -/
def FitsSlots (classes : List String) (glyph : String) : Prop :=
  ∀ markClass ∈ classes, ∀ points ∈ definitions.anchor? glyph markClass,
    ∀ entry ∈ points.entries, 1 ≤ entry.1.toNat ∧ entry.1.toNat ≤ definitions.slotCount glyph

instance (classes : List String) (glyph : String) :
    Decidable (definitions.FitsSlots classes glyph) :=
  inferInstanceAs (Decidable (∀ markClass ∈ classes,
    ∀ points ∈ definitions.anchor? glyph markClass, ∀ entry ∈ points.entries, _ ∧ _))

/-- The rule for a glyph has every point that its anchors for some classes have. -/
structure KeepsPoints (classes : List String) (glyph : String) (rule : Rule) : Prop where
  /-- A point stands in the slot of its component, for its class, and is written. -/
  kept : ∀ markClass ∈ classes, ∀ points ∈ definitions.anchor? glyph markClass,
    ∀ entry ∈ points.entries, ∃ index slot attachment,
      entry.1.toNat = index + 1 ∧ rule.slots[index]? = some slot ∧ attachment ∈ slot
        ∧ definitions.markClassName? markClass = some attachment.markClass
        ∧ attachment.anchor = some entry.2 ∧ Text.Holds rule.text attachment.text
  /-- Only ligatures have slots for which there is no point. -/
  anchored : ∀ base slot, rule = .markToBase base slot ∨ rule = .markToMark base slot →
    ∀ attachment ∈ slot, attachment.anchor.isSome

variable {definitions} {classes : List String} {glyph : String} {rule : Rule}

theorem IsAttachmentRule.length_slots
    (shaped : definitions.IsAttachmentRule classes glyph rule) :
    rule.slots.length = definitions.slotCount glyph := by
  cases shaped with
  | markToMark mark => simp [slotCount, mark, Rule.slots]
  | markToLigature noMark ligature size => simp [slotCount, noMark, ligature, Rule.slots, size]
  | markToBase noMark noLigature => simp [slotCount, noMark, noLigature, Rule.slots]

/-- A slot of the rule for a glyph has the points of its component. -/
theorem IsAttachmentRule.attachesAt
    {index : Nat}
    {slot : List Attachment}
    (shaped : definitions.IsAttachmentRule classes glyph rule)
    (taken : rule.slots[index]? = some slot) :
    definitions.AttachesAt glyph classes (index + 1) slot := by
  cases shaped with
  | markToMark _ attached =>
      rcases index with _ | index <;> cases taken
      exact attached
  | markToLigature _ _ _ attached => exact attached index slot taken
  | markToBase _ _ attached =>
      rcases index with _ | index <;> cases taken
      exact attached

/-- A point of a component that has a slot stands there. -/
theorem IsAttachmentRule.exists_attachment
    {markClass : String}
    {points : SortedMap UInt16 Anchor}
    {entry : UInt16 × Anchor}
    (shaped : definitions.IsAttachmentRule classes glyph rule)
    (listed : markClass ∈ classes)
    (given : definitions.anchor? glyph markClass = some points)
    (member : entry ∈ points.entries)
    (counted : 1 ≤ entry.1.toNat)
    (fits : entry.1.toNat ≤ definitions.slotCount glyph) :
    ∃ index slot attachment, entry.1.toNat = index + 1 ∧ rule.slots[index]? = some slot
      ∧ attachment ∈ slot ∧ definitions.markClassName? markClass = some attachment.markClass
      ∧ attachment.anchor = some entry.2 := by
  obtain ⟨index, index_eq⟩ := Nat.exists_eq_add_of_le' counted
  have inside : index < rule.slots.length := by
    rw [shaped.length_slots]
    omega
  have taken := List.getElem?_eq_getElem inside
  obtain ⟨attachment, present, named, anchored⟩ :=
    exists_of_mem_left (shaped.attachesAt taken) listed
  refine ⟨index, _, attachment, index_eq, taken, present, named, ?_⟩
  rw [anchored, ← index_eq, pointAt?_of_mem given member]

/-- The only slot of a rule has a point for each class if no point needs another slot. -/
theorem IsAttachmentRule.isSome_anchor
    {slot : List Attachment}
    {attachment : Attachment}
    (shaped : definitions.IsAttachmentRule classes glyph rule)
    (single : rule.slots = [slot])
    (carried : ∀ markClass ∈ classes, definitions.CanCarry glyph markClass)
    (filled : definitions.AnchorsFilled)
    (fits : definitions.FitsSlots classes glyph)
    (present : attachment ∈ slot) :
    attachment.anchor.isSome := by
  have one : definitions.slotCount glyph = 1 := by
    rw [← shaped.length_slots, single]
    rfl
  have attached : definitions.AttachesAt glyph classes 1 slot :=
    shaped.attachesAt (by rw [single]; rfl)
  obtain ⟨markClass, listed, _, anchored⟩ := exists_of_mem_right attached present
  obtain ⟨points, given⟩ := Option.isSome_iff_exists.mp (carried markClass listed).1
  obtain ⟨entry, rest, entries_eq⟩ := List.exists_cons_of_ne_nil (filled _ _ _ given)
  have member : entry ∈ points.entries := by simp [entries_eq]
  have ⟨counted, below⟩ := fits markClass listed points given entry member
  have first : entry.1.toNat = 1 := by omega
  rw [anchored, ← first, pointAt?_of_mem given member]
  rfl

/-- The rule for a glyph keeps all points exactly if each is for a component that has a slot. -/
theorem keepsPoints_iff
    (shaped : definitions.IsAttachmentRule classes glyph rule)
    (carried : ∀ markClass ∈ classes, definitions.CanCarry glyph markClass)
    (filled : definitions.AnchorsFilled) :
    definitions.KeepsPoints classes glyph rule ↔ definitions.FitsSlots classes glyph := by
  constructor
  · intro keeps markClass listed points given entry member
    obtain ⟨index, _, _, index_eq, taken, _⟩ :=
      keeps.kept markClass listed points given entry member
    have inside : index < rule.slots.length := (List.getElem?_eq_some_iff.mp taken).1
    rw [shaped.length_slots] at inside
    omega
  · intro fits
    refine ⟨fun markClass listed points given entry member => ?_, ?_⟩
    · obtain ⟨counted, below⟩ := fits markClass listed points given entry member
      obtain ⟨index, slot, attachment, index_eq, taken, present, named, anchored⟩ :=
        shaped.exists_attachment listed given member counted below
      refine ⟨index, slot, attachment, index_eq, taken, present, named, anchored, ?_⟩
      exact Rule.holds_text_of_mem_slots (List.mem_of_getElem? taken) present
        (Option.isSome_iff_exists.mpr ⟨_, anchored⟩)
    · intro base slot shape attachment present
      have single : rule.slots = [slot] := by
        rcases shape with rfl | rfl <;> rfl
      exact shaped.isSome_anchor single carried filled fits present

/--
The rules of an attachment that is translated keep every point of every base exactly if no
anchor that a base has for a listed class has a point at a component without a slot.
-/
theorem plainRules_attach_keepsPoints_iff
    {statements : List Statement}
    {glyphOrder : Option GlyphOrder}
    {log : List Notice}
    {location : Location}
    {bases : Coverage}
    {marks : List (Coverage × String)}
    {plain : PlainRules}
    (collected : collect statements glyphOrder = ⟨log, .ok definitions⟩)
    (resolved : definitions.plainRules location (.attach bases marks) = .ok plain) :
    ∃ glyphs classes served, definitions.expand location bases = .ok glyphs
      ∧ IsFirstOccurrences (marks.map Prod.snd) classes
      ∧ IsFirstOccurrences (if marks = [] then [] else glyphs) served
      ∧ List.Forall₂ (definitions.IsAttachmentRule classes) served plain.rules
      ∧ (List.Forall₂ (definitions.KeepsPoints classes) served plain.rules ↔
          ∀ glyph ∈ glyphs, definitions.FitsSlots (marks.map Prod.snd) glyph) := by
  obtain ⟨_, _, result⟩ := except_bind_eq_ok_iff.mp resolved
  obtain ⟨rules, written, result⟩ := except_bind_eq_ok_iff.mp result
  cases result
  obtain ⟨glyphs, expanded, _⟩ := except_bind_eq_ok_iff.mp written
  have shaped := forall₂_attachmentRules expanded written
  have carried := (exists_attachmentRules_iff expanded).mp ⟨rules, written⟩
  simp only [List.map_eq_nil_iff] at shaped
  refine ⟨glyphs, _, _, expanded, isFirstOccurrences_eraseDups _, isFirstOccurrences_eraseDups _,
    shaped, ?_⟩
  -- What a base keeps does not depend on how often it, or a class, is listed.
  have each : List.Forall₂ (definitions.KeepsPoints (marks.map Prod.snd).eraseDups)
      (if marks = [] then [] else glyphs).eraseDups rules ↔
        ∀ glyph ∈ (if marks = [] then [] else glyphs).eraseDups,
          definitions.FitsSlots (marks.map Prod.snd).eraseDups glyph := by
    refine forall₂_iff_forall_of_forall₂ shaped fun glyph listed rule shaped => ?_
    refine keepsPoints_iff shaped (fun markClass named => ?_)
      (anchorsFilled_of_collect collected)
    rw [List.mem_eraseDups] at listed named
    split at listed
    · cases listed
    · exact carried glyph listed markClass named
  rw [each]
  simp only [FitsSlots, List.mem_eraseDups]
  split
  · rename_i none
    simp [none]
  · rfl

theorem plainRules_attach_keepsPoints_iff_eachKind :
    ∃ log definitions plain, collect basesOfEachKind none = ⟨log, .ok definitions⟩
      ∧ definitions.plainRules ⟨1, 1⟩ (.attach [.glyph "f_f", .glyph "a", .glyph "acute"]
          [([.glyph "acute"], "top")]) = .ok plain
      ∧ (∀ glyph ∈ ["f_f", "a", "acute"], definitions.FitsSlots ["top"] glyph)
      ∧ ∃ classes served, IsFirstOccurrences ["top"] classes
          ∧ IsFirstOccurrences ["f_f", "a", "acute"] served
          ∧ List.Forall₂ (definitions.KeepsPoints classes) served plain.rules := by
  have facts : (collect basesOfEachKind none).result.toOption.map (fun definitions =>
      ((definitions.plainRules ⟨1, 1⟩ (.attach [.glyph "f_f", .glyph "a", .glyph "acute"]
          [([.glyph "acute"], "top")])).isOk,
        decide (∀ glyph ∈ ["f_f", "a", "acute"], definitions.FitsSlots ["top"] glyph))) =
      some (true, true) := by
    decide +kernel
  obtain ⟨log, definitions, collected⟩ : ∃ log definitions,
      collect basesOfEachKind none = ⟨log, .ok definitions⟩ :=
    Outcome.exists_of_isOk (by decide +kernel)
  simp only [collected, Except.toOption, Option.map_some, Option.some.injEq, Prod.mk.injEq,
    decide_eq_true_eq] at facts
  obtain ⟨translates, fits⟩ := facts
  obtain ⟨plain, resolved⟩ : ∃ plain, definitions.plainRules ⟨1, 1⟩
      (.attach [.glyph "f_f", .glyph "a", .glyph "acute"] [([.glyph "acute"], "top")]) =
        .ok plain := by
    cases result : definitions.plainRules ⟨1, 1⟩
        (.attach [.glyph "f_f", .glyph "a", .glyph "acute"] [([.glyph "acute"], "top")]) with
    | error error => simp [result, Except.isOk, Except.toBool] at translates
    | ok plain => exact ⟨plain, rfl⟩
  obtain ⟨_, classes, served, expanded, ofClasses, ofGlyphs, _, iff⟩ :=
    plainRules_attach_keepsPoints_iff collected resolved
  cases expanded
  exact ⟨log, definitions, plain, collected, resolved, fits, classes, served, ofClasses, ofGlyphs,
    iff.mpr fits⟩

/-- A point of a base at its second component may be in no rule at all. -/
theorem exists_not_keepsPoints :
    ¬ ∀ (statements : List Statement) (glyphOrder : Option GlyphOrder) (log : List Notice)
      (definitions : Definitions) (location : Location) (bases : Coverage)
      (marks : List (Coverage × String)) (plain : PlainRules) (glyphs : List String),
      collect statements glyphOrder = ⟨log, .ok definitions⟩ →
        definitions.plainRules location (.attach bases marks) = .ok plain →
        definitions.expand location bases = .ok glyphs →
        ∀ glyph ∈ glyphs, ∀ markClass ∈ marks.map Prod.snd,
          ∀ points ∈ definitions.anchor? glyph markClass, ∀ entry ∈ points.entries,
            ∃ rule ∈ plain.rules, ∃ slot ∈ rule.slots, ∃ attachment ∈ slot,
              attachment.anchor = some entry.2 := by
  intro always
  have facts : (collect [anchorOn "MARK_top" "acute" 1 10, anchorOn "top" "a" 2 20]
      none).result.toOption.map (fun definitions =>
        ((definitions.anchor? "a" "top").map SortedMap.entries,
          (definitions.plainRules ⟨1, 1⟩ (.attach [.glyph "a"]
            [([.glyph "acute"], "top")])).toOption.map PlainRules.rules)) =
      some (some [(2, ⟨20, 0, [], []⟩)],
        some [.markToBase (.glyph "a") [⟨none, "top"⟩]]) := by
    decide +kernel
  obtain ⟨log, definitions, collected⟩ : ∃ log definitions,
      collect [anchorOn "MARK_top" "acute" 1 10, anchorOn "top" "a" 2 20] none =
        ⟨log, .ok definitions⟩ :=
    Outcome.exists_of_isOk (by decide +kernel)
  simp only [collected, Except.toOption, Option.map_some, Option.some.injEq, Prod.mk.injEq]
    at facts
  obtain ⟨points, given, entries_eq⟩ := Option.map_eq_some_iff.mp facts.1
  obtain ⟨plain, resolved, rules_eq⟩ := Option.map_eq_some_iff.mp facts.2
  obtain ⟨rule, member, slot, listed, attachment, present, anchored⟩ :=
    always _ none log definitions ⟨1, 1⟩ [.glyph "a"] [([.glyph "acute"], "top")] plain ["a"]
      collected (except_eq_ok_of_toOption resolved) rfl "a" (by simp) "top" (by simp) points given
      (2, ⟨20, 0, [], []⟩) (by simp [entries_eq])
  rw [rules_eq, List.mem_singleton] at member
  subst member
  rw [List.mem_singleton.mp listed, List.mem_singleton] at present
  rw [present] at anchored
  cases anchored

end Definitions
end GlyphLayout
