import GlyphLayout.Feature.Document
import GlyphLayout.Proofs.Source.Literals

/-!
# The lines of comments

A comment in a lookup block takes lines of its own, each of which is empty behind the indentation
or begins with a number sign there.  The other lines of the block are those of the block without
its comments, whatever the comments say.
-/

namespace GlyphLayout
namespace Feature

open Text (joined pieces)

/-! ## Lines and where they come from -/

/-- The rule is a comment. -/
def Rule.isComment : Rule → Bool
  | comment _ => true
  | _ => false

theorem Rule.text_comment (text : String) :
    (comment text).text = joined ("\n" ++ indent) ((Text.lines text).map ("# " ++ ·)) := rfl

/-- A line of a block, with the rule that it belongs to, if there is one. -/
structure Line where
  rule : Option Rule
  text : List Char
deriving DecidableEq

namespace Line

/-- The line belongs to a comment. -/
def isComment (line : Line) : Bool :=
  line.rule.any Rule.isComment

/-- Nothing stands behind the indentation of the line, or a number sign comes first there. -/
def IsInert (line : Line) : Prop :=
  line.text = indent.toList ∨ ∃ rest, line.text = indent.toList ++ '#' :: rest

/-- The lines of a text that belongs to a rule, or to none. -/
def ofText (rule : Option Rule) (text : List Char) : List Line :=
  (pieces '\n' text).map fun piece => ⟨rule, piece⟩

theorem map_text_ofText (rule : Option Rule) (text : List Char) :
    (ofText rule text).map Line.text = pieces '\n' text := by
  rw [ofText, List.map_map]
  exact List.map_id _

end Line

namespace Lookup

/-- The text in front of the rules of a block. -/
def opening (lookup : Lookup) : List Char :=
  ("lookup " ++ lookup.name ++ (if lookup.useExtension then " useExtension" else "")
    ++ " \x7b").toList

/-- The text behind the rules of a block. -/
def closing (lookup : Lookup) : List Char :=
  ("\x7d " ++ lookup.name ++ ";").toList

/-- The lines of a block. -/
def lines (lookup : Lookup) : List Line :=
  Line.ofText none lookup.opening
    ++ lookup.rules.flatMap (fun rule => Line.ofText (some rule) (indent ++ rule.text).toList)
    ++ Line.ofText none lookup.closing

/-- The block without its comments. -/
def withoutComments (lookup : Lookup) : Lookup :=
  { lookup with rules := lookup.rules.filter fun rule => !rule.isComment }

/-! ## The lines of a block -/

theorem toList_joined_empty (texts : List String) :
    (joined "" texts).toList = texts.flatMap String.toList := by
  induction texts with
  | nil => rfl
  | cons first others ih =>
      cases others with
      | nil => simp
      | cons second others =>
          rw [Text.joined_cons_cons, String.append_empty, String.toList_append, ih]
          rfl

theorem pieces_rules (rules : List Rule) (closing : List Char) :
    pieces '\n' ((joined "" (rules.map fun rule => indent ++ rule.text ++ "\n")).toList
        ++ closing) =
      rules.flatMap (fun rule => pieces '\n' (indent ++ rule.text).toList)
        ++ pieces '\n' closing := by
  rw [toList_joined_empty]
  induction rules with
  | nil => rfl
  | cons rule rules ih =>
      have ended : (indent ++ rule.text ++ "\n").toList = (indent ++ rule.text).toList ++ ['\n'] :=
        String.toList_append
      rw [List.map_cons, List.flatMap_cons, ended, List.append_assoc, List.append_assoc,
        List.singleton_append, Source.pieces_append, ih, List.flatMap_cons, List.append_assoc]

/-- The lines of a block are those between the line feeds of its text. -/
theorem map_text_lines (lookup : Lookup) :
    lookup.lines.map Line.text = pieces '\n' lookup.text.toList := by
  have text : lookup.text.toList = lookup.opening ++ '\n' ::
      ((joined "" (lookup.rules.map fun rule => indent ++ rule.text ++ "\n")).toList
        ++ lookup.closing) := by
    rw [Lookup.text, opening, closing]
    simp only [String.toList_append, List.append_assoc]
    rfl
  rw [text, Source.pieces_append, pieces_rules, lines]
  simp only [List.map_append, List.map_flatMap, Line.map_text_ofText, List.append_assoc]

/-- The lines that belong to no comment are the lines of the block without comments. -/
theorem filter_lines (lookup : Lookup) :
    lookup.lines.filter (fun line => !line.isComment) = lookup.withoutComments.lines := by
  have kept (rule : Option Rule) (text : List Char) (other : rule.any Rule.isComment = false) :
      (Line.ofText rule text).filter (fun line => !line.isComment) = Line.ofText rule text := by
    refine List.filter_eq_self.mpr fun line member => ?_
    obtain ⟨piece, -, rfl⟩ := List.mem_map.mp member
    rw [Line.isComment, other, Bool.not_false]
  have dropped (rule : Rule) (text : List Char) (comment : rule.isComment = true) :
      (Line.ofText (some rule) text).filter (fun line => !line.isComment) = [] := by
    refine List.filter_eq_nil_iff.mpr fun line member => ?_
    obtain ⟨piece, -, rfl⟩ := List.mem_map.mp member
    simp [Line.isComment, comment]
  obtain ⟨name, useExtension, rules⟩ := lookup
  simp only [lines, withoutComments, opening, closing, List.filter_append, kept none _ rfl]
  congr 2
  induction rules with
  | nil => rfl
  | cons rule rules ih =>
      rw [List.flatMap_cons, List.filter_append, ih]
      cases comment : rule.isComment with
      | true =>
          rw [dropped rule _ comment, List.filter_cons_of_neg (by simp [comment]), List.nil_append]
      | false =>
          rw [kept (some rule) _ comment, List.filter_cons_of_pos (by simp [comment]),
            List.flatMap_cons]

end Lookup

/-! ## The lines of a comment -/

/-- The lines of a comment have the number sign and a space in front of them. -/
theorem pieces_comment
    {lines : List String}
    (filled : lines ≠ [])
    (clean : ∀ line ∈ lines, '\n' ∉ line.toList) :
    pieces '\n' (indent.toList ++ (joined ("\n" ++ indent) (lines.map ("# " ++ ·))).toList) =
      lines.map fun line => indent.toList ++ ("# " ++ line).toList := by
  have one {line : String} (clean : '\n' ∉ line.toList) :
      '\n' ∉ indent.toList ++ ("# " ++ line).toList := by
    simp [indent, clean]
  induction lines with
  | nil => exact absurd rfl filled
  | cons first others ih =>
      obtain ⟨cleanFirst, cleanOthers⟩ := List.forall_mem_cons.mp clean
      cases others with
      | nil =>
          rw [List.map_singleton, Text.joined_singleton, Source.pieces_of_clean (one cleanFirst),
            List.map_singleton]
      | cons second others =>
          have split : indent.toList ++
              (joined ("\n" ++ indent) ((first :: second :: others).map ("# " ++ ·))).toList =
              (indent.toList ++ ("# " ++ first).toList) ++ '\n' :: (indent.toList ++
                (joined ("\n" ++ indent) ((second :: others).map ("# " ++ ·))).toList) := by
            rw [List.map_cons, List.map_cons, Text.joined_cons_cons]
            simp only [String.toList_append, List.append_assoc]
            rfl
          rw [split, Source.pieces_append_separator (one cleanFirst), ih (by simp) cleanOthers]
          rfl

theorem Line.isInert_of_comment
    {text : String} {line : Line}
    (member : line ∈
      Line.ofText (some (.comment text)) (indent ++ (Rule.comment text).text).toList) :
    line.IsInert := by
  obtain ⟨piece, inside, rfl⟩ := List.mem_map.mp member
  rw [Rule.text_comment, String.toList_append] at inside
  by_cases none : Text.lines text = []
  · -- An empty comment leaves a line with nothing but the indentation.
    left
    rw [none] at inside
    exact List.mem_singleton.mp inside
  · right
    have clean : ∀ line ∈ Text.lines text, '\n' ∉ line.toList := by
      intro line listed
      obtain ⟨characters, among, rfl⟩ := List.mem_map.mp listed
      rw [String.toList_ofList]
      exact Text.newline_not_mem_of_mem_linesFrom [] _ (by simp) characters among
    rw [pieces_comment none clean] at inside
    obtain ⟨line, -, rfl⟩ := List.mem_map.mp inside
    refine ⟨' ' :: line.toList, ?_⟩
    rw [String.toList_append]
    rfl

/-- A line that belongs to a comment is one of those that the comment makes. -/
theorem Lookup.exists_comment_of_mem_lines
    {lookup : Lookup} {line : Line}
    (member : line ∈ lookup.lines)
    (belongs : line.isComment = true) :
    ∃ text, .comment text ∈ lookup.rules ∧
      line ∈ Line.ofText (some (.comment text)) (indent ++ (Rule.comment text).text).toList := by
  have outside (text : List Char) : line ∉ Line.ofText none text := by
    intro inside
    obtain ⟨piece, -, rfl⟩ := List.mem_map.mp inside
    cases belongs
  rw [lines, List.mem_append, List.mem_append] at member
  obtain ⟨rule, listed, inside⟩ :=
    List.mem_flatMap.mp ((member.resolve_right (outside _)).resolve_left (outside _))
  obtain ⟨piece, -, same⟩ := List.mem_map.mp inside
  rw [← same] at belongs
  cases rule with
  | comment text => exact ⟨text, listed, inside⟩
  | _ => cases belongs

/--
The text of a block consists of its lines.  Those that belong to a comment are inert, and without
them there remain the lines of the block without its comments.
-/
theorem comments_inert (lookup : Lookup) :
    lookup.lines.map Line.text = pieces '\n' lookup.text.toList ∧
    (lookup.lines.filter fun line => !line.isComment).map Line.text =
      pieces '\n' lookup.withoutComments.text.toList ∧
    ∀ line ∈ lookup.lines, line.isComment = true → line.IsInert := by
  refine ⟨lookup.map_text_lines, ?_, fun line member belongs => ?_⟩
  · rw [lookup.filter_lines, lookup.withoutComments.map_text_lines]
  · obtain ⟨text, -, inside⟩ := Lookup.exists_comment_of_mem_lines member belongs
    exact Line.isInert_of_comment inside

/-- A block with an empty comment, and with one whose text would close the block. -/
def hostileComments : Lookup :=
  { name := "liga"
    rules := [.comment "", .subtable, .comment "\x7d liga;\r\n\nsub a by b;\r"] }

theorem comments_inert_hostile :
    (hostileComments.lines.filter fun line => !line.isComment).map Line.text =
      pieces '\n' "lookup liga \x7b\n    subtable;\n\x7d liga;".toList ∧
    (∃ line ∈ hostileComments.lines, line.isComment = true ∧
      line.text = "    # sub a by b;\r".toList ∧ line.IsInert) := by
  obtain ⟨-, remaining, inert⟩ := comments_inert hostileComments
  have listed : ⟨some (.comment "\x7d liga;\r\n\nsub a by b;\r"),
      "    # sub a by b;\r".toList⟩ ∈ hostileComments.lines := by
    decide +kernel
  exact ⟨remaining, _, listed, rfl, rfl, inert _ listed rfl⟩

end Feature
end GlyphLayout
