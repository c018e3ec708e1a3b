import GlyphLayout.Map.Sorted

/-!
# Places of marks

A mark glyph may belong to several mark classes, and to one class at several components.
Places are ordered by glyph, then by class, then by component.
-/

namespace GlyphLayout

/-- A mark glyph as a member of a mark class. -/
structure MarkMember where
  glyph : String
  markClass : String
deriving Repr, DecidableEq

namespace MarkMember

/-- The order of members: by glyph, then by class. -/
def Precedes (first second : MarkMember) : Prop :=
  first.glyph < second.glyph
    ∨ (first.glyph = second.glyph ∧ first.markClass < second.markClass)

instance : LT MarkMember := ⟨Precedes⟩

instance : DecidableLT MarkMember := fun _ _ =>
  inferInstanceAs (Decidable (_ ∨ (_ ∧ _)))

theorem lt_trans
    {first second third : MarkMember}
    (lower : first < second)
    (upper : second < third) :
    first < third := by
  rcases lower with lower | ⟨same, lower⟩
  · rcases upper with upper | ⟨equal, _⟩
    · exact .inl (String.lt_trans lower upper)
    · exact .inl (equal ▸ lower)
  · rcases upper with upper | ⟨equal, upper⟩
    · exact .inl (same ▸ upper)
    · exact .inr ⟨same.trans equal, String.lt_trans lower upper⟩

instance : Trans (α := MarkMember) (β := MarkMember) (γ := MarkMember) (· < ·) (· < ·) (· < ·) :=
  ⟨lt_trans⟩

end MarkMember

/-- A component of a member of a mark class. -/
structure MarkPlace where
  member : MarkMember
  component : UInt16
deriving Repr, DecidableEq

namespace MarkPlace

/-- The order of places: by member, then by component. -/
def Precedes (first second : MarkPlace) : Prop :=
  first.member < second.member
    ∨ (first.member = second.member ∧ first.component < second.component)

instance : LT MarkPlace := ⟨Precedes⟩

instance : DecidableLT MarkPlace := fun _ _ =>
  inferInstanceAs (Decidable (_ ∨ (_ ∧ _)))

theorem lt_trans
    {first second third : MarkPlace}
    (lower : first < second)
    (upper : second < third) :
    first < third := by
  rcases lower with lower | ⟨same, lower⟩
  · rcases upper with upper | ⟨equal, _⟩
    · exact .inl (MarkMember.lt_trans lower upper)
    · exact .inl (equal ▸ lower)
  · rcases upper with upper | ⟨equal, upper⟩
    · exact .inl (same ▸ upper)
    · exact .inr ⟨same.trans equal, UInt16.lt_trans lower upper⟩

instance : Trans (α := MarkPlace) (β := MarkPlace) (γ := MarkPlace) (· < ·) (· < ·) (· < ·) :=
  ⟨lt_trans⟩

end MarkPlace
end GlyphLayout
