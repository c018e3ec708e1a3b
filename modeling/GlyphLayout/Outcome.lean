import GlyphLayout.Notice

/-!
# Outcomes

What a step of a conversion comes to: the notices it gave, in order, and its result or the
error that ended it.  The notices given before an error are kept.
-/

namespace GlyphLayout

/-- The notices of a step and its result. -/
structure Outcome (α : Type) where
  log : List Notice
  result : Except ConversionError α

namespace Outcome

variable {α β γ : Type}

/-- A result without notices. -/
protected def pure (value : α) : Outcome α :=
  ⟨[], .ok value⟩

/-- One step after the other, unless the first ends in an error. -/
protected def bind (first : Outcome α) (next : α → Outcome β) : Outcome β :=
  match first.result with
  | .ok value => ⟨first.log ++ (next value).log, (next value).result⟩
  | .error error => ⟨first.log, .error error⟩

instance : Monad Outcome where
  pure := Outcome.pure
  bind := Outcome.bind

/-- Gives a notice. -/
def tell (notice : Notice) : Outcome Unit :=
  ⟨[notice], .ok ()⟩

/-- Gives a notice if the condition holds. -/
def tellIf (condition : Bool) (notice : Notice) : Outcome Unit :=
  if condition then tell notice else pure ()

/-- Ends in an error. -/
def fail (error : ConversionError) : Outcome α :=
  ⟨[], .error error⟩

/-- A result or an error without notices. -/
def ofExcept (result : Except ConversionError α) : Outcome α :=
  ⟨[], result⟩

instance : MonadLift (Except ConversionError) Outcome := ⟨ofExcept⟩

@[simp] theorem pure_def (value : α) : (pure value : Outcome α) = ⟨[], .ok value⟩ := rfl

/-- A step that succeeds is followed by the next, whose notices come behind its own. -/
theorem bind_ok {log : List Notice} (value : α) (next : α → Outcome β) :
    ((⟨log, .ok value⟩ : Outcome α) >>= next) =
      ⟨log ++ (next value).log, (next value).result⟩ := rfl

@[simp] theorem bind_error {log : List Notice} (error : ConversionError) (next : α → Outcome β) :
    ((⟨log, .error error⟩ : Outcome α) >>= next) = ⟨log, .error error⟩ := rfl

theorem map_id_of_outcome (outcome : Outcome α) : id <$> outcome = outcome := by
  obtain ⟨log, error | value⟩ := outcome
  · rfl
  · exact congrArg (fun log => Outcome.mk log _) (List.append_nil log)

/-- The notices of three steps are in order, however the steps are grouped. -/
theorem bind_assoc_of_outcome
    (first : Outcome α)
    (second : α → Outcome β)
    (third : β → Outcome γ) :
    first >>= second >>= third = first >>= fun value => second value >>= third := by
  obtain ⟨log, error | value⟩ := first
  · rfl
  · simp only [bind_ok]
    obtain ⟨inner, error | result⟩ := second value
    · rfl
    · simp only [bind_ok, List.append_assoc]

instance : LawfulMonad Outcome :=
  LawfulMonad.mk' Outcome map_id_of_outcome (fun _ _ => rfl) bind_assoc_of_outcome

/-- The notices up to the given rank of importance. -/
def shown (threshold : Nat) (log : List Notice) : List Notice :=
  log.filter fun notice => notice.level.rank ≤ threshold

end Outcome
end GlyphLayout
