import Mathlib.Data.List.Basic

/-!
Runs of a step function, with what every step of a run meets. When a step keeps
a property exactly if it meets a condition, a run keeps the property exactly if
all its steps meet theirs; so a property that is once lost is not regained.
-/

namespace Runs

variable {σ α : Type*} {step : σ → α → σ} {I P : σ → Prop} {C : σ → α → Prop}

/-- Every step of the run from `s` meets the condition in the state it is taken in. -/
def Along (step : σ → α → σ) (C : σ → α → Prop) : σ → List α → Prop
  | _, [] => True
  | s, a :: as => C s a ∧ Along step C (step s a) as

theorem foldl_keeps (kept : ∀ s a, I s → I (step s a)) (as : List α) {s : σ} (start : I s) :
    I (as.foldl step s) := by
  induction as generalizing s with
  | nil => exact start
  | cons a as ih => exact ih (kept s a start)

/-- What relates the states of each step relates the ends of a run. -/
theorem foldl_relates {R : σ → σ → Prop} [Std.Refl R] [IsTrans σ R]
    (kept : ∀ s a, I s → I (step s a)) (related : ∀ s a, I s → R s (step s a)) (as : List α)
    {s : σ} (start : I s) : R s (as.foldl step s) := by
  induction as generalizing s with
  | nil => exact Std.Refl.refl s
  | cons a as ih => exact IsTrans.trans _ _ _ (related s a start) (ih (kept s a start))

theorem Along.append {s : σ} {first rest : List α} :
    Along step C s (first ++ rest) ↔
      Along step C s first ∧ Along step C (first.foldl step s) rest := by
  induction first generalizing s with
  | nil => simp [Along]
  | cons a first ih => simp only [List.cons_append, Along, ih, List.foldl_cons, and_assoc]

variable (kept : ∀ s a, I s → I (step s a))
  (exactly : ∀ s a, I s → (P (step s a) ↔ P s ∧ C s a))
include kept exactly

/-- The property holds after a run exactly when it held before and every step kept it. -/
theorem foldl_iff_along (as : List α) {s : σ} (start : I s) :
    P (as.foldl step s) ↔ P s ∧ Along step C s as := by
  induction as generalizing s with
  | nil => simp [Along]
  | cons a as ih =>
      rw [List.foldl_cons, ih (kept s a start), exactly s a start, Along, and_assoc]

/-- And so it does in every state of the run. -/
theorem throughout_iff_along (as : List α) {s : σ} (start : I s) (before : P s) :
    (∀ first, first <+: as → P (first.foldl step s)) ↔ Along step C s as := by
  constructor
  · intro throughout
    exact ((foldl_iff_along kept exactly as start).mp (throughout as List.prefix_rfl)).2
  · rintro along first ⟨rest, whole⟩
    subst whole
    exact (foldl_iff_along kept exactly first start).mpr ⟨before, (Along.append.mp along).1⟩

end Runs
