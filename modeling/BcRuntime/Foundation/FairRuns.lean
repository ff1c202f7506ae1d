import Mathlib.Data.Nat.Init
import Mathlib.Order.Basic

/-!
Runs that never end. When some actions are taken again and again and each of them
lowers a rank that no other action raises, the goal is reached; the rank may start
again from above once the goal has been reached.
-/

namespace FairRuns

variable {σ α : Type*} (step : σ → α → σ)

/-- The state before the `n`-th action of a schedule. -/
def after (start : σ) (schedule : Nat → α) : Nat → σ
  | 0 => start
  | n + 1 => step (after start schedule n) (schedule n)

variable {step} {start : σ} {schedule : Nat → α} {I Q : σ → Prop} {H : α → Prop}

theorem after_keeps (kept : ∀ s a, I s → I (step s a)) (first : I start) (n : Nat) :
    I (after step start schedule n) := by
  induction n with
  | zero => exact first
  | succ n ih => exact kept _ _ ih

theorem after_keeps_from {n : Nat} (kept : ∀ k, n ≤ k → I (after step start schedule k) →
    I (after step start schedule (k + 1))) (first : I (after step start schedule n)) {k : Nat}
    (later : n ≤ k) : I (after step start schedule k) := by
  induction k, later using Nat.le_induction with
  | base => exact first
  | succ k later ih => exact kept k later ih

/-- The ranking rule. -/
theorem eventually (rank : σ → Nat)
    (stays : ∀ s a, I s → ¬ Q s → Q (step s a) ∨ I (step s a) ∧ rank (step s a) ≤ rank s)
    (helps : ∀ s a, I s → ¬ Q s → H a → Q (step s a) ∨ rank (step s a) < rank s)
    (often : ∀ n, ∃ k, n ≤ k ∧ H (schedule k)) (n : Nat)
    (here : I (after step start schedule n)) : ∃ k, n ≤ k ∧ Q (after step start schedule k) := by
  by_contra never
  have notYet : ∀ k, n ≤ k → ¬ Q (after step start schedule k) :=
    fun k later goal => never ⟨k, later, goal⟩
  have kept : ∀ k, n ≤ k → I (after step start schedule k) := fun k later =>
    after_keeps_from (fun k later inside =>
      ((stays _ _ inside (notYet k later)).resolve_left (notYet _ (Nat.le_succ_of_le later))).1)
      here later
  have falls : ∀ k, n ≤ k → ∀ m, k ≤ m →
      rank (after step start schedule m) ≤ rank (after step start schedule k) := by
    intro k later m after_k
    induction m, after_k using Nat.le_induction with
    | base => exact Nat.le_refl _
    | succ m after_k ih =>
        have inside := kept m (Nat.le_trans later after_k)
        have late := Nat.le_trans later after_k
        exact Nat.le_trans ((stays _ _ inside (notYet m late)).resolve_left
          (notYet _ (Nat.le_succ_of_le late))).2 ih
  -- the rank at a time is a bound on the helpful actions still to come
  have bounded : ∀ bound k, n ≤ k → ¬ rank (after step start schedule k) < bound := by
    intro bound
    induction bound with
    | zero => exact fun _ _ => Nat.not_lt_zero _
    | succ bound ih =>
        intro k later small
        obtain ⟨m, after_k, helped⟩ := often k
        have late := Nat.le_trans later after_k
        have lower := (helps _ _ (kept m late) (notYet m late) helped).resolve_left
          (notYet _ (Nat.le_succ_of_le late))
        refine ih (m + 1) (Nat.le_succ_of_le late) (Nat.lt_of_lt_of_le lower ?_)
        exact Nat.le_trans (falls k later m after_k) (Nat.le_of_lt_succ small)
  exact bounded _ n (Nat.le_refl n) (Nat.lt_succ_self _)

end FairRuns
