import Mathlib.Data.Nat.Log
import BcRuntime.Foundation.Bisection

/-!
Computations that count some of their steps. The value is that of the computation
without the count, which is a theorem about each of them and never an assumption.
-/

universe u

/-- A value, and how many steps have been counted for it. -/
structure Counted (α : Type u) where
  value : α
  count : Nat

namespace Counted

variable {α β : Type u}

instance : Monad Counted where
  pure a := ⟨a, 0⟩
  bind c f := ⟨(f c.value).value, c.count + (f c.value).count⟩

def step (a : α) : Counted α := ⟨a, 1⟩

@[simp] theorem value_pure (a : α) : (pure a : Counted α).value = a := rfl
@[simp] theorem count_pure (a : α) : (pure a : Counted α).count = 0 := rfl
@[simp] theorem value_step (a : α) : (step a).value = a := rfl
@[simp] theorem count_step (a : α) : (step a).count = 1 := rfl

@[simp] theorem value_bind (c : Counted α) (f : α → Counted β) :
    (c >>= f).value = (f c.value).value := rfl

@[simp] theorem count_bind (c : Counted α) (f : α → Counted β) :
    (c >>= f).count = c.count + (f c.value).count := rfl

theorem value_step_bind (a : α) (f : α → Counted β) : (step a >>= f).value = (f a).value := rfl

theorem count_step_bind (a : α) (f : α → Counted β) :
    (step a >>= f).count = (f a).count + 1 := Nat.add_comm 1 _

end Counted

namespace Bisection

/-- `bisect` with its probes counted. -/
def countedBisect (sign : Nat → Int) : Nat → Nat → Nat → Counted (Option Nat)
  | 0, _, _ => pure none
  | fuel + 1, low, high =>
      if low < high then do
        let mid := low + (high - low) / 2
        let probed ← Counted.step (sign mid)
        if probed = 0 then pure (some mid)
        else if probed < 0 then countedBisect sign fuel (mid + 1) high
        else countedBisect sign fuel low mid
      else pure none

variable (sign : Nat → Int)

theorem value_countedBisect (fuel low high : Nat) :
    (countedBisect sign fuel low high).value = bisect sign fuel low high := by
  induction fuel generalizing low high with
  | zero => rfl
  | succ fuel ih =>
      rw [countedBisect, bisect]
      by_cases more : low < high
      · rw [if_pos more, if_pos more, Counted.value_step_bind]
        simp only [apply_ite Counted.value, Counted.value_pure, ih]
      · rw [if_neg more, if_neg more]
        rfl

/-- Each probe leaves less than half of the interval. -/
theorem count_countedBisect_le {width : Nat} (fuel low high : Nat)
    (narrow : high - low < 2 ^ width) : (countedBisect sign fuel low high).count ≤ width := by
  induction fuel generalizing low high width with
  | zero => exact Nat.zero_le _
  | succ fuel ih =>
      rw [countedBisect]
      by_cases more : low < high
      · cases width with
        | zero => omega
        | succ width =>
            have right : (countedBisect sign fuel (low + (high - low) / 2 + 1) high).count ≤
                width := ih _ _ (by omega)
            have left : (countedBisect sign fuel low (low + (high - low) / 2)).count ≤ width :=
              ih _ _ (by omega)
            rw [if_pos more, Counted.count_step_bind]
            simp only [apply_ite Counted.count, Counted.count_pure]
            split_ifs <;> omega
      · rw [if_neg more]
        exact Nat.zero_le _

theorem count_countedBisect_le_log (fuel count : Nat) :
    (countedBisect sign fuel 0 count).count ≤ Nat.log 2 count + 1 :=
  count_countedBisect_le sign fuel 0 count (Nat.lt_pow_succ_log_self Nat.one_lt_two count)

/-- A search that is always sent to the left probes as often as the width halves. -/
theorem count_countedBisect_left {fuel low high : Nat} (enough : high - low ≤ fuel)
    (left : ∀ mid, low ≤ mid → mid < high → 0 < sign mid) (some : low < high) :
    (countedBisect sign fuel low high).count = Nat.log 2 (high - low) + 1 := by
  induction fuel generalizing high with
  | zero => omega
  | succ fuel ih =>
      have probed := left (low + (high - low) / 2) (by omega) (by omega)
      rw [countedBisect, if_pos some, Counted.count_step_bind, if_neg (by omega),
        if_neg (by omega)]
      refine congrArg (· + 1) ?_
      by_cases wide : high - low < 2
      · have nothing : ¬ low < low + (high - low) / 2 := by omega
        rw [Nat.log_of_lt wide]
        cases fuel with
        | zero => rfl
        | succ fuel => rw [countedBisect, if_neg nothing]; rfl
      · have half : (countedBisect sign fuel low (low + (high - low) / 2)).count =
            Nat.log 2 (low + (high - low) / 2 - low) + 1 :=
          ih (by omega) (fun mid above below => left mid above (by omega)) (by omega)
        rw [half, Nat.add_sub_cancel_left, Nat.log_div_base]
        have positive : 0 < Nat.log 2 (high - low) := Nat.log_pos Nat.one_lt_two (by omega)
        omega

end Bisection
