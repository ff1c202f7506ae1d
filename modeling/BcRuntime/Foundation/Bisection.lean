import Mathlib.Tactic.Common
import Mathlib.Tactic.Linarith

/-!
Binary search over a half-open interval of positions, each classified by the
sign of a number: negative when the target lies further right, positive when it
lies further left. Nothing is said about what is stored at the positions.
-/

namespace Bisection

/-- The fuel bounds the number of probes; `bisect_eq_none` shows that the width
of the interval is enough of it. -/
def bisect (sign : Nat → Int) : Nat → Nat → Nat → Option Nat
  | 0, _, _ => none
  | fuel + 1, low, high =>
      if low < high then
        let mid := low + (high - low) / 2
        if sign mid = 0 then some mid
        else if sign mid < 0 then bisect sign fuel (mid + 1) high
        else bisect sign fuel low mid
      else none

def Ascending (sign : Nat → Int) (count : Nat) : Prop :=
  ∀ i j, i ≤ j → j < count → (sign j < 0 → sign i < 0) ∧ (0 < sign i → 0 < sign j)

theorem bisect_eq_some {sign : Nat → Int} {fuel low high i : Nat}
    (h : bisect sign fuel low high = some i) : sign i = 0 ∧ low ≤ i ∧ i < high := by
  induction fuel generalizing low high with
  | zero => simp [bisect] at h
  | succ fuel ih =>
      simp only [bisect] at h
      split at h
      · rename_i lt
        split at h
        · rename_i zero
          cases h
          exact ⟨zero, by omega, by omega⟩
        · split at h
          · obtain ⟨hs, hl, hh⟩ := ih h
            exact ⟨hs, by omega, hh⟩
          · obtain ⟨hs, hl, hh⟩ := ih h
            exact ⟨hs, hl, by omega⟩
      · simp at h

/-- A failed search leaves no matching position behind: what lies below the
interval is too small, what lies above it too large. -/
theorem bisect_eq_none {sign : Nat → Int} {count : Nat} (ascending : Ascending sign count)
    {fuel low high : Nat} (enough : high - low ≤ fuel) (bound : high ≤ count)
    (h : bisect sign fuel low high = none) :
    ∀ i, low ≤ i → i < high → sign i ≠ 0 := by
  induction fuel generalizing low high with
  | zero => intro i hl hh; omega
  | succ fuel ih =>
      intro i hl hh zero
      have lt : low < high := by omega
      simp only [bisect, lt, if_true] at h
      split at h
      · simp at h
      · rename_i nonzero
        split at h
        · rename_i neg
          -- the probe is too small, and so is everything at or before it
          by_cases hi : i ≤ low + (high - low) / 2
          · have := (ascending i _ hi (by omega)).1 neg
            omega
          · exact ih (by omega) bound h i (by omega) hh zero
        · rename_i nonneg
          by_cases hi : i < low + (high - low) / 2
          · exact ih (by omega) (by omega) h i hl hi zero
          · have pos : 0 < sign (low + (high - low) / 2) := by omega
            have := (ascending _ i (by omega) (by omega)).2 pos
            omega

/-- The search ends by itself: turns past the width of the interval are not taken. -/
theorem bisect_of_enough {sign : Nat → Int} {fuel fuel' low high : Nat}
    (enough : high - low ≤ fuel) (enough' : high - low ≤ fuel') :
    bisect sign fuel low high = bisect sign fuel' low high := by
  induction fuel generalizing fuel' low high with
  | zero =>
      have stop : ¬ low < high := by omega
      cases fuel' with
      | zero => rfl
      | succ fuel' => rw [bisect, bisect, if_neg stop]
  | succ fuel ih =>
      by_cases more : low < high
      · obtain ⟨fuel', rfl⟩ : ∃ n, fuel' = n + 1 := ⟨fuel' - 1, by omega⟩
        have right : bisect sign fuel (low + (high - low) / 2 + 1) high =
            bisect sign fuel' (low + (high - low) / 2 + 1) high := ih (by omega) (by omega)
        have left : bisect sign fuel low (low + (high - low) / 2) =
            bisect sign fuel' low (low + (high - low) / 2) := ih (by omega) (by omega)
        simp only [bisect, if_pos more, right, left]
      · cases fuel' with
        | zero => rw [bisect, bisect, if_neg more]
        | succ fuel' => rw [bisect, bisect, if_neg more, if_neg more]

end Bisection
