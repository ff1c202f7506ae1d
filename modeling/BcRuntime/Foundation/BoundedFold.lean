import Mathlib.Order.Lattice

/-!
Accumulation under a bound. A fold whose value only grows passes the bound at
some step exactly when it is past it at the end, so a loop that gives up as soon
as the bound is passed and one that checks at the end agree.
-/

namespace List

variable {α β : Type*} [LinearOrder α] {step : α → β → α}

theorem le_foldl (grows : ∀ a b, a ≤ step a b) (items : List β) (start : α) :
    start ≤ items.foldl step start := by
  induction items generalizing start with
  | nil => exact le_refl start
  | cons item items ih => exact le_trans (grows start item) (ih (step start item))

/-- The fold, given up at the first value past the bound. -/
def boundedFoldl (step : α → β → α) (bound : α) : List β → α → Option α
  | [], value => some value
  | item :: items, value =>
      if bound < step value item then none else boundedFoldl step bound items (step value item)

theorem boundedFoldl_eq (grows : ∀ a b, a ≤ step a b) {bound : α} (items : List β) {start : α}
    (inside : start ≤ bound) :
    boundedFoldl step bound items start =
      if items.foldl step start ≤ bound then some (items.foldl step start) else none := by
  induction items generalizing start with
  | nil => simp [boundedFoldl, inside]
  | cons item items ih =>
      rw [boundedFoldl, List.foldl_cons]
      by_cases past : bound < step start item
      · have ends_past := lt_of_lt_of_le past (le_foldl grows items (step start item))
        rw [if_pos past, if_neg (not_le.mpr ends_past)]
      · rw [if_neg past, ih (not_lt.mp past)]

end List
