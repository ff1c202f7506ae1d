import Mathlib.Order.Lattice
import Mathlib.Order.Lex
import Mathlib.Data.List.Lex
import Mathlib.Data.List.TakeDrop

/-!
The lexicographic order of lists as a comparison of a common prefix followed by
a comparison of lengths. This is the shape in which a three-way comparison of
counted strings computes it: the order itself is Mathlib's on `List`.
-/

instance UInt8.instLinearOrder : LinearOrder UInt8 where
  le_refl := UInt8.le_refl
  le_trans _ _ _ := UInt8.le_trans
  le_antisymm _ _ := UInt8.le_antisymm
  le_total := UInt8.le_total
  lt_iff_le_not_ge a b := by simp [UInt8.lt_iff_le_and_ne, UInt8.not_le]
  toDecidableLE := inferInstance
  toDecidableEq := inferInstance
  toDecidableLT := inferInstance

namespace ByteOrder

variable {α : Type*} [LinearOrder α]

omit [LinearOrder α] in
/-- Lists that agree on their common prefix are equal when equally long. -/
theorem eq_iff_take_min (xs ys : List α) :
    xs = ys ↔
      xs.take (min xs.length ys.length) = ys.take (min xs.length ys.length) ∧
        xs.length = ys.length := by
  constructor
  · rintro rfl
    exact ⟨rfl, rfl⟩
  · rintro ⟨agree, lengths⟩
    rw [lengths, Nat.min_self, List.take_length] at agree
    rwa [← lengths, List.take_length] at agree

/-- The first difference decides; without one the shorter list comes first. -/
theorem lt_iff_take_min (xs ys : List α) :
    xs < ys ↔
      xs.take (min xs.length ys.length) < ys.take (min xs.length ys.length) ∨
        (xs.take (min xs.length ys.length) = ys.take (min xs.length ys.length) ∧
          xs.length < ys.length) := by
  induction xs generalizing ys with
  | nil => cases ys <;> simp
  | cons x xs ih =>
      cases ys with
      | nil => simp
      | cons y ys =>
          simp only [List.length_cons, Nat.add_min_add_right, List.take_succ_cons,
            List.cons_lt_cons_iff, List.cons.injEq, Nat.add_lt_add_iff_right, ih ys]
          tauto

end ByteOrder
