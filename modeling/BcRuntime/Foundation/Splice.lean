import Mathlib.Data.List.Basic
import Mathlib.Data.List.TakeDrop
import Mathlib.Tactic.Common

/-!
Overwriting a stretch of an array seen as a list, one cell at a time or as one
copy of a block.
-/

namespace Splice

variable {α : Type*}

/-- The list with the cells from `start` on replaced by `cells`. -/
def splice (l : List α) (start : Nat) (cells : List α) : List α :=
  l.take start ++ cells ++ l.drop (start + cells.length)

@[simp] theorem splice_nil (l : List α) (start : Nat) : splice l start [] = l := by
  simp [splice]

theorem length_splice {l : List α} {start : Nat} {cells : List α}
    (fits : start + cells.length ≤ l.length) : (splice l start cells).length = l.length := by
  simp only [splice, List.length_append, List.length_take, List.length_drop]
  omega

theorem splice_set {l : List α} {start : Nat} (inside : start < l.length) (cell : α)
    (cells : List α) :
    splice (l.set start cell) (start + 1) cells = splice l start (cell :: cells) := by
  have front : (l.set start cell).take (start + 1) = l.take start ++ [cell] := by
    rw [List.take_succ_eq_append_getElem (by simpa using inside),
      List.take_set_of_le (Nat.le_refl start)]
    simp
  have back : (l.set start cell).drop (start + 1 + cells.length) =
      l.drop (start + 1 + cells.length) := List.drop_set_of_lt (by omega)
  rw [splice, splice, front, back, List.length_cons, List.append_assoc, List.append_assoc,
    List.append_assoc, List.singleton_append, Nat.add_assoc, Nat.add_comm 1, List.cons_append]

theorem splice_append {l : List α} {start : Nat} {front back : List α}
    (fits : start + front.length + back.length ≤ l.length) :
    splice (splice l start front) (start + front.length) back =
      splice l start (front ++ back) := by
  have len : (l.take start).length = start := by simp; omega
  have first : (splice l start front).take (start + front.length) = l.take start ++ front := by
    rw [splice, List.take_left' (by simp [len])]
  have last : (splice l start front).drop (start + front.length + back.length) =
      l.drop (start + front.length + back.length) := by
    rw [splice, ← List.drop_drop, List.drop_left' (by simp [len]), List.drop_drop]
  rw [splice, first, last, splice, List.length_append, Nat.add_assoc]
  simp only [List.append_assoc]

/-- What was written is read back. -/
theorem take_splice {l : List α} {start : Nat} {cells : List α} (fits : start ≤ l.length) :
    (splice l start cells).take (start + cells.length) = l.take start ++ cells := by
  rw [splice, List.take_left' (by simp; omega)]

end Splice
