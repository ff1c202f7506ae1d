import BcRuntime.Foundation.Splice

/-!
Steps on arrays and sizes that have no meaning when they leave their bounds: a
cell or a block outside of its array, a difference of sizes below zero. Such a
step gives nothing; a computation that goes on with what it gives ends without a
result as soon as one step is out of bounds.
-/

universe u

namespace Checked

section Steps
variable {α : Type u}

/-- `a - b` of two sizes. -/
def sub (a b : Nat) : Option Nat := if b ≤ a then some (a - b) else none

/-- An offset into an array of `size` cells, or to its end. -/
def offset (size i : Nat) : Option Nat := if i ≤ size then some i else none

def slice (array : List α) (start count : Nat) : Option (List α) :=
  if start + count ≤ array.length then some ((array.drop start).take count) else none

def write (array : List α) (start : Nat) (cells : List α) : Option (List α) :=
  if start + cells.length ≤ array.length then some (Splice.splice array start cells) else none

theorem sub_of_le {a b : Nat} (h : b ≤ a) : sub a b = some (a - b) := if_pos h

theorem offset_of_le {size i : Nat} (h : i ≤ size) : offset size i = some i := if_pos h

theorem slice_of_le {array : List α} {start count : Nat} (h : start + count ≤ array.length) :
    slice array start count = some ((array.drop start).take count) := if_pos h

theorem write_of_le {array cells : List α} {start : Nat}
    (h : start + cells.length ≤ array.length) :
    write array start cells = some (Splice.splice array start cells) := if_pos h

/-- A block written right behind the one that the array starts with. -/
theorem write_next {array front back : List α} {position : Nat} (behind : position = front.length)
    (h : (front ++ back).length ≤ array.length) :
    write (Splice.splice array 0 front) position back =
      some (Splice.splice array 0 (front ++ back)) := by
  subst behind
  rw [List.length_append] at h
  have front_fits : 0 + front.length ≤ array.length := by omega
  have joined : Splice.splice (Splice.splice array 0 front) (0 + front.length) back =
      Splice.splice array 0 (front ++ back) := Splice.splice_append (by omega)
  rw [Nat.zero_add] at joined
  rw [write_of_le (by rw [Splice.length_splice front_fits]; omega), joined]

end Steps

section Computations
variable {μ : Type u → Type u} [Monad μ] {α β : Type u}

/-- Go on with the result of a step, unless it is out of bounds. -/
def within (step : Option α) (next : α → μ (Option β)) : μ (Option β) :=
  match step with
  | none => pure none
  | some a => next a

@[simp] theorem within_some (a : α) (next : α → μ (Option β)) : within (some a) next = next a :=
  rfl

end Computations

end Checked
