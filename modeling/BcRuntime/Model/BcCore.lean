import BcRuntime.Model.CString
import Mathlib.Algebra.Group.Nat.Defs

/-!
What the runtime relies on of `bc_core`. The library is not part of the
repository: its functions are parameters, and the laws below are the documented
behaviour the callers depend on. Whether a call succeeds is decided elsewhere,
by the host; a law speaks about the result of a call that succeeded.
-/

namespace BcRuntime

def sizeMax : Nat := 2 ^ 64

def asciiLower (b : UInt8) : UInt8 := if 65 ≤ b ∧ b ≤ 90 then b + 32 else b

class BcCore where
  /-- `bc_core_length(text, 0, …)` counts the bytes before the NUL. -/
  length : CString → Nat
  length_eq : ∀ text, length text = text.length
  /-- `bc_core_equal` compares the first bytes of two regions of that size. -/
  equal : List UInt8 → List UInt8 → Nat → Bool
  equal_iff : ∀ left right count, count ≤ left.length → count ≤ right.length →
    (equal left right count = true ↔ left.take count = right.take count)
  /-- Only the sign of `bc_core_compare` is documented. -/
  compare : List UInt8 → List UInt8 → Nat → Int
  compare_neg : ∀ left right count, count ≤ left.length → count ≤ right.length →
    (compare left right count < 0 ↔ left.take count < right.take count)
  compare_zero : ∀ left right count, count ≤ left.length → count ≤ right.length →
    (compare left right count = 0 ↔ left.take count = right.take count)
  /-- `bc_core_find_byte` yields the first offset of the byte, or fails. -/
  findByte : List UInt8 → UInt8 → Option Nat
  findByte_eq : ∀ data byte, findByte data byte = data.idxOf? byte
  startsWith : List UInt8 → List UInt8 → Bool
  startsWith_eq : ∀ data start, startsWith data start = start.isPrefixOf data
  equalCaseInsensitiveAscii : List UInt8 → List UInt8 → Bool
  equalCaseInsensitiveAscii_iff : ∀ left right,
    equalCaseInsensitiveAscii left right = true ↔
      left.map asciiLower = right.map asciiLower
  /-- The checked `size_t` operations fail exactly when the result wraps. -/
  safeMultiply : Nat → Nat → Option Nat
  safeMultiply_eq : ∀ a b, safeMultiply a b = if a * b < sizeMax then some (a * b) else none
  safeAdd : Nat → Nat → Option Nat
  safeAdd_eq : ∀ a b, safeAdd a b = if a + b < sizeMax then some (a + b) else none
  /-- What a buffer-only writer of a capacity holds after a sequence of writes. -/
  writerData : Nat → List (List UInt8) → List UInt8
  writerData_sublist : ∀ capacity pieces, (writerData capacity pieces).Sublist pieces.flatten
  writerData_length : ∀ capacity pieces, (writerData capacity pieces).length ≤ capacity
  writerData_fits : ∀ capacity pieces, pieces.flatten.length ≤ capacity →
    writerData capacity pieces = pieces.flatten

/-- The laws can be met: the functions they describe, with no freedom left. -/
@[reducible] def BcCore.reference : BcCore where
  length text := text.bytes.length
  length_eq _ := rfl
  equal left right count := left.take count = right.take count
  equal_iff := by simp
  compare left right count :=
    if left.take count < right.take count then -1
    else if left.take count = right.take count then 0 else 1
  compare_neg left right count _ _ := by
    by_cases lt : left.take count < right.take count
    · simp [lt]
    · by_cases eq : left.take count = right.take count <;> simp [lt, eq]
  compare_zero left right count _ _ := by
    by_cases lt : left.take count < right.take count
    · simp [lt, ne_of_lt lt]
    · by_cases eq : left.take count = right.take count <;> simp [lt, eq]
  findByte data byte := data.idxOf? byte
  findByte_eq _ _ := rfl
  startsWith data start := start.isPrefixOf data
  startsWith_eq _ _ := rfl
  equalCaseInsensitiveAscii left right := left.map asciiLower = right.map asciiLower
  equalCaseInsensitiveAscii_iff := by simp
  safeMultiply a b := if a * b < sizeMax then some (a * b) else none
  safeMultiply_eq _ _ := rfl
  safeAdd a b := if a + b < sizeMax then some (a + b) else none
  safeAdd_eq _ _ := rfl
  writerData capacity pieces := pieces.flatten.take capacity
  writerData_sublist _ _ := List.take_sublist _ _
  writerData_length _ _ := List.length_take_le _ _
  writerData_fits _ _ h := List.take_of_length_le h

end BcRuntime
