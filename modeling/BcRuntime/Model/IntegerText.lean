import BcRuntime.Model.CString
import Mathlib.Algebra.Group.Int.Defs

/-!
Decimal integers as text: an optional sign and one or more digits, and the
integer such a text denotes.
-/

namespace BcRuntime

def isDigit (b : UInt8) : Bool := 48 ≤ b && b ≤ 57
def isSign (b : UInt8) : Bool := b = 45 || b = 43

/-- An optional sign and one or more digits. -/
def IntegerText (text : List UInt8) : Prop :=
  ∃ sign digits, text = sign ++ digits ∧ (sign = [] ∨ ∃ b, isSign b = true ∧ sign = [b]) ∧
    digits ≠ [] ∧ ∀ b ∈ digits, isDigit b = true

def digitStep (value : Nat) (digit : UInt8) : Nat := value * 10 + (digit.toNat - 48)

/-- The number a list of digits denotes, the most significant one first. -/
def digitsValue (digits : List UInt8) : Nat := digits.foldl digitStep 0

/-- How many bytes of a text are its sign. -/
def signLength (text : List UInt8) : Nat := if isSign (text.getD 0 0) then 1 else 0

/-- The integer a text denotes: a `-` negates, a `+` is skipped. -/
def integerValue (text : List UInt8) : Int :=
  if text.getD 0 0 = dash then -digitsValue (text.drop (signLength text))
  else digitsValue (text.drop (signLength text))

def InLongRange (n : Int) : Prop := -2 ^ 63 ≤ n ∧ n ≤ 2 ^ 63 - 1

instance (n : Int) : Decidable (InLongRange n) := inferInstanceAs (Decidable (_ ∧ _))

theorem digitStep_grows (value : Nat) (digit : UInt8) : value ≤ digitStep value digit := by
  simp only [digitStep]
  omega

theorem isSign_not_isDigit {b : UInt8} (h : isSign b = true) : isDigit b = false := by
  simp only [isSign, Bool.or_eq_true, decide_eq_true_eq] at h
  cases h with
  | inl minus => subst minus; rfl
  | inr plus => subst plus; rfl

/-- The sign of an integer text is its first byte or missing, the rest is digits. -/
theorem integerText_iff (text : List UInt8) :
    IntegerText text ↔ text.drop (signLength text) ≠ [] ∧
      ∀ b ∈ text.drop (signLength text), isDigit b = true := by
  constructor
  · rintro ⟨sign, digits, whole, shape, some_digit, all_digits⟩
    subst whole
    obtain ⟨first, rest, hdigits⟩ := List.exists_cons_of_ne_nil some_digit
    cases shape with
    | inl unsigned =>
        have plain : isSign first = false := by
          rw [Bool.eq_false_iff]
          intro signed
          have digit := all_digits first (by rw [hdigits]; exact List.mem_cons_self)
          rw [isSign_not_isDigit signed] at digit
          exact Bool.false_ne_true digit
        subst unsigned
        simpa [signLength, hdigits, plain] using all_digits
    | inr signed =>
        obtain ⟨b, isSigned, hsign⟩ := signed
        subst hsign
        simpa [signLength, isSigned, some_digit] using all_digits
  · rintro ⟨some_digit, all_digits⟩
    refine ⟨_, _, (List.take_append_drop _ text).symm, ?_, some_digit, all_digits⟩
    cases text with
    | nil => exact .inl rfl
    | cons first rest =>
        rw [signLength, List.getD_cons_zero]
        cases signed : isSign first with
        | true => exact .inr ⟨first, signed, rfl⟩
        | false => exact .inl rfl

section Decimal

/-- The decimal digits of a number, as `printf` writes them. -/
def decimalDigits (n : Nat) : List UInt8 :=
  (Nat.toDigits 10 n).map fun c => UInt8.ofNat c.toNat

/-- The decimal text of an integer, with a `-` before the digits of a negative one. -/
def decimalText (n : Int) : CString := .lit (toString n)

theorem digitChar_byte {digit : Nat} (h : digit < 10) :
    UInt8.ofNat (Nat.digitChar digit).toNat = UInt8.ofNat (48 + digit) := by
  revert digit
  decide

theorem decimalDigits_eq (n : Nat) :
    decimalDigits n =
      (if n < 10 then [] else decimalDigits (n / 10)) ++ [UInt8.ofNat (48 + n % 10)] := by
  rw [decimalDigits, Nat.toDigits_eq_if (by decide)]
  by_cases small : n < 10
  · rw [if_pos small, if_pos small, List.map_singleton, digitChar_byte small,
      Nat.mod_eq_of_lt small, List.nil_append]
  · rw [if_neg small, if_neg small, List.map_append, List.map_singleton,
      digitChar_byte (Nat.mod_lt n (by decide)), decimalDigits]

theorem decimalDigit_spec {digit : Nat} (h : digit < 10) :
    isDigit (UInt8.ofNat (48 + digit)) = true ∧ (UInt8.ofNat (48 + digit)).toNat - 48 = digit := by
  revert digit
  decide

theorem decimalDigits_ne_nil (n : Nat) : decimalDigits n ≠ [] := by
  rw [decimalDigits_eq]
  exact List.append_ne_nil_of_right_ne_nil _ (List.cons_ne_nil _ _)

theorem decimalDigits_spec (n : Nat) :
    (∀ b ∈ decimalDigits n, isDigit b = true) ∧ digitsValue (decimalDigits n) = n := by
  induction n using Nat.strongRecOn with
  | ind n ih =>
      obtain ⟨isLast, last⟩ := decimalDigit_spec (Nat.mod_lt n (by decide : 10 > 0))
      rw [decimalDigits_eq]
      by_cases small : n < 10
      · rw [if_pos small, List.nil_append]
        refine ⟨List.forall_mem_singleton.mpr isLast, ?_⟩
        rw [digitsValue, List.foldl_cons, List.foldl_nil, digitStep, last, Nat.mod_eq_of_lt small]
        omega
      · obtain ⟨digits, value⟩ := ih (n / 10) (by omega)
        rw [if_neg small]
        refine ⟨List.forall_mem_append.mpr ⟨digits, List.forall_mem_singleton.mpr isLast⟩, ?_⟩
        rw [digitsValue, List.foldl_append, ← digitsValue, value, List.foldl_cons, List.foldl_nil,
          digitStep, last]
        omega

theorem decimalText_buffer (n : Int) :
    ((toString n).toList.map fun c => UInt8.ofNat c.toNat) =
      (if n < 0 then [dash] else []) ++ decimalDigits n.natAbs := by
  cases n with
  | ofNat m =>
      have text : (toString (Int.ofNat m)).toList = Nat.toDigits 10 m := Nat.toList_repr
      have natural : ¬ Int.ofNat m < 0 := not_lt.mpr (Int.natCast_nonneg m)
      rw [text, if_neg natural, List.nil_append]
      rfl
  | negSucc m =>
      have text : toString (Int.negSucc m) = "-" ++ (m + 1).repr := rfl
      rw [text, String.toList_append, Nat.toList_repr, if_pos (Int.negSucc_lt_zero m),
        List.map_append]
      rfl

theorem decimalText_bytes (n : Int) :
    (decimalText n).bytes = (if n < 0 then [dash] else []) ++ decimalDigits n.natAbs := by
  rw [decimalText, CString.lit, decimalText_buffer]
  refine CString.ofBuffer_bytes fun zero => ?_
  cases List.mem_append.mp zero with
  | inl sign =>
      by_cases negative : n < 0
      · rw [if_pos negative] at sign
        exact absurd sign (by decide)
      · rw [if_neg negative] at sign
        exact absurd sign List.not_mem_nil
  | inr digit => exact absurd ((decimalDigits_spec n.natAbs).1 0 digit) (by decide)

theorem integerValue_of_digit {first : UInt8} {rest : List UInt8} (h : isDigit first = true) :
    integerValue (first :: rest) = digitsValue (first :: rest) := by
  have unsigned : isSign first = false :=
    Bool.eq_false_iff.mpr fun signed => absurd (isSign_not_isDigit signed) (by simp [h])
  have positive : first ≠ dash := fun minus => absurd unsigned (by subst minus; decide)
  rw [integerValue, signLength, List.getD_cons_zero, if_neg positive, unsigned]
  rfl

theorem decimalText_spec (n : Int) :
    IntegerText (decimalText n).bytes ∧ integerValue (decimalText n).bytes = n := by
  obtain ⟨digits, value⟩ := decimalDigits_spec n.natAbs
  have some_digit := decimalDigits_ne_nil n.natAbs
  rw [decimalText_bytes]
  by_cases negative : n < 0
  · rw [if_pos negative]
    refine ⟨⟨[dash], _, rfl, .inr ⟨dash, rfl, rfl⟩, some_digit, digits⟩, ?_⟩
    have denoted : integerValue ([dash] ++ decimalDigits n.natAbs) =
        -(digitsValue (decimalDigits n.natAbs) : Int) := rfl
    rw [denoted, value]
    omega
  · rw [if_neg negative, List.nil_append]
    refine ⟨⟨[], _, rfl, .inl rfl, some_digit, digits⟩, ?_⟩
    obtain ⟨first, rest, split⟩ := List.exists_cons_of_ne_nil some_digit
    rw [split, integerValue_of_digit (digits first (split ▸ List.mem_cons_self)), ← split, value]
    omega

end Decimal

end BcRuntime
