import Mathlib.Data.List.Forall2
import Mathlib.Data.List.Lex
import Mathlib.Data.Nat.Digits.Lemmas

/-!
Texts of a fixed layout: marks that are always the same and numbers written with a
fixed number of digits. Such a text can be read back, and because the most
significant digit comes first, texts are in the order of the numbers in them.
-/

namespace FixedFields

variable {α : Type*} [LinearOrder α]

omit [LinearOrder α] in
/-- Between texts whose first parts are equally long, the first parts decide. -/
theorem append_lt_append_iff [LT α] {first first' last last' : List α}
    (lengths : first.length = first'.length) :
    first ++ last < first' ++ last' ↔ first < first' ∨ first = first' ∧ last < last' := by
  induction first generalizing first' with
  | nil =>
      obtain rfl := List.length_eq_zero_iff.mp lengths.symm
      simp
  | cons head first ih =>
      cases first' with
      | nil => cases lengths
      | cons head' first' =>
          have rest := ih (Nat.succ.inj lengths)
          simp only [List.cons_append, List.cons_lt_cons_iff, rest, List.cons.injEq]
          tauto

/-- A quotient decides between two numbers, and a remainder when it cannot. -/
theorem lt_iff_div_mod {base : Nat} (positive : 0 < base) (number other : Nat) :
    number < other ↔
      number / base < other / base ∨
        number / base = other / base ∧ number % base < other % base := by
  have split := Nat.div_add_mod number base
  have split' := Nat.div_add_mod other base
  have small := Nat.mod_lt number positive
  have small' := Nat.mod_lt other positive
  constructor
  · intro less
    cases Nat.lt_or_eq_of_le (Nat.div_le_div_right (c := base) less.le) with
    | inl quotient => exact .inl quotient
    | inr same =>
        rw [same] at split
        exact .inr ⟨same, by omega⟩
  · rintro (quotient | ⟨same, remainder⟩)
    · have step := Nat.mul_le_mul_left base (Nat.succ_le_of_lt quotient)
      rw [Nat.mul_succ] at step
      omega
    · rw [same] at split
      omega

/-- The symbols for the digits of a base, in the order of the digits. -/
structure Numerals (α : Type*) [LinearOrder α] where
  base : Nat
  symbol : Nat → α
  value : α → Nat
  base_gt : 1 < base
  value_symbol : ∀ digit < base, value (symbol digit) = digit
  symbol_lt : ∀ digit other, digit < other → other < base → symbol digit < symbol other

namespace Numerals
variable (numerals : Numerals α)

def IsDigit (symbol : α) : Prop := ∃ digit < numerals.base, symbol = numerals.symbol digit

def write (width number : Nat) : List α :=
  (Nat.digitsAppend numerals.base width number).reverse.map numerals.symbol

def read (symbols : List α) : Nat :=
  Nat.ofDigits numerals.base (symbols.map numerals.value).reverse

variable {numerals} {width number other : Nat}

theorem symbol_lt_symbol_iff {digit digit' : Nat} (inBase : digit < numerals.base)
    (inBase' : digit' < numerals.base) :
    numerals.symbol digit < numerals.symbol digit' ↔ digit < digit' := by
  constructor
  · intro less
    by_contra notLess
    cases Nat.lt_or_eq_of_le (not_lt.mp notLess) with
    | inl greater => exact lt_asymm less (numerals.symbol_lt digit' digit greater inBase)
    | inr same => exact lt_irrefl _ (same ▸ less)
  · exact fun less => numerals.symbol_lt digit digit' less inBase'

theorem write_zero : numerals.write 0 0 = [] := by
  simp [write, Nat.digitsAppend]

/-- The last digit is the remainder, before it stands the quotient. -/
theorem write_succ (width number : Nat) :
    numerals.write (width + 1) number =
      numerals.write width (number / numerals.base) ++
        [numerals.symbol (number % numerals.base)] := by
  have digits : Nat.digitsAppend numerals.base (width + 1) number =
      number % numerals.base :: Nat.digitsAppend numerals.base width (number / numerals.base) := by
    by_cases zero : number = 0
    · simp [Nat.digitsAppend, zero, List.replicate_succ]
    · simp [Nat.digitsAppend, Nat.digits_def' numerals.base_gt (Nat.pos_of_ne_zero zero)]
  rw [write, write, digits, List.reverse_cons, List.map_append, List.map_singleton]

theorem length_write (fits : number < numerals.base ^ width) :
    (numerals.write width number).length = width := by
  rw [write, List.length_map, List.length_reverse,
    Nat.length_digitsAppend numerals.base_gt width fits]

/-- The digits one by one, each from its own division and remainder. -/
theorem write_eq_map (fits : number < numerals.base ^ width) :
    numerals.write width number = (List.range width).reverse.map fun place =>
      numerals.symbol (number / numerals.base ^ place % numerals.base) := by
  induction width generalizing number with
  | zero =>
      obtain rfl : number = 0 := by simpa using fits
      exact write_zero
  | succ width ih =>
      rw [Nat.pow_succ, Nat.mul_comm] at fits
      have quotients : ∀ place, number / numerals.base ^ (place + 1) =
          number / numerals.base / numerals.base ^ place := by
        intro place
        rw [Nat.div_div_eq_div_mul, Nat.pow_succ']
      rw [write_succ, ih (Nat.div_lt_of_lt_mul fits), List.range_succ_eq_map, List.reverse_cons,
        List.map_append, ← List.map_reverse, List.map_map]
      simp [quotients, Function.comp_def]

theorem isDigit_of_mem_write {symbol : α} (mem : symbol ∈ numerals.write width number) :
    numerals.IsDigit symbol := by
  obtain ⟨digit, digit_mem, rfl⟩ := List.mem_map.mp mem
  exact ⟨digit, Nat.lt_of_mem_digitsAppend numerals.base_gt width digit
    (List.mem_reverse.mp digit_mem), rfl⟩

theorem read_write (fits : number < numerals.base ^ width) :
    numerals.read (numerals.write width number) = number := by
  have values : (Nat.digitsAppend numerals.base width number).map
      (numerals.value ∘ numerals.symbol) = Nat.digitsAppend numerals.base width number := by
    refine (List.map_congr_left fun digit mem => ?_).trans (List.map_id _)
    exact numerals.value_symbol digit (Nat.lt_of_mem_digitsAppend numerals.base_gt width digit mem)
  rw [read, write, List.map_map, ← List.map_reverse, List.reverse_reverse, values]
  exact (Nat.setInvOn_digitsAppend_ofDigits numerals.base_gt width).2 fits

theorem write_inj (fits : number < numerals.base ^ width) (fits' : other < numerals.base ^ width) :
    numerals.write width number = numerals.write width other ↔ number = other := by
  constructor
  · intro same
    rw [← read_write fits, same, read_write fits']
  · exact congrArg _

theorem write_lt_write_iff (fits : number < numerals.base ^ width)
    (fits' : other < numerals.base ^ width) :
    numerals.write width number < numerals.write width other ↔ number < other := by
  have positive : 0 < numerals.base := Nat.zero_lt_of_lt numerals.base_gt
  induction width generalizing number other with
  | zero =>
      obtain rfl : number = 0 := by simpa using fits
      obtain rfl : other = 0 := by simpa using fits'
      simp
  | succ width ih =>
      rw [Nat.pow_succ] at fits fits'
      have quotient : number / numerals.base < numerals.base ^ width :=
        Nat.div_lt_of_lt_mul (by rwa [Nat.mul_comm])
      have quotient' : other / numerals.base < numerals.base ^ width :=
        Nat.div_lt_of_lt_mul (by rwa [Nat.mul_comm])
      have lengths := (length_write quotient).trans (length_write quotient').symm
      have remainders := symbol_lt_symbol_iff (Nat.mod_lt number positive)
        (Nat.mod_lt other positive)
      have last : [numerals.symbol (number % numerals.base)] <
          [numerals.symbol (other % numerals.base)] ↔
            number % numerals.base < other % numerals.base := by
        simp only [List.cons_lt_cons_iff, List.not_lt_nil, and_false, or_false, remainders]
      rw [write_succ, write_succ, append_lt_append_iff lengths]
      exact (or_congr (ih quotient quotient') (and_congr (write_inj quotient quotient') last)).trans
        (lt_iff_div_mod positive number other).symm

end Numerals

/-- A part of a layout: a mark, or a number with a fixed count of digits. -/
inductive LayoutPart (α : Type*)
  | mark (symbol : α)
  | field (width : Nat)

/-- What stands at each place: the mark, or `none` for a digit. -/
def LayoutPart.places : LayoutPart α → List (Option α)
  | .mark symbol => [some symbol]
  | .field width => List.replicate width none

/-- A number for each field, none of them too large for it. -/
inductive Fits (base : Nat) : List (LayoutPart α) → List Nat → Prop
  | nil : Fits base [] []
  | mark {symbol : α} {parts : List (LayoutPart α)} {values : List Nat}
      (rest : Fits base parts values) : Fits base (.mark symbol :: parts) values
  | field {width value : Nat} {parts : List (LayoutPart α)} {values : List Nat}
      (fits : value < base ^ width) (rest : Fits base parts values) :
      Fits base (.field width :: parts) (value :: values)

namespace Numerals
variable (numerals : Numerals α)

def layOut : List (LayoutPart α) → List Nat → List α
  | [], _ => []
  | .mark symbol :: parts, values => symbol :: layOut parts values
  | .field width :: parts, values =>
      numerals.write width (values.headD 0) ++ layOut parts values.tail

def readParts : List (LayoutPart α) → List α → List Nat
  | [], _ => []
  | .mark _ :: parts, symbols => readParts parts symbols.tail
  | .field width :: parts, symbols =>
      numerals.read (symbols.take width) :: readParts parts (symbols.drop width)

/-- A text has the marks where they belong and digits in between. -/
def Follows (parts : List (LayoutPart α)) (symbols : List α) : Prop :=
  List.Forall₂ (fun place symbol => place.elim (numerals.IsDigit symbol) (symbol = ·))
    (parts.flatMap LayoutPart.places) symbols

variable {numerals} {parts : List (LayoutPart α)} {values others : List Nat}

theorem readParts_layOut (fits : Fits numerals.base parts values) :
    numerals.readParts parts (numerals.layOut parts values) = values := by
  induction fits with
  | nil => rfl
  | mark rest ih => exact ih
  | field small rest ih =>
      have length := length_write small
      rw [layOut, readParts, List.headD_cons, List.tail_cons, List.take_left' length,
        List.drop_left' length, read_write small, ih]

theorem layOut_inj (fits : Fits numerals.base parts values)
    (fits' : Fits numerals.base parts others) :
    numerals.layOut parts values = numerals.layOut parts others ↔ values = others := by
  constructor
  · intro same
    rw [← readParts_layOut fits, same, readParts_layOut fits']
  · exact congrArg _

theorem layOut_follows (fits : Fits numerals.base parts values) :
    numerals.Follows parts (numerals.layOut parts values) := by
  induction fits with
  | nil => exact .nil
  | mark rest ih => exact .cons rfl ih
  | @field width value parts values small rest ih =>
      have places : List.replicate width (none : Option α) =
          (numerals.write width value).map fun _ => none := by
        rw [List.map_const', length_write small]
      refine List.rel_append ?_ ih
      rw [LayoutPart.places, places, List.headD_cons, List.forall₂_map_left_iff, List.forall₂_same]
      exact fun symbol mem => isDigit_of_mem_write mem

/-- The texts of one layout are in the order of the numbers in them, the first number
on which they differ deciding. -/
theorem layOut_lt_layOut_iff (fits : Fits numerals.base parts values)
    (fits' : Fits numerals.base parts others) :
    numerals.layOut parts values < numerals.layOut parts others ↔ values < others := by
  induction fits generalizing others with
  | nil =>
      cases fits'
      simp [layOut]
  | mark rest ih =>
      cases fits' with
      | mark rest' =>
          rw [layOut, layOut, List.cons_lt_cons_iff]
          simp [ih rest']
  | field small rest ih =>
      cases fits' with
      | field small' rest' =>
          have lengths := (length_write small).trans (length_write small').symm
          rw [layOut, layOut, List.headD_cons, List.headD_cons, List.tail_cons, List.tail_cons,
            append_lt_append_iff lengths, List.cons_lt_cons_iff]
          exact or_congr (write_lt_write_iff small small')
            (and_congr (write_inj small small') (ih rest'))

end Numerals

end FixedFields
