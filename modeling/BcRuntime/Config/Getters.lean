import BcRuntime.Config.StoreLookup
import BcRuntime.Foundation.BoundedFold
import BcRuntime.Model.IntegerText

/-!
The typed getters of the store. An integer is read with checked arithmetic and
given up as soon as it leaves the range of `long`; a boolean is one of six words
in any case.
-/

namespace BcRuntime
open Fallible Run

def longMax : Nat := 2 ^ 63 - 1

/-- The largest magnitude of a `long` of that sign. -/
def longLimit (isNegative : Bool) : Nat := if isNegative then longMax + 1 else longMax

section Model
variable [BcCore]

/-- `result * 10 + digit`, each operation checked. -/
def addDigit (isNegative : Bool) (result digit : Nat) : Option Nat :=
  match BcCore.safeMultiply result 10 with
  | none => none
  | some multiplied =>
      match BcCore.safeAdd multiplied digit with
      | none => none
      | some added => if added > longLimit isNegative then none else some added

/-- The loop over the digits, from `result` on. -/
def readDigits (isNegative : Bool) : List UInt8 → Nat → Option Nat
  | [], result => some result
  | character :: rest, result =>
      if character < 48 ∨ character > 57 then none
      else
        match addDigit isNegative result (character.toNat - 48) with
        | none => none
        | some added => readDigits isNegative rest added

/-- What `get_integer` makes of the string it has looked up. -/
def readLong (value : CString) : Option Int :=
  if value.length = 0 then none
  else
    let isNegative : Bool := value.bytes.getD 0 0 = dash
    let index :=
      if value.bytes.getD 0 0 = dash then 1 else if value.bytes.getD 0 0 = 43 then 1 else 0
    if index = value.length then none
    else
      (readDigits isNegative (value.bytes.drop index) 0).map fun result =>
        if isNegative then (0 - BitVec.ofNat 64 result).toInt else (BitVec.ofNat 64 result).toInt

def configStoreGetInteger (key : CString) : Run Int := do
  let value ← configStoreLookup key
  let _ ← coreLength value
  match readLong value with
  | some n => pure n
  | none => fail

/-- The getters of an application read its store, which is the one of the machine. -/
def configGetString (key : CString) : Run CString := configStoreLookup key

def configGetInteger (key : CString) : Run Int := do
  let value ← configGetString key
  let _ ← coreLength value
  match readLong value with
  | some n => pure n
  | none => fail

/-- Compare a value with each of the words, whether or not one has matched. -/
def equalsAny (value : CString) : List CString → Run Bool
  | [] => pure false
  | word :: words => do
      let equals ← coreEqualCaseInsensitiveAscii value.bytes word.bytes
      let others ← equalsAny value words
      pure (equals || others)

def trueWords : List CString := [.lit "true", .lit "1", .lit "yes"]
def falseWords : List CString := [.lit "false", .lit "0", .lit "no"]

def configStoreGetBoolean (key : CString) : Run Bool := do
  let value ← configStoreLookup key
  let _ ← coreLength value
  if ← equalsAny value trueWords then pure true
  else if ← equalsAny value falseWords then pure false
  else fail

end Model

/-- A getter as its caller sees it: the flag it returns and `*out_value`, which is
written only right before the getter returns true. -/
def returning {α : Type} (getter : Run α) (outValue : α) : Run (Bool × α) := do
  match ← attempt getter with
  | some value => pure (true, value)
  | none => pure (false, outValue)

/-- The calls of the getters apart from the lookup succeed as well. -/
def Host.ReadingCallsSucceed (host : Host) : Prop :=
  host.CoreCallsSucceed ∧ ∀ n, host.succeeds n .coreEqualCaseInsensitive = true

section Integers
variable [BcCore]

/-- Checked arithmetic fails only past every limit. -/
theorem addDigit_eq (isNegative : Bool) (result digit : Nat) :
    addDigit isNegative result digit =
      if longLimit isNegative < result * 10 + digit then none else some (result * 10 + digit) := by
  have limit : longLimit isNegative < sizeMax := by cases isNegative <;> decide
  simp only [addDigit]
  rw [BcCore.safeMultiply_eq]
  by_cases multiplied : result * 10 < sizeMax
  · simp only [multiplied, if_true, BcCore.safeAdd_eq]
    by_cases added : result * 10 + digit < sizeMax
    · simp only [added, if_true, gt_iff_lt]
    · have past : longLimit isNegative < result * 10 + digit := by omega
      simp only [added, if_false, past, if_true]
  · have past : longLimit isNegative < result * 10 + digit := by omega
    simp only [multiplied, if_false, past, if_true]

theorem readDigits_eq (isNegative : Bool) (digits : List UInt8) (result : Nat) :
    readDigits isNegative digits result =
      if digits.all isDigit then
        digits.boundedFoldl digitStep (longLimit isNegative) result
      else none := by
  induction digits generalizing result with
  | nil => simp [readDigits, List.boundedFoldl]
  | cons character rest ih =>
      have other_iff : (character < 48 ∨ character > 57) ↔ ¬ isDigit character = true := by
        simp only [isDigit, Bool.and_eq_true, decide_eq_true_eq, not_and_or, not_le, gt_iff_lt]
      simp only [readDigits, other_iff, List.all_cons, List.boundedFoldl, addDigit_eq, digitStep]
      by_cases digit : isDigit character = true
      · simp only [digit, not_true, if_false, Bool.true_and]
        by_cases past : longLimit isNegative < result * 10 + (character.toNat - 48)
        · simp only [past, if_true, ite_self]
        · simp only [past, if_false, ih]
      · simp [digit]

/-- The digits are read exactly when there are only digits and they stay in the limit. -/
theorem readDigits_zero (isNegative : Bool) (digits : List UInt8) :
    readDigits isNegative digits 0 =
      if digits.all isDigit ∧ digitsValue digits ≤ longLimit isNegative then
        some (digitsValue digits)
      else none := by
  rw [readDigits_eq, List.boundedFoldl_eq digitStep_grows digits (Nat.zero_le _), ← digitsValue]
  by_cases digit : digits.all isDigit = true
  · rw [if_pos digit]
    exact if_congr (and_iff_right digit).symm rfl rfl
  · rw [if_neg digit, if_neg fun both => digit both.1]

omit [BcCore] in
theorem long_of_magnitude (isNegative : Bool) {magnitude : Nat}
    (fits : magnitude ≤ longLimit isNegative) :
    (if isNegative then (0 - BitVec.ofNat 64 magnitude).toInt
      else (BitVec.ofNat 64 magnitude).toInt) =
      if isNegative then -(magnitude : Int) else magnitude := by
  cases isNegative with
  | false =>
      have small : magnitude ≤ 2 ^ 63 - 1 := fits
      simp only [Bool.false_eq_true, if_false, BitVec.toInt_eq_toNat_cond, BitVec.toNat_ofNat]
      omega
  | true =>
      have small : magnitude ≤ 2 ^ 63 - 1 + 1 := fits
      have zero : (0 : BitVec 64).toNat = 0 := rfl
      simp only [if_true, BitVec.toInt_eq_toNat_cond, BitVec.toNat_sub, BitVec.toNat_ofNat,
        zero]
      omega

omit [BcCore] in
theorem inLongRange_iff (text : List UInt8) :
    InLongRange (integerValue text) ↔
      digitsValue (text.drop (signLength text)) ≤ longLimit (text.getD 0 0 = dash) := by
  simp only [InLongRange, integerValue, longLimit, longMax]
  by_cases negative : text.getD 0 0 = dash
  · simp only [negative, if_true, decide_true]
    omega
  · simp only [negative, if_false, decide_false, Bool.false_eq_true]
    omega

omit [BcCore] in
theorem drop_sign_eq_nil_iff (value : CString) :
    value.bytes.drop (signLength value.bytes) = [] ↔
      value.length = 0 ∨ signLength value.bytes = value.length := by
  have short : signLength value.bytes ≤ 1 := by
    simp only [signLength]
    cases isSign (value.bytes.getD 0 0) <;> decide
  rw [List.drop_eq_nil_iff, CString.length]
  omega

theorem readLong_eq (value : CString) :
    readLong value =
      if value.bytes.drop (signLength value.bytes) = [] then none
      else
        (readDigits (value.bytes.getD 0 0 = dash)
            (value.bytes.drop (signLength value.bytes)) 0).map fun result : Nat =>
          if value.bytes.getD 0 0 = dash then -(result : Int) else (result : Int) := by
  have index : (if value.bytes.getD 0 0 = dash then 1
      else if value.bytes.getD 0 0 = 43 then 1 else 0) = signLength value.bytes := by
    simp only [signLength, isSign, Bool.or_eq_true, decide_eq_true_eq]
    by_cases negative : value.bytes.getD 0 0 = dash
    · simp only [negative, dash, if_true, true_or]
    · have notDash : value.bytes.getD 0 0 ≠ 45 := negative
      simp only [negative, notDash, if_false, false_or]
  simp only [readLong, index, drop_sign_eq_nil_iff]
  by_cases empty : value.length = 0
  · simp only [empty, if_true, true_or]
  · by_cases bare : signLength value.bytes = value.length
    · simp only [empty, bare, if_true, if_false, or_true]
    · simp only [empty, bare, if_false, or_false]
      cases read : readDigits (value.bytes.getD 0 0 = dash)
          (value.bytes.drop (signLength value.bytes)) 0 with
      | none => rfl
      | some result =>
          rw [readDigits_zero] at read
          obtain ⟨⟨_, fits⟩, same⟩ := Option.ite_none_right_eq_some.mp read
          obtain rfl := Option.some.inj same
          simpa using long_of_magnitude _ fits

theorem readLong_eq_some_iff {value : CString} {n : Int} :
    readLong value = some n ↔
      IntegerText value.bytes ∧ InLongRange (integerValue value.bytes) ∧
        n = integerValue value.bytes := by
  rw [readLong_eq, integerText_iff, inLongRange_iff, readDigits_zero, ← List.all_eq_true]
  by_cases nothing : value.bytes.drop (signLength value.bytes) = []
  · simp [nothing]
  · rw [if_neg nothing, Option.map_eq_some_iff]
    constructor
    · rintro ⟨result, read, hn⟩
      obtain ⟨⟨digits, fits⟩, same⟩ := Option.ite_none_right_eq_some.mp read
      obtain rfl := Option.some.inj same
      exact ⟨⟨nothing, digits⟩, fits, hn.symm⟩
    · rintro ⟨⟨_, digits⟩, fits, hn⟩
      exact ⟨_, if_pos ⟨digits, fits⟩, hn.symm⟩

end Integers

section Runs
variable [BcCore] {host : Host} {m : Machine} {key : CString}

/-- What the getters look up, in a store that holds its representation invariant. -/
def readable (m : Machine) (key : CString) : Option CString :=
  if m.store.sorted = true then m.store.content key else none

theorem configStoreLookup_readable (core : host.CoreCallsSucceed) (valid : m.store.Valid)
    (key : CString) :
    wp (configStoreLookup key) (fun value _ => readable m key = some value)
      (fun _ => readable m key = none) host m := by
  obtain ⟨m', run, _⟩ := configStoreLookup_run core valid key
  rw [wp, run, ← readable]
  cases readable m key with
  | none => rfl
  | some value => rfl

theorem coreLength_succeeds (core : host.CoreCallsSucceed) (m : Machine) (text : CString) :
    wp (coreLength text) (fun _ _ => True) (fun _ => False) host m :=
  wp_mono (coreLength_spec host m text) (fun _ _ _ => trivial) fun _ failed => failed.2 core

theorem configStoreGetInteger_run (core : host.CoreCallsSucceed) (valid : m.store.Valid)
    (key : CString) :
    (configStoreGetInteger key host m).1 = (readable m key).bind readLong := by
  apply result_of_wp
  simp only [configStoreGetInteger, wp_bind]
  refine wp_mono (configStoreLookup_readable core valid key) ?_ fun _ missing => by
    rw [missing, Option.bind_none]
  intro value m₁ found
  refine wp_mono (coreLength_succeeds core m₁ value) ?_ fun _ h => h.elim
  intro _ m₂ _
  rw [found, Option.bind_some]
  cases readLong value with
  | none => rfl
  | some n => rfl

omit [BcCore] in
theorem returning_run {α : Type} (getter : Run α) (outValue : α) :
    (returning getter outValue host m).1 =
      some (((getter host m).1.map fun value => (true, value)).getD (false, outValue)) := by
  rw [returning, bind_run, attempt]
  cases (getter host m).1 with
  | none => rfl
  | some value => rfl

/-- Both getters write the integer of a stored integer text in the range of `long`,
and refuse everything else without writing. -/
theorem getInteger_exact (core : host.CoreCallsSucceed) (valid : m.store.Valid) (key : CString)
    (outValue : Int) :
    ∀ getter ∈ [configGetInteger, configStoreGetInteger],
      (∀ value, readable m key = some value → IntegerText value.bytes →
          InLongRange (integerValue value.bytes) →
            (returning (getter key) outValue host m).1 =
              some (true, integerValue value.bytes)) ∧
        ((¬ ∃ value, readable m key = some value ∧ IntegerText value.bytes ∧
            InLongRange (integerValue value.bytes)) →
          (returning (getter key) outValue host m).1 = some (false, outValue)) ∧
        ∀ n, InLongRange n → readable m key = some (decimalText n) →
          (returning (getter key) outValue host m).1 = some (true, n) := by
  intro getter mem
  have reads : (getter key host m).1 = (readable m key).bind readLong := by
    have copies : getter = configStoreGetInteger := by
      cases List.mem_cons.mp mem with
      | inl first => exact first
      | inr second => exact List.mem_singleton.mp second
    rw [copies]
    exact configStoreGetInteger_run core valid key
  have accepts : ∀ value, readable m key = some value → IntegerText value.bytes →
      InLongRange (integerValue value.bytes) →
        (returning (getter key) outValue host m).1 = some (true, integerValue value.bytes) := by
    intro value found text inRange
    rw [returning_run, reads, found, Option.bind_some,
      readLong_eq_some_iff.mpr ⟨text, inRange, rfl⟩]
    rfl
  refine ⟨accepts, fun unreadable => ?_, fun n inRange found => ?_⟩
  · have missing : (readable m key).bind readLong = none := by
      refine Option.eq_none_iff_forall_ne_some.mpr fun n read => ?_
      obtain ⟨value, found, isLong⟩ := Option.bind_eq_some_iff.mp read
      obtain ⟨text, inRange, _⟩ := readLong_eq_some_iff.mp isLong
      exact unreadable ⟨value, found, text, inRange⟩
    rw [returning_run, reads, missing]
    rfl
  · obtain ⟨text, denoted⟩ := decimalText_spec n
    have read := accepts _ found text (denoted.symm ▸ inRange)
    rwa [denoted] at read

/-- A sorted store with the smallest `long` under one key. -/
def longMinMachine : Machine :=
  { Machine.initial with
    store :=
      { Machine.initial.store with
        entries := [⟨.lit "limit", 5, decimalText (-2 ^ 63), by decide⟩]
        sorted := true } }

omit [BcCore] in
theorem getInteger_exact_longMin :
    (returning (@configGetInteger .reference (.lit "limit")) 0 (.obliging [] [])
        longMinMachine).1 = some (true, -2 ^ 63) ∧
      (returning (@configStoreGetInteger .reference (.lit "limit")) 0 (.obliging [] [])
        longMinMachine).1 = some (true, -2 ^ 63) := by
  have valid : longMinMachine.store.Valid :=
    ⟨List.nodup_singleton _, fun _ => keysAscending_of_short le_rfl⟩
  have exact := @getInteger_exact .reference (.obliging [] []) longMinMachine
    (Host.obliging_storeCallsSucceed [] []).core valid (.lit "limit") 0
  have found : readable longMinMachine (.lit "limit") = some (decimalText (-2 ^ 63)) := by
    decide +kernel
  exact ⟨(exact _ List.mem_cons_self).2.2 _ (by decide) found,
    (exact _ (List.mem_cons_of_mem _ List.mem_cons_self)).2.2 _ (by decide) found⟩

theorem equalsAny_spec (reading : host.ReadingCallsSucceed) (value : CString)
    (words : List CString) (m : Machine) :
    wp (equalsAny value words)
      (fun equals _ => equals = true ↔
        ∃ word ∈ words, value.bytes.map asciiLower = word.bytes.map asciiLower)
      (fun _ => False) host m := by
  induction words generalizing m with
  | nil => exact iff_of_false Bool.false_ne_true (by simp)
  | cons word words ih =>
      simp only [equalsAny, coreEqualCaseInsensitiveAscii, wp_bind, wp_external, wp_pure]
      refine ⟨fun _ => ?_, fun failed => ?_⟩
      · refine wp_mono (ih _) (fun others m' others_iff => ?_) fun _ h => h
        simp [BcCore.equalCaseInsensitiveAscii_iff, others_iff]
      · rw [reading.2 m.calls] at failed
        exact Bool.false_ne_true failed.symm

/-- A boolean is read off the six words, in any case. -/
theorem configStoreGetBoolean_run (reading : host.ReadingCallsSucceed) (valid : m.store.Valid)
    (key : CString) :
    (configStoreGetBoolean key host m).1.isSome = true ↔
      ∃ value, readable m key = some value ∧ ∃ word ∈ trueWords ++ falseWords,
        value.bytes.map asciiLower = word.bytes.map asciiLower := by
  have spec : wp (configStoreGetBoolean key)
      (fun _ _ => ∃ value, readable m key = some value ∧ ∃ word ∈ trueWords ++ falseWords,
        value.bytes.map asciiLower = word.bytes.map asciiLower)
      (fun _ => ¬ ∃ value, readable m key = some value ∧ ∃ word ∈ trueWords ++ falseWords,
        value.bytes.map asciiLower = word.bytes.map asciiLower) host m := by
    simp only [configStoreGetBoolean, wp_bind]
    refine wp_mono (configStoreLookup_readable reading.1 valid key) ?_ fun _ missing => by
      simp [missing]
    intro value m₁ found
    refine wp_mono (coreLength_succeeds reading.1 m₁ value) ?_ fun _ h => h.elim
    intro _ m₂ _
    refine wp_mono (equalsAny_spec reading value trueWords m₂) ?_ fun _ h => h.elim
    intro isTrue m₃ isTrue_iff
    cases isTrue with
    | true =>
        obtain ⟨word, mem, same⟩ := isTrue_iff.mp rfl
        exact ⟨value, found, word, List.mem_append_left _ mem, same⟩
    | false =>
        simp only [Bool.false_eq_true, if_false, wp_bind]
        refine wp_mono (equalsAny_spec reading value falseWords m₃) ?_ fun _ h => h.elim
        intro isFalse m₄ isFalse_iff
        cases isFalse with
        | true =>
            obtain ⟨word, mem, same⟩ := isFalse_iff.mp rfl
            exact ⟨value, found, word, List.mem_append_right _ mem, same⟩
        | false =>
            rintro ⟨other, other_found, word, mem, same⟩
            obtain rfl := Option.some.inj (found.symm.trans other_found)
            cases List.mem_append.mp mem with
            | inl isTrue => exact Bool.false_ne_true (isTrue_iff.mpr ⟨word, isTrue, same⟩)
            | inr isFalse => exact Bool.false_ne_true (isFalse_iff.mpr ⟨word, isFalse, same⟩)
  cases wp_cases spec with
  | inl returned =>
      obtain ⟨value, m', run, isWord⟩ := returned
      rw [run]
      exact iff_of_true rfl isWord
  | inr failed =>
      obtain ⟨m', run, missing⟩ := failed
      rw [run]
      exact iff_of_false Bool.false_ne_true missing

end Runs

end BcRuntime
