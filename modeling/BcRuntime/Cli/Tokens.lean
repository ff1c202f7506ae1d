import BcRuntime.Cli.Parse
import BcRuntime.Foundation.FirstSplit

/-!
The tokens of a command line and what the hand-written recognisers of the parser
decide about them: equality of strings, the values of each type, and the name and
value in an option token.
-/

namespace BcRuntime

def helpName : List UInt8 := (CString.lit "help").bytes
def versionName : List UInt8 := (CString.lit "version").bytes
def dashes : List UInt8 := (CString.lit "--").bytes

/-- A token that is read as an option: `--` and at least one byte more. -/
def OptionToken (token : CString) : Prop := dashes <+: token.bytes ∧ 3 ≤ token.length

instance (token : CString) : Decidable (OptionToken token) := inferInstanceAs (Decidable (_ ∧ _))

/-- The name of an option token, and its value if it has an `=`. -/
def tokenParts (token : CString) : List UInt8 × Option CString :=
  match (token.bytes.drop 2).splitFirst equalsSign with
  | some (name, value) => (name, some (.ofBuffer value))
  | none => (token.bytes.drop 2, none)

def tokenName (token : CString) : List UInt8 := (tokenParts token).1
def tokenValue (token : CString) : Option CString := (tokenParts token).2

def booleanTexts : List CString :=
  [.lit "true", .lit "false", .lit "1", .lit "0", .lit "yes", .lit "no"]

def ValidValue (option : OptionSpec) (value : CString) : Prop :=
  match option.type with
  | .string | .list => True
  | .integer => IntegerText value.bytes
  | .boolean => value ∈ booleanTexts
  | .enum => ∀ allowedValues, option.allowedValues = some allowedValues → value ∈ allowedValues
  | .flag => False

section Equality

theorem cliStringEqual_iff (left right : List UInt8) :
    cliStringEqual left right = true ↔ left = right := by
  induction left generalizing right with
  | nil => cases right <;> simp [cliStringEqual]
  | cons first left ih =>
      cases right with
      | nil => simp [cliStringEqual]
      | cons second right =>
          by_cases same : first = second
          · simp [cliStringEqual, same, ih]
          · simp [cliStringEqual, same]

theorem cliStringEqualN_iff {left right : List UInt8} (sizes : left.length = right.length) :
    cliStringEqualN left right right.length = true ↔ left = right := by
  rw [cliStringEqualN, List.all_eq_true]
  constructor
  · intro each
    refine List.ext_getElem sizes fun i inLeft inRight => ?_
    have cell := each i (List.mem_range.mpr inRight)
    simpa [inLeft, inRight] using cell
  · intro same i _
    rw [same]
    exact decide_eq_true rfl

theorem cliCheckBuiltin_iff (name : List UInt8) (literal : CString) :
    cliCheckBuiltin name literal = true ↔ name = literal.bytes := by
  simp only [cliCheckBuiltin]
  by_cases sizes : literal.length = name.length
  · rw [if_neg (not_not.mpr sizes), cliStringEqualN_iff sizes, eq_comm]
  · rw [if_pos sizes]
    refine ⟨fun h => absurd h Bool.false_ne_true, fun same => absurd ?_ sizes⟩
    rw [same, CString.length]

theorem cliFindOption_cons (name : List UInt8) (option : OptionSpec)
    (options : List OptionSpec) (i : Nat) :
    cliFindOption name (option :: options) i =
      if option.longName.bytes = name then some (i, option)
      else cliFindOption name options (i + 1) := by
  rw [cliFindOption]
  by_cases sizes : option.longName.length = name.length
  · rw [if_neg (not_not.mpr sizes)]
    exact if_congr (cliStringEqualN_iff sizes) rfl rfl
  · have differ : option.longName.bytes ≠ name := fun same => sizes (by rw [CString.length, same])
    rw [if_pos sizes, if_neg differ]

theorem cliFindOption_row {name : List UInt8} {options : List OptionSpec} {i j : Nat}
    {option : OptionSpec} (h : cliFindOption name options i = some (j, option)) :
    option.longName.bytes = name ∧ i ≤ j ∧ options[j - i]? = some option := by
  induction options generalizing i with
  | nil => simp [cliFindOption] at h
  | cons first options ih =>
      rw [cliFindOption_cons] at h
      by_cases same : first.longName.bytes = name
      · simp only [same, if_true, Option.some.injEq, Prod.mk.injEq] at h
        obtain ⟨hj, hoption⟩ := h
        subst hj hoption
        simp [same]
      · rw [if_neg same] at h
        obtain ⟨found, le, cell⟩ := ih h
        have next : j - i = (j - (i + 1)) + 1 := by omega
        exact ⟨found, by omega, by rw [next, List.getElem?_cons_succ, cell]⟩

theorem cliFindOption_of_row {options : List OptionSpec}
    (distinct : (options.map OptionSpec.longName).Nodup) {n : Nat} {option : OptionSpec}
    (cell : options[n]? = some option) (i : Nat) :
    cliFindOption option.longName.bytes options i = some (i + n, option) := by
  induction options generalizing i n with
  | nil => simp at cell
  | cons first options ih =>
      rw [List.map_cons, List.nodup_cons] at distinct
      rw [cliFindOption_cons]
      cases n with
      | zero =>
          obtain rfl : first = option := by simpa using cell
          rw [if_pos rfl, Nat.add_zero]
      | succ n =>
          rw [List.getElem?_cons_succ] at cell
          have other : first.longName.bytes ≠ option.longName.bytes := by
            intro same
            rw [CString.ext same] at distinct
            exact distinct.1 (List.mem_map_of_mem (List.mem_of_getElem? cell))
          rw [if_neg other, ih distinct.2 cell, Nat.add_assoc, Nat.add_comm 1 n]

theorem cliFindCommand_eq (name : CString) (commands : List CommandSpec) :
    cliFindCommand name commands = commands.find? fun command => command.name = name := by
  induction commands with
  | nil => rfl
  | cons command commands ih =>
      rw [cliFindCommand, List.find?_cons, ih]
      by_cases same : command.name = name
      · simp [same, (cliStringEqual_iff name.bytes name.bytes).mpr rfl]
      · have differ : cliStringEqual command.name.bytes name.bytes = false := by
          rw [Bool.eq_false_iff, ne_eq, cliStringEqual_iff, ← CString.ext_iff]
          exact same
        simp [same, differ]

end Equality

section Values

theorem getD_zero_eq_zero_iff (value : CString) (start : Nat) :
    value.bytes.getD start 0 = 0 ↔ value.bytes.drop start = [] := by
  rw [List.drop_eq_nil_iff, List.getD_eq_getElem?_getD]
  by_cases inside : start < value.bytes.length
  · have nonzero : value.bytes[start] ≠ 0 := fun zero =>
      value.noNul (zero ▸ List.getElem_mem inside)
    simp [inside, nonzero]
  · simp [not_lt.mp inside]

theorem cliValueIsInteger_iff (value : CString) :
    cliValueIsInteger value = true ↔ IntegerText value.bytes := by
  have start : (if isSign (value.bytes.getD 0 0) then 1 else 0) = signLength value.bytes := rfl
  simp only [cliValueIsInteger, start, integerText_iff]
  by_cases nothing : value.bytes.drop (signLength value.bytes) = []
  · rw [if_pos ((getD_zero_eq_zero_iff value _).mpr nothing)]
    simp [nothing]
  · rw [if_neg (mt (getD_zero_eq_zero_iff value _).mp nothing)]
    simp [nothing]

theorem cliValueIsBoolean_iff (value : CString) :
    cliValueIsBoolean value = true ↔ value ∈ booleanTexts := by
  simp only [cliValueIsBoolean, List.any_cons, List.any_nil, Bool.or_false, Bool.or_eq_true,
    cliStringEqual_iff, ← CString.ext_iff, booleanTexts, List.mem_cons, List.not_mem_nil, or_false]

theorem cliValueIsAllowed_iff (option : OptionSpec) (value : CString) :
    cliValueIsAllowed option value = true ↔
      ∀ allowedValues, option.allowedValues = some allowedValues → value ∈ allowedValues := by
  simp only [cliValueIsAllowed]
  cases option.allowedValues with
  | none => simp
  | some allowedValues =>
      simp [cliStringEqual_iff, ← CString.ext_iff]

theorem cliValidateValue_iff (option : OptionSpec) (value : CString) :
    cliValidateValue option value = true ↔ ValidValue option value := by
  simp only [cliValidateValue, ValidValue]
  cases option.type with
  | string => simp
  | integer => exact cliValueIsInteger_iff value
  | boolean => exact cliValueIsBoolean_iff value
  | enum => exact cliValueIsAllowed_iff option value
  | flag => simp
  | list => simp

end Values

section Assignment

theorem startsWithDashes_iff (token : CString) :
    startsWithDashes token = true ↔ dashes <+: token.bytes := by
  rw [startsWithDashes, CString.length]
  have literal : dashes = [dash, dash] := by decide
  rw [literal]
  match token.bytes with
  | [] => simp
  | [first] => simp
  | first :: second :: rest =>
      simp only [List.length_cons, List.getD_cons_zero, List.getD_cons_succ, Bool.and_eq_true,
        decide_eq_true_eq, List.cons_prefix_cons, List.nil_prefix, and_true]
      rw [eq_comm (a := dash), eq_comm (a := dash)]
      simp

theorem terminator_iff (token : CString) :
    startsWithDashes token = true ∧ token.length = 2 ↔ token.bytes = dashes := by
  rw [startsWithDashes_iff]
  constructor
  · rintro ⟨starts, size⟩
    exact (starts.eq_of_length size.symm).symm
  · intro same
    rw [CString.length, same]
    exact ⟨List.prefix_rfl, rfl⟩

theorem startsWithDashes_cases (token : CString) :
    dashes <+: token.bytes ↔ token.bytes = dashes ∨ OptionToken token := by
  constructor
  · intro starts
    have size : 2 ≤ token.length := starts.length_le
    cases Nat.eq_or_lt_of_le size with
    | inl two => exact .inl (starts.eq_of_length two).symm
    | inr more => exact .inr ⟨starts, more⟩
  · intro either
    cases either with
    | inl same => exact same ▸ List.prefix_rfl
    | inr option => exact option.1

theorem OptionToken.ne_terminator {token : CString} (h : OptionToken token) :
    token.bytes ≠ dashes := by
  intro same
  have size := h.2
  rw [CString.length, same] at size
  exact absurd size (by decide)

theorem cliParseAssignment_eq {token : CString} (option : OptionToken token) :
    cliParseAssignment token = some (tokenParts token) := by
  have starts := (startsWithDashes_iff token).mpr option.1
  simp only [startsWithDashes, Bool.and_eq_true, decide_eq_true_eq] at starts
  simp only [cliParseAssignment, tokenParts]
  have long : ¬ token.length < 3 := not_lt.mpr option.2
  simp only [starts, long, ne_eq, not_true, or_self, if_false]
  have after : (token.drop 2).bytes = token.bytes.drop 2 := rfl
  simp only [after, List.idxOf?_eq_splitFirst]
  cases split : (token.bytes.drop 2).splitFirst equalsSign with
  | none => rfl
  | some parts =>
      obtain ⟨name, value⟩ := parts
      obtain ⟨whole, _⟩ := List.splitFirst_eq_some_iff.mp split
      have tail : (token.drop 2).bytes.drop (name.length + 1) = value := by
        rw [after, whole, ← List.drop_drop, List.drop_left]
        rfl
      simp only [Option.map_some, CString.drop_eq_ofBuffer tail]
      rw [whole, List.take_left]

end Assignment

section Scan
variable [BcCore]
open Fallible

/-- One turn of the loop, in the terms of the token it looks at. -/
theorem cliScan_cons (context : ParseContext) (token : CString) (rest : List CString)
    (state : ScanState) :
    cliScan context (token :: rest) state =
      if token.bytes = dashes then pure (.ended state rest)
      else if OptionToken token then
        if tokenName token = helpName then pure (.help state.command)
        else if tokenName token = versionName then pure .version
        else do
          let state ← cliHandleOption context state (tokenName token) (tokenValue token)
          cliScan context rest state
      else
        match state.command with
        | none =>
            match cliFindCommand token context.spec.commands with
            | none => cliReject context (quotedMessage ": unknown command '" token "'\n")
            | some command => cliScan context rest { state with command := some command }
        | some _ => pure (.ended state (token :: rest)) := by
  rw [cliScan]
  by_cases terminator : token.bytes = dashes
  · rw [if_pos terminator, if_pos ((terminator_iff token).mpr terminator)]
  · rw [if_neg terminator, if_neg (mt (terminator_iff token).mp terminator)]
    by_cases option : OptionToken token
    · rw [if_pos option, if_pos ((startsWithDashes_iff token).mpr option.1),
        cliParseAssignment_eq option]
      have parts : tokenParts token = (tokenName token, tokenValue token) := rfl
      have helpText : (CString.lit "help").bytes = helpName := rfl
      have versionText : (CString.lit "version").bytes = versionName := rfl
      simp only [parts, cliCheckBuiltin_iff, helpText, versionText]
    · have word : ¬ startsWithDashes token = true := by
        rw [startsWithDashes_iff, startsWithDashes_cases]
        exact not_or.mpr ⟨terminator, option⟩
      refine (if_neg word).trans (Eq.trans ?_ (if_neg option).symm)
      cases state.command with
      | some command => rfl
      | none => cases cliFindCommand token context.spec.commands <;> rfl

theorem cliHandleOption_keepsCommand (context : ParseContext) (state : ScanState)
    (name : List UInt8) (value : Option CString) (host : Host) (m : Machine) :
    wp (cliHandleOption context state name value)
      (fun next _ => next.command = state.command) (fun _ => True) host m := by
  rw [cliHandleOption]
  cases state.command with
  | none => exact wp_bind_last fun _ _ => rfl
  | some command =>
      rw [wp_ite]
      refine ⟨fun _ => wp_bind_last fun _ _ => trivial, fun _ => ?_⟩
      exact wp_bind_last fun _ _ => wp_bind_last fun _ _ => rfl

end Scan

end BcRuntime
