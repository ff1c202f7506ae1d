import BcRuntime.Cli.PlanFollowed

/-!
The grammar of a command line and the meaning of its sentences: option tokens of
the global table, a command, option tokens of the command's table, and positional
arguments. A plan with the status `PARSE_OK` is exactly a sentence, and its store
calls are those of the occurrences, then those of the defaults, then the sort.
-/

namespace BcRuntime

/-- A flag takes no value, any other option a value of its type. -/
def AcceptsValue (option : OptionSpec) : Option CString → Prop
  | none => option.type = .flag
  | some value => option.type ≠ .flag ∧ ValidValue option value

structure ValidToken (options : List OptionSpec) (token : CString) : Prop where
  option : OptionToken token
  notHelp : tokenName token ≠ helpName
  notVersion : tokenName token ≠ versionName
  named : ∃ option ∈ options, option.longName.bytes = tokenName token ∧
    AcceptsValue option (tokenValue token)

def Occurs (option : OptionSpec) (tokens : List CString) : Prop :=
  option.longName.bytes ∈ tokens.map tokenName

instance (option : OptionSpec) (tokens : List CString) : Decidable (Occurs option tokens) :=
  inferInstanceAs (Decidable (_ ∈ _))

/-- What the tokens have to say about a table: nothing required is missing, and
every key that is stored fits into a key buffer. -/
structure TableComplete (keyPrefix : CString) (options : List OptionSpec)
    (tokens : List CString) : Prop where
  required : ∀ option ∈ options, option.required = true → Occurs option tokens
  fits : ∀ option ∈ options, Occurs option tokens ∨ option.defaultValue.isSome = true →
    KeyFits keyPrefix option

/-- Where the option tokens of a command end. -/
def EndsOptions : List CString → Prop
  | [] => True
  | token :: _ => token.bytes = dashes ∨ ¬ dashes <+: token.bytes

/-- The positional arguments, without the terminator that may introduce them. -/
def positionals : List CString → List CString
  | [] => []
  | token :: rest => if token.bytes = dashes then rest else token :: rest

/-- The parts of an accepted command line. -/
structure Sentence (spec : ProgramSpec) (globals : List CString) (word : CString)
    (command : CommandSpec) (options rest : List CString) : Prop where
  globalTokens : ∀ token ∈ globals, ValidToken spec.globalOptions token
  isWord : ¬ dashes <+: word.bytes
  names : (spec.commands.find? fun command => command.name = word) = some command
  commandTokens : ∀ token ∈ options, ValidToken command.options token
  ends : EndsOptions rest
  globalsComplete : TableComplete cliGlobalPrefix spec.globalOptions globals
  commandComplete : TableComplete (commandPrefix command) command.options options
  positionalCount : PositionalsFit command (positionals rest).length

def DistinctNames (options : List OptionSpec) : Prop := (options.map OptionSpec.longName).Nodup

instance (options : List OptionSpec) : Decidable (DistinctNames options) :=
  inferInstanceAs (Decidable (List.Nodup _))

structure DistinctTables (spec : ProgramSpec) : Prop where
  globalsDistinct : DistinctNames spec.globalOptions
  commandsDistinct : ∀ command ∈ spec.commands, DistinctNames command.options

/-- Besides, no table has more rows than there are seen flags. -/
structure WellFormedSpec (spec : ProgramSpec) : Prop extends DistinctTables spec where
  tables : TablesFit spec

section Calls

def tokenCall (keyPrefix : CString) (options : List OptionSpec) (token : CString) :
    Option StoreCall :=
  (cliFindOption (tokenName token) options 0).map fun row =>
    occurrenceCall keyPrefix row.2 (tokenValue token)

def defaultCall (keyPrefix : CString) (tokens : List CString) (option : OptionSpec) :
    Option StoreCall :=
  if Occurs option tokens then none
  else option.defaultValue.map fun defaultValue => .set (optionKey keyPrefix option) defaultValue

def defaultCalls (keyPrefix : CString) (options : List OptionSpec) (tokens : List CString) :
    List StoreCall :=
  options.filterMap (defaultCall keyPrefix tokens)

def sentenceCalls (spec : ProgramSpec) (globals : List CString) (command : CommandSpec)
    (options : List CString) : List StoreCall :=
  globals.filterMap (tokenCall cliGlobalPrefix spec.globalOptions) ++
    options.filterMap (tokenCall (commandPrefix command) command.options) ++
    defaultCalls cliGlobalPrefix spec.globalOptions globals ++
    defaultCalls (commandPrefix command) command.options options ++ [.sort]

end Calls

section Seen
variable {options : List OptionSpec} {tokens : List CString}

theorem DistinctNames.eq_of_name (distinct : DistinctNames options) {option other : OptionSpec}
    (mem : option ∈ options) (other_mem : other ∈ options)
    (same : option.longName.bytes = other.longName.bytes) : option = other :=
  List.inj_on_of_nodup_map distinct mem other_mem (CString.ext same)

def markToken (options : List OptionSpec) (seen : List Bool) (token : CString) : List Bool :=
  match cliFindOption (tokenName token) options 0 with
  | none => seen
  | some (index, _) => seen.set index true

def markTokens (options : List OptionSpec) (seen : List Bool) (tokens : List CString) :
    List Bool :=
  tokens.foldl (markToken options) seen

/-- A token names the row: it is the first one with the name. -/
def RowOccurs (options : List OptionSpec) (tokens : List CString) (n : Nat) : Prop :=
  ∃ token ∈ tokens, ∃ option, cliFindOption (tokenName token) options 0 = some (n, option)

theorem markTokens_flag (seen : List Bool) {n : Nat} (room : n < seen.length) :
    (markTokens options seen tokens).getD n false = true ↔
      seen.getD n false = true ∨ RowOccurs options tokens n := by
  induction tokens generalizing seen with
  | nil => simp [markTokens, RowOccurs]
  | cons token tokens ih =>
      have names : RowOccurs options (token :: tokens) n ↔
          (∃ option, cliFindOption (tokenName token) options 0 = some (n, option)) ∨
            RowOccurs options tokens n := by
        simp only [RowOccurs, List.exists_mem_cons_iff]
      have tail := ih (markToken options seen token) (by
        simp only [markToken]
        cases cliFindOption (tokenName token) options 0 with
        | none => exact room
        | some row => rwa [List.length_set])
      rw [names, ← or_assoc]
      refine tail.trans (or_congr_left ?_)
      simp only [markToken]
      cases found : cliFindOption (tokenName token) options 0 with
      | none => simp
      | some row =>
          obtain ⟨index, option⟩ := row
          by_cases same : index = n
          · subst same
            simp [room]
          · simp [same]

/-- With distinct names a row occurs when its own name does. -/
theorem rowOccurs_iff (distinct : DistinctNames options) {n : Nat} {option : OptionSpec}
    (cell : options[n]? = some option) : RowOccurs options tokens n ↔ Occurs option tokens := by
  constructor
  · rintro ⟨token, mem, other, found⟩
    obtain ⟨name, _, row⟩ := cliFindOption_row found
    obtain rfl : option = other := Option.some.inj (cell.symm.trans row)
    exact List.mem_map.mpr ⟨token, mem, name.symm⟩
  · intro occurs
    obtain ⟨token, mem, name⟩ := List.mem_map.mp occurs
    refine ⟨token, mem, option, ?_⟩
    rw [name, cliFindOption_of_row distinct cell 0, Nat.zero_add]

/-- The flags at the start of a parse, after the tokens. -/
def seenAfter (options : List OptionSpec) (tokens : List CString) : List Bool :=
  markTokens options (List.replicate cliTableSize false) tokens

theorem seenAfter_flag (size : options.length ≤ cliTableSize) {n : Nat}
    (inside : n < options.length) :
    (seenAfter options tokens).getD n false = true ↔ RowOccurs options tokens n := by
  have room : n < (List.replicate cliTableSize false).length := by
    rw [List.length_replicate]
    exact lt_of_lt_of_le inside size
  have unset : ¬ (List.replicate cliTableSize false).getD n false = true := by
    rw [List.getD_eq_getElem?_getD, List.getElem?_replicate]
    by_cases small : n < cliTableSize <;> simp [small]
  rw [seenAfter, markTokens_flag _ room, or_iff_right unset]

/-- The flags that stand for the occurrences of the options of a table. -/
def FlagsOccurrences (seen : List Bool) (options : List OptionSpec) (tokens : List CString) :
    Prop :=
  ∀ n option, options[n]? = some option → (seen.getD n false = true ↔ Occurs option tokens)

theorem seenAfter_occurrences (size : options.length ≤ cliTableSize)
    (distinct : DistinctNames options) (tokens : List CString) :
    FlagsOccurrences (seenAfter options tokens) options tokens := by
  intro n option cell
  rw [seenAfter_flag size (List.getElem?_eq_some_iff.mp cell).1, rowOccurs_iff distinct cell]

end Seen

end BcRuntime
