import BcRuntime.Cli.Content

/-!
When the value the user gave for a global option stands. The keys of the selected
command are written after those of the global table, so a row of the command whose
key reads the same has the last word, with an occurrence or with a default.
-/

namespace BcRuntime
open Fallible Run

section Rows
variable {options : List OptionSpec} {row : OptionSpec} {tokens : List CString} {value : CString}

/-- A row leaves the value that stands under its key: what it has to store there
is that value, and it does not append to it. -/
structure LeavesValue (row : OptionSpec) (tokens : List CString) (value : CString) : Prop where
  occurrences : Occurs row tokens → row.type ≠ .list ∧ suppliedValue row tokens = some value
  default : ¬ Occurs row tokens → ∀ defaultValue, row.defaultValue = some defaultValue →
    defaultValue = value

theorem joinLines_ne_of_longer (value : CString) {more : List CString} (nonempty : more ≠ []) :
    CString.joinLines (value :: more) ≠ value := by
  intro same
  have bytes := congrArg (fun text => text.bytes.length) same
  obtain ⟨next, rest, rfl⟩ := List.exists_cons_of_ne_nil nonempty
  simp only [joinLines_bytes, List.map_cons, List.intercalate_cons_cons, List.length_append,
    List.length_singleton] at bytes
  omega

theorem leavesValue_iff (distinct : DistinctNames options)
    (valid : ∀ token ∈ tokens, ValidToken options token) (mem : row ∈ options) :
    (if Occurs row tokens then suppliedOver row tokens (some value)
        else row.defaultValue.or (some value)) = some value ↔
      LeavesValue row tokens value := by
  by_cases occurs : Occurs row tokens
  · rw [if_pos occurs]
    have shape : LeavesValue row tokens value ↔
        row.type ≠ .list ∧ suppliedValue row tokens = some value :=
      ⟨fun leaves => leaves.occurrences occurs,
        fun supplied => ⟨fun _ => supplied, absurd occurs⟩⟩
    rw [shape]
    by_cases isList : row.type = .list
    · have nonempty : suppliedValues row tokens ≠ [] :=
        suppliedValues_ne_nil distinct valid mem (by simp [isList]) occurs
      -- an appended value is longer than the one before
      have longer := joinLines_ne_of_longer value nonempty
      simp [suppliedOver, isList, longer]
    · rw [suppliedOver_of_not_list isList, and_iff_right isList]
  · rw [if_neg occurs]
    constructor
    · intro stands
      refine ⟨fun own => absurd own occurs, fun _ defaultValue given => ?_⟩
      rw [given] at stands
      exact Option.some.inj stands
    · intro leaves
      cases given : row.defaultValue with
      | none => rfl
      | some defaultValue => exact congrArg some (leaves.default occurs defaultValue given)

end Rows

section Sentence
variable {spec : ProgramSpec} {globals options : List CString} {command : CommandSpec}
  {option : OptionSpec} {value : CString}

/-- Each row of a command that shares the key of a global option leaves its value. -/
def KeepsGlobal (option : OptionSpec) (value : CString) (command : CommandSpec)
    (tokens : List CString) : Prop :=
  ∀ row ∈ command.options,
    optionKey (commandPrefix command) row = optionKey cliGlobalPrefix option →
      LeavesValue row tokens value

/-- A command that cannot be read as `global` shares no key with the global table. -/
theorem keepsGlobal_of_apart (apart : ApartFromGlobal command) :
    KeepsGlobal option value command options :=
  fun row _ same => absurd same (prefixes_apart apart option row)

/-- After the global occurrences only the rows of the command can change the value. -/
theorem valueAfter_sentence_occurring (distinct : DistinctNames spec.globalOptions)
    (valid : ∀ token ∈ globals, ValidToken spec.globalOptions token)
    (mem : option ∈ spec.globalOptions) (occurs : Occurs option globals)
    (supplied : suppliedOver option globals none = some value) :
    valueAfter (sentenceCalls spec globals command options) (optionKey cliGlobalPrefix option)
        none =
      valueAfter (defaultCalls (commandPrefix command) command.options options)
        (optionKey cliGlobalPrefix option)
        (valueAfter (options.filterMap (tokenCall (commandPrefix command) command.options))
          (optionKey cliGlobalPrefix option) (some value)) := by
  simp only [sentenceCalls, valueAfter_append]
  rw [valueAfter_tokens distinct valid mem, if_pos occurs, supplied,
    valueAfter_defaults distinct mem, if_pos occurs]
  rfl

theorem valueAfter_command_iff (distinct : DistinctNames command.options)
    (valid : ∀ token ∈ options, ValidToken command.options token) :
    valueAfter (defaultCalls (commandPrefix command) command.options options)
        (optionKey cliGlobalPrefix option)
        (valueAfter (options.filterMap (tokenCall (commandPrefix command) command.options))
          (optionKey cliGlobalPrefix option) (some value)) = some value ↔
      KeepsGlobal option value command options := by
  by_cases shared : ∃ row ∈ command.options,
      optionKey (commandPrefix command) row = optionKey cliGlobalPrefix option
  · obtain ⟨row, mem, same⟩ := shared
    rw [← same, valueAfter_row distinct valid mem, leavesValue_iff distinct valid mem]
    constructor
    · intro leaves other other_mem other_same
      by_cases differ : other = row
      · exact differ ▸ leaves
      · exact absurd (other_same.trans same.symm) (optionKey_ne distinct mem other_mem differ)
    · exact fun keeps => keeps row mem same
  · simp only [not_exists, not_and] at shared
    rw [valueAfter_of_foreign (foreign_of_keys (fun _ => tokenCalls_key?) shared),
      valueAfter_of_foreign (foreign_of_keys (fun _ => defaultCalls_key?) shared)]
    exact iff_of_true rfl fun row mem same => absurd same (shared row mem)

end Sentence

section Parse
variable [BcCore] {spec : ProgramSpec} {argumentValues : List CString} {errorStream : Bool}
  {host reader : Host} {m m' : Machine} {parsed : Parsed} {option : OptionSpec}

/-- The value the user gave last for a global option is what the store answers
exactly when the selected command has no row that takes it away. -/
theorem globalValue_stands_iff (distinct : DistinctTables spec)
    (empty : m.store.entries = []) (core : reader.CoreCallsSucceed)
    (run : cliParse spec argumentValues errorStream host m = (some (.ok, parsed), m'))
    (mem : option ∈ spec.globalOptions) (notList : option.type ≠ .list)
    (notFlag : option.type ≠ .flag) (occurs : Occurs option (globalTokens argumentValues)) :
    ∃ value, (suppliedValues option (globalTokens argumentValues)).getLast? = some value ∧
      ((configStoreLookup (optionKey cliGlobalPrefix option) reader m').1 = some value ↔
        ∀ command, selectedCommand spec argumentValues = some command →
          KeepsGlobal option value command (commandTokens argumentValues)) := by
  obtain ⟨globals, word, command, options, rest, split, sentence, _, performed⟩ :=
    sentence_of_cliParse distinct run
  obtain ⟨valid, sorted, content⟩ := performed.sentence empty
  obtain ⟨hglobals, hoptions, selected⟩ := segments_of_sentence sentence split
  rw [hglobals] at occurs ⊢
  rw [hoptions, selected]
  have command_mem : command ∈ spec.commands := List.mem_of_find?_eq_some sentence.names
  have nonempty := suppliedValues_ne_nil distinct.globalsDistinct sentence.globalTokens mem
    notFlag occurs
  obtain ⟨value, last⟩ : ∃ value, (suppliedValues option globals).getLast? = some value :=
    ⟨_, List.getLast?_eq_some_getLast nonempty⟩
  have supplied : suppliedOver option globals none = some value := by
    rw [suppliedOver_of_not_list notList, suppliedValue_of_single notList notFlag, last]
  obtain ⟨_, lookup, _⟩ :=
    configStoreLookup_run core valid (optionKey cliGlobalPrefix option)
  refine ⟨value, last, ?_⟩
  rw [lookup, if_pos sorted, content, valueAfter_sentence_occurring distinct.globalsDistinct
    sentence.globalTokens mem occurs supplied, valueAfter_command_iff
    (distinct.commandsDistinct command command_mem) sentence.commandTokens]
  simp only [Option.some.injEq, forall_eq']

def levelOption (defaultValue : Option CString) : OptionSpec :=
  ⟨.lit "level", .string, none, defaultValue, false, none, none⟩

/-- A command whose name is the prefix of the global keys. -/
def globalCommand : CommandSpec where
  name := .lit "global"
  summary := none
  options := [levelOption (some (.lit "info"))]
  positionalUsage := none
  positionalMin := 0
  positionalMax := 0

def levelSpec : ProgramSpec where
  programName := .lit "tool"
  version := none
  summary := none
  globalOptions := [levelOption none]
  commands := [globalCommand]

def levelArguments (options : List CString) : List CString :=
  [.lit "tool", .lit "--level=debug", .lit "global"] ++ options

omit [BcCore] in
theorem levelSpec_distinct : DistinctTables levelSpec where
  globalsDistinct := by decide
  commandsDistinct := by decide

omit [BcCore] in
theorem levelSpec_accepts :
    (@cliParse .reference levelSpec (levelArguments [.lit "--level=debug"]) true (.obliging [] [])
      .initial).1 = some (.ok, ⟨some globalCommand, []⟩) := by decide +kernel

omit [BcCore] in
theorem globalValue_stands_iff_repeated :
    (@configStoreLookup .reference (.lit "global.level") (.obliging [] [])
      (@cliParse .reference levelSpec (levelArguments [.lit "--level=debug"]) true
        (.obliging [] []) .initial).2).1 = some (.lit "debug") := by
  obtain ⟨value, last, stands⟩ := @globalValue_stands_iff .reference levelSpec
    (levelArguments [.lit "--level=debug"]) true (.obliging [] []) (.obliging [] []) .initial _ _
    (levelOption none) levelSpec_distinct rfl (Host.obliging_storeCallsSucceed [] []).core
    (@cliParse_run_of_result .reference _ _ _ _ _ _ levelSpec_accepts) List.mem_cons_self
    (by decide) (by decide) (by decide)
  obtain rfl : CString.lit "debug" = value :=
    Option.some.inj ((show _ = some (CString.lit "debug") by decide).symm.trans last)
  refine stands.mpr fun command selected row mem _ => ?_
  obtain rfl : globalCommand = command :=
    Option.some.inj ((show _ = some globalCommand by decide).symm.trans selected)
  obtain rfl : row = levelOption (some (.lit "info")) := List.mem_singleton.mp mem
  exact ⟨fun _ => by decide, fun absent => absurd (by decide) absent⟩

omit [BcCore] in
/-- Without an occurrence of its own the command's row has its default stored. -/
theorem levelSpec_loses :
    DistinctTables levelSpec ∧ (∀ command ∈ levelSpec.commands, command.name.length ≤ 254) ∧
      (@cliParse .reference levelSpec (levelArguments []) true (.obliging [] []) .initial).1 =
        some (.ok, ⟨some globalCommand, []⟩) ∧
      Occurs (levelOption none) (globalTokens (levelArguments [])) ∧
      suppliedValues (levelOption none) (globalTokens (levelArguments [])) = [.lit "debug"] ∧
      (@configStoreLookup .reference (.lit "global.level") (.obliging [] [])
        (@cliParse .reference levelSpec (levelArguments []) true (.obliging [] []) .initial).2).1 =
        some (.lit "info") :=
  ⟨levelSpec_distinct, by decide, by decide +kernel, by decide, by decide, by decide +kernel⟩

end Parse

end BcRuntime
