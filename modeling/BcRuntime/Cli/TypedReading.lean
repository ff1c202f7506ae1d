import BcRuntime.Cli.Content
import BcRuntime.Config.Getters

/-!
What the typed getters read of an accepted command line. A boolean text is one of
the words the getter knows. An integer text is taken for its form alone, so it is
read back exactly when it also lies in the range of `long`.
-/

namespace BcRuntime
open Fallible Run

variable [BcCore]

/-- The getter of the option's type reads what was supplied for it. -/
def ReadsTyped (reader : Host) (m : Machine) (keyPrefix : CString) (option : OptionSpec)
    (tokens : List CString) : Prop :=
  Occurs option tokens →
    (option.type = .integer → ∃ text, (suppliedValues option tokens).getLast? = some text ∧
      (configStoreGetInteger (optionKey keyPrefix option) reader m).1 =
        some (integerValue text.bytes)) ∧
    (option.type = .boolean →
      (configStoreGetBoolean (optionKey keyPrefix option) reader m).1.isSome = true)

/-- The last text supplied for an integer option denotes a `long`. -/
def LastInRange (option : OptionSpec) (tokens : List CString) : Prop :=
  option.type = .integer →
    ∀ text ∈ (suppliedValues option tokens).getLast?, InLongRange (integerValue text.bytes)

instance (option : OptionSpec) (tokens : List CString) : Decidable (LastInRange option tokens) :=
  inferInstanceAs (Decidable (_ → _))

section Table
variable {keyPrefix : CString} {options : List OptionSpec} {option : OptionSpec}
  {tokens : List CString} {reader : Host} {m : Machine}

omit [BcCore] in
theorem suppliedValues_valid (distinct : DistinctNames options)
    (valid : ∀ token ∈ tokens, ValidToken options token) (mem : option ∈ options)
    {value : CString} (supplied : value ∈ suppliedValues option tokens) :
    ValidValue option value := by
  obtain ⟨token, named_mem, hvalue⟩ := List.mem_filterMap.mp supplied
  obtain ⟨token_mem, named⟩ := List.mem_filter.mp named_mem
  obtain ⟨other, other_mem, other_named, accepts⟩ := (valid token token_mem).named
  have names : option.longName.bytes = other.longName.bytes := by
    rw [other_named, of_decide_eq_true named]
  obtain rfl := distinct.eq_of_name mem other_mem names
  rw [hvalue] at accepts
  exact accepts.2

omit [BcCore] in
theorem readable_of_occurs (distinct : DistinctNames options)
    (valid : ∀ token ∈ tokens, ValidToken options token) (mem : option ∈ options)
    (occurs : Occurs option tokens) (notFlag : option.type ≠ .flag)
    (notList : option.type ≠ .list) (sorted : m.store.sorted = true)
    (stored : m.store.content (optionKey keyPrefix option) = configuredValue option tokens) :
    ∃ text, (suppliedValues option tokens).getLast? = some text ∧ ValidValue option text ∧
      readable m (optionKey keyPrefix option) = some text := by
  have nonempty := suppliedValues_ne_nil distinct valid mem notFlag occurs
  have last := List.getLast?_eq_some_getLast nonempty
  refine ⟨_, last, suppliedValues_valid distinct valid mem (List.getLast_mem nonempty), ?_⟩
  rw [readable, if_pos sorted, stored, configuredValue, if_pos occurs,
    suppliedValue_of_single notList notFlag, last]

theorem readsInteger_iff (reading : reader.ReadingCallsSucceed) (storeValid : m.store.Valid)
    {key text : CString} (valid : IntegerText text.bytes)
    (found : readable m key = some text) :
    (configStoreGetInteger key reader m).1 = some (integerValue text.bytes) ↔
      InLongRange (integerValue text.bytes) := by
  rw [configStoreGetInteger_run reading.1 storeValid, found, Option.bind_some,
    readLong_eq_some_iff]
  exact ⟨fun read => read.2.1, fun inRange => ⟨valid, inRange, rfl⟩⟩

theorem readsBoolean (reading : reader.ReadingCallsSucceed) (storeValid : m.store.Valid)
    {key text : CString} (valid : text ∈ booleanTexts) (found : readable m key = some text) :
    (configStoreGetBoolean key reader m).1.isSome = true := by
  have known : ∀ text ∈ booleanTexts, text ∈ trueWords ++ falseWords := by decide
  exact (configStoreGetBoolean_run reading storeValid key).mpr
    ⟨text, found, text, known text valid, rfl⟩

/-- The getters read the option exactly when its last integer is in range. -/
theorem readsTyped_iff (reading : reader.ReadingCallsSucceed) (distinct : DistinctNames options)
    (valid : ∀ token ∈ tokens, ValidToken options token) (mem : option ∈ options)
    (storeValid : m.store.Valid) (sorted : m.store.sorted = true)
    (stored : m.store.content (optionKey keyPrefix option) = configuredValue option tokens) :
    ReadsTyped reader m keyPrefix option tokens ↔ LastInRange option tokens := by
  by_cases occurs : Occurs option tokens
  · have found := fun notFlag notList =>
      readable_of_occurs distinct valid mem occurs notFlag notList sorted stored
    constructor
    · intro reads isInteger text last
      obtain ⟨text', last', read⟩ := (reads occurs).1 isInteger
      obtain rfl := Option.some.inj (last.symm.trans last')
      obtain ⟨_, stored_last, form, readable⟩ :=
        found (by simp [isInteger]) (by simp [isInteger])
      obtain rfl := Option.some.inj (last.symm.trans stored_last)
      rw [ValidValue, isInteger] at form
      exact (readsInteger_iff reading storeValid form readable).mp read
    · intro inRange _
      constructor
      · intro isInteger
        obtain ⟨text, last, form, readable⟩ :=
          found (by simp [isInteger]) (by simp [isInteger])
        rw [ValidValue, isInteger] at form
        exact ⟨text, last, (readsInteger_iff reading storeValid form readable).mpr
          (inRange isInteger text last)⟩
      · intro isBoolean
        obtain ⟨text, _, form, readable⟩ :=
          found (by simp [isBoolean]) (by simp [isBoolean])
        rw [ValidValue, isBoolean] at form
        exact readsBoolean reading storeValid form readable
  · refine iff_of_true (fun present => absurd present occurs) fun _ text last => ?_
    rw [suppliedValues_of_not_occurs occurs] at last
    exact absurd last (by simp)

end Table

section Parse
variable {spec : ProgramSpec} {argumentValues : List CString} {errorStream : Bool}
  {host reader : Host} {m m' : Machine} {parsed : Parsed}

/-- Everything the command line supplies is read back by the getter of its type
exactly when the last text of every supplied integer option denotes a `long`. -/
theorem readsTyped_iff_inRange (distinct : DistinctTables spec)
    (apart : ∀ command ∈ spec.commands, ApartFromGlobal command)
    (empty : m.store.entries = []) (reading : reader.ReadingCallsSucceed)
    (run : cliParse spec argumentValues errorStream host m = (some (.ok, parsed), m')) :
    ((∀ option ∈ spec.globalOptions,
        ReadsTyped reader m' cliGlobalPrefix option (globalTokens argumentValues)) ∧
      ∀ command, parsed.command = some command → ∀ option ∈ command.options,
        ReadsTyped reader m' (commandPrefix command) option (commandTokens argumentValues)) ↔
      (∀ option ∈ spec.globalOptions, LastInRange option (globalTokens argumentValues)) ∧
        ∀ command, selectedCommand spec argumentValues = some command →
          ∀ option ∈ command.options, LastInRange option (commandTokens argumentValues) := by
  obtain ⟨globals, word, command, options, rest, split, sentence, hparsed, performed⟩ :=
    sentence_of_cliParse distinct run
  obtain ⟨valid, sorted, content⟩ := performed.sentence empty
  obtain ⟨hglobals, hoptions, selected⟩ := segments_of_sentence sentence split
  have mem : command ∈ spec.commands := List.mem_of_find?_eq_some sentence.names
  have hcommand : parsed.command = some command := by rw [hparsed]
  have global_iff : ∀ option ∈ spec.globalOptions,
      (ReadsTyped reader m' cliGlobalPrefix option globals ↔ LastInRange option globals) :=
    fun option option_mem =>
      readsTyped_iff reading distinct.globalsDistinct sentence.globalTokens option_mem valid sorted
        ((content _).trans (valueAfter_sentence_global distinct.globalsDistinct
          sentence.globalTokens option_mem fun other _ =>
            prefixes_apart (apart command mem) option other))
  have command_iff : ∀ option ∈ command.options,
      (ReadsTyped reader m' (commandPrefix command) option options ↔
        LastInRange option options) :=
    fun option option_mem =>
      readsTyped_iff reading (distinct.commandsDistinct command mem) sentence.commandTokens
        option_mem valid sorted
        ((content _).trans (valueAfter_sentence_command (distinct.commandsDistinct command mem)
          sentence.commandTokens option_mem fun other _ =>
            (prefixes_apart (apart command mem) other option).symm))
  rw [hglobals, hoptions, hcommand, selected]
  simp only [Option.some.injEq, forall_eq']
  exact and_congr (forall₂_congr global_iff) (forall₂_congr command_iff)

/-- An accepted number of jobs that no `long` holds. -/
def hugeArguments : List CString :=
  [.lit "copy", .lit "run", .lit "--path=a", .lit "--jobs=99999999999999999999", .lit "x"]

omit [BcCore] in
theorem copySpec_accepts_huge :
    (@cliParse .reference copySpec hugeArguments true (.obliging [] []) .initial).1 =
      some (.ok, ⟨some runCommand, [.lit "x"]⟩) := by decide +kernel

omit [BcCore] in
theorem jobs_unreadable :
    (@configStoreGetInteger .reference (optionKey (commandPrefix runCommand) jobsOption)
      (.obliging [] [])
      (@cliParse .reference copySpec hugeArguments true (.obliging [] []) .initial).2).1 =
        none := by decide +kernel

omit [BcCore] in
/-- An integer option may be accepted and read as missing. -/
theorem readsTyped_fails : ¬ ∀ argumentValues parsed m',
    @cliParse .reference copySpec argumentValues true (.obliging [] []) .initial =
        (some (.ok, parsed), m') →
      ∀ command, parsed.command = some command → ∀ option ∈ command.options,
        @ReadsTyped .reference (.obliging [] []) m' (commandPrefix command) option
          (commandTokens argumentValues) := by
  intro always
  have run := @cliParse_run_of_result .reference _ _ _ _ _ _ copySpec_accepts_huge
  have reads := always _ _ _ run runCommand rfl jobsOption List.mem_cons_self (by decide)
  obtain ⟨text, _, read⟩ := reads.1 rfl
  rw [jobs_unreadable] at read
  exact Option.some_ne_none _ read.symm

omit [BcCore] in
theorem readsTyped_iff_inRange_copy :
    ∃ m', @cliParse .reference copySpec copyArguments true (.obliging [] []) .initial =
        (some (.ok, ⟨some runCommand, [.lit "x"]⟩), m') ∧
      ∀ option ∈ runCommand.options,
        @ReadsTyped .reference (.obliging [] []) m' (commandPrefix runCommand) option
          (commandTokens copyArguments) := by
  have run := @cliParse_run_of_result .reference _ _ _ _ _ _ copySpec_accepts
  have reads_iff := @readsTyped_iff_inRange .reference copySpec copyArguments true (.obliging [] [])
    (.obliging [] []) .initial _ _ copySpec_wellFormed.toDistinctTables (by decide) rfl
    ⟨(Host.obliging_storeCallsSucceed [] []).core, fun _ => rfl⟩ run
  refine ⟨_, run, (reads_iff.mpr ⟨by decide, ?_⟩).2 runCommand rfl⟩
  intro command selected
  obtain rfl : runCommand = command := Option.some.inj selected
  decide

end Parse

end BcRuntime
