import BcRuntime.Cli.Content

/-!
A command line over a store that already holds settings. The parser only ever writes
the keys of the two tables: an occurrence replaces what was there, or is joined to it for
a LIST option, and a default replaces it although the option does not occur.
-/

namespace BcRuntime
open Fallible Run

/-- What the tokens and the default of a row make of the value under its key. -/
def rowOver (option : OptionSpec) (tokens : List CString) (old : Option CString) :
    Option CString :=
  if Occurs option tokens then suppliedOver option tokens old else option.defaultValue.or old

section Sentence
variable {spec : ProgramSpec} {globals options : List CString} {command : CommandSpec}
  {option : OptionSpec}

theorem valueAfter_sentence_global_over (distinct : DistinctNames spec.globalOptions)
    (valid : ∀ token ∈ globals, ValidToken spec.globalOptions token)
    (mem : option ∈ spec.globalOptions)
    (unshared : ∀ other ∈ command.options,
      optionKey (commandPrefix command) other ≠ optionKey cliGlobalPrefix option)
    (old : Option CString) :
    valueAfter (sentenceCalls spec globals command options) (optionKey cliGlobalPrefix option)
        old = rowOver option globals old := by
  simp only [sentenceCalls, valueAfter_append]
  rw [valueAfter_of_foreign (foreign_of_keys (fun _ => tokenCalls_key?) unshared),
    valueAfter_row distinct valid mem,
    valueAfter_of_foreign (foreign_of_keys (fun _ => defaultCalls_key?) unshared)]
  rfl

theorem valueAfter_sentence_command_over (distinct : DistinctNames command.options)
    (valid : ∀ token ∈ options, ValidToken command.options token)
    (mem : option ∈ command.options)
    (unshared : ∀ other ∈ spec.globalOptions,
      optionKey cliGlobalPrefix other ≠ optionKey (commandPrefix command) option)
    (old : Option CString) :
    valueAfter (sentenceCalls spec globals command options)
        (optionKey (commandPrefix command) option) old = rowOver option options old := by
  simp only [sentenceCalls, valueAfter_append]
  rw [valueAfter_of_foreign (foreign_of_keys (fun _ => tokenCalls_key?) unshared),
    valueAfter_of_foreign (foreign_of_keys (fun _ => defaultCalls_key?) unshared),
    valueAfter_row distinct valid mem]
  rfl

theorem valueAfter_sentence_frame {key : CString}
    (notGlobal : ∀ option ∈ spec.globalOptions, optionKey cliGlobalPrefix option ≠ key)
    (notCommand : ∀ option ∈ command.options, optionKey (commandPrefix command) option ≠ key)
    (old : Option CString) :
    valueAfter (sentenceCalls spec globals command options) key old = old := by
  simp only [sentenceCalls, valueAfter_append]
  rw [valueAfter_of_foreign (foreign_of_keys (fun _ => tokenCalls_key?) notGlobal),
    valueAfter_of_foreign (foreign_of_keys (fun _ => tokenCalls_key?) notCommand),
    valueAfter_of_foreign (foreign_of_keys (fun _ => defaultCalls_key?) notGlobal),
    valueAfter_of_foreign (foreign_of_keys (fun _ => defaultCalls_key?) notCommand)]
  rfl

end Sentence

section Parse

theorem Performed.from_store {calls : List StoreCall} {m m' : Machine}
    (h : Performed (calls ++ [.sort]) m m') (valid : m.store.Valid) :
    m'.store.Valid ∧ m'.store.sorted = true ∧
      ∀ key, m'.store.content key = valueAfter (calls ++ [.sort]) key (m.store.content key) := by
  have followed := h.refines ⟨m.store.content, m.store.sorted⟩ ⟨valid, fun _ => rfl, rfl⟩
  refine ⟨followed.valid, ?_, fun key => ?_⟩
  · rw [followed.sorted, List.foldl_append]
    rfl
  · rw [followed.content, foldl_reflect_map]

/-- What the calls of a sentence make of the rows of its two tables, and of the rest. -/
structure Overlaid (spec : ProgramSpec) (globals : List CString) (command : CommandSpec)
    (options : List CString) (before after : ConfigStore) : Prop where
  globalRows : ∀ option ∈ spec.globalOptions,
    after.content (optionKey cliGlobalPrefix option) =
      rowOver option globals (before.content (optionKey cliGlobalPrefix option))
  commandRows : ∀ option ∈ command.options,
    after.content (optionKey (commandPrefix command) option) =
      rowOver option options (before.content (optionKey (commandPrefix command) option))
  otherKeys : ∀ key, (∀ option ∈ spec.globalOptions, optionKey cliGlobalPrefix option ≠ key) →
    (∀ option ∈ command.options, optionKey (commandPrefix command) option ≠ key) →
      after.content key = before.content key

theorem Performed.overlaid {spec : ProgramSpec} {globals options rest : List CString}
    {word : CString} {command : CommandSpec} {m m' : Machine}
    (h : Performed (sentenceCalls spec globals command options) m m')
    (sentence : Sentence spec globals word command options rest) (distinct : DistinctTables spec)
    (apart : ∀ command ∈ spec.commands, ApartFromGlobal command) (valid : m.store.Valid) :
    Overlaid spec globals command options m.store m'.store := by
  have content : ∀ key, m'.store.content key =
      valueAfter (sentenceCalls spec globals command options) key (m.store.content key) :=
    (h.from_store valid).2.2
  have mem : command ∈ spec.commands := List.mem_of_find?_eq_some sentence.names
  refine ⟨?_, ?_, ?_⟩
  · intro option option_mem
    rw [content]
    exact valueAfter_sentence_global_over distinct.globalsDistinct sentence.globalTokens
      option_mem (fun other _ => prefixes_apart (apart command mem) option other) _
  · intro option option_mem
    rw [content]
    exact valueAfter_sentence_command_over (distinct.commandsDistinct command mem)
      sentence.commandTokens option_mem
      (fun other _ => (prefixes_apart (apart command mem) other option).symm) _
  · intro key notGlobal notCommand
    rw [content]
    exact valueAfter_sentence_frame notGlobal notCommand _

variable [BcCore] {spec : ProgramSpec} {argumentValues : List CString} {errorStream : Bool}
  {host : Host} {m m' : Machine} {parsed : Parsed}

/-- What an accepted command line makes of the settings of any store. -/
theorem cliParse_over (distinct : DistinctTables spec)
    (apart : ∀ command ∈ spec.commands, ApartFromGlobal command) (valid : m.store.Valid)
    (run : cliParse spec argumentValues errorStream host m = (some (.ok, parsed), m')) :
    m'.store.Valid ∧ m'.store.sorted = true ∧
      ∃ command ∈ spec.commands, parsed.command = some command ∧
        (∀ option ∈ spec.globalOptions,
          m'.store.content (optionKey cliGlobalPrefix option) =
            rowOver option (globalTokens argumentValues)
              (m.store.content (optionKey cliGlobalPrefix option))) ∧
        (∀ option ∈ command.options,
          m'.store.content (optionKey (commandPrefix command) option) =
            rowOver option (commandTokens argumentValues)
              (m.store.content (optionKey (commandPrefix command) option))) ∧
        ∀ key, (∀ option ∈ spec.globalOptions, optionKey cliGlobalPrefix option ≠ key) →
          (∀ option ∈ command.options, optionKey (commandPrefix command) option ≠ key) →
            m'.store.content key = m.store.content key := by
  obtain ⟨globals, word, command, options, rest, split, sentence, hparsed, performed⟩ :=
    sentence_of_cliParse distinct run
  have stored : m'.store.Valid ∧ m'.store.sorted = true ∧ _ := performed.from_store valid
  obtain ⟨hglobals, hoptions, _⟩ := segments_of_sentence sentence split
  have overlaid := performed.overlaid sentence distinct apart valid
  rw [← hglobals, ← hoptions] at overlaid
  exact ⟨stored.1, stored.2.1, command, List.mem_of_find?_eq_some sentence.names, by rw [hparsed],
    overlaid.globalRows, overlaid.commandRows, overlaid.otherKeys⟩

/-- A store that a configuration file has been loaded into. -/
def configuredMachine : Machine :=
  { Machine.initial with
    store := { Machine.initial.store with
      entries := [freshEntry (.lit "run.jobs") (.lit "16"), freshEntry (.lit "run.path") (.lit "z"),
        freshEntry (.lit "log.level") (.lit "warn")] } }

omit [BcCore] in
/-- The default of `jobs` replaces the value of the file, and the paths are joined. -/
theorem cliParse_over_file :
    ∃ m', @cliParse .reference copySpec copyArguments true (.obliging [] []) configuredMachine =
        (some (.ok, ⟨some runCommand, [.lit "x"]⟩), m') ∧
      m'.store.content (.lit "run.jobs") = some (.lit "4") ∧
      m'.store.content (.lit "run.path") = some (.lit "z\na\nb") ∧
      m'.store.content (.lit "log.level") = some (.lit "warn") := by
  have accepted : (@cliParse .reference copySpec copyArguments true (.obliging [] [])
      configuredMachine).1 = some (.ok, ⟨some runCommand, [.lit "x"]⟩) := by decide +kernel
  have run := @cliParse_run_of_result .reference _ _ _ _ _ _ accepted
  have valid : configuredMachine.store.Valid := ⟨by decide, fun sorted => nomatch sorted⟩
  obtain ⟨_, _, command, _, same, _, content, frame⟩ :=
    @cliParse_over .reference copySpec copyArguments true (.obliging [] []) configuredMachine _ _
      copySpec_wellFormed.toDistinctTables (by decide) valid run
  obtain rfl : runCommand = command := Option.some.inj same
  exact ⟨_, run, content jobsOption (by decide), content pathOption (by decide),
    frame _ (by decide) (by decide)⟩

end Parse

end BcRuntime
