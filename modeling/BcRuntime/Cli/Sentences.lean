import BcRuntime.Cli.OptionRuns

/-!
A plan with the status `PARSE_OK` is a sentence of the grammar, and every sentence
has one: the scan falls into a run of global options, the command and a run of
its options, and the defaults complete the two tables.
-/

namespace BcRuntime

/-- What a scan that ends at the positional arguments has read. -/
structure Scanned (spec : ProgramSpec) (tokens : List CString) (calls : List StoreCall)
    (state : ScanState) (values globals : List CString) (word : CString) (command : CommandSpec)
    (options rest : List CString) : Prop where
  split : tokens = globals ++ word :: (options ++ rest)
  globalTokens : ∀ token ∈ globals, AcceptedToken cliGlobalPrefix spec.globalOptions token
  isWord : ¬ dashes <+: word.bytes
  names : (spec.commands.find? fun command => command.name = word) = some command
  commandTokens : ∀ token ∈ options, AcceptedToken (commandPrefix command) command.options token
  ends : EndsOptions rest
  values : values = positionals rest
  selected : state.command = some command
  globalSeen : state.globalSeen = seenAfter spec.globalOptions globals
  commandSeen : state.commandSeen = seenAfter command.options options
  calls : calls = globals.filterMap (tokenCall cliGlobalPrefix spec.globalOptions) ++
    options.filterMap (tokenCall (commandPrefix command) command.options)

section Scan
variable {spec : ProgramSpec} {state state' : ScanState} {command : CommandSpec}
  {tokens values : List CString} {calls : List StoreCall}

theorem planScan_word {word : CString} (isWord : ¬ dashes <+: word.bytes)
    (names : (spec.commands.find? fun command => command.name = word) = some command)
    (unselected : state.command = none) :
    planScan spec (word :: tokens) state =
      planScan spec tokens { state with command := some command } := by
  rw [startsWithDashes_cases, not_or] at isWord
  rw [planScan, if_neg isWord.1, if_neg isWord.2, unselected]
  simp only [names]

theorem planScan_builtin {token : CString} (ends : RunEnds (token :: tokens))
    (isOption : OptionToken token) :
    planScan spec (token :: tokens) state ≠ some (calls, .ended state' values) := by
  rw [planScan, if_neg isOption.ne_terminator, if_pos isOption]
  intro planned
  by_cases help : tokenName token = helpName
  · rw [if_pos help] at planned
    simp [Plan.done] at planned
  · rw [if_neg help, if_pos ((ends isOption).resolve_left help)] at planned
    simp [Plan.done] at planned

/-- Without a command the scan goes on past a word that names one. -/
theorem planScan_unselected (ends : RunEnds tokens) (unselected : state.command = none)
    (planned : planScan spec tokens state = some (calls, .ended state' values))
    (selected : state'.command = some command) :
    ∃ word rest named, tokens = word :: rest ∧ ¬ dashes <+: word.bytes ∧
      (spec.commands.find? fun command => command.name = word) = some named ∧
      planScan spec rest { state with command := some named } =
        some (calls, .ended state' values) := by
  have absurd_end : ∀ rest, Plan.done (ScanResult.ended state rest) ≠
      some (calls, .ended state' values) := by
    intro rest finished
    obtain ⟨_, result⟩ := Prod.mk.inj (Option.some.inj finished)
    obtain ⟨hstate, _⟩ := ScanResult.ended.inj result
    rw [← hstate, unselected] at selected
    simp at selected
  cases tokens with
  | nil => exact absurd planned (absurd_end [])
  | cons word rest =>
      by_cases isOption : OptionToken word
      · exact absurd planned (planScan_builtin ends isOption)
      · rw [planScan] at planned
        by_cases terminator : word.bytes = dashes
        · rw [if_pos terminator] at planned
          exact absurd planned (absurd_end rest)
        · have isWord : ¬ dashes <+: word.bytes := by
            rw [startsWithDashes_cases]
            exact not_or.mpr ⟨terminator, isOption⟩
          rw [if_neg terminator, if_neg isOption, unselected] at planned
          cases named : spec.commands.find? fun command => command.name = word with
          | none => simp [named, Plan.reject] at planned
          | some found =>
              simp only [named] at planned
              exact ⟨word, rest, found, rfl, isWord, named, planned⟩

theorem planScan_ends (ends : EndsOptions tokens) (selected : state.command = some command) :
    planScan spec tokens state = .done (.ended state (positionals tokens)) := by
  cases tokens with
  | nil => rfl
  | cons token rest =>
      rw [planScan, positionals]
      by_cases terminator : token.bytes = dashes
      · rw [if_pos terminator, if_pos terminator]
      · have notOption : ¬ OptionToken token := fun isOption =>
          ends.resolve_left terminator isOption.1
        rw [if_neg terminator, if_neg terminator, if_neg notOption, selected]

/-- After the options of a command come the positional arguments. -/
theorem planScan_selected (ends : RunEnds tokens) (selected : state.command = some command)
    (planned : planScan spec tokens state = some (calls, .ended state' values)) :
    EndsOptions tokens ∧ calls = [] ∧ state' = state ∧ values = positionals tokens := by
  have stops : EndsOptions tokens := by
    cases tokens with
    | nil => trivial
    | cons token rest =>
        refine or_iff_not_imp_left.mpr fun notTerminator starts => ?_
        have isOption := ((startsWithDashes_cases token).mp starts).resolve_left notTerminator
        exact planScan_builtin ends isOption planned
  rw [planScan_ends stops selected] at planned
  obtain ⟨hcalls, result⟩ := Prod.mk.inj (Option.some.inj planned)
  obtain ⟨hstate, hvalues⟩ := ScanResult.ended.inj result
  exact ⟨stops, hcalls.symm, hstate.symm, hvalues.symm⟩

end Scan

section Scanned
variable {spec : ProgramSpec}

def ScanState.atCommand (spec : ProgramSpec) (globals : List CString) (command : CommandSpec) :
    ScanState :=
  { ScanState.initial.after spec globals with command := some command }

theorem scanned_of_plan {tokens values : List CString} {calls : List StoreCall}
    {state : ScanState} {selected : CommandSpec}
    (planned : planScan spec tokens .initial = some (calls, .ended state values))
    (ended : state.command = some selected) :
    ∃ globals word command options rest,
      Scanned spec tokens calls state values globals word command options rest := by
  obtain ⟨globals, rest₁, later, hsplit, ends, globalRun⟩ := planScan_run spec .initial planned
  obtain ⟨word, after, command, hrest, isWord, names, commandPlanned⟩ :=
    planScan_unselected ends rfl globalRun.planned ended
  obtain ⟨options, rest, last, hafter, commandEnds, commandRun⟩ :=
    planScan_run spec (.atCommand spec globals command) commandPlanned
  obtain ⟨stops, hcalls, hstate, hvalues⟩ :=
    planScan_selected commandEnds rfl commandRun.planned
  subst hcalls hstate hrest hafter
  refine ⟨globals, word, command, options, rest, ?_⟩
  exact {
    split := hsplit
    globalTokens := globalRun.accepted
    isWord := isWord
    names := names
    commandTokens := commandRun.accepted
    ends := stops
    values := hvalues
    selected := rfl
    globalSeen := rfl
    commandSeen := rfl
    calls := by
      rw [globalRun.calls, commandRun.calls, List.append_nil]
      rfl }

theorem plan_of_scanned {globals options rest : List CString} {word : CString}
    {command : CommandSpec}
    (globalTokens : ∀ token ∈ globals, AcceptedToken cliGlobalPrefix spec.globalOptions token)
    (isWord : ¬ dashes <+: word.bytes)
    (names : (spec.commands.find? fun command => command.name = word) = some command)
    (commandTokens : ∀ token ∈ options,
      AcceptedToken (commandPrefix command) command.options token)
    (short : command.name.length + 2 ≤ cliKeyBufferSize) (ends : EndsOptions rest) :
    ∃ calls state, planScan spec (globals ++ word :: (options ++ rest)) .initial =
        some (calls, .ended state (positionals rest)) ∧
      Scanned spec (globals ++ word :: (options ++ rest)) calls state (positionals rest) globals
        word command options rest := by
  have ended : planScan spec rest ((ScanState.atCommand spec globals command).after spec options) =
      some ([], .ended _ (positionals rest)) := planScan_ends ends rfl
  have commandPlanned : planScan spec (options ++ rest) (.atCommand spec globals command) = _ :=
    (planScan_append_iff fun token mem => (commandTokens token mem).toLookedUp).mpr
      ⟨_, commandTokens, fun _ _ same => Option.some.inj same ▸ short, ended, rfl⟩
  have globalPlanned : planScan spec (globals ++ word :: (options ++ rest)) .initial = _ :=
    (planScan_append_iff fun token mem => (globalTokens token mem).toLookedUp).mpr
      ⟨_, globalTokens, fun _ _ same => by simp [ScanState.initial] at same,
        (planScan_word isWord names rfl).trans commandPlanned, rfl⟩
  refine ⟨_, _, globalPlanned, ?_⟩
  exact {
    split := rfl
    globalTokens := globalTokens
    isWord := isWord
    names := names
    commandTokens := commandTokens
    ends := ends
    values := rfl
    selected := rfl
    globalSeen := rfl
    commandSeen := rfl
    calls := by
      rw [List.append_nil]
      rfl }

section Tables
variable {tokens values globals options rest : List CString} {calls : List StoreCall}
  {state : ScanState} {word : CString} {command : CommandSpec} (wellFormed : WellFormedSpec spec)
  (read : Scanned spec tokens calls state values globals word command options rest)
include wellFormed read

theorem Scanned.tables : TableTokens cliGlobalPrefix spec.globalOptions globals ∧
    TableTokens (commandPrefix command) command.options options :=
  ⟨(acceptedTokens_iff wellFormed.globalsDistinct).mp read.globalTokens,
    (acceptedTokens_iff (wellFormed.commandsDistinct command
      (List.mem_of_find?_eq_some read.names))).mp read.commandTokens⟩

theorem Scanned.flags : FlagsOccurrences state.globalSeen spec.globalOptions globals ∧
    FlagsOccurrences state.commandSeen command.options options := by
  have mem : command ∈ spec.commands := List.mem_of_find?_eq_some read.names
  rw [read.globalSeen, read.commandSeen]
  exact ⟨seenAfter_occurrences wellFormed.tables.2 wellFormed.globalsDistinct globals,
    seenAfter_occurrences (wellFormed.tables.1 command mem)
      (wellFormed.commandsDistinct command mem) options⟩

end Tables

end Scanned

section Defaults

def DefaultsGoThrough (keyPrefix : CString) (options : List OptionSpec)
    (tokens : List CString) : Prop :=
  ∀ option ∈ options, ¬ Occurs option tokens →
    option.required = false ∧ (option.defaultValue.isSome = true → KeyFits keyPrefix option)

theorem planDefaults_isSome_iff {keyPrefix : CString} {seen : List Bool}
    {options : List OptionSpec} {index : Nat} :
    (planDefaults keyPrefix seen options index).isSome = true ↔
      ∀ n option, options[n]? = some option → ¬ seen.getD (index + n) false = true →
        option.required = false ∧
          (option.defaultValue.isSome = true → KeyFits keyPrefix option) := by
  induction options generalizing index with
  | nil => simp [planDefaults, Plan.done]
  | cons option options ih =>
      have rows : (∀ n row, (option :: options)[n]? = some row →
          ¬ seen.getD (index + n) false = true → row.required = false ∧
            (row.defaultValue.isSome = true → KeyFits keyPrefix row)) ↔
          (¬ seen.getD index false = true → option.required = false ∧
            (option.defaultValue.isSome = true → KeyFits keyPrefix option)) ∧
          (planDefaults keyPrefix seen options (index + 1)).isSome = true := by
        rw [ih]
        constructor
        · intro each
          refine ⟨each 0 option rfl, fun n row cell => ?_⟩
          rw [Nat.add_assoc, Nat.add_comm 1 n]
          exact each (n + 1) row (by simpa using cell)
        · rintro ⟨head, tail⟩ n row cell
          cases n with
          | zero =>
              obtain rfl : option = row := by simpa using cell
              exact head
          | succ n =>
              have later := tail n row (by simpa using cell)
              rwa [Nat.add_assoc, Nat.add_comm 1 n] at later
      rw [rows, planDefaults]
      cases seen.getD index false with
      | true => simp
      | false =>
          cases option.required with
          | true => simp [Plan.reject]
          | false =>
              cases option.defaultValue with
              | none => simp
              | some defaultValue =>
                  by_cases fits : KeyFits keyPrefix option
                  · simp [fits, Plan.andThen, Plan.call, Plan.calls]
                  · simp [fits, Plan.reject]

theorem planDefaults_calls {keyPrefix : CString} {seen : List Bool} {options : List OptionSpec}
    {tokens : List CString} {index : Nat} {calls : List StoreCall}
    (flags : ∀ n option, options[n]? = some option →
      (seen.getD (index + n) false = true ↔ Occurs option tokens))
    (planned : planDefaults keyPrefix seen options index = some (calls, ())) :
    calls = defaultCalls keyPrefix options tokens := by
  induction options generalizing index calls with
  | nil => exact (Prod.mk.inj (Option.some.inj planned)).1.symm
  | cons option options ih =>
      have head : seen.getD index false = true ↔ Occurs option tokens := flags 0 option rfl
      have tail : ∀ {calls}, planDefaults keyPrefix seen options (index + 1) = some (calls, ()) →
          calls = defaultCalls keyPrefix options tokens := by
        refine ih fun n other cell => ?_
        rw [Nat.add_assoc, Nat.add_comm 1 n]
        exact flags (n + 1) other (by simpa using cell)
      have calls_cons : defaultCalls keyPrefix (option :: options) tokens =
          (defaultCall keyPrefix tokens option).toList ++ defaultCalls keyPrefix options tokens := by
        rw [defaultCalls, List.filterMap_cons]
        cases defaultCall keyPrefix tokens option <;> rfl
      rw [planDefaults] at planned
      rw [calls_cons, defaultCall]
      by_cases occurs : Occurs option tokens
      · rw [if_pos (head.mpr occurs)] at planned
        rw [if_pos occurs]
        exact tail planned
      · rw [if_neg (mt head.mp occurs)] at planned
        rw [if_neg occurs]
        cases required : option.required with
        | true => simp [required, Plan.reject] at planned
        | false =>
            rw [if_neg (by simp [required])] at planned
            cases default : option.defaultValue with
            | none =>
                rw [default] at planned
                exact tail planned
            | some defaultValue =>
                by_cases fits : KeyFits keyPrefix option
                · simp only [default, fits, if_true] at planned
                  obtain ⟨first, _, later, called, rest, hcalls⟩ :=
                    Plan.andThen_eq_some_iff.mp planned
                  obtain ⟨hfirst, _⟩ := Prod.mk.inj (Option.some.inj called)
                  rw [hcalls, ← hfirst, tail rest]
                  rfl
                · simp [default, fits, Plan.reject] at planned

theorem planDefaults_eq_some_iff {keyPrefix : CString} {seen : List Bool}
    {options : List OptionSpec} {tokens : List CString} {index : Nat} {calls : List StoreCall}
    (flags : ∀ n option, options[n]? = some option →
      (seen.getD (index + n) false = true ↔ Occurs option tokens)) :
    planDefaults keyPrefix seen options index = some (calls, ()) ↔
      DefaultsGoThrough keyPrefix options tokens ∧
        calls = defaultCalls keyPrefix options tokens := by
  have through : (planDefaults keyPrefix seen options index).isSome = true ↔
      DefaultsGoThrough keyPrefix options tokens := by
    rw [planDefaults_isSome_iff]
    constructor
    · intro each option mem occurs
      obtain ⟨n, cell⟩ := List.mem_iff_getElem?.mp mem
      exact each n option cell (mt (flags n option cell).mp occurs)
    · intro each n option cell unseen
      exact each option (List.mem_of_getElem? cell) (mt (flags n option cell).mpr unseen)
  constructor
  · intro planned
    exact ⟨through.mp (by rw [planned]; rfl), planDefaults_calls flags planned⟩
  · rintro ⟨goes, hcalls⟩
    obtain ⟨⟨calls', _⟩, planned⟩ := Option.isSome_iff_exists.mp (through.mpr goes)
    rw [planned, hcalls, planDefaults_calls flags planned]

theorem tableComplete_iff {keyPrefix : CString} {options : List OptionSpec}
    {tokens : List CString} (accepted : TableTokens keyPrefix options tokens) :
    TableComplete keyPrefix options tokens ↔ DefaultsGoThrough keyPrefix options tokens := by
  constructor
  · intro complete option mem absent
    refine ⟨?_, fun given => complete.fits option mem (.inr given)⟩
    rw [Bool.eq_false_iff]
    exact fun required => absent (complete.required option mem required)
  · intro through
    refine ⟨fun option mem required => ?_, fun option mem stored => ?_⟩
    · by_contra absent
      rw [(through option mem absent).1] at required
      exact Bool.false_ne_true required
    · by_cases occurs : Occurs option tokens
      · exact accepted.fits option mem occurs
      · exact (through option mem occurs).2 (stored.resolve_left occurs)

end Defaults

section Parse
variable {spec : ProgramSpec} {argumentValues : List CString}

/-- The second half of a plan with the status `PARSE_OK`. -/
theorem planFinish_eq_some_iff {state : ScanState} {command : CommandSpec} {values : List CString}
    {globals options : List CString} {calls : List StoreCall} {result : ParseStatus × Parsed}
    (selected : state.command = some command)
    (globalFlags : FlagsOccurrences state.globalSeen spec.globalOptions globals)
    (commandFlags : FlagsOccurrences state.commandSeen command.options options) :
    planFinish spec state values = some (calls, result) ↔
      DefaultsGoThrough cliGlobalPrefix spec.globalOptions globals ∧
      DefaultsGoThrough (commandPrefix command) command.options options ∧
      PositionalsFit command values.length ∧
      calls = defaultCalls cliGlobalPrefix spec.globalOptions globals ++
        (defaultCalls (commandPrefix command) command.options options ++ [.sort]) ∧
      result = (.ok, ⟨some command, values⟩) := by
  have globalDefaults : ∀ {calls}, planDefaults cliGlobalPrefix state.globalSeen
      spec.globalOptions 0 = some (calls, ()) ↔ _ :=
    planDefaults_eq_some_iff fun n option cell => by simpa using globalFlags n option cell
  have commandDefaults : ∀ {calls}, planDefaults (commandPrefix command) state.commandSeen
      command.options 0 = some (calls, ()) ↔ _ :=
    planDefaults_eq_some_iff fun n option cell => by simpa using commandFlags n option cell
  simp only [planFinish]
  simp only [selected]
  constructor
  · intro planned
    obtain ⟨first, _, later, global, rest, hcalls⟩ := Plan.andThen_eq_some_iff.mp planned
    obtain ⟨second, _, last, local_, ending, hlater⟩ := Plan.andThen_eq_some_iff.mp rest
    obtain ⟨through, hfirst⟩ := globalDefaults.mp global
    obtain ⟨through', hsecond⟩ := commandDefaults.mp local_
    by_cases fits : PositionalsFit command values.length
    · rw [if_pos fits] at ending
      obtain ⟨hlast, hresult⟩ := Prod.mk.inj (Option.some.inj ending)
      subst hcalls hlater hfirst hsecond hlast
      exact ⟨through, through', fits, rfl, hresult.symm⟩
    · rw [if_neg fits] at ending
      simp [Plan.reject] at ending
  · rintro ⟨through, through', fits, hcalls, hresult⟩
    rw [if_pos fits, hcalls, hresult]
    refine Plan.andThen_eq_some_iff.mpr
      ⟨_, (), _, globalDefaults.mpr ⟨through, rfl⟩, ?_, rfl⟩
    exact Plan.andThen_eq_some_iff.mpr ⟨_, (), _, commandDefaults.mpr ⟨through', rfl⟩, rfl, rfl⟩

theorem tablesFit_of_plan {calls : List StoreCall} {result : ParseStatus × Parsed}
    (planned : planParse spec argumentValues = some (calls, result)) : TablesFit spec := by
  by_contra large
  simp [planParse, large, Plan.reject] at planned

theorem sentence_of_plan (distinct : DistinctTables spec) {calls : List StoreCall}
    {parsed : Parsed} (planned : planParse spec argumentValues = some (calls, (.ok, parsed))) :
    ∃ globals word command options rest,
      argumentValues.drop 1 = globals ++ word :: (options ++ rest) ∧
      Sentence spec globals word command options rest ∧
      calls = sentenceCalls spec globals command options ∧
      parsed = ⟨some command, positionals rest⟩ := by
  have tables := tablesFit_of_plan planned
  rw [planParse, if_pos tables, Plan.andThen_eq_some_iff] at planned
  obtain ⟨first, scanned, later, scan, finish, hcalls⟩ := planned
  -- only a scan that ends at the positional arguments can end in PARSE_OK
  obtain ⟨state, values, hscanned⟩ : ∃ state values, scanned = .ended state values := by
    cases scanned with
    | ended state values => exact ⟨state, values, rfl⟩
    | help command => cases command <;> simp [planResult, Plan.done] at finish
    | version => simp [planResult, Plan.done] at finish
  subst hscanned
  cases ended : state.command with
  | none => simp [planResult, planFinish, ended, Plan.reject] at finish
  | some selected =>
      obtain ⟨globals, word, command, options, rest, read⟩ :=
        scanned_of_plan scan ended
      have wellFormed : WellFormedSpec spec := ⟨distinct, tables⟩
      obtain ⟨globalTokens, commandTokens⟩ := read.tables wellFormed
      obtain ⟨globalFlags, commandFlags⟩ := read.flags wellFormed
      obtain ⟨globalsThrough, commandThrough, fits, hlater, hresult⟩ :=
        (planFinish_eq_some_iff read.selected globalFlags commandFlags).mp finish
      have hvalues := read.values
      subst hvalues
      refine ⟨globals, word, command, options, rest, read.split, ?_, ?_, (Prod.mk.inj hresult).2⟩
      · exact {
          globalTokens := globalTokens.valid
          isWord := read.isWord
          names := read.names
          commandTokens := commandTokens.valid
          ends := read.ends
          globalsComplete := (tableComplete_iff globalTokens).mpr globalsThrough
          commandComplete := (tableComplete_iff commandTokens).mpr commandThrough
          positionalCount := fits }
      · rw [hcalls, hlater, read.calls]
        simp only [sentenceCalls, List.append_assoc]

theorem plan_of_sentence (wellFormed : WellFormedSpec spec) {globals options rest : List CString}
    {word : CString} {command : CommandSpec}
    (split : argumentValues.drop 1 = globals ++ word :: (options ++ rest))
    (short : command.name.length + 2 ≤ cliKeyBufferSize)
    (sentence : Sentence spec globals word command options rest) :
    planParse spec argumentValues =
      some (sentenceCalls spec globals command options,
        (.ok, ⟨some command, positionals rest⟩)) := by
  have globalTokens : TableTokens cliGlobalPrefix spec.globalOptions globals :=
    ⟨sentence.globalTokens, fun option mem occurs =>
      sentence.globalsComplete.fits option mem (.inl occurs)⟩
  have commandTokens : TableTokens (commandPrefix command) command.options options :=
    ⟨sentence.commandTokens, fun option mem occurs =>
      sentence.commandComplete.fits option mem (.inl occurs)⟩
  have mem : command ∈ spec.commands := List.mem_of_find?_eq_some sentence.names
  obtain ⟨calls, state, planned, read⟩ :=
    plan_of_scanned ((acceptedTokens_iff wellFormed.globalsDistinct).mpr globalTokens)
      sentence.isWord sentence.names
      ((acceptedTokens_iff (wellFormed.commandsDistinct command mem)).mpr commandTokens) short
      sentence.ends
  obtain ⟨globalFlags, commandFlags⟩ := read.flags wellFormed
  have finish := (planFinish_eq_some_iff read.selected globalFlags commandFlags).mpr
    ⟨(tableComplete_iff globalTokens).mp sentence.globalsComplete,
      (tableComplete_iff commandTokens).mp sentence.commandComplete, sentence.positionalCount,
      rfl, rfl⟩
  rw [planParse, if_pos wellFormed.tables, split]
  refine Plan.andThen_eq_some_iff.mpr ⟨calls, _, _, planned, finish, ?_⟩
  rw [read.calls]
  simp only [sentenceCalls, List.append_assoc]

end Parse

end BcRuntime
