import BcRuntime.Cli.Acceptance
import BcRuntime.Cli.BufferWrites

/-!
The prefix buffers of the parser. The name of a command is checked against the
buffer where an option of the command is handled; the prefix for the defaults is
built without the check. So a name that does not fit is caught, or not, by what
follows it on the command line.
-/

namespace BcRuntime
open Fallible Run

section Conditions

/-- The tokens before the word are looked up as options, and the word names the command. -/
structure Selects (spec : ProgramSpec) (argumentValues globals : List CString) (word : CString)
    (command : CommandSpec) (rest : List CString) : Prop where
  split : argumentValues.drop 1 = globals ++ word :: rest
  lookedUp : ∀ token ∈ globals, LookedUp token
  isWord : ¬ dashes <+: word.bytes
  names : (spec.commands.find? fun command => command.name = word) = some command

/-- The name, a dot and the terminator do not fit into a prefix buffer. -/
def Overlong (command : CommandSpec) : Prop := cliKeyBufferSize < command.name.length + 2

/-- The arguments go on with `--help` or `--version`. -/
def AtBuiltin : List CString → Prop
  | [] => False
  | token :: _ => OptionToken token ∧ (tokenName token = helpName ∨ tokenName token = versionName)

/-- No row that does not occur is required, and the keys of their defaults fit. -/
def DefaultsPass (keyPrefix : CString) (options : List OptionSpec) (tokens : List CString) :
    Prop :=
  ∀ n option, options[n]? = some option → ¬ RowOccurs options tokens n →
    option.required = false ∧ (option.defaultValue.isSome = true → KeyFits keyPrefix option)

/-- Nothing stops the parse between the command and the unchecked prefix. -/
structure SlipsThrough (spec : ProgramSpec) (globals rest : List CString) : Prop where
  tables : TablesFit spec
  accepted : ∀ token ∈ globals, AcceptedToken cliGlobalPrefix spec.globalOptions token
  goesOn : AtBuiltin rest ∨
    EndsOptions rest ∧ DefaultsPass cliGlobalPrefix spec.globalOptions globals

/-- No write leaves its array, and a command whose name does not fit is an error. -/
def PrefixesSafe [BcCore] (spec : ProgramSpec) (argumentValues : List CString) : Prop :=
  ∀ (host : Host) (m : Machine) (errorStream : Bool),
    InBounds m (cliParse spec argumentValues errorStream host m).2 ∧
    ∀ globals word command rest, Selects spec argumentValues globals word command rest →
      Overlong command →
        ∃ parsed, (cliParse spec argumentValues errorStream host m).1 = some (.error, parsed)

end Conditions

section Plans
variable {spec : ProgramSpec} {argumentValues globals rest : List CString} {word : CString}
  {command : CommandSpec} {calls : List StoreCall} {result : ScanResult}

theorem defaultsPass_iff (tables : TablesFit spec) :
    DefaultsPass cliGlobalPrefix spec.globalOptions globals ↔
      (planDefaults cliGlobalPrefix (seenAfter spec.globalOptions globals)
        spec.globalOptions 0).isSome = true := by
  rw [planDefaults_isSome_iff]
  refine forall₃_congr fun n option cell => ?_
  rw [Nat.zero_add, seenAfter_flag tables.2 (List.getElem?_eq_some_iff.mp cell).1]

/-- A scan that reaches a command whose name does not fit. -/
theorem planScan_overlong (selects : Selects spec argumentValues globals word command rest)
    (long : Overlong command)
    (planned : planScan spec (argumentValues.drop 1) .initial = some (calls, result)) :
    (∀ token ∈ globals, AcceptedToken cliGlobalPrefix spec.globalOptions token) ∧
      (AtBuiltin rest ∨ EndsOptions rest ∧
        result = .ended (.atCommand spec globals command) (positionals rest)) := by
  rw [selects.split] at planned
  obtain ⟨later, globalRun⟩ := (planScan_append_iff selects.lookedUp).mp planned
  refine ⟨globalRun.accepted, ?_⟩
  have after_word : planScan spec rest (.atCommand spec globals command) = some (later, result) :=
    (planScan_word selects.isWord selects.names rfl).symm.trans globalRun.planned
  obtain ⟨options, rest', last, split, ends, commandRun⟩ := planScan_run spec _ after_word
  -- the first option of the command would have been refused
  have no_options : options = [] := by
    by_contra nonempty
    exact absurd (commandRun.fits nonempty command rfl) (not_le.mpr long)
  subst no_options split
  have finished : EndsOptions rest →
      result = .ended (.atCommand spec globals command) (positionals rest) := by
    intro stops
    rw [planScan_ends stops rfl] at after_word
    exact (Prod.mk.inj (Option.some.inj after_word)).2.symm
  cases rest with
  | nil => exact .inr ⟨trivial, finished trivial⟩
  | cons token rest =>
      by_cases isOption : OptionToken token
      · exact .inl ⟨isOption, ends isOption⟩
      · have stops : EndsOptions (token :: rest) := by
          rw [EndsOptions, startsWithDashes_cases]
          exact or_iff_not_imp_left.mpr fun notTerminator => not_or.mpr ⟨notTerminator, isOption⟩
        exact .inr ⟨stops, finished stops⟩

theorem selects_of_ended {tokens values : List CString} {state : ScanState}
    {selected : CommandSpec} (split : argumentValues.drop 1 = tokens)
    (planned : planScan spec tokens .initial = some (calls, .ended state values))
    (ended : state.command = some selected) :
    ∃ globals word rest, Selects spec argumentValues globals word selected rest := by
  obtain ⟨globals, word, command, options, rest, read⟩ := scanned_of_plan planned ended
  obtain rfl : command = selected := Option.some.inj (read.selected.symm.trans ended)
  exact ⟨globals, word, options ++ rest, split.trans read.split,
    fun token mem => (read.globalTokens token mem).toLookedUp, read.isWord, read.names⟩

/-- Unless it slips through, a parse with such a command ends in its global defaults. -/
theorem defaults_fail_of_safe (tables : TablesFit spec)
    (selects : Selects spec argumentValues globals word command rest) (long : Overlong command)
    (caught : ¬ SlipsThrough spec globals rest)
    (planned : planScan spec (argumentValues.drop 1) .initial = some (calls, result)) :
    result = .ended (.atCommand spec globals command) (positionals rest) ∧
      planDefaults cliGlobalPrefix (seenAfter spec.globalOptions globals) spec.globalOptions 0 =
        none := by
  obtain ⟨accepted, builtin | ⟨ends, ended⟩⟩ := planScan_overlong selects long planned
  · exact absurd ⟨tables, accepted, .inl builtin⟩ caught
  · refine ⟨ended, ?_⟩
    by_contra defaults
    have pass : DefaultsPass cliGlobalPrefix spec.globalOptions globals :=
      (defaultsPass_iff tables).mpr (Option.isSome_iff_ne_none.mpr defaults)
    exact caught ⟨tables, accepted, .inr ⟨ends, pass⟩⟩

end Plans

section Parse
variable [BcCore] {spec : ProgramSpec} {argumentValues : List CString}

theorem cliFinish_eq (context : ParseContext) {state : ScanState} {command : CommandSpec}
    (selected : state.command = some command) (positionalValues : List CString) :
    cliFinish context state positionalValues = (do
      cliApplyDefaults context cliGlobalPrefix state.globalSeen context.spec.globalOptions 0
      let commandPrefix ← cliCommandPrefix command
      cliFinishCommand context state command positionalValues commandPrefix) := by
  simp only [cliFinish, selected]
  rfl

theorem cliFinish_inBounds (context : ParseContext) (state : ScanState)
    (positionalValues : List CString)
    (fits : ∀ command, state.command = some command → ¬ Overlong command) :
    Keeps InBounds (cliFinish context state positionalValues) := by
  cases selected : state.command with
  | none =>
      simp only [cliFinish, selected]
      exact cliReject_inBounds context _
  | some command =>
      rw [cliFinish_eq context selected]
      refine (cliApplyDefaults_inBounds context _ _ _ 0).bind fun _ => ?_
      refine (cliCommandPrefix_inBounds (not_lt.mp (fits command selected))).bind fun keyPrefix => ?_
      exact cliFinishCommand_inBounds context state command positionalValues keyPrefix

/-- The prefix is not built when the global defaults do not go through. -/
theorem cliFinish_defaults_fail (context : ParseContext) {state : ScanState}
    {command : CommandSpec} (selected : state.command = some command)
    {positionalValues : List CString}
    (defaults : planDefaults cliGlobalPrefix state.globalSeen context.spec.globalOptions 0 = none)
    (host : Host) (m : Machine) :
    wp (cliFinish context state positionalValues) (fun _ _ => False) (fun m' => InBounds m m')
      host m := by
  have fails : FollowsPlan host m _ _ := cliApplyDefaults_follows m context cliGlobalPrefix
    state.globalSeen context.spec.globalOptions 0
  rw [defaults] at fails
  rw [cliFinish_eq context selected, wp_bind]
  refine wp_mono (wp_and (cliApplyDefaults_inBounds context _ _ _ 0 host m) fails) ?_
    fun _ failed => failed.1
  rintro _ m₁ ⟨_, _, impossible, _⟩
  simp at impossible

/-- A parse in which nothing slips through ends in an error or keeps to the arrays. -/
theorem cliParseArguments_safe (context : ParseContext)
    (caught : ∀ globals word command rest,
      Selects context.spec argumentValues globals word command rest → Overlong command →
        ¬ SlipsThrough context.spec globals rest) (host : Host) (m : Machine) :
    wp (cliParseArguments context argumentValues)
      (fun _ m' => InBounds m m' ∧ ∀ globals word command rest,
        Selects context.spec argumentValues globals word command rest → ¬ Overlong command)
      (fun m' => InBounds m m') host m := by
  have checks : FollowsPlan host m _ _ := cliCheckTables_follows m context
  simp only [cliParseArguments, wp_bind]
  refine wp_mono (wp_and (cliCheckTables_inBounds context host m) checks) ?_ fun _ failed => failed.1
  rintro _ m₁ ⟨inside₁, _, checked, _⟩
  have tables : TablesFit context.spec := by
    by_contra large
    simp [large, Plan.reject] at checked
  have scans : FollowsPlan host m₁ _ _ :=
    cliScan_follows m₁ context (argumentValues.drop 1) .initial
  refine wp_mono (wp_and (cliScan_inBounds context _ _ host m₁) scans) ?_
    fun _ failed => IsTrans.trans _ _ _ inside₁ failed.1
  rintro result m₂ ⟨inside₂, calls, planned, _⟩
  have inside : InBounds m m₂ := IsTrans.trans _ _ _ inside₁ inside₂
  have reached := fun globals word command rest selects long =>
    defaults_fail_of_safe tables selects long (caught globals word command rest selects long) planned
  -- a scan that ends at `--help` or `--version` has not come to such a command
  have stopped : (∀ state values, result ≠ .ended state values) → ∀ globals word command rest,
      Selects context.spec argumentValues globals word command rest → ¬ Overlong command :=
    fun builtin globals word command rest selects long =>
      builtin _ _ (reached globals word command rest selects long).1
  cases result with
  | help command =>
      cases command with
      | none => exact ⟨inside, stopped fun _ _ h => by cases h⟩
      | some command => exact ⟨inside, stopped fun _ _ h => by cases h⟩
  | version => exact ⟨inside, stopped fun _ _ h => by cases h⟩
  | ended state values =>
      by_cases overlong : ∃ globals word command rest,
          Selects context.spec argumentValues globals word command rest ∧ Overlong command
      · obtain ⟨globals, word, command, rest, selects, long⟩ := overlong
        obtain ⟨same, defaults⟩ := reached globals word command rest selects long
        obtain ⟨hstate, hvalues⟩ := ScanResult.ended.inj same
        subst hstate hvalues
        refine wp_mono (cliFinish_defaults_fail context rfl defaults host m₂)
          (fun _ _ h => h.elim) fun _ later => IsTrans.trans _ _ _ inside later
      · have short : ∀ globals word command rest,
            Selects context.spec argumentValues globals word command rest → ¬ Overlong command :=
          fun globals word command rest selects long =>
            overlong ⟨globals, word, command, rest, selects, long⟩
        have fits : ∀ command, state.command = some command → ¬ Overlong command := by
          intro command selected
          obtain ⟨globals, word, rest, selects⟩ := selects_of_ended rfl planned selected
          exact short globals word command rest selects
        refine wp_mono (cliFinish_inBounds context state values fits host m₂) ?_
          fun _ later => IsTrans.trans _ _ _ inside later
        exact fun _ _ later => ⟨IsTrans.trans _ _ _ inside later, short⟩

omit [BcCore] in
theorem planResult_builtin {state : ScanState} {rest : List CString} (builtin : AtBuiltin rest) :
    ∃ result status parsed, planScan spec rest state = .done result ∧
      planResult spec result = .done (status, parsed) ∧ status ≠ .error := by
  cases rest with
  | nil => exact builtin.elim
  | cons token later =>
      obtain ⟨isOption, named⟩ := builtin
      rw [planScan, if_neg isOption.ne_terminator, if_pos isOption]
      by_cases help : tokenName token = helpName
      · rw [if_pos help]
        cases state.command with
        | none => exact ⟨_, _, _, rfl, rfl, by decide⟩
        | some command => exact ⟨_, _, _, rfl, rfl, by decide⟩
      · rw [if_neg help, if_pos (named.resolve_left help)]
        exact ⟨_, _, _, rfl, rfl, by decide⟩

/-- The unchecked prefix reaches the first byte past the array. -/
theorem cliFinish_overruns (context : ParseContext) {state : ScanState} {command : CommandSpec}
    (selected : state.command = some command) (long : Overlong command)
    {positionalValues : List CString} {calls : List StoreCall}
    (defaults : planDefaults cliGlobalPrefix state.globalSeen context.spec.globalOptions 0 =
      some (calls, ())) {host : Host} (succeed : host.StoreCallsSucceed) (m : Machine) :
    wp (cliFinish context state positionalValues) (fun _ m' => cliKeyBufferSize ∈ m'.bufferWrites)
      (fun m' => cliKeyBufferSize ∈ m'.bufferWrites) host m := by
  have goes : FollowsPlan host m _ _ := cliApplyDefaults_follows m context cliGlobalPrefix
    state.globalSeen context.spec.globalOptions 0
  rw [defaults] at goes
  rw [cliFinish_eq context selected, wp_bind]
  refine wp_mono (goes.succeeds succeed) ?_ fun _ h => h.elim
  intro _ m₁ _
  have written : ∀ m', InBounds { m₁ with
      bufferWrites := m₁.bufferWrites ++ List.range (command.name.length + 2) } m' →
      cliKeyBufferSize ∈ m'.bufferWrites := by
    rintro m' ⟨indices, writes, _⟩
    rw [writes]
    exact List.mem_append_left _ (List.mem_append_right _ (List.mem_range.mpr long))
  exact wp_mono (cliFinishCommand_inBounds context state command positionalValues
    (commandPrefix command) host _) (fun _ => written) written

theorem cliParseArguments_overruns (context : ParseContext) (tables : TablesFit context.spec)
    {globals rest : List CString} {command : CommandSpec} {calls : List StoreCall}
    (scan : planScan context.spec (argumentValues.drop 1) .initial =
      some (calls, .ended (.atCommand context.spec globals command) (positionals rest)))
    (long : Overlong command)
    (pass : DefaultsPass cliGlobalPrefix context.spec.globalOptions globals)
    {host : Host} (succeed : host.StoreCallsSucceed) (m : Machine) :
    cliKeyBufferSize ∈ (cliParseArguments context argumentValues host m).2.bufferWrites := by
  obtain ⟨_, defaults⟩ := Option.isSome_iff_exists.mp ((defaultsPass_iff tables).mp pass)
  have checks : FollowsPlan host m _ _ := cliCheckTables_follows m context
  rw [if_pos tables] at checks
  apply (wp_always_iff (fun m' : Machine => cliKeyBufferSize ∈ m'.bufferWrites) _ _ _).mp
  rw [cliParseArguments, wp_bind]
  refine wp_mono (checks.succeeds succeed) ?_ fun _ h => h.elim
  intro _ m₁ _
  have scans : FollowsPlan host m₁ _ _ :=
    cliScan_follows m₁ context (argumentValues.drop 1) .initial
  rw [scan] at scans
  rw [wp_bind]
  refine wp_mono (scans.succeeds succeed) ?_ fun _ h => h.elim
  intro result m₂ same
  subst same
  exact cliFinish_overruns context rfl long defaults succeed m₂

/-- Where the parse goes on past the command, it leaves the array or its status. -/
theorem not_prefixesSafe {globals rest : List CString} {word : CString} {command : CommandSpec}
    (selects : Selects spec argumentValues globals word command rest) (long : Overlong command)
    (slips : SlipsThrough spec globals rest) : ¬ PrefixesSafe spec argumentValues := by
  intro safe
  obtain ⟨⟨indices, writes, inside⟩, refused⟩ := safe (.obliging [] []) .initial true
  obtain ⟨parsed, status⟩ := refused globals word command rest selects long
  have succeed := Host.obliging_storeCallsSucceed [] []
  have reached : ∀ {result},
      planScan spec rest (.atCommand spec globals command) = .done result →
      ∃ calls, planScan spec (argumentValues.drop 1) .initial = some (calls, result) := by
    intro result after_word
    rw [selects.split]
    exact ⟨_, (planScan_append_iff selects.lookedUp).mpr ⟨_, slips.accepted,
      fun _ _ same => by simp [ScanState.initial] at same,
      (planScan_word selects.isWord selects.names rfl).trans after_word, rfl⟩⟩
  cases slips.goesOn with
  | inl builtin =>
      obtain ⟨result, other, values, ends, hresult, differs⟩ := planResult_builtin builtin
      obtain ⟨calls, scan⟩ := reached ends
      have planned : planParse spec argumentValues = some (calls ++ [], (other, values)) := by
        rw [planParse, if_pos slips.tables]
        exact Plan.andThen_eq_some_iff.mpr ⟨calls, result, [], scan, hresult, rfl⟩
      have own := cliParse_of_plan succeed .initial true planned
      rw [status] at own
      exact differs (Prod.mk.inj (Option.some.inj own)).1.symm
  | inr both =>
      obtain ⟨stops, pass⟩ := both
      obtain ⟨calls, scan⟩ := reached (planScan_ends stops rfl)
      have past := cliParseArguments_overruns ⟨spec, true⟩ slips.tables scan long pass succeed
        .initial
      rw [cliParse_run] at writes
      rw [writes] at past
      exact absurd (inside _ past) (lt_irrefl _)

/-- The prefix buffers are safe exactly when no command whose name does not fit
slips through to the prefix for its defaults, or to `--help` or `--version`. -/
theorem prefixesSafe_iff (spec : ProgramSpec) (argumentValues : List CString) :
    PrefixesSafe spec argumentValues ↔
      ∀ globals word command rest, Selects spec argumentValues globals word command rest →
        Overlong command → ¬ SlipsThrough spec globals rest := by
  constructor
  · intro safe globals word command rest selects long slips
    exact not_prefixesSafe selects long slips safe
  · intro caught host m errorStream
    have followed := cliParseArguments_safe ⟨spec, errorStream⟩ caught host m
    rw [cliParse_run]
    cases run : cliParseArguments ⟨spec, errorStream⟩ argumentValues host m with
    | mk result m' =>
        cases result with
        | none => exact ⟨wp_none followed run, fun _ _ _ _ _ _ => ⟨.empty, rfl⟩⟩
        | some result =>
            obtain ⟨inside, short⟩ := wp_some followed run
            refine ⟨inside, fun globals word command rest selects long => ?_⟩
            exact absurd long (short globals word command rest selects)

/-- A command of 255 bytes, given without an option of its own. -/
def longName : CString := .ofBuffer (List.replicate 255 97)

def longSpec : ProgramSpec :=
  { copySpec with commands := [{ runCommand with name := longName, options := [] }] }

omit [BcCore] in
theorem longSpec_overruns :
    cliKeyBufferSize ∈
      (@cliParse .reference longSpec [.lit "copy", longName] true (.obliging [] [])
        .initial).2.bufferWrites := by decide +kernel

omit [BcCore] in
theorem longSpec_unsafe : ¬ @PrefixesSafe .reference longSpec [.lit "copy", longName] := by
  intro safe
  obtain ⟨⟨indices, writes, inside⟩, _⟩ := safe (.obliging [] []) .initial true
  have past := longSpec_overruns
  rw [writes] at past
  exact absurd (inside _ past) (lt_irrefl _)

end Parse

end BcRuntime
