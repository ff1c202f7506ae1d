import BcRuntime.Cli.Acceptance

/-!
`--help` and `--version` end a parse where they stand. The loop consumes tokens
as options or as the command; the first builtin token that it reaches decides the
status, and no argument after that token is looked at.
-/

namespace BcRuntime
open Fallible Run

def BuiltinToken (token : CString) : Prop :=
  OptionToken token ∧ (tokenName token = helpName ∨ tokenName token = versionName)

instance (token : CString) : Decidable (BuiltinToken token) := inferInstanceAs (Decidable (_ ∧ _))

def cliSelectCommand (spec : ProgramSpec) (state : ScanState) (word : CString) : Run ScanState :=
  match state.command, cliFindCommand word spec.commands with
  | none, some command => pure { state with command := some command }
  | _, _ => fail

/-- The status and `*out_parsed` that a builtin token gives in a state. -/
def builtinAnswer (state : ScanState) (token : CString) : ParseStatus × Parsed :=
  if tokenName token = helpName then
    match state.command with
    | none => (.helpGlobal, .empty)
    | some command => (.helpCommand, ⟨some command, []⟩)
  else (.version, .empty)

def builtinResult (state : ScanState) (token : CString) : ScanResult :=
  if tokenName token = helpName then .help state.command else .version

def ParseStatus.IsBuiltin (status : ParseStatus) : Prop :=
  status = .helpGlobal ∨ status = .helpCommand ∨ status = .version

variable [BcCore]

/-- One token consumed as an option or as the command. A token that ends the loop
is not consumed, and neither is one that is rejected. -/
def cliConsume (context : ParseContext) (state : ScanState) (token : CString) : Run ScanState :=
  if token.bytes = dashes ∨ BuiltinToken token then fail
  else if OptionToken token then cliHandleOption context state (tokenName token) (tokenValue token)
  else cliSelectCommand context.spec state token

def cliConsumeAll (context : ParseContext) : List CString → ScanState → Run ScanState
  | [], state => pure state
  | token :: rest, state => do
      let state ← cliConsume context state token
      cliConsumeAll context rest state

/-- The loop consumes all of the tokens and then stands before a builtin one. -/
structure ReachesBuiltin (context : ParseContext) (host : Host) (m : Machine)
    (consumed : List CString) (token : CString) (state : ScanState) (m' : Machine) : Prop where
  run : cliConsumeAll context consumed .initial host m = (some state, m')
  builtin : BuiltinToken token

section Consuming
variable {context : ParseContext} {host : Host} {m m' : Machine} {state state' : ScanState}
  {token : CString}

theorem cliConsume_cases (run : cliConsume context state token host m = (some state', m')) :
    token.bytes ≠ dashes ∧
      (OptionToken token ∧ ¬ BuiltinToken token ∧
          cliHandleOption context state (tokenName token) (tokenValue token) host m =
            (some state', m') ∨
        ¬ OptionToken token ∧ state.command = none ∧ m' = m ∧
          ∃ command, cliFindCommand token context.spec.commands = some command ∧
            state' = { state with command := some command }) := by
  rw [cliConsume] at run
  by_cases stops : token.bytes = dashes ∨ BuiltinToken token
  · rw [if_pos stops] at run
    cases run
  · rw [if_neg stops] at run
    obtain ⟨terminator, builtin⟩ := not_or.mp stops
    refine ⟨terminator, ?_⟩
    by_cases option : OptionToken token
    · rw [if_pos option] at run
      exact .inl ⟨option, builtin, run⟩
    · rw [if_neg option, cliSelectCommand] at run
      cases selected : state.command with
      | some command =>
          rw [selected] at run
          cases run
      | none =>
          rw [selected] at run
          cases found : cliFindCommand token context.spec.commands with
          | none =>
              rw [found] at run
              cases run
          | some command =>
              rw [found] at run
              cases run
              exact .inr ⟨option, rfl, rfl, command, rfl, rfl⟩

theorem cliScan_of_consume (rest : List CString)
    (run : cliConsume context state token host m = (some state', m')) :
    cliScan context (token :: rest) state host m = cliScan context rest state' host m' := by
  obtain ⟨terminator, kind⟩ := cliConsume_cases run
  rw [cliScan_cons, if_neg terminator]
  cases kind with
  | inl option =>
      obtain ⟨option, builtin, handled⟩ := option
      obtain ⟨help, version⟩ := not_or.mp fun name => builtin ⟨option, name⟩
      rw [if_pos option, if_neg help, if_neg version]
      exact bind_run_of_some handled _
  | inr word =>
      obtain ⟨word, selected, rfl, command, found, rfl⟩ := word
      rw [if_neg word, selected, found]

theorem cliScan_of_consumeAll {consumed : List CString} (rest : List CString)
    (run : cliConsumeAll context consumed state host m = (some state', m')) :
    cliScan context (consumed ++ rest) state host m = cliScan context rest state' host m' := by
  induction consumed generalizing state m with
  | nil =>
      cases run
      rfl
  | cons token consumed ih =>
      rw [cliConsumeAll, bind_run_eq_some_iff] at run
      obtain ⟨next, m₁, step, run⟩ := run
      rw [List.cons_append, cliScan_of_consume (consumed ++ rest) step]
      exact ih run

theorem cliScan_builtin (builtin : BuiltinToken token) (rest : List CString)
    (state : ScanState) :
    cliScan context (token :: rest) state = pure (builtinResult state token) := by
  rw [cliScan_cons, if_neg builtin.1.ne_terminator, if_pos builtin.1, builtinResult]
  by_cases help : tokenName token = helpName
  · rw [if_pos help, if_pos help]
  · rw [if_neg help, if_neg help, if_pos (builtin.2.resolve_left help)]

theorem cliReject_fails {α : Type} (Q : α → Machine → Prop) (pieces : List (List UInt8)) :
    wp (cliReject context pieces) Q (fun _ => True) host m := by
  rw [cliReject, wp_bind]
  exact wp_true host m _

/-- A loop that does not end with positional arguments consumes every token that
is not a builtin one. -/
theorem consumed_of_cliScan {rest : List CString} {result : ScanResult}
    (early : ∀ state values, result ≠ .ended state values) (builtin : ¬ BuiltinToken token)
    (run : cliScan context (token :: rest) state host m = (some result, m')) :
    ∃ state₁ m₁, cliConsume context state token host m = (some state₁, m₁) ∧
      cliScan context rest state₁ host m₁ = (some result, m') := by
  rw [cliScan_cons] at run
  by_cases terminator : token.bytes = dashes
  · rw [if_pos terminator] at run
    cases run
    exact absurd rfl (early state rest)
  · have stops : ¬ (token.bytes = dashes ∨ BuiltinToken token) := not_or.mpr ⟨terminator, builtin⟩
    rw [if_neg terminator] at run
    rw [cliConsume, if_neg stops]
    by_cases option : OptionToken token
    · obtain ⟨help, version⟩ := not_or.mp fun name => builtin ⟨option, name⟩
      rw [if_pos option, if_neg help, if_neg version, bind_run_eq_some_iff] at run
      rw [if_pos option]
      exact run
    · rw [if_neg option] at run
      rw [if_neg option, cliSelectCommand]
      cases selected : state.command with
      | some command =>
          rw [selected] at run
          cases run
          exact absurd rfl (early state (token :: rest))
      | none =>
          cases found : cliFindCommand token context.spec.commands with
          | none =>
              rw [selected, found] at run
              exact (wp_some (cliReject_fails (fun _ _ => False) _) run).elim
          | some command =>
              rw [selected, found] at run
              exact ⟨_, m, rfl, run⟩

/-- The loop ends early at a builtin token only. -/
theorem builtin_of_cliScan {tokens : List CString} {result : ScanResult}
    (early : ∀ state values, result ≠ .ended state values)
    (run : cliScan context tokens state host m = (some result, m')) :
    ∃ consumed token rest state', tokens = consumed ++ token :: rest ∧
      cliConsumeAll context consumed state host m = (some state', m') ∧ BuiltinToken token := by
  induction tokens generalizing state m with
  | nil =>
      cases run
      exact absurd rfl (early state [])
  | cons token rest ih =>
      by_cases builtin : BuiltinToken token
      · rw [cliScan_builtin builtin] at run
        cases run
        exact ⟨[], token, rest, state, rfl, rfl, builtin⟩
      · obtain ⟨state₁, m₁, step, next⟩ := consumed_of_cliScan early builtin run
        obtain ⟨consumed, last, suffix, state', split, all, builtin⟩ := ih next
        refine ⟨token :: consumed, last, suffix, state', ?_, ?_, builtin⟩
        · rw [split, List.cons_append]
        · rw [cliConsumeAll, bind_run_of_some step, all]

theorem cliHandleOption_command {name : List UInt8} {value : Option CString}
    (run : cliHandleOption context state name value host m = (some state', m')) :
    state'.command = state.command := by
  have kept : wp (cliHandleOption context state name value) _ _ host m :=
    cliHandleOption_keepsCommand context state name value host m
  exact wp_some kept run

/-- An option token leaves the command as it is and a word selects it. -/
theorem cliConsume_command (run : cliConsume context state token host m = (some state', m')) :
    OptionToken token ∧ state'.command = state.command ∨
      ¬ OptionToken token ∧ state.command = none ∧
        ∃ command, cliFindCommand token context.spec.commands = some command ∧
          state'.command = some command := by
  obtain ⟨_, kind⟩ := cliConsume_cases run
  cases kind with
  | inl option => exact .inl ⟨option.1, cliHandleOption_command option.2.2⟩
  | inr word =>
      obtain ⟨word, selected, _, command, found, rfl⟩ := word
      exact .inr ⟨word, selected, command, found, rfl⟩

theorem cliConsumeAll_command {consumed : List CString}
    (run : cliConsumeAll context consumed state host m = (some state', m')) :
    (∀ token ∈ consumed, OptionToken token) ∧ state'.command = state.command ∨
      ∃ word ∈ consumed, ∃ command, ¬ OptionToken word ∧
        cliFindCommand word context.spec.commands = some command ∧
          state'.command = some command := by
  induction consumed generalizing state m with
  | nil =>
      cases run
      exact .inl ⟨fun token mem => absurd mem List.not_mem_nil, rfl⟩
  | cons token consumed ih =>
      rw [cliConsumeAll, bind_run_eq_some_iff] at run
      obtain ⟨next, m₁, step, run⟩ := run
      cases ih run with
      | inr word =>
          obtain ⟨word, mem, named⟩ := word
          exact .inr ⟨word, List.mem_cons_of_mem token mem, named⟩
      | inl options =>
          obtain ⟨options, kept⟩ := options
          cases cliConsume_command step with
          | inl option =>
              exact .inl ⟨List.forall_mem_cons.mpr ⟨option.1, options⟩, kept.trans option.2⟩
          | inr word =>
              obtain ⟨word, _, command, found, selected⟩ := word
              exact .inr ⟨token, List.mem_cons_self, command, word, found, kept.trans selected⟩

end Consuming

section Answer
variable {spec : ProgramSpec} {errorStream : Bool} {host : Host} {m m' : Machine}
  {consumed : List CString} {token : CString} {state : ScanState}

/-- What follows the loop gives no status but `PARSE_OK`. -/
theorem cliFinish_status (context : ParseContext) (state : ScanState)
    (positionalValues : List CString) :
    wp (cliFinish context state positionalValues) (fun result _ => result.1 = .ok)
      (fun _ => True) host m := by
  rw [cliFinish]
  cases state.command with
  | none => exact cliReject_fails _ _
  | some command =>
      exact wp_bind_last fun _ _ => wp_bind_last fun _ _ => wp_bind_last fun _ _ =>
        wp_bind_last fun _ _ => wp_bind_last fun _ _ => rfl

/-- The status and `*out_parsed` at a builtin token depend on nothing after it. -/
theorem cliParse_of_reachesBuiltin (fits : TablesFit spec)
    (reaches : ReachesBuiltin ⟨spec, errorStream⟩ host m consumed token state m')
    {argumentValues : List CString} (leads : consumed ++ [token] <+: argumentValues.drop 1) :
    cliParse spec argumentValues errorStream host m = (some (builtinAnswer state token), m') := by
  obtain ⟨rest, whole⟩ := leads
  have scan : cliScan ⟨spec, errorStream⟩ (argumentValues.drop 1) .initial host m =
      (some (builtinResult state token), m') := by
    rw [← whole, List.append_assoc, cliScan_of_consumeAll _ reaches.run]
    exact congrFun (congrFun (cliScan_builtin reaches.builtin rest state) host) m'
  have parse : cliParseArguments ⟨spec, errorStream⟩ argumentValues host m =
      (some (builtinAnswer state token), m') := by
    rw [cliParseArguments, cliCheckTables_eq fits, pure_bind, bind_run_of_some scan, builtinResult,
      builtinAnswer]
    by_cases help : tokenName token = helpName
    · rw [if_pos help, if_pos help]
      cases state.command <;> rfl
    · rw [if_neg help, if_neg help]
      rfl
  rw [cliParse_run, parse]
  rfl

omit [BcCore] in
theorem builtinAnswer_isBuiltin (state : ScanState) (token : CString) :
    (builtinAnswer state token).1.IsBuiltin := by
  rw [builtinAnswer]
  by_cases help : tokenName token = helpName
  · rw [if_pos help]
    cases state.command with
    | none => exact .inl rfl
    | some command => exact .inr (.inl rfl)
  · rw [if_neg help]
    exact .inr (.inr rfl)

/-- A parse with one of the three statuses has reached a builtin token. -/
theorem reachesBuiltin_of_cliParse (fits : TablesFit spec) {argumentValues : List CString}
    {status : ParseStatus} {parsed : Parsed}
    (run : cliParse spec argumentValues errorStream host m = (some (status, parsed), m'))
    (early : status.IsBuiltin) :
    ∃ consumed token state, consumed ++ [token] <+: argumentValues.drop 1 ∧
      ReachesBuiltin ⟨spec, errorStream⟩ host m consumed token state m' := by
  have arguments : cliParseArguments ⟨spec, errorStream⟩ argumentValues host m =
      (some (status, parsed), m') := by
    rw [cliParse_run] at run
    cases ended : cliParseArguments ⟨spec, errorStream⟩ argumentValues host m with
    | mk result m₁ =>
        rw [ended] at run
        cases result with
        | some result => simpa using run
        | none =>
            obtain ⟨same, _⟩ := Prod.mk.inj (Option.some.inj (Prod.mk.inj run).1)
            rw [← same] at early
            exact absurd early (by simp [ParseStatus.IsBuiltin])
  rw [cliParseArguments, cliCheckTables_eq fits, pure_bind, bind_run_eq_some_iff] at arguments
  obtain ⟨result, m₁, scan, arguments⟩ := arguments
  have stops : (∀ state values, result ≠ .ended state values) ∧ m₁ = m' := by
    cases result with
    | help command => cases command <;> exact ⟨by simp, (Prod.mk.inj arguments).2⟩
    | version => exact ⟨by simp, (Prod.mk.inj arguments).2⟩
    | ended state values =>
        have ok : status = .ok := wp_some (cliFinish_status _ _ _) arguments
        rw [ok] at early
        exact absurd early (by simp [ParseStatus.IsBuiltin])
  obtain ⟨early, rfl⟩ := stops
  obtain ⟨consumed, token, rest, state, split, all, builtin⟩ := builtin_of_cliScan early scan
  exact ⟨consumed, token, state, ⟨rest, by simp [split]⟩, all, builtin⟩

/-- Help and version win over everything after them: the machine is left as the
consumed tokens leave it, and nothing that follows the loop is run. -/
theorem cliParse_builtin (fits : TablesFit spec) (errorStream : Bool) (host : Host)
    (m : Machine) :
    (∀ argumentValues,
        (∃ status parsed,
            (cliParse spec argumentValues errorStream host m).1 = some (status, parsed) ∧
              status.IsBuiltin) ↔
          ∃ consumed token state m', consumed ++ [token] <+: argumentValues.drop 1 ∧
            ReachesBuiltin ⟨spec, errorStream⟩ host m consumed token state m') ∧
      ∀ consumed token state m',
        ReachesBuiltin ⟨spec, errorStream⟩ host m consumed token state m' →
          (∀ argumentValues, consumed ++ [token] <+: argumentValues.drop 1 →
              cliParse spec argumentValues errorStream host m =
                (some (builtinAnswer state token), m')) ∧
            (state.command = none ↔ ∀ token ∈ consumed, OptionToken token) ∧
            ∀ command, state.command = some command →
              ∃ word ∈ consumed, ¬ OptionToken word ∧
                cliFindCommand word spec.commands = some command := by
  constructor
  · intro argumentValues
    constructor
    · rintro ⟨status, parsed, answer, early⟩
      obtain ⟨consumed, token, state, leads, reaches⟩ :=
        reachesBuiltin_of_cliParse fits (cliParse_run_of_result answer) early
      exact ⟨consumed, token, state, _, leads, reaches⟩
    · rintro ⟨consumed, token, state, m', leads, reaches⟩
      rw [cliParse_of_reachesBuiltin fits reaches leads]
      exact ⟨_, _, rfl, builtinAnswer_isBuiltin state token⟩
  · intro consumed token state m' reaches
    refine ⟨fun _ leads => cliParse_of_reachesBuiltin fits reaches leads, ?_⟩
    cases cliConsumeAll_command reaches.run with
    | inl options =>
        obtain ⟨options, kept⟩ := options
        refine ⟨⟨fun _ => options, fun _ => kept⟩, fun command selected => ?_⟩
        rw [kept] at selected
        cases selected
    | inr word =>
        obtain ⟨word, mem, found, notOption, named, selected⟩ := word
        refine ⟨⟨fun missing => ?_, fun options => absurd (options word mem) notOption⟩, ?_⟩
        · rw [selected] at missing
          cases missing
        · intro command same
          rw [selected] at same
          exact ⟨word, mem, notOption, same ▸ named⟩

def helpArguments : List CString :=
  [.lit "copy", .lit "--quiet", .lit "run", .lit "--help=all", .lit "--", .lit "--missing"]

omit [BcCore] in
theorem cliParse_builtin_copy :
    ∃ consumed token state m', consumed ++ [token] <+: helpArguments.drop 1 ∧
      @ReachesBuiltin .reference ⟨copySpec, true⟩ (.obliging [] []) .initial consumed token state
        m' :=
  ((@cliParse_builtin .reference copySpec copySpec_wellFormed.tables true (.obliging [] [])
    .initial).1 helpArguments).mp
    ⟨.helpCommand, ⟨some runCommand, []⟩, by decide +kernel, .inr (.inl rfl)⟩

end Answer

end BcRuntime
