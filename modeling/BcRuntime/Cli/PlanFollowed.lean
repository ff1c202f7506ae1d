import BcRuntime.Cli.Plan

/-!
The parser follows its plan: one lemma for each of its functions, by the cases
and the recursion of the function.
-/

namespace BcRuntime
open Fallible Run

variable [BcCore] {host : Host} (m : Machine) (context : ParseContext)

theorem cliOptionKey_follows (keyPrefix : CString) (option : OptionSpec) :
    FollowsPlan host m
      (if KeyFits keyPrefix option then .done (optionKey keyPrefix option) else .reject)
      (cliOptionKey context keyPrefix option) := by
  apply FollowsPlan.onFailure
  simp only [cliBuildKey]
  by_cases fits : KeyFits keyPrefix option
  · rw [if_pos fits, if_neg (not_lt.mpr fits)]
    exact ⟨[], rfl, .nil rfl rfl⟩
  · rw [if_neg fits, if_pos (not_le.mp fits)]
    exact .inl rfl

theorem cliStoreOption_follows (keyPrefix : CString) (option : OptionSpec)
    (call : CString → StoreCall) :
    FollowsPlan host m
      (if KeyFits keyPrefix option then .call (call (optionKey keyPrefix option)) else .reject)
      (cliStoreOption context keyPrefix option fun key => (call key).perform) := by
  have plan : (if KeyFits keyPrefix option then Plan.call (call (optionKey keyPrefix option))
      else .reject) =
      (if KeyFits keyPrefix option then Plan.done (optionKey keyPrefix option)
        else .reject).andThen fun key => .call (call key) := by
    by_cases fits : KeyFits keyPrefix option <;> simp only [fits, if_true, if_false] <;> rfl
  rw [plan]
  exact (cliOptionKey_follows m context keyPrefix option).bind
    fun key m' => FollowsPlan.onFailure (FollowsPlan.perform (call key))

/-- What the plan makes of an occurrence whose row has been found. -/
def planRow (keyPrefix : CString) (option : OptionSpec) (value : Option CString)
    (seen : List Bool) (index : Nat) : Plan (List Bool) :=
  (if acceptsValue option value = true ∧ KeyFits keyPrefix option then
      (Plan.call (occurrenceCall keyPrefix option value)).andThen fun _ => .done index
    else .reject).andThen fun index => .done (seen.set index true)

section Rows
variable {keyPrefix : CString} {option : OptionSpec} {value : Option CString} (seen : List Bool)
  (index : Nat)

/-- Storing an accepted occurrence, which every accepting branch comes down to. -/
theorem storedRow_follows (call : CString → StoreCall)
    (same : call (optionKey keyPrefix option) = occurrenceCall keyPrefix option value)
    (accepted : acceptsValue option value = true) :
    FollowsPlan host m (planRow keyPrefix option value seen index)
      (do
        cliStoreOption context keyPrefix option fun key => (call key).perform
        pure (seen.set index true)) := by
  have plan : planRow keyPrefix option value seen index =
      (if KeyFits keyPrefix option then Plan.call (call (optionKey keyPrefix option))
        else .reject).andThen fun _ => .done (seen.set index true) := by
    by_cases fits : KeyFits keyPrefix option
    · simp only [planRow, accepted, fits, same, and_self, if_true]
      rfl
    · simp only [planRow, fits, and_false, if_false]
      rfl
  rw [plan]
  exact (cliStoreOption_follows m context keyPrefix option call).bind fun _ _ => FollowsPlan.pure

theorem refusedRow_follows (refused : acceptsValue option value = false)
    (pieces : List (List UInt8)) :
    FollowsPlan host m (planRow keyPrefix option value seen index) (cliReject context pieces) := by
  simp only [planRow, refused, Bool.false_eq_true, false_and, if_false]
  exact FollowsPlan.reject

end Rows

theorem cliHandleAssignment_follows (options : List OptionSpec) (seen : List Bool)
    (keyPrefix : CString) (name : List UInt8) (value : Option CString) :
    FollowsPlan host m
      ((planOption keyPrefix options name value).andThen fun index => .done (seen.set index true))
      (cliHandleAssignment context options seen keyPrefix name value) := by
  simp only [planOption, cliHandleAssignment]
  cases cliFindOption name options 0 with
  | none => exact FollowsPlan.reject
  | some row =>
      obtain ⟨index, option⟩ := row
      change FollowsPlan host m (planRow keyPrefix option value seen index) _
      by_cases isFlag : option.type = .flag
      · simp only [isFlag, if_true]
        cases value with
        | none =>
            have accepted : acceptsValue option none = true := decide_eq_true isFlag
            exact storedRow_follows m context seen index (fun key => .set key (.lit "true")) rfl
              accepted
        | some value =>
            have refused : acceptsValue option (some value) = false := by
              simp [acceptsValue, cliValidateValue, isFlag]
            exact refusedRow_follows m context seen index refused _
      · simp only [isFlag, if_false]
        cases value with
        | none =>
            have refused : acceptsValue option none = false := decide_eq_false isFlag
            exact refusedRow_follows m context seen index refused _
        | some value =>
            have same : acceptsValue option (some value) = cliValidateValue option value := rfl
            cases valid : cliValidateValue option value with
            | false =>
                simp only [valid, if_true]
                exact refusedRow_follows m context seen index (same.trans valid) _
            | true =>
                simp only [valid, Bool.true_eq_false, if_false]
                have accepted := same.trans valid
                by_cases isList : option.type = .list
                · simp only [isList, if_true]
                  exact storedRow_follows m context seen index
                    (fun key => .append key value listSeparator (by decide)) (if_pos isList).symm
                    accepted
                · simp only [isList, if_false]
                  exact storedRow_follows m context seen index (fun key => .set key value)
                    (if_neg isList).symm accepted

omit [BcCore] in
theorem cliCommandPrefix_silent (command : CommandSpec) :
    wp (cliCommandPrefix command)
      (fun written m' => written = commandPrefix command ∧ m'.store = m.store ∧
        m'.errorOutput = m.errorOutput) (fun _ => False) host m := ⟨rfl, rfl, rfl⟩

theorem cliHandleAssignment_follows_state (options : List OptionSpec) (seen : List Bool)
    (keyPrefix : CString) (name : List UInt8) (value : Option CString)
    (next : List Bool → ScanState) :
    FollowsPlan host m
      ((planOption keyPrefix options name value).andThen fun index =>
        .done (next (seen.set index true)))
      (do
        let seen ← cliHandleAssignment context options seen keyPrefix name value
        pure (next seen)) := by
  have both : FollowsPlan host m
      (((planOption keyPrefix options name value).andThen fun index =>
        .done (seen.set index true)).andThen fun seen => .done (next seen))
      (do
        let seen ← cliHandleAssignment context options seen keyPrefix name value
        pure (next seen)) :=
    (cliHandleAssignment_follows m context options seen keyPrefix name value).bind
      fun _ _ => FollowsPlan.pure
  rw [Plan.andThen_assoc] at both
  simpa only [Plan.done_andThen] using both

theorem cliHandleOption_follows (state : ScanState) (name : List UInt8)
    (value : Option CString) :
    FollowsPlan host m (planToken context.spec state name value)
      (cliHandleOption context state name value) := by
  simp only [planToken, cliHandleOption]
  cases state.command with
  | none =>
      exact cliHandleAssignment_follows_state m context _ _ _ _ _
        fun globalSeen => { state with command := none, globalSeen := globalSeen }
  | some command =>
      by_cases fits : command.name.length + 2 ≤ cliKeyBufferSize
      · simp only [fits, if_true, not_lt.mpr fits, if_false]
        refine FollowsPlan.silent (cliCommandPrefix_silent m command) fun m' => ?_
        exact cliHandleAssignment_follows_state m' context _ _ _ _ _
          fun commandSeen => { state with command := some command, commandSeen := commandSeen }
      · simp only [fits, if_false, not_le.mp fits, if_true]
        exact FollowsPlan.reject

theorem cliScan_follows (tokens : List CString) (state : ScanState) :
    FollowsPlan host m (planScan context.spec tokens state) (cliScan context tokens state) := by
  induction tokens generalizing state m with
  | nil => exact FollowsPlan.pure
  | cons token rest ih =>
      rw [planScan, cliScan_cons]
      by_cases terminator : token.bytes = dashes
      · rw [if_pos terminator, if_pos terminator]
        exact FollowsPlan.pure
      · rw [if_neg terminator, if_neg terminator]
        by_cases option : OptionToken token
        · rw [if_pos option, if_pos option]
          by_cases help : tokenName token = helpName
          · rw [if_pos help, if_pos help]
            exact FollowsPlan.pure
          · rw [if_neg help, if_neg help]
            by_cases version : tokenName token = versionName
            · rw [if_pos version, if_pos version]
              exact FollowsPlan.pure
            · rw [if_neg version, if_neg version]
              exact (cliHandleOption_follows m context state _ _).bind fun state m' => ih m' state
        · rw [if_neg option, if_neg option]
          cases state.command with
          | some command => exact FollowsPlan.pure
          | none =>
              rw [cliFindCommand_eq]
              cases context.spec.commands.find? fun command => command.name = token with
              | none => exact FollowsPlan.reject
              | some command => exact ih m _

theorem cliApplyDefaults_follows (keyPrefix : CString) (seen : List Bool)
    (options : List OptionSpec) (index : Nat) :
    FollowsPlan host m (planDefaults keyPrefix seen options index)
      (cliApplyDefaults context keyPrefix seen options index) := by
  induction options generalizing index m with
  | nil => exact FollowsPlan.pure
  | cons option options ih =>
      simp only [planDefaults, cliApplyDefaults]
      cases seen.getD index false with
      | true => exact ih m (index + 1)
      | false =>
          cases option.required with
          | true => exact FollowsPlan.reject
          | false =>
              cases option.defaultValue with
              | none => exact ih m (index + 1)
              | some defaultValue =>
                  have plan : (if KeyFits keyPrefix option then
                        (Plan.call (.set (optionKey keyPrefix option) defaultValue)).andThen
                          fun _ => planDefaults keyPrefix seen options (index + 1)
                      else .reject) =
                      (if KeyFits keyPrefix option then Plan.done (optionKey keyPrefix option)
                        else .reject).andThen fun key =>
                          (Plan.call (.set key defaultValue)).andThen fun _ =>
                            planDefaults keyPrefix seen options (index + 1) := by
                    by_cases fits : KeyFits keyPrefix option
                    · rw [if_pos fits, if_pos fits, Plan.done_andThen]
                    · rw [if_neg fits, if_neg fits]
                      rfl
                  simp only [Bool.false_eq_true, if_false, plan]
                  refine (cliOptionKey_follows m context keyPrefix option).bind fun key m₁ => ?_
                  exact (FollowsPlan.onFailure (FollowsPlan.perform (.set key defaultValue))).bind
                    fun _ m₂ => ih m₂ (index + 1)

theorem cliCheckPositionals_follows (command : CommandSpec) (count : Nat) :
    FollowsPlan host m (if PositionalsFit command count then .done () else .reject)
      (cliCheckPositionals context command count) := by
  simp only [cliCheckPositionals]
  by_cases few : count < command.positionalMin
  · have unfit : ¬ PositionalsFit command count := fun fits => absurd fits.1 (not_le.mpr few)
    rw [if_pos few, if_neg unfit]
    exact FollowsPlan.reject
  · by_cases many : command.positionalMax > 0 ∧ count > command.positionalMax
    · have unfit : ¬ PositionalsFit command count :=
        fun fits => absurd (fits.2 many.1) (not_le.mpr many.2)
      rw [if_neg few, if_pos many, if_neg unfit]
      exact FollowsPlan.reject
    · have fits : PositionalsFit command count :=
        ⟨not_lt.mp few, fun bounded => not_lt.mp fun more => many ⟨bounded, more⟩⟩
      rw [if_neg few, if_neg many, if_pos fits]
      exact FollowsPlan.pure

theorem cliFinish_follows (state : ScanState) (positionalValues : List CString) :
    FollowsPlan host m (planFinish context.spec state positionalValues)
      (cliFinish context state positionalValues) := by
  simp only [planFinish, cliFinish]
  cases state.command with
  | none => exact FollowsPlan.reject
  | some command =>
      have plan : (if PositionalsFit command positionalValues.length then
            (Plan.call .sort).andThen fun _ =>
              Plan.done (ParseStatus.ok, (⟨some command, positionalValues⟩ : Parsed))
          else .reject) =
          (if PositionalsFit command positionalValues.length then Plan.done ()
            else .reject).andThen fun _ => (Plan.call .sort).andThen fun _ =>
              .done (.ok, ⟨some command, positionalValues⟩) := by
        by_cases fits : PositionalsFit command positionalValues.length
        · rw [if_pos fits, if_pos fits, Plan.done_andThen]
        · rw [if_neg fits, if_neg fits]
          rfl
      simp only [plan]
      refine (cliApplyDefaults_follows m context _ _ _ 0).bind fun _ m₁ => ?_
      refine FollowsPlan.silent (cliCommandPrefix_silent m₁ command) fun m₂ => ?_
      refine (cliApplyDefaults_follows m₂ context _ _ _ 0).bind fun _ m₃ => ?_
      refine (cliCheckPositionals_follows m₃ context command _).bind fun _ m₄ => ?_
      exact (FollowsPlan.onFailure (FollowsPlan.perform .sort)).bind fun _ _ => FollowsPlan.pure

variable {context} in
theorem cliCheckTables_eq (fits : TablesFit context.spec) : cliCheckTables context = pure () := by
  have commands : context.spec.commands.find? (fun command =>
      command.options.length > cliTableSize) = none := by
    rw [List.find?_eq_none]
    intro command mem
    simpa using fits.1 command mem
  rw [cliCheckTables, commands]
  exact if_neg (not_lt.mpr fits.2)

theorem cliCheckTables_follows :
    FollowsPlan host m (if TablesFit context.spec then .done () else .reject)
      (cliCheckTables context) := by
  by_cases fits : TablesFit context.spec
  · rw [if_pos fits, cliCheckTables_eq fits]
    exact FollowsPlan.pure
  · rw [if_neg fits, cliCheckTables]
    cases found : context.spec.commands.find? fun command =>
        command.options.length > cliTableSize with
    | some command => exact FollowsPlan.reject
    | none =>
        have globals : ¬ context.spec.globalOptions.length ≤ cliTableSize := by
          intro globals
          refine fits ⟨fun command mem => ?_, globals⟩
          simpa using List.find?_eq_none.mp found command mem
        simp only [gt_iff_lt, not_le.mp globals, if_true]
        exact FollowsPlan.reject

theorem cliParseArguments_follows (argumentValues : List CString) :
    FollowsPlan host m (planParse context.spec argumentValues)
      (cliParseArguments context argumentValues) := by
  have plan : planParse context.spec argumentValues =
      (if TablesFit context.spec then Plan.done () else .reject).andThen fun _ =>
        (planScan context.spec (argumentValues.drop 1) .initial).andThen
          (planResult context.spec) := by
    simp only [planParse]
    by_cases fits : TablesFit context.spec
    · rw [if_pos fits, if_pos fits, Plan.done_andThen]
    · rw [if_neg fits, if_neg fits]
      rfl
  rw [plan, cliParseArguments]
  refine (cliCheckTables_follows m context).bind fun _ m₁ => ?_
  refine (cliScan_follows m₁ context _ _).bind fun result m₂ => ?_
  cases result with
  | help command =>
      cases command with
      | none => exact FollowsPlan.pure
      | some command => exact FollowsPlan.pure
  | version => exact FollowsPlan.pure
  | ended state positionalValues => exact cliFinish_follows m₂ context state positionalValues

end BcRuntime
