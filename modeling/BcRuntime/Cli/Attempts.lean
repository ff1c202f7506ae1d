import BcRuntime.Cli.Overlay

/-!
What a command line does to the store whichever way its parse ends. The store calls it
asks for are known from its tokens, also when one of them is rejected; they are made in
their order, up to the first that fails, so a failed parse has made a first part of them.
-/

namespace BcRuntime
open Fallible Run

/-- The store calls a computation makes when none fails, and its result if it has one. -/
abbrev Trace (α : Type) := List StoreCall × Option α

namespace Trace
variable {α β : Type}

def done (a : α) : Trace α := ([], some a)

def reject : Trace α := ([], none)

def call (call : StoreCall) : Trace Unit := ([call], some ())

def andThen (trace : Trace β) (next : β → Trace α) : Trace α :=
  match trace.2 with
  | none => (trace.1, none)
  | some b => (trace.1 ++ (next b).1, (next b).2)

theorem done_andThen (b : β) (next : β → Trace α) : (done b).andThen next = next b := rfl

theorem mem_andThen {trace : Trace β} {next : β → Trace α} {asked : StoreCall}
    (mem : asked ∈ (trace.andThen next).1) :
    asked ∈ trace.1 ∨ ∃ b, trace.2 = some b ∧ asked ∈ (next b).1 := by
  rw [andThen] at mem
  cases result : trace.2 with
  | none =>
      rw [result] at mem
      exact .inl mem
  | some b =>
      rw [result] at mem
      exact (List.mem_append.mp mem).imp_right fun later => ⟨b, rfl, later⟩

/-- A step that rejects before it makes a call. -/
def ofPlan : Plan α → Trace α
  | none => reject
  | some (calls, a) => (calls, some a)

end Trace

def traceScan (spec : ProgramSpec) : List CString → ScanState → Trace ScanResult
  | [], state => .done (.ended state [])
  | token :: rest, state =>
      if token.bytes = dashes then .done (.ended state rest)
      else if OptionToken token then
        if tokenName token = helpName then .done (.help state.command)
        else if tokenName token = versionName then .done .version
        else
          (Trace.ofPlan (planToken spec state (tokenName token) (tokenValue token))).andThen
            fun state => traceScan spec rest state
      else
        match state.command with
        | none =>
            match spec.commands.find? fun command => command.name = token with
            | none => .reject
            | some command => traceScan spec rest { state with command := some command }
        | some _ => .done (.ended state (token :: rest))

def traceDefaults (keyPrefix : CString) (seen : List Bool) : List OptionSpec → Nat → Trace Unit
  | [], _ => .done ()
  | option :: options, index =>
      if seen.getD index false then traceDefaults keyPrefix seen options (index + 1)
      else if option.required then .reject
      else
        match option.defaultValue with
        | none => traceDefaults keyPrefix seen options (index + 1)
        | some defaultValue =>
            if KeyFits keyPrefix option then
              (Trace.call (.set (optionKey keyPrefix option) defaultValue)).andThen fun _ =>
                traceDefaults keyPrefix seen options (index + 1)
            else .reject

def traceFinish (spec : ProgramSpec) (state : ScanState) (positionalValues : List CString) :
    Trace (ParseStatus × Parsed) :=
  match state.command with
  | none => .reject
  | some command =>
      (traceDefaults cliGlobalPrefix state.globalSeen spec.globalOptions 0).andThen fun _ =>
        (traceDefaults (commandPrefix command) state.commandSeen command.options 0).andThen
          fun _ =>
            if PositionalsFit command positionalValues.length then
              (Trace.call .sort).andThen fun _ => .done (.ok, ⟨some command, positionalValues⟩)
            else .reject

def traceResult (spec : ProgramSpec) : ScanResult → Trace (ParseStatus × Parsed)
  | .help none => .done (.helpGlobal, .empty)
  | .help (some command) => .done (.helpCommand, ⟨some command, []⟩)
  | .version => .done (.version, .empty)
  | .ended state positionalValues => traceFinish spec state positionalValues

def traceParse (spec : ProgramSpec) (argumentValues : List CString) :
    Trace (ParseStatus × Parsed) :=
  if TablesFit spec then
    (traceScan spec (argumentValues.drop 1) .initial).andThen (traceResult spec)
  else .reject

/-- Every reference the store agreed with before has followed the calls. -/
def Followed (calls : List StoreCall) (m m' : Machine) : Prop :=
  ∀ reference, Refines reference m →
    Refines (calls.foldl (fun reference call => call.reflect reference) reference) m'

section Rules
variable {α β : Type} {host : Host} {m m' m'' : Machine}

theorem Followed.refl (m : Machine) : Followed [] m m := fun _ before => before

theorem Followed.of_untouched (same : Untouched m m') : Followed [] m m' :=
  fun _ before => before.of_untouched same

theorem Followed.append {first second : List StoreCall} (h : Followed first m m')
    (h' : Followed second m' m'') : Followed (first ++ second) m m'' := by
  intro reference before
  rw [List.foldl_append]
  exact h' _ (h reference before)

theorem Followed.quiet {calls : List StoreCall} (h : Followed calls m m')
    (store : m''.store = m'.store) : Followed calls m m'' := by
  intro reference before
  have after := h reference before
  exact ⟨store ▸ after.valid, store ▸ after.content, store ▸ after.sorted⟩

/-- The computation makes the calls of the trace, up to the first that fails. -/
def Attempts (host : Host) (m : Machine) (trace : Trace α) (c : Run α) : Prop :=
  wp c (fun a m' => trace.2 = some a ∧ Followed trace.1 m m')
    (fun m' => ∃ done, done <+: trace.1 ∧ Followed done m m' ∧
      (host.StoreCallsSucceed → done = trace.1 ∧ trace.2 = none)) host m

theorem Attempts.pure (a : α) : Attempts host m (.done a) (Pure.pure a : Run α) :=
  ⟨rfl, .refl m⟩

theorem Attempts.bind {trace : Trace β} {next : β → Trace α} {c : Run β} {f : β → Run α}
    (first : Attempts host m trace c) (rest : ∀ b m', Attempts host m' (next b) (f b)) :
    Attempts host m (trace.andThen next) (c >>= f) := by
  rw [Attempts, wp_bind]
  refine wp_mono first ?_ ?_
  · intro b m₁ reached
    obtain ⟨result, followed⟩ := reached
    rw [Trace.andThen, result]
    refine wp_mono (rest b m₁) ?_ ?_
    · exact fun a m₂ later => ⟨later.1, followed.append later.2⟩
    · intro m₂ failed
      obtain ⟨done, part, later, all⟩ := failed
      refine ⟨trace.1 ++ done, (List.prefix_append_right_inj _).mpr part,
        followed.append later, fun succeed => ?_⟩
      exact ⟨congrArg (trace.1 ++ ·) (all succeed).1, (all succeed).2⟩
  · intro m₁ failed
    obtain ⟨done, part, followed, all⟩ := failed
    rw [Trace.andThen]
    cases result : trace.2 with
    | none =>
        exact ⟨done, part, followed, fun succeed => ⟨(all succeed).1, rfl⟩⟩
    | some b =>
        refine ⟨done, part.trans (List.prefix_append _ _), followed, fun succeed => ?_⟩
        rw [result] at all
        exact nomatch (all succeed).2

theorem Attempts.onFailure {trace : Trace α} {c : Run α} {handler : Run β}
    (h : Attempts host m trace c)
    (quiet : ∀ m', wp handler (fun _ m'' => m''.store = m'.store)
      (fun m'' => m''.store = m'.store) host m') :
    Attempts host m trace (Fallible.onFailure c handler) := by
  rw [Attempts, wp_onFailure]
  refine wp_mono h (fun _ _ reached => reached) fun m₁ failed => ?_
  obtain ⟨done, part, followed, all⟩ := failed
  refine wp_mono (quiet m₁) ?_ ?_
  · exact fun _ m₂ store => ⟨done, part, followed.quiet store, all⟩
  · exact fun m₂ store => ⟨done, part, followed.quiet store, all⟩

theorem Attempts.silent {trace : Trace α} {c : Run β} {f : β → Run α} {b : β}
    (h : wp c (fun b' m' => b' = b ∧ m'.store = m.store) (fun _ => False) host m)
    (rest : ∀ m', Attempts host m' trace (f b)) : Attempts host m trace (c >>= f) := by
  rw [Attempts, wp_bind]
  refine wp_mono h ?_ fun _ impossible => impossible.elim
  intro b' m₁ silent
  have same : ∀ {calls m'}, Followed calls m₁ m' → Followed calls m m' := by
    intro calls m' followed
    have whole := ((Followed.refl m).quiet silent.2).append followed
    exact whole
  rw [silent.1]
  refine wp_mono (rest m₁) ?_ ?_
  · exact fun a m₂ reached => ⟨reached.1, same reached.2⟩
  · intro m₂ failed
    obtain ⟨done, part, followed, all⟩ := failed
    exact ⟨done, part, same followed, all⟩

/-- A step that follows its plan and leaves the store as it was when it fails. -/
theorem Attempts.ofPlan {plan : Plan α} {c : Run α} (h : FollowsPlan host m plan c)
    (fails : wp c (fun _ _ => True) (fun m' => Followed [] m m') host m) :
    Attempts host m (.ofPlan plan) c := by
  refine wp_mono (wp_and h fails) ?_ ?_
  · intro a m' reached
    obtain ⟨⟨calls, planned, performed⟩, -⟩ := reached
    rw [planned]
    exact ⟨rfl, performed.refines⟩
  · intro m' failed
    refine ⟨[], List.nil_prefix, failed.2, fun succeed => ?_⟩
    have none_planned : plan = none := failed.1.resolve_right (not_not.mpr succeed)
    rw [none_planned]
    exact ⟨rfl, rfl⟩

variable [BcCore]

theorem cliReport_quiet (context : ParseContext) (pieces : List (List UInt8)) (m : Machine) :
    wp (cliReport context pieces) (fun _ m' => m'.store = m.store) (fun m' => m'.store = m.store)
      host m := by
  simp only [cliReport, cliDrainWriterToStream, wp_bind, wp_attempt, wp_external]
  refine ⟨fun _ => ⟨fun _ => ?_, fun _ => rfl⟩, fun _ => rfl⟩
  rw [wp_ite]
  exact ⟨fun _ => rfl, fun _ => rfl⟩

theorem Attempts.reject (context : ParseContext) (pieces : List (List UInt8)) :
    Attempts host m .reject (cliReject context pieces : Run α) := by
  have failed : ∀ m', m'.store = m.store → ∃ done, done <+: [] ∧ Followed done m m' ∧
      (host.StoreCallsSucceed → done = [] ∧ (none : Option α) = none) := fun m' store =>
    ⟨[], List.prefix_rfl, (Followed.refl m).quiet store, fun _ => ⟨rfl, rfl⟩⟩
  rw [Attempts, cliReject, wp_bind]
  exact wp_mono (cliReport_quiet context pieces m) (fun _ m' => failed m') failed

theorem Attempts.perform (call : StoreCall) : Attempts host m (.call call) call.perform := by
  refine wp_mono (perform_spec host m call) ?_ ?_
  · exact fun _ m' performed => ⟨rfl, performed.2⟩
  · intro m' refused
    exact ⟨[], List.nil_prefix, .of_untouched refused.toUntouched,
      fun succeed => absurd succeed refused.failure⟩

end Rules

section Steps
variable [BcCore] {host : Host} {m : Machine} (context : ParseContext)

theorem cliOptionKey_quiet (keyPrefix : CString) (option : OptionSpec) :
    wp (cliOptionKey context keyPrefix option) (fun _ m' => m'.store = m.store)
      (fun m' => m'.store = m.store) host m := by
  rw [cliOptionKey, wp_onFailure, cliBuildKey, wp_ite]
  exact ⟨fun _ => cliReport_quiet context _ m, fun _ => rfl⟩

/-- A store call that fails leaves the store as it was, and so does its diagnostic. -/
theorem cliStoreOption_refuses (keyPrefix : CString) (option : OptionSpec)
    (call : CString → StoreCall) :
    wp (cliStoreOption context keyPrefix option fun key => (call key).perform)
      (fun _ _ => True) (fun m' => Followed [] m m') host m := by
  rw [cliStoreOption, wp_bind]
  refine wp_mono (cliOptionKey_quiet context keyPrefix option) ?_ ?_
  · intro key m₁ store
    rw [wp_onFailure]
    refine wp_mono (perform_spec host m₁ (call key)) (fun _ _ _ => trivial) fun m₂ refused => ?_
    have kept : Followed [] m m₂ :=
      ((Followed.refl m).quiet store).append (.of_untouched refused.toUntouched)
    exact wp_mono (cliReport_quiet context _ m₂) (fun _ _ => kept.quiet) fun _ => kept.quiet
  · exact fun m₁ store => (Followed.refl m).quiet store

theorem cliReject_refuses {α : Type} (pieces : List (List UInt8)) :
    wp (cliReject context pieces : Run α) (fun _ _ => True) (fun m' => Followed [] m m')
      host m := by
  have quiet : ∀ m', m'.store = m.store → Followed [] m m' := fun _ => (Followed.refl m).quiet
  rw [cliReject, wp_bind]
  exact wp_mono (cliReport_quiet context pieces m) (fun _ m' => quiet m') quiet

theorem cliHandleAssignment_refuses (options : List OptionSpec) (seen : List Bool)
    (keyPrefix : CString) (name : List UInt8) (value : Option CString) :
    wp (cliHandleAssignment context options seen keyPrefix name value)
      (fun _ _ => True) (fun m' => Followed [] m m') host m := by
  have stores : ∀ (option : OptionSpec) (index : Nat) (call : CString → StoreCall),
      wp (do
          cliStoreOption context keyPrefix option fun key => (call key).perform
          pure (seen.set index true))
        (fun _ _ => True) (fun m' => Followed [] m m') host m := by
    intro option index call
    rw [wp_bind]
    exact cliStoreOption_refuses context keyPrefix option call
  rw [cliHandleAssignment]
  cases cliFindOption name options 0 with
  | none => exact cliReject_refuses context _
  | some row =>
      obtain ⟨index, option⟩ := row
      by_cases isFlag : option.type = .flag
      · simp only [isFlag, if_true]
        cases value with
        | some value => exact cliReject_refuses context _
        | none => exact stores option index fun key => .set key (.lit "true")
      · simp only [isFlag, if_false]
        cases value with
        | none => exact cliReject_refuses context _
        | some value =>
            by_cases invalid : cliValidateValue option value = false
            · simp only [invalid, if_true]
              exact cliReject_refuses context _
            · simp only [invalid]
              by_cases isList : option.type = .list
              · simp only [isList, if_true]
                exact stores option index fun key =>
                  .append key value listSeparator (by decide)
              · simp only [isList, if_false]
                exact stores option index fun key => .set key value

theorem cliHandleOption_attempts (state : ScanState) (name : List UInt8)
    (value : Option CString) :
    Attempts host m (.ofPlan (planToken context.spec state name value))
      (cliHandleOption context state name value) := by
  refine .ofPlan (cliHandleOption_follows m context state name value) ?_
  rw [cliHandleOption]
  cases state.command with
  | none =>
      rw [wp_bind]
      exact cliHandleAssignment_refuses context _ _ _ _ _
  | some command =>
      rw [wp_ite]
      refine ⟨fun _ => cliReject_refuses context _, fun _ => ?_⟩
      rw [wp_bind]
      refine wp_mono (cliCommandPrefix_silent m command) ?_ fun _ impossible => impossible.elim
      intro written m₁ silent
      rw [wp_bind]
      refine wp_mono (cliHandleAssignment_refuses context _ _ _ _ _) (fun _ _ _ => trivial) ?_
      exact fun m₂ kept => ((Followed.refl m).quiet silent.2.1).append kept

theorem cliScan_attempts (tokens : List CString) (state : ScanState) :
    Attempts host m (traceScan context.spec tokens state) (cliScan context tokens state) := by
  induction tokens generalizing state m with
  | nil => exact .pure _
  | cons token rest ih =>
      rw [traceScan, cliScan_cons]
      by_cases terminator : token.bytes = dashes
      · rw [if_pos terminator, if_pos terminator]
        exact .pure _
      · rw [if_neg terminator, if_neg terminator]
        by_cases option : OptionToken token
        · rw [if_pos option, if_pos option]
          by_cases help : tokenName token = helpName
          · rw [if_pos help, if_pos help]
            exact .pure _
          · rw [if_neg help, if_neg help]
            by_cases version : tokenName token = versionName
            · rw [if_pos version, if_pos version]
              exact .pure _
            · rw [if_neg version, if_neg version]
              exact (cliHandleOption_attempts context state _ _).bind fun state _ => ih state
        · rw [if_neg option, if_neg option]
          cases state.command with
          | some command => exact .pure _
          | none =>
              rw [cliFindCommand_eq]
              cases context.spec.commands.find? fun command => command.name = token with
              | none => exact .reject context _
              | some command => exact ih _

theorem cliOptionKey_attempts (keyPrefix : CString) (option : OptionSpec) :
    Attempts host m
      (if KeyFits keyPrefix option then .done (optionKey keyPrefix option) else .reject)
      (cliOptionKey context keyPrefix option) := by
  refine .onFailure ?_ fun m' => cliReport_quiet context _ m'
  rw [cliBuildKey]
  by_cases fits : KeyFits keyPrefix option
  · rw [if_pos fits, if_neg (not_lt.mpr fits)]
    exact ⟨rfl, (Followed.refl m).quiet rfl⟩
  · rw [if_neg fits, if_pos (not_le.mp fits)]
    exact ⟨[], List.prefix_rfl, .refl m, fun _ => ⟨rfl, rfl⟩⟩

theorem cliApplyDefaults_attempts (keyPrefix : CString) (seen : List Bool)
    (options : List OptionSpec) (index : Nat) :
    Attempts host m (traceDefaults keyPrefix seen options index)
      (cliApplyDefaults context keyPrefix seen options index) := by
  induction options generalizing index m with
  | nil => exact .pure ()
  | cons option options ih =>
      rw [traceDefaults, cliApplyDefaults]
      cases seen.getD index false with
      | true => exact ih (index + 1)
      | false =>
          cases option.required with
          | true => exact .reject context _
          | false =>
              cases option.defaultValue with
              | none => exact ih (index + 1)
              | some defaultValue =>
                  have trace : (if KeyFits keyPrefix option then
                        (Trace.call (.set (optionKey keyPrefix option) defaultValue)).andThen
                          fun _ => traceDefaults keyPrefix seen options (index + 1)
                      else .reject) =
                      (if KeyFits keyPrefix option then Trace.done (optionKey keyPrefix option)
                        else .reject).andThen fun key =>
                          (Trace.call (.set key defaultValue)).andThen fun _ =>
                            traceDefaults keyPrefix seen options (index + 1) := by
                    by_cases fits : KeyFits keyPrefix option
                    · rw [if_pos fits, if_pos fits, Trace.done_andThen]
                    · rw [if_neg fits, if_neg fits]
                      rfl
                  simp only [Bool.false_eq_true, if_false, trace]
                  refine (cliOptionKey_attempts context keyPrefix option).bind fun key m₁ => ?_
                  have stored : Attempts host m₁ _ _ := Attempts.perform (.set key defaultValue)
                  exact (stored.onFailure fun m' => cliReport_quiet context _ m').bind
                    fun _ _ => ih (index + 1)

theorem cliCheckPositionals_attempts (command : CommandSpec) (count : Nat) :
    Attempts host m (if PositionalsFit command count then .done () else .reject)
      (cliCheckPositionals context command count) := by
  rw [cliCheckPositionals]
  by_cases few : count < command.positionalMin
  · have unfit : ¬ PositionalsFit command count := fun fits => absurd fits.1 (not_le.mpr few)
    rw [if_pos few, if_neg unfit]
    exact .reject context _
  · by_cases many : command.positionalMax > 0 ∧ count > command.positionalMax
    · have unfit : ¬ PositionalsFit command count :=
        fun fits => absurd (fits.2 many.1) (not_le.mpr many.2)
      rw [if_neg few, if_pos many, if_neg unfit]
      exact .reject context _
    · have fits : PositionalsFit command count :=
        ⟨not_lt.mp few, fun bounded => not_lt.mp fun more => many ⟨bounded, more⟩⟩
      rw [if_neg few, if_neg many, if_pos fits]
      exact .pure ()

theorem cliFinish_attempts (state : ScanState) (positionalValues : List CString) :
    Attempts host m (traceFinish context.spec state positionalValues)
      (cliFinish context state positionalValues) := by
  rw [traceFinish, cliFinish]
  cases state.command with
  | none => exact .reject context _
  | some command =>
      have trace : (if PositionalsFit command positionalValues.length then
            (Trace.call .sort).andThen fun _ =>
              Trace.done (ParseStatus.ok, (⟨some command, positionalValues⟩ : Parsed))
          else .reject) =
          (if PositionalsFit command positionalValues.length then Trace.done ()
            else .reject).andThen fun _ => (Trace.call .sort).andThen fun _ =>
              .done (.ok, ⟨some command, positionalValues⟩) := by
        by_cases fits : PositionalsFit command positionalValues.length
        · rw [if_pos fits, if_pos fits, Trace.done_andThen]
        · rw [if_neg fits, if_neg fits]
          rfl
      simp only [trace]
      refine (cliApplyDefaults_attempts context _ _ _ 0).bind fun _ m₁ => ?_
      refine .silent (wp_mono (cliCommandPrefix_silent m₁ command)
        (fun _ _ silent => ⟨silent.1, silent.2.1⟩) fun _ impossible => impossible) fun m₂ => ?_
      refine (cliApplyDefaults_attempts context _ _ _ 0).bind fun _ m₃ => ?_
      refine (cliCheckPositionals_attempts context command _).bind fun _ m₄ => ?_
      have sorted : Attempts host m₄ _ _ := Attempts.perform .sort
      exact (sorted.onFailure fun m' => cliReport_quiet context _ m').bind fun _ _ => .pure _

theorem cliCheckTables_attempts :
    Attempts host m (if TablesFit context.spec then .done () else .reject)
      (cliCheckTables context) := by
  by_cases fits : TablesFit context.spec
  · rw [if_pos fits, cliCheckTables_eq fits]
    exact .pure ()
  · rw [if_neg fits, cliCheckTables]
    cases found : context.spec.commands.find? fun command =>
        command.options.length > cliTableSize with
    | some command => exact .reject context _
    | none =>
        have globals : context.spec.globalOptions.length > cliTableSize := by
          refine not_le.mp fun globals => fits ⟨fun command mem => ?_, globals⟩
          simpa using List.find?_eq_none.mp found command mem
        simp only [globals, if_true]
        exact .reject context _

theorem cliParseArguments_attempts (argumentValues : List CString) :
    Attempts host m (traceParse context.spec argumentValues)
      (cliParseArguments context argumentValues) := by
  have trace : traceParse context.spec argumentValues =
      (if TablesFit context.spec then Trace.done () else .reject).andThen fun _ =>
        (traceScan context.spec (argumentValues.drop 1) .initial).andThen
          (traceResult context.spec) := by
    rw [traceParse]
    by_cases fits : TablesFit context.spec
    · rw [if_pos fits, if_pos fits, Trace.done_andThen]
    · rw [if_neg fits, if_neg fits]
      rfl
  rw [trace, cliParseArguments]
  refine (cliCheckTables_attempts context).bind fun _ m₁ => ?_
  refine (cliScan_attempts context _ _).bind fun result m₂ => ?_
  cases result with
  | help command =>
      cases command with
      | none => exact .pure _
      | some command => exact .pure _
  | version => exact .pure _
  | ended state positionalValues => exact cliFinish_attempts context state positionalValues

end Steps

/-- The command of a command line: the one its first word names, if it has a word. -/
def namedCommand (spec : ProgramSpec) : List CString → Option CommandSpec
  | [] => none
  | token :: rest =>
      if token.bytes = dashes then none
      else if OptionToken token then namedCommand spec rest
      else spec.commands.find? fun command => command.name = token

/-- The key of a row of the global table or of the table of the command. -/
def RowKey (spec : ProgramSpec) (command : Option CommandSpec) (key : CString) : Prop :=
  (∃ option ∈ spec.globalOptions, optionKey cliGlobalPrefix option = key) ∨
    ∃ selected, command = some selected ∧
      ∃ option ∈ selected.options, optionKey (commandPrefix selected) option = key

section Rows
variable {spec : ProgramSpec}

theorem rowKey_of_state {state : ScanState} {option : OptionSpec} {key : CString}
    (mem : option ∈ state.options spec) (same : optionKey state.keyPrefix option = key) :
    RowKey spec state.command key := by
  rw [ScanState.options] at mem
  rw [ScanState.keyPrefix] at same
  cases selected : state.command with
  | none =>
      rw [selected] at mem same
      exact .inl ⟨option, mem, same⟩
  | some command =>
      rw [selected] at mem same
      exact .inr ⟨command, rfl, option, mem, same⟩

theorem RowKey.or {state : Option CommandSpec} {command : Option CommandSpec} {key : CString}
    (h : RowKey spec state key) : RowKey spec (state.or command) key := by
  refine h.imp_right fun row => ?_
  obtain ⟨selected, same, rest⟩ := row
  exact ⟨selected, by rw [same, Option.some_or], rest⟩

/-- The loop asks for calls of the rows of the two tables only, and ends with the command. -/
structure InRows (spec : ProgramSpec) (command : Option CommandSpec) (trace : Trace ScanResult) :
    Prop where
  calls : ∀ call ∈ trace.1, ∀ key, call.key? = some key → RowKey spec command key
  ends : ∀ state values, trace.2 = some (.ended state values) →
    ∀ selected, state.command = some selected → command = some selected

theorem InRows.ended (state : ScanState) (named : Option CommandSpec) (rest : List CString) :
    InRows spec (state.command.or named) (.done (.ended state rest)) where
  calls := fun _ mem => absurd mem List.not_mem_nil
  ends := by
    intro state' values same selected h
    obtain ⟨rfl, -⟩ := ScanResult.ended.inj (Option.some.inj same)
    rw [h, Option.some_or]

theorem InRows.stopped (command : Option CommandSpec) {result : Option ScanResult}
    (other : ∀ state values, result ≠ some (.ended state values)) :
    InRows spec command ([], result) where
  calls := fun _ mem => absurd mem List.not_mem_nil
  ends := fun state values same => absurd same (other state values)

theorem traceScan_inRows (tokens : List CString) (state : ScanState) :
    InRows spec (state.command.or (namedCommand spec tokens)) (traceScan spec tokens state) := by
  induction tokens generalizing state with
  | nil => exact .ended state _ _
  | cons token rest ih =>
      rw [traceScan, namedCommand]
      by_cases terminator : token.bytes = dashes
      · rw [if_pos terminator, if_pos terminator]
        exact .ended state _ _
      · rw [if_neg terminator, if_neg terminator]
        by_cases option : OptionToken token
        · rw [if_pos option, if_pos option]
          by_cases help : tokenName token = helpName
          · rw [if_pos help]
            exact .stopped _ fun _ _ same => nomatch same
          · rw [if_neg help]
            by_cases version : tokenName token = versionName
            · rw [if_pos version]
              exact .stopped _ fun _ _ same => nomatch same
            · rw [if_neg version]
              cases planned : planToken spec state (tokenName token) (tokenValue token) with
              | none => exact .stopped _ fun _ _ same => nomatch same
              | some plan =>
                  obtain ⟨calls, next⟩ := plan
                  obtain ⟨-, index, row, found, hcalls, hnext⟩ := planToken_eq_some_iff.mp planned
                  have later := ih next
                  rw [hnext, ScanState.command_withSeen] at later
                  refine ⟨fun call mem key about => ?_, by rw [hnext]; exact later.ends⟩
                  cases List.mem_append.mp mem with
                  | inr rest => exact later.calls call (by rw [← hnext]; exact rest) key about
                  | inl first =>
                      have listed := List.mem_of_getElem? (cliFindOption_row found.found).2.2
                      rw [hcalls] at first
                      rw [List.mem_singleton.mp first, occurrenceCall_key?] at about
                      exact (rowKey_of_state listed (Option.some.inj about)).or
        · rw [if_neg option, if_neg option]
          cases selected : state.command with
          | some command =>
              have ended : InRows spec (state.command.or
                  (spec.commands.find? fun command => command.name = token)) _ :=
                .ended state _ (token :: rest)
              rwa [selected] at ended
          | none =>
              cases spec.commands.find? fun command => command.name = token with
              | none => exact .stopped _ fun _ _ same => nomatch same
              | some command => exact ih { state with command := some command }

theorem traceDefaults_rows {keyPrefix : CString} {seen : List Bool} {options : List OptionSpec}
    {index : Nat} : ∀ call ∈ (traceDefaults keyPrefix seen options index).1, ∀ key,
      call.key? = some key → ∃ option ∈ options, optionKey keyPrefix option = key := by
  induction options generalizing index with
  | nil => exact fun _ mem => absurd mem List.not_mem_nil
  | cons option options ih =>
      have later : ∀ call ∈ (traceDefaults keyPrefix seen options (index + 1)).1, ∀ key,
          call.key? = some key → ∃ other ∈ option :: options, optionKey keyPrefix other = key := by
        intro call mem key about
        obtain ⟨other, listed, same⟩ := ih call mem key about
        exact ⟨other, List.mem_cons_of_mem _ listed, same⟩
      rw [traceDefaults]
      cases seen.getD index false with
      | true => exact later
      | false =>
          cases option.required with
          | true => exact fun _ mem => absurd mem List.not_mem_nil
          | false =>
              cases option.defaultValue with
              | none => exact later
              | some defaultValue =>
                  by_cases fits : KeyFits keyPrefix option
                  · simp only [Bool.false_eq_true, if_false, fits, if_true]
                    intro call mem key about
                    cases List.mem_cons.mp mem with
                    | inl first =>
                        rw [first] at about
                        exact ⟨option, List.mem_cons_self, Option.some.inj about⟩
                    | inr rest => exact later call rest key about
                  · simp only [Bool.false_eq_true, if_false, fits]
                    exact fun _ mem => absurd mem List.not_mem_nil

theorem traceFinish_rows {state : ScanState} {values : List CString} :
    ∀ call ∈ (traceFinish spec state values).1, ∀ key, call.key? = some key →
      RowKey spec state.command key := by
  intro call mem key about
  rw [traceFinish] at mem
  cases selected : state.command with
  | none =>
      rw [selected] at mem
      exact absurd mem List.not_mem_nil
  | some command =>
      rw [selected] at mem
      cases Trace.mem_andThen mem with
      | inl globals => exact .inl (traceDefaults_rows call globals key about)
      | inr later =>
          obtain ⟨_, -, mem⟩ := later
          cases Trace.mem_andThen mem with
          | inl options =>
              exact .inr ⟨command, rfl, traceDefaults_rows call options key about⟩
          | inr last =>
              obtain ⟨_, -, mem⟩ := last
              -- the sort is about no key
              by_cases fits : PositionalsFit command values.length
              · rw [if_pos fits] at mem
                rw [List.mem_singleton.mp mem] at about
                exact nomatch about
              · rw [if_neg fits] at mem
                exact absurd mem List.not_mem_nil

theorem traceParse_rows (argumentValues : List CString) :
    ∀ call ∈ (traceParse spec argumentValues).1, ∀ key, call.key? = some key →
      RowKey spec (namedCommand spec (argumentValues.drop 1)) key := by
  intro call mem key about
  have inRows : InRows spec (namedCommand spec (argumentValues.drop 1)) _ :=
    traceScan_inRows (argumentValues.drop 1) .initial
  rw [traceParse] at mem
  by_cases fits : TablesFit spec
  · rw [if_pos fits] at mem
    cases Trace.mem_andThen mem with
    | inl scanned => exact inRows.calls call scanned key about
    | inr later =>
        obtain ⟨result, ends, mem⟩ := later
        cases result with
        | help command =>
            cases command with
            | none => exact absurd mem List.not_mem_nil
            | some command => exact absurd mem List.not_mem_nil
        | version => exact absurd mem List.not_mem_nil
        | ended state values =>
            have row := traceFinish_rows call mem key about
            refine row.imp_right fun row => ?_
            obtain ⟨selected, same, listed⟩ := row
            exact ⟨selected, inRows.ends state values ends selected same, listed⟩
  · rw [if_neg fits] at mem
    exact absurd mem List.not_mem_nil

end Rows

section Outcomes
variable [BcCore] {host : Host} {m : Machine}

/-- Whichever way a parse ends, it has made a first part of the calls that the command line
asks for, all of them when none fails, and no other key is touched. -/
theorem cliParse_attempts (spec : ProgramSpec) (argumentValues : List CString)
    (errorStream : Bool) (valid : m.store.Valid) :
    ∃ result m', cliParse spec argumentValues errorStream host m = (some result, m') ∧
      m'.store.Valid ∧
      (∃ done, done <+: (traceParse spec argumentValues).1 ∧
        (∀ key, m'.store.content key = valueAfter done key (m.store.content key)) ∧
        (host.StoreCallsSucceed → done = (traceParse spec argumentValues).1 ∧
          result = (traceParse spec argumentValues).2.getD (.error, .empty)) ∧
        (result.1 ≠ .error → done = (traceParse spec argumentValues).1 ∧
          (traceParse spec argumentValues).2 = some result)) ∧
      ∀ key, ¬ RowKey spec (namedCommand spec (argumentValues.drop 1)) key →
        m'.store.content key = m.store.content key := by
  have start : Refines ⟨m.store.content, m.store.sorted⟩ m := ⟨valid, fun _ => rfl, rfl⟩
  have content : ∀ {done m'}, Followed done m m' → m'.store.Valid ∧
      ∀ key, m'.store.content key = valueAfter done key (m.store.content key) := by
    intro done m' followed
    have after := followed _ start
    exact ⟨after.valid, fun key => (after.content key).trans (foldl_reflect_map _ _)⟩
  have frame : ∀ {done}, done <+: (traceParse spec argumentValues).1 → ∀ key,
      ¬ RowKey spec (namedCommand spec (argumentValues.drop 1)) key → ∀ old,
        valueAfter done key old = old := by
    intro done part key other old
    refine valueAfter_of_foreign (fun call mem about => other ?_) old
    exact traceParse_rows argumentValues call (part.subset mem) key about
  have attempts : Attempts host m (traceParse spec argumentValues) _ :=
    cliParseArguments_attempts ⟨spec, errorStream⟩ argumentValues
  cases wp_cases attempts with
  | inl reached =>
      obtain ⟨result, m', run, traced, followed⟩ := reached
      obtain ⟨valid', values⟩ := content followed
      refine ⟨result, m', ?_, valid', ⟨_, List.prefix_rfl, values, fun _ => ⟨rfl, ?_⟩,
        fun _ => ⟨rfl, traced⟩⟩, fun key other => ?_⟩
      · rw [cliParse, bind_run_of_some (attempt_run_of_some run)]
        rfl
      · rw [traced]
        rfl
      · rw [values, frame List.prefix_rfl key other]
  | inr failed =>
      obtain ⟨m', run, done, part, followed, all⟩ := failed
      obtain ⟨valid', values⟩ := content followed
      refine ⟨(.error, .empty), m', ?_, valid', ⟨done, part, values,
        fun succeed => ⟨(all succeed).1, ?_⟩, fun accepted => absurd rfl accepted⟩,
        fun key other => ?_⟩
      · rw [cliParse, bind_run_of_some (attempt_run_of_none run)]
        rfl
      · rw [(all succeed).2]
        rfl
      · rw [values, frame part key other]

/-- The number of jobs is rejected after two options have been stored. -/
def rejectedArguments : List CString :=
  [.lit "copy", .lit "--quiet", .lit "run", .lit "--path=a", .lit "--jobs=x", .lit "--path=b"]

omit [BcCore] in
theorem cliParse_attempts_rejected :
    ∃ m', @cliParse .reference copySpec rejectedArguments true (.obliging [] []) configuredMachine =
        (some (.error, .empty), m') ∧
      m'.store.content (.lit "global.quiet") = some (.lit "true") ∧
      m'.store.content (.lit "run.path") = some (.lit "z\na") ∧
      m'.store.content (.lit "run.jobs") = some (.lit "16") ∧
      m'.store.content (.lit "log.level") = some (.lit "warn") := by
  have valid : configuredMachine.store.Valid := ⟨by decide, fun sorted => nomatch sorted⟩
  obtain ⟨result, m', run, -, ⟨done, -, values, succeeding, -⟩, -⟩ :=
    @cliParse_attempts .reference (.obliging [] []) configuredMachine copySpec rejectedArguments
      true valid
  obtain ⟨hdone, hresult⟩ := succeeding (Host.obliging_storeCallsSucceed [] [])
  have rejected : (traceParse copySpec rejectedArguments).2.getD (.error, .empty) =
      (.error, .empty) := by decide +kernel
  rw [rejected] at hresult
  subst hresult hdone
  refine ⟨m', run, ?_, ?_, ?_, ?_⟩
  all_goals
    rw [values]
    decide +kernel

end Outcomes

end BcRuntime
