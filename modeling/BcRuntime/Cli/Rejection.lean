import BcRuntime.Cli.Builtins

/-!
A rejection is final. The loop refuses the first token that it cannot consume, and
what follows that token is never looked at. A command line that is refused after the
loop is refused for its options and for the number of its positional arguments.
-/

namespace BcRuntime
open Fallible Run

variable [BcCore]

/-- The loop consumes some tokens and then fails at the next one. -/
structure RejectedAt (context : ParseContext) (host : Host) (m : Machine)
    (consumed : List CString) (token : CString) (m' : Machine) : Prop where
  run : ∃ state m₁, cliConsumeAll context consumed .initial host m = (some state, m₁) ∧
    cliScan context [token] state host m₁ = (none, m')

/-- The loop consumes some tokens and ends before the positional arguments `values`, and
what is done after the loop fails. -/
structure RejectedAfter (context : ParseContext) (host : Host) (m : Machine)
    (tokens consumed values : List CString) (m' : Machine) : Prop where
  split : tokens = consumed ++ values ∨
    ∃ terminator : CString, terminator.bytes = dashes ∧
      tokens = consumed ++ terminator :: values
  run : ∃ state m₁, cliConsumeAll context consumed .initial host m = (some state, m₁) ∧
    cliScan context tokens .initial host m = (some (.ended state values), m₁) ∧
    cliFinish context state values host m₁ = (none, m')

/-- How a loop ends before a token that it does not consume. -/
def EndsAt (state : ScanState) (token : CString) (rest : List CString) (result : ScanResult) :
    Prop :=
  ∀ state' values, result = .ended state' values →
    state' = state ∧ (values = token :: rest ∨ token.bytes = dashes ∧ values = rest)

section Tokens
variable (context : ParseContext) (state : ScanState) (token : CString) (host : Host) (m : Machine)

/-- A token is consumed, or ends the loop, or is refused whatever follows it. -/
theorem cliScan_token :
    (∃ state' m', cliConsume context state token host m = (some state', m')) ∨
      (∀ rest, ∃ result, cliScan context (token :: rest) state host m = (some result, m) ∧
        EndsAt state token rest result) ∨
      ∃ m', ∀ rest, cliScan context (token :: rest) state host m = (none, m') := by
  by_cases terminator : token.bytes = dashes
  · right
    left
    intro rest
    rw [cliScan_cons, if_pos terminator]
    refine ⟨_, rfl, ?_⟩
    intro state' values same
    cases same
    exact ⟨rfl, .inr ⟨terminator, rfl⟩⟩
  · by_cases builtin : BuiltinToken token
    · right
      left
      intro rest
      rw [cliScan_builtin builtin]
      refine ⟨_, rfl, ?_⟩
      intro state' values same
      rw [builtinResult] at same
      by_cases help : tokenName token = helpName
      · rw [if_pos help] at same
        cases same
      · rw [if_neg help] at same
        cases same
    · have stops : ¬ (token.bytes = dashes ∨ BuiltinToken token) :=
        not_or.mpr ⟨terminator, builtin⟩
      simp only [cliScan_cons, if_neg terminator, cliConsume, if_neg stops]
      by_cases option : OptionToken token
      · obtain ⟨help, version⟩ := not_or.mp fun name => builtin ⟨option, name⟩
        simp only [if_pos option, if_neg help, if_neg version]
        cases run : cliHandleOption context state (tokenName token) (tokenValue token) host m with
        | mk result m' =>
            cases result with
            | some state' => exact .inl ⟨state', m', rfl⟩
            | none => exact .inr (.inr ⟨m', fun rest => bind_run_of_none run _⟩)
      · simp only [if_neg option, cliSelectCommand]
        cases selected : state.command with
        | some command =>
            right
            left
            intro rest
            refine ⟨_, rfl, ?_⟩
            intro state' values same
            cases same
            exact ⟨rfl, .inl rfl⟩
        | none =>
            cases cliFindCommand token context.spec.commands with
            | some command => exact .inl ⟨_, m, rfl⟩
            | none =>
                right
                right
                cases run : (cliReject context (quotedMessage ": unknown command '" token "'\n") :
                    Run ScanResult) host m with
                | mk result m' =>
                    cases result with
                    | some result => exact (wp_some (cliReject_fails (fun _ _ => False) _) run).elim
                    | none => exact ⟨m', fun rest => run⟩

end Tokens

section Loop
variable {context : ParseContext} {host : Host} {m m' : Machine} {state : ScanState}

theorem cliScan_refused {token : CString}
    (refused : cliScan context [token] state host m = (none, m')) (rest : List CString) :
    cliScan context (token :: rest) state host m = (none, m') := by
  cases cliScan_token context state token host m with
  | inl step =>
      obtain ⟨state', m₁, step⟩ := step
      rw [cliScan_of_consume [] step] at refused
      cases refused
  | inr other =>
      cases other with
      | inl ends =>
          obtain ⟨result, run, _⟩ := ends []
          rw [run] at refused
          cases refused
      | inr fails =>
          obtain ⟨m₁, fails⟩ := fails
          rw [fails rest, ← fails [], refused]

theorem rejected_of_cliScan {tokens : List CString}
    (failed : cliScan context tokens state host m = (none, m')) :
    ∃ consumed token state₁ m₁, consumed ++ [token] <+: tokens ∧
      cliConsumeAll context consumed state host m = (some state₁, m₁) ∧
      cliScan context [token] state₁ host m₁ = (none, m') := by
  induction tokens generalizing state m with
  | nil => cases failed
  | cons token rest ih =>
      cases cliScan_token context state token host m with
      | inl step =>
          obtain ⟨next, m₁, step⟩ := step
          rw [cliScan_of_consume rest step] at failed
          obtain ⟨consumed, last, state₁, m₂, begins, all, refused⟩ := ih failed
          refine ⟨token :: consumed, last, state₁, m₂, ?_, ?_, refused⟩
          · exact (List.prefix_append_right_inj [token]).mpr begins
          · rw [cliConsumeAll, bind_run_of_some step, all]
      | inr other =>
          cases other with
          | inl ends =>
              obtain ⟨result, run, _⟩ := ends rest
              rw [run] at failed
              cases failed
          | inr fails =>
              obtain ⟨m₁, fails⟩ := fails
              refine ⟨[], token, state, m, ⟨rest, rfl⟩, rfl, ?_⟩
              rw [fails [], ← fails rest, failed]

theorem consumed_of_ended {tokens values : List CString} {state' : ScanState}
    (run : cliScan context tokens state host m = (some (.ended state' values), m')) :
    ∃ consumed, cliConsumeAll context consumed state host m = (some state', m') ∧
      (tokens = consumed ++ values ∨
        ∃ terminator : CString, terminator.bytes = dashes ∧
          tokens = consumed ++ terminator :: values) := by
  induction tokens generalizing state m with
  | nil =>
      cases run
      exact ⟨[], rfl, .inl rfl⟩
  | cons token rest ih =>
      cases cliScan_token context state token host m with
      | inl step =>
          obtain ⟨next, m₁, step⟩ := step
          rw [cliScan_of_consume rest step] at run
          obtain ⟨consumed, all, split⟩ := ih run
          refine ⟨token :: consumed, ?_, ?_⟩
          · rw [cliConsumeAll, bind_run_of_some step, all]
          · cases split with
            | inl split => exact .inl (congrArg (token :: ·) split)
            | inr split =>
                obtain ⟨terminator, same, split⟩ := split
                exact .inr ⟨terminator, same, congrArg (token :: ·) split⟩
      | inr other =>
          cases other with
          | inl ends =>
              obtain ⟨result, ended, place⟩ := ends rest
              rw [ended] at run
              cases run
              obtain ⟨same, split⟩ := place state' values rfl
              refine ⟨[], ?_, ?_⟩
              · rw [same]
                rfl
              · cases split with
                | inl split => exact .inl split.symm
                | inr split => exact .inr ⟨token, split.1, congrArg (token :: ·) split.2.symm⟩
          | inr fails =>
              obtain ⟨m₁, fails⟩ := fails
              rw [fails rest] at run
              cases run

end Loop

section Finish
variable {context : ParseContext} {host : Host} {m m' : Machine}

omit [BcCore] in
theorem bind_fails_of_fails {α β γ : Type} {c : Run α} {f : α → Run β} {g : α → Run γ}
    (alike : ∀ a m₁, f a host m₁ = (none, m') → g a host m₁ = (none, m'))
    (failed : (c >>= f) host m = (none, m')) : (c >>= g) host m = (none, m') := by
  rw [bind_run] at failed ⊢
  cases run : c host m with
  | mk result m₁ =>
      rw [run] at failed
      cases result with
      | some a => exact alike a m₁ failed
      | none =>
          cases failed
          rfl

/-- Of the positional arguments only their number can be refused. -/
theorem cliFinish_refused {state : ScanState} {values values' : List CString}
    (same : values'.length = values.length)
    (failed : cliFinish context state values host m = (none, m')) :
    cliFinish context state values' host m = (none, m') := by
  rw [cliFinish] at failed ⊢
  cases selected : state.command with
  | none =>
      rw [selected] at failed
      exact failed
  | some command =>
      rw [selected] at failed
      rw [same]
      refine bind_fails_of_fails ?_ failed
      intro _ m₁ failed
      refine bind_fails_of_fails ?_ failed
      intro commandPrefix m₂ failed
      refine bind_fails_of_fails ?_ failed
      intro _ m₃ failed
      refine bind_fails_of_fails ?_ failed
      intro _ m₄ failed
      refine bind_fails_of_fails ?_ failed
      intro _ m₅ failed
      cases failed

theorem cliParseArguments_status (argumentValues : List CString) :
    wp (cliParseArguments context argumentValues) (fun result _ => result.1 ≠ .error)
      (fun _ => True) host m := by
  rw [cliParseArguments]
  refine wp_bind_last fun _ m₁ => ?_
  refine wp_bind_last fun result m₂ => ?_
  cases result with
  | help command => cases command <;> exact ParseStatus.noConfusion
  | version => exact ParseStatus.noConfusion
  | ended state values =>
      refine wp_mono (cliFinish_status context state values) ?_ fun _ _ => trivial
      intro result _ ok error
      rw [ok] at error
      cases error

end Finish

section Rejection
variable {spec : ProgramSpec} {errorStream : Bool} {host : Host} {m m' : Machine}

theorem cliCheckTables_refuses (large : ¬ TablesFit spec) :
    wp (cliCheckTables ⟨spec, errorStream⟩) (fun _ _ => False) (fun _ => True) host m := by
  rw [cliCheckTables]
  cases found : spec.commands.find? fun command => command.options.length > cliTableSize with
  | some command => exact cliReject_fails _ _
  | none =>
      have globals : spec.globalOptions.length > cliTableSize := by
        apply Nat.lt_of_not_le
        intro globals
        refine large ⟨?_, globals⟩
        intro command mem
        have row := List.find?_eq_none.mp found command mem
        exact Nat.le_of_not_lt (mt decide_eq_true row)
      rw [if_pos globals]
      exact cliReject_fails _ _

theorem cliParse_of_fails {argumentValues : List CString}
    (failed : cliParseArguments ⟨spec, errorStream⟩ argumentValues host m = (none, m')) :
    cliParse spec argumentValues errorStream host m = (some (.error, .empty), m') := by
  rw [cliParse_run, failed]
  rfl

theorem cliParseArguments_fails {argumentValues : List CString} {parsed : Parsed}
    (run : cliParse spec argumentValues errorStream host m = (some (.error, parsed), m')) :
    cliParseArguments ⟨spec, errorStream⟩ argumentValues host m = (none, m') := by
  rw [cliParse_run] at run
  have status := @cliParseArguments_status _ ⟨spec, errorStream⟩ host m argumentValues
  cases ended : cliParseArguments ⟨spec, errorStream⟩ argumentValues host m with
  | mk result m₁ =>
      rw [ended] at run
      cases result with
      | none =>
          cases run
          rfl
      | some result =>
          have same : result = (.error, parsed) := Option.some.inj (Prod.mk.inj run).1
          exact absurd (congrArg Prod.fst same) (wp_some status ended)

/-- A command line is rejected for its tables, which no argument can change, for the
first token that is refused, whatever follows it, or after the loop for what the loop
has consumed and the number of positional arguments. -/
theorem cliParse_rejected {argumentValues : List CString} {parsed : Parsed}
    (run : cliParse spec argumentValues errorStream host m = (some (.error, parsed), m')) :
    (¬ TablesFit spec ∧
        ∀ others, cliParse spec others errorStream host m = (some (.error, .empty), m')) ∨
      (TablesFit spec ∧ ∃ consumed token, consumed ++ [token] <+: argumentValues.drop 1 ∧
        RejectedAt ⟨spec, errorStream⟩ host m consumed token m' ∧
        ∀ others : List CString, consumed ++ [token] <+: others.drop 1 →
          cliParse spec others errorStream host m = (some (.error, .empty), m')) ∨
      TablesFit spec ∧ ∃ consumed values,
        RejectedAfter ⟨spec, errorStream⟩ host m (argumentValues.drop 1) consumed values m' ∧
        ∀ others values' : List CString, values'.length = values.length →
          others.drop 1 = consumed ++ .lit "--" :: values' →
            cliParse spec others errorStream host m = (some (.error, .empty), m') := by
  have failed := cliParseArguments_fails run
  by_cases fits : TablesFit spec
  · right
    rw [cliParseArguments, cliCheckTables_eq fits, pure_bind, bind_run] at failed
    cases scan : cliScan ⟨spec, errorStream⟩ (argumentValues.drop 1) .initial host m with
    | mk result m₁ =>
        rw [scan] at failed
        cases result with
        | none =>
            cases failed
            obtain ⟨consumed, token, state, m₁, begins, all, refused⟩ := rejected_of_cliScan scan
            refine .inl ⟨fits, consumed, token, begins, ⟨state, m₁, all, refused⟩, ?_⟩
            intro others leads
            obtain ⟨rest, whole⟩ := leads
            apply cliParse_of_fails
            rw [cliParseArguments, cliCheckTables_eq fits, pure_bind, ← whole, List.append_assoc]
            apply bind_run_of_none
            rw [cliScan_of_consumeAll _ all]
            exact cliScan_refused refused rest
        | some result =>
            cases result with
            | help command => cases command <;> cases failed
            | version => cases failed
            | ended state values =>
                obtain ⟨consumed, all, split⟩ := consumed_of_ended scan
                refine .inr ⟨fits, consumed, values, ⟨split, state, m₁, all, scan, failed⟩, ?_⟩
                intro others values' same whole
                apply cliParse_of_fails
                rw [cliParseArguments, cliCheckTables_eq fits, pure_bind, whole]
                have terminator : (CString.lit "--").bytes = dashes := rfl
                have ended : cliScan ⟨spec, errorStream⟩ (consumed ++ .lit "--" :: values') .initial
                    host m = (some (.ended state values'), m₁) := by
                  rw [cliScan_of_consumeAll _ all, cliScan_cons, if_pos terminator]
                  rfl
                rw [bind_run_of_some ended]
                exact cliFinish_refused same failed
  · left
    cases wp_cases (cliCheckTables_refuses fits) with
    | inl passed => exact passed.elim fun _ passed => passed.elim fun _ passed => passed.2.elim
    | inr refused =>
        obtain ⟨m₁, refused, _⟩ := refused
        rw [cliParseArguments, bind_run_of_none refused] at failed
        cases failed
        refine ⟨fits, ?_⟩
        intro others
        apply cliParse_of_fails
        rw [cliParseArguments, bind_run_of_none refused]

/-- A value that is no integer, before a request for help. -/
def refusedArguments : List CString :=
  [.lit "copy", .lit "run", .lit "--jobs=x", .lit "--help"]

omit [BcCore] in
theorem cliParse_rejected_jobs :
    ∃ m', @cliParse .reference copySpec refusedArguments true (.obliging [] []) .initial =
        (some (.error, .empty), m') ∧
      ((¬ TablesFit copySpec ∧
          ∀ others, @cliParse .reference copySpec others true (.obliging [] []) .initial =
            (some (.error, .empty), m')) ∨
        (TablesFit copySpec ∧ ∃ consumed token, consumed ++ [token] <+: refusedArguments.drop 1 ∧
          @RejectedAt .reference ⟨copySpec, true⟩ (.obliging [] []) .initial consumed token m' ∧
          ∀ others : List CString, consumed ++ [token] <+: others.drop 1 →
            @cliParse .reference copySpec others true (.obliging [] []) .initial =
              (some (.error, .empty), m')) ∨
        TablesFit copySpec ∧ ∃ consumed values,
          @RejectedAfter .reference ⟨copySpec, true⟩ (.obliging [] []) .initial
            (refusedArguments.drop 1) consumed values m' ∧
          ∀ others values' : List CString, values'.length = values.length →
            others.drop 1 = consumed ++ .lit "--" :: values' →
              @cliParse .reference copySpec others true (.obliging [] []) .initial =
                (some (.error, .empty), m')) := by
  have status : (@cliParse .reference copySpec refusedArguments true (.obliging [] []) .initial).1 =
      some (.error, .empty) := by decide +kernel
  have run := @cliParse_run_of_result .reference _ _ _ _ _ _ status
  exact ⟨_, run, @cliParse_rejected .reference _ _ _ _ _ _ _ run⟩

end Rejection

end BcRuntime
