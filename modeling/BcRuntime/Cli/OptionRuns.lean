import BcRuntime.Cli.Grammar

/-!
Runs of option tokens. Before the command they are read against the global table
and after it against the table of the command; the same argument serves both once
the table is that of the scan state.
-/

namespace BcRuntime

namespace ScanState

/-- The key prefix, the rows and the seen flags of the table in use. -/
def keyPrefix (state : ScanState) : CString :=
  match state.command with
  | none => cliGlobalPrefix
  | some command => commandPrefix command

def options (spec : ProgramSpec) (state : ScanState) : List OptionSpec :=
  match state.command with
  | none => spec.globalOptions
  | some command => command.options

def seen (state : ScanState) : List Bool :=
  match state.command with
  | none => state.globalSeen
  | some _ => state.commandSeen

def withSeen (state : ScanState) (seen : List Bool) : ScanState :=
  match state.command with
  | none => { state with globalSeen := seen }
  | some _ => { state with commandSeen := seen }

/-- The prefix of the table fits into a prefix buffer. -/
def PrefixFits (state : ScanState) : Prop :=
  ∀ command, state.command = some command → command.name.length + 2 ≤ cliKeyBufferSize

variable (state : ScanState)

@[simp] theorem command_withSeen (seen : List Bool) :
    (state.withSeen seen).command = state.command := by
  simp only [withSeen]
  cases state.command <;> rfl

@[simp] theorem seen_withSeen (seen : List Bool) : (state.withSeen seen).seen = seen := by
  cases h : state.command <;> simp [ScanState.seen, withSeen, h]

@[simp] theorem keyPrefix_withSeen (seen : List Bool) :
    (state.withSeen seen).keyPrefix = state.keyPrefix := by
  rw [keyPrefix, keyPrefix, command_withSeen]

@[simp] theorem options_withSeen (spec : ProgramSpec) (seen : List Bool) :
    (state.withSeen seen).options spec = state.options spec := by
  rw [options, options, command_withSeen]

@[simp] theorem withSeen_withSeen (first second : List Bool) :
    (state.withSeen first).withSeen second = state.withSeen second := by
  cases h : state.command <;> simp [withSeen, h]

@[simp] theorem withSeen_seen : state.withSeen state.seen = state := by
  cases h : state.command <;> simp [withSeen, seen, h] <;> cases state <;> simp_all

@[simp] theorem prefixFits_withSeen (seen : List Bool) :
    (state.withSeen seen).PrefixFits ↔ state.PrefixFits := by
  rw [PrefixFits, PrefixFits, command_withSeen]

end ScanState

theorem acceptsValue_iff (option : OptionSpec) (value : Option CString) :
    acceptsValue option value = true ↔ AcceptsValue option value := by
  cases value with
  | none => exact decide_eq_true_iff
  | some value =>
      rw [acceptsValue, cliValidateValue_iff]
      refine ⟨fun valid => ⟨fun isFlag => ?_, valid⟩, fun accepted => accepted.2⟩
      rwa [ValidValue, isFlag] at valid

theorem planOption_eq_some_iff {keyPrefix : CString} {options : List OptionSpec}
    {name : List UInt8} {value : Option CString} {calls : List StoreCall} {index : Nat} :
    planOption keyPrefix options name value = some (calls, index) ↔
      ∃ option, cliFindOption name options 0 = some (index, option) ∧
        AcceptsValue option value ∧ KeyFits keyPrefix option ∧
        calls = [occurrenceCall keyPrefix option value] := by
  simp only [planOption]
  cases cliFindOption name options 0 with
  | none => simp [Plan.reject]
  | some row =>
      obtain ⟨i, option⟩ := row
      simp only [← acceptsValue_iff, Option.some.injEq, Prod.mk.injEq]
      constructor
      · intro planned
        by_cases good : acceptsValue option value = true ∧ KeyFits keyPrefix option
        · rw [if_pos good] at planned
          obtain ⟨hcalls, hindex⟩ := Prod.mk.inj (Option.some.inj planned)
          exact ⟨option, ⟨hindex, rfl⟩, good.1, good.2, hcalls.symm⟩
        · rw [if_neg good] at planned
          simp [Plan.reject] at planned
      · rintro ⟨found, ⟨hindex, hoption⟩, accepted, fits, hcalls⟩
        subst hindex hoption hcalls
        rw [if_pos ⟨accepted, fits⟩]
        rfl

theorem planToken_eq (spec : ProgramSpec) (state : ScanState) (name : List UInt8)
    (value : Option CString) (fits : state.PrefixFits) :
    planToken spec state name value =
      (planOption state.keyPrefix (state.options spec) name value).andThen fun index =>
        .done (state.withSeen (state.seen.set index true)) := by
  simp only [planToken, ScanState.keyPrefix, ScanState.options, ScanState.withSeen, ScanState.seen]
  cases h : state.command with
  | none => rfl
  | some command => simp only [fits command h, if_true]

/-- The row of a table an accepted token stands for. -/
structure TokenRow (keyPrefix : CString) (options : List OptionSpec) (token : CString)
    (index : Nat) (option : OptionSpec) : Prop where
  found : cliFindOption (tokenName token) options 0 = some (index, option)
  accepts : AcceptsValue option (tokenValue token)
  fits : KeyFits keyPrefix option

theorem TokenRow.planned {keyPrefix : CString} {options : List OptionSpec} {token : CString}
    {index : Nat} {option : OptionSpec} (row : TokenRow keyPrefix options token index option) :
    planOption keyPrefix options (tokenName token) (tokenValue token) =
      some ([occurrenceCall keyPrefix option (tokenValue token)], index) :=
  planOption_eq_some_iff.mpr ⟨option, row.found, row.accepts, row.fits, rfl⟩

theorem TokenRow.call {keyPrefix : CString} {options : List OptionSpec} {token : CString}
    {index : Nat} {option : OptionSpec} (row : TokenRow keyPrefix options token index option) :
    tokenCall keyPrefix options token =
      some (occurrenceCall keyPrefix option (tokenValue token)) := by
  rw [tokenCall, row.found]
  rfl

structure LookedUp (token : CString) : Prop where
  isOption : OptionToken token
  notHelp : tokenName token ≠ helpName
  notVersion : tokenName token ≠ versionName

instance (token : CString) : Decidable (LookedUp token) :=
  decidable_of_iff (OptionToken token ∧ tokenName token ≠ helpName ∧ tokenName token ≠ versionName)
    ⟨fun h => ⟨h.1, h.2.1, h.2.2⟩, fun h => ⟨h.1, h.2, h.3⟩⟩

/-- An option token that the search of a table takes. -/
structure AcceptedToken (keyPrefix : CString) (options : List OptionSpec) (token : CString) :
    Prop extends LookedUp token where
  row : ∃ index option, TokenRow keyPrefix options token index option

structure TableTokens (keyPrefix : CString) (options : List OptionSpec) (tokens : List CString) :
    Prop where
  valid : ∀ token ∈ tokens, ValidToken options token
  fits : ∀ option ∈ options, Occurs option tokens → KeyFits keyPrefix option

/-- With distinct names the search takes the tokens of the table. -/
theorem acceptedTokens_iff {keyPrefix : CString} {options : List OptionSpec}
    {tokens : List CString} (distinct : DistinctNames options) :
    (∀ token ∈ tokens, AcceptedToken keyPrefix options token) ↔
      TableTokens keyPrefix options tokens := by
  constructor
  · intro accepted
    have named : ∀ token ∈ tokens, ∃ option ∈ options, option.longName.bytes = tokenName token ∧
        AcceptsValue option (tokenValue token) ∧ KeyFits keyPrefix option := by
      intro token mem
      obtain ⟨index, option, row⟩ := (accepted token mem).row
      obtain ⟨name, _, cell⟩ := cliFindOption_row row.found
      exact ⟨option, List.mem_of_getElem? cell, name, row.accepts, row.fits⟩
    refine ⟨fun token mem => ?_, fun option option_mem occurs => ?_⟩
    · obtain ⟨option, option_mem, name, accepts, _⟩ := named token mem
      have taken := accepted token mem
      exact ⟨taken.isOption, taken.notHelp, taken.notVersion, option, option_mem, name, accepts⟩
    · obtain ⟨token, mem, own⟩ := List.mem_map.mp occurs
      obtain ⟨other, other_mem, name, _, fits⟩ := named token mem
      rwa [distinct.eq_of_name option_mem other_mem (own.symm.trans name.symm)]
  · intro table token mem
    have valid := table.valid token mem
    obtain ⟨option, option_mem, name, accepts⟩ := valid.named
    obtain ⟨n, cell⟩ := List.mem_iff_getElem?.mp option_mem
    have found := cliFindOption_of_row distinct cell 0
    rw [name] at found
    have occurs : Occurs option tokens := List.mem_map.mpr ⟨token, mem, name.symm⟩
    exact ⟨⟨valid.option, valid.notHelp, valid.notVersion⟩, _, option, found, accepts,
      table.fits option option_mem occurs⟩

theorem planToken_prefixFits {spec : ProgramSpec} {state : ScanState} {name : List UInt8}
    {value : Option CString} {planned : List StoreCall × ScanState}
    (h : planToken spec state name value = some planned) : state.PrefixFits := by
  intro command selected
  simp only [planToken] at h
  rw [selected] at h
  by_contra long
  simp [long, Plan.reject] at h

theorem planScan_option {spec : ProgramSpec} {state : ScanState} {token : CString}
    (rest : List CString) (lookedUp : LookedUp token) :
    planScan spec (token :: rest) state =
      (planToken spec state (tokenName token) (tokenValue token)).andThen fun state =>
        planScan spec rest state := by
  rw [planScan, if_neg lookedUp.isOption.ne_terminator, if_pos lookedUp.isOption,
    if_neg lookedUp.notHelp, if_neg lookedUp.notVersion]

/-- The argument list does not start with an option token of the table. -/
def RunEnds : List CString → Prop
  | [] => True
  | token :: _ => OptionToken token → tokenName token = helpName ∨ tokenName token = versionName

/-- What reading one option token does: its call, and its flag set. -/
theorem planToken_eq_some_iff {spec : ProgramSpec} {state state' : ScanState} {token : CString}
    {calls : List StoreCall} :
    planToken spec state (tokenName token) (tokenValue token) = some (calls, state') ↔
      state.PrefixFits ∧ ∃ index option,
        TokenRow state.keyPrefix (state.options spec) token index option ∧
        calls = [occurrenceCall state.keyPrefix option (tokenValue token)] ∧
        state' = state.withSeen (state.seen.set index true) := by
  constructor
  · intro planned
    have fits := planToken_prefixFits planned
    rw [planToken_eq spec state _ _ fits, Plan.andThen_eq_some_iff] at planned
    obtain ⟨first, index, later, option_planned, finished, hcalls⟩ := planned
    obtain ⟨option, found, accepts, key_fits, hfirst⟩ := planOption_eq_some_iff.mp option_planned
    obtain ⟨hlater, hstate⟩ := Prod.mk.inj (Option.some.inj finished)
    subst hlater hfirst
    exact ⟨fits, index, option, ⟨found, accepts, key_fits⟩, hcalls, hstate.symm⟩
  · rintro ⟨fits, index, option, row, hcalls, hstate⟩
    subst hcalls hstate
    rw [planToken_eq spec state _ _ fits, row.planned]
    rfl

section Runs
variable {spec : ProgramSpec} {state : ScanState}

def ScanState.after (spec : ProgramSpec) (state : ScanState) (tokens : List CString) :
    ScanState :=
  state.withSeen (markTokens (state.options spec) state.seen tokens)

theorem after_nil : state.after spec [] = state := ScanState.withSeen_seen state

theorem after_cons {token : CString} {index : Nat} {option : OptionSpec}
    (row : TokenRow state.keyPrefix (state.options spec) token index option)
    (tokens : List CString) :
    (state.withSeen (state.seen.set index true)).after spec tokens =
      state.after spec (token :: tokens) := by
  simp [ScanState.after, markTokens, markToken, row.found]

/-- The plan of a scan cut after a run of option tokens it starts with. -/
structure OptionRun (spec : ProgramSpec) (state : ScanState) (run rest : List CString)
    (calls : List StoreCall) (result : ScanResult) (later : List StoreCall) : Prop where
  accepted : ∀ token ∈ run, AcceptedToken state.keyPrefix (state.options spec) token
  fits : run ≠ [] → state.PrefixFits
  planned : planScan spec rest (state.after spec run) = some (later, result)
  calls : calls = run.filterMap (tokenCall state.keyPrefix (state.options spec)) ++ later

theorem optionRun_cons {token : CString} {run rest : List CString}
    {calls later : List StoreCall} {result : ScanResult} {index : Nat} {option : OptionSpec}
    (lookedUp : LookedUp token) (fits : state.PrefixFits)
    (row : TokenRow state.keyPrefix (state.options spec) token index option) :
    OptionRun spec (state.withSeen (state.seen.set index true)) run rest calls result later ↔
      OptionRun spec state (token :: run) rest
        (occurrenceCall state.keyPrefix option (tokenValue token) :: calls) result later := by
  have token_accepted : AcceptedToken state.keyPrefix (state.options spec) token :=
    ⟨lookedUp, index, option, row⟩
  constructor
  · intro h
    have accepted := h.accepted
    have calls := h.calls
    rw [ScanState.keyPrefix_withSeen, ScanState.options_withSeen] at accepted calls
    refine ⟨List.forall_mem_cons.mpr ⟨token_accepted, accepted⟩, fun _ => fits, ?_, ?_⟩
    · rw [← after_cons row run, h.planned]
    · rw [List.filterMap_cons, row.call, calls]
      rfl
  · intro h
    have calls := h.calls
    rw [List.filterMap_cons, row.call] at calls
    refine ⟨?_, fun _ => by simpa using fits, ?_, ?_⟩
    · simpa using (List.forall_mem_cons.mp h.accepted).2
    · rw [after_cons row run, h.planned]
    · simpa using (List.cons.inj calls).2

/-- Tokens that are looked up are all accepted, or there is no plan. -/
theorem planScan_append_iff {run rest : List CString} {calls : List StoreCall}
    {result : ScanResult} (lookedUp : ∀ token ∈ run, LookedUp token) :
    planScan spec (run ++ rest) state = some (calls, result) ↔
      ∃ later, OptionRun spec state run rest calls result later := by
  induction run generalizing state calls with
  | nil =>
      constructor
      · intro planned
        refine ⟨calls, fun _ mem => absurd mem List.not_mem_nil, fun h => absurd rfl h, ?_, rfl⟩
        rwa [after_nil]
      · rintro ⟨later, h⟩
        have planned := h.planned
        rwa [after_nil, ← h.calls.trans (List.nil_append later)] at planned
  | cons token run ih =>
      obtain ⟨head, tail⟩ := List.forall_mem_cons.mp lookedUp
      rw [List.cons_append, planScan_option _ head, Plan.andThen_eq_some_iff]
      constructor
      · rintro ⟨first, state₁, next, step, planned, hcalls⟩
        obtain ⟨fits, index, option, row, hfirst, hstate⟩ := planToken_eq_some_iff.mp step
        subst hstate hfirst hcalls
        obtain ⟨later, h⟩ := (ih tail).mp planned
        exact ⟨later, (optionRun_cons head fits row).mp h⟩
      · rintro ⟨later, h⟩
        have fits := h.fits (List.cons_ne_nil _ _)
        obtain ⟨index, option, row⟩ := (h.accepted token List.mem_cons_self).row
        have hcalls := h.calls
        rw [List.filterMap_cons, row.call] at hcalls
        subst hcalls
        exact ⟨_, _, _, planToken_eq_some_iff.mpr ⟨fits, index, option, row, rfl, rfl⟩,
          (ih tail).mpr ⟨later, (optionRun_cons head fits row).mpr h⟩, rfl⟩

/-- A plan starts with the calls of a run of accepted option tokens. -/
theorem planScan_run (spec : ProgramSpec) (state : ScanState) {tokens : List CString}
    {calls : List StoreCall} {result : ScanResult}
    (planned : planScan spec tokens state = some (calls, result)) :
    ∃ run rest later, tokens = run ++ rest ∧ RunEnds rest ∧
      OptionRun spec state run rest calls result later := by
  have split := List.takeWhile_append_dropWhile (p := fun token => LookedUp token) (l := tokens)
  have lookedUp : ∀ token ∈ tokens.takeWhile fun token => LookedUp token, LookedUp token :=
    fun token mem => by simpa using List.mem_takeWhile_imp mem
  rw [← split] at planned
  obtain ⟨later, h⟩ := (planScan_append_iff lookedUp).mp planned
  refine ⟨_, _, later, split.symm, ?_, h⟩
  cases rest : tokens.dropWhile fun token => LookedUp token with
  | nil => trivial
  | cons token rest =>
      have stops := List.head?_dropWhile_not (fun token => decide (LookedUp token)) tokens
      rw [rest] at stops
      intro isOption
      by_contra neither
      rw [not_or] at neither
      simp [LookedUp.mk isOption neither.1 neither.2] at stops

end Runs

end BcRuntime
