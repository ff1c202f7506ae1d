import BcRuntime.Cli.Tokens
import BcRuntime.Config.StoreRefinement

/-!
What a command line asks of the store, apart from how the asking goes: a plan is
the list of store calls a parse makes when none of them fails, or nothing when
the parser rejects the command line by itself. The parser follows its plan: it
ends normally exactly when there is a plan and every call of it succeeds.
-/

namespace BcRuntime
open Fallible Run

/-- The store calls of a computation and its result, unless it rejects. -/
abbrev Plan (α : Type) := Option (List StoreCall × α)

namespace Plan
variable {α β : Type}

def done (a : α) : Plan α := some ([], a)

def reject : Plan α := none

def calls (calls : List StoreCall) : Plan Unit := some (calls, ())

def call (call : StoreCall) : Plan Unit := calls [call]

def andThen (plan : Plan β) (next : β → Plan α) : Plan α :=
  plan.bind fun first => (next first.2).map fun rest => (first.1 ++ rest.1, rest.2)

theorem andThen_eq_some_iff {plan : Plan β} {next : β → Plan α} {calls : List StoreCall} {a : α} :
    plan.andThen next = some (calls, a) ↔
      ∃ first b later, plan = some (first, b) ∧ next b = some (later, a) ∧
        calls = first ++ later := by
  simp only [andThen, Option.bind_eq_some_iff, Option.map_eq_some_iff, Prod.exists, Prod.mk.injEq]
  constructor
  · rintro ⟨first, b, planned, later, a', rest, hcalls, ha⟩
    subst hcalls ha
    exact ⟨first, b, later, planned, rest, rfl⟩
  · rintro ⟨first, b, later, planned, rest, hcalls⟩
    exact ⟨first, b, planned, later, a, rest, hcalls.symm, rfl⟩

theorem done_andThen (b : β) (next : β → Plan α) : (done b).andThen next = next b := by
  cases rest : next b <;> simp [andThen, done, rest]

theorem andThen_assoc {γ : Type} (plan : Plan γ) (next : γ → Plan β) (last : β → Plan α) :
    (plan.andThen next).andThen last = plan.andThen fun c => (next c).andThen last := by
  cases plan with
  | none => rfl
  | some first =>
      cases second : next first.2 with
      | none => simp [andThen, second]
      | some planned =>
          cases third : last planned.2 <;> simp [andThen, second, third]

theorem andThen_eq_none {plan : Plan β} {next : β → Plan α}
    (h : plan = none ∨ ∀ first b, plan = some (first, b) → next b = none) :
    plan.andThen next = none := by
  cases plan with
  | none => rfl
  | some first => simpa [andThen] using h.resolve_left (by simp) first.1 first.2 rfl

end Plan

/-- Every reference the store agreed with before has followed the calls. -/
structure Performed (calls : List StoreCall) (m m' : Machine) : Prop where
  refines : ∀ reference, Refines reference m →
    Refines (calls.foldl (fun reference call => call.reflect reference) reference) m'
  errors : m'.errorOutput = m.errorOutput

theorem Performed.nil {m m' : Machine} (store : m'.store = m.store)
    (errors : m'.errorOutput = m.errorOutput) : Performed [] m m' where
  refines := fun _ h => ⟨store ▸ h.valid, store ▸ h.content, store ▸ h.sorted⟩
  errors := errors

theorem Performed.append {first second : List StoreCall} {m m' m'' : Machine}
    (h : Performed first m m') (h' : Performed second m' m'') :
    Performed (first ++ second) m m'' where
  refines := fun reference before => by
    rw [List.foldl_append]
    exact h'.refines _ (h.refines reference before)
  errors := h'.errors.trans h.errors

variable [BcCore]

def FollowsPlan {α : Type} (host : Host) (m : Machine) (plan : Plan α) (c : Run α) : Prop :=
  wp c (fun a m' => ∃ calls, plan = some (calls, a) ∧ Performed calls m m')
    (fun _ => plan = none ∨ ¬ host.StoreCallsSucceed) host m

namespace FollowsPlan
variable {α β : Type} {host : Host} {m : Machine}

omit [BcCore] in
theorem pure {a : α} : FollowsPlan host m (.done a) (Pure.pure a : Run α) :=
  ⟨[], rfl, .nil rfl rfl⟩

omit [BcCore] in
theorem bind {plan : Plan β} {next : β → Plan α} {c : Run β} {f : β → Run α}
    (h : FollowsPlan host m plan c) (rest : ∀ b m', FollowsPlan host m' (next b) (f b)) :
    FollowsPlan host m (plan.andThen next) (c >>= f) := by
  rw [FollowsPlan, wp_bind]
  refine wp_mono h ?_ fun _ failed => failed.imp_left fun none => Plan.andThen_eq_none (.inl none)
  rintro b m₁ ⟨first, planned, performed⟩
  refine wp_mono (rest b m₁) ?_ fun _ failed => failed.imp_left fun none => ?_
  · rintro a m₂ ⟨later, planned', performed'⟩
    exact ⟨first ++ later, Plan.andThen_eq_some_iff.mpr ⟨first, b, later, planned, planned', rfl⟩,
      performed.append performed'⟩
  · refine Plan.andThen_eq_none (.inr fun first' b' planned' => ?_)
    rw [planned] at planned'
    obtain ⟨_, same⟩ : first = first' ∧ b = b' := by simpa using planned'
    rwa [← same]

omit [BcCore] in
/-- A step that leaves the store and the error stream alone. -/
theorem silent {plan : Plan α} {c : Run β} {f : β → Run α} {b : β}
    (h : wp c (fun b' m' => b' = b ∧ m'.store = m.store ∧ m'.errorOutput = m.errorOutput)
      (fun _ => False) host m)
    (rest : ∀ m', FollowsPlan host m' plan (f b)) : FollowsPlan host m plan (c >>= f) := by
  rw [FollowsPlan, wp_bind]
  refine wp_mono h ?_ fun _ h => h.elim
  rintro b' m₁ ⟨same, store, errors⟩
  subst same
  refine wp_mono (rest m₁) ?_ fun _ failed => failed
  rintro a m₂ ⟨calls, planned, performed⟩
  exact ⟨calls, planned, (Performed.nil store errors).append performed⟩

theorem perform (call : StoreCall) : FollowsPlan host m (.call call) call.perform := by
  refine wp_mono (perform_spec host m call) ?_ fun _ refused => .inr refused.failure
  rintro _ m' ⟨same, refines⟩
  exact ⟨[call], rfl, refines, same.errors⟩

omit [BcCore] in
/-- A handler is run only on the way to a failure. -/
theorem onFailure {plan : Plan α} {c : Run α} {handler : Run β} (h : FollowsPlan host m plan c) :
    FollowsPlan host m plan (Fallible.onFailure c handler) := by
  rw [FollowsPlan, wp_onFailure]
  refine wp_mono h (fun _ _ followed => followed) fun m' failed => ?_
  exact (wp_iff _ _ _ _ _).mpr ⟨fun _ _ _ => failed, fun _ _ => failed⟩

theorem reject {context : ParseContext} {pieces : List (List UInt8)} :
    FollowsPlan host m .reject (cliReject context pieces : Run α) := by
  rw [FollowsPlan, cliReject, wp_bind]
  exact (wp_iff _ _ _ _ _).mpr ⟨fun _ _ _ => .inl rfl, fun _ _ => .inl rfl⟩

end FollowsPlan

section Plans

/-- The prefix, the name and the terminator fit into a key buffer. -/
def KeyFits (keyPrefix : CString) (option : OptionSpec) : Prop :=
  keyPrefix.length + option.longName.length + 1 ≤ cliKeyBufferSize

instance (keyPrefix : CString) (option : OptionSpec) : Decidable (KeyFits keyPrefix option) :=
  inferInstanceAs (Decidable (_ ≤ _))

def optionKey (keyPrefix : CString) (option : OptionSpec) : CString :=
  keyPrefix.append option.longName

/-- A flag stands alone, any other option has a valid value. -/
def acceptsValue (option : OptionSpec) : Option CString → Bool
  | none => option.type = .flag
  | some value => cliValidateValue option value

/-- The store call of an accepted occurrence of an option. -/
def occurrenceCall (keyPrefix : CString) (option : OptionSpec) : Option CString → StoreCall
  | none => .set (optionKey keyPrefix option) (.lit "true")
  | some value =>
      if option.type = .list then
        .append (optionKey keyPrefix option) value listSeparator (by decide)
      else .set (optionKey keyPrefix option) value

/-- One option token against a table: the row it names and its store call. -/
def planOption (keyPrefix : CString) (options : List OptionSpec) (name : List UInt8)
    (value : Option CString) : Plan Nat :=
  match cliFindOption name options 0 with
  | none => .reject
  | some (index, option) =>
      if acceptsValue option value = true ∧ KeyFits keyPrefix option then
        (Plan.call (occurrenceCall keyPrefix option value)).andThen fun _ => .done index
      else .reject

def commandPrefix (command : CommandSpec) : CString := command.name.append (.lit ".")

def planToken (spec : ProgramSpec) (state : ScanState) (name : List UInt8)
    (value : Option CString) : Plan ScanState :=
  match state.command with
  | none =>
      (planOption cliGlobalPrefix spec.globalOptions name value).andThen fun index =>
        .done { state with globalSeen := state.globalSeen.set index true }
  | some command =>
      if command.name.length + 2 ≤ cliKeyBufferSize then
        (planOption (commandPrefix command) command.options name value).andThen fun index =>
          .done { state with commandSeen := state.commandSeen.set index true }
      else .reject

def planScan (spec : ProgramSpec) : List CString → ScanState → Plan ScanResult
  | [], state => .done (.ended state [])
  | token :: rest, state =>
      if token.bytes = dashes then .done (.ended state rest)
      else if OptionToken token then
        if tokenName token = helpName then .done (.help state.command)
        else if tokenName token = versionName then .done .version
        else
          (planToken spec state (tokenName token) (tokenValue token)).andThen
            fun state => planScan spec rest state
      else
        match state.command with
        | none =>
            match spec.commands.find? fun command => command.name = token with
            | none => .reject
            | some command => planScan spec rest { state with command := some command }
        | some _ => .done (.ended state (token :: rest))

def planDefaults (keyPrefix : CString) (seen : List Bool) : List OptionSpec → Nat → Plan Unit
  | [], _ => .done ()
  | option :: options, index =>
      if seen.getD index false then planDefaults keyPrefix seen options (index + 1)
      else if option.required then .reject
      else
        match option.defaultValue with
        | none => planDefaults keyPrefix seen options (index + 1)
        | some defaultValue =>
            if KeyFits keyPrefix option then
              (Plan.call (.set (optionKey keyPrefix option) defaultValue)).andThen fun _ =>
                planDefaults keyPrefix seen options (index + 1)
            else .reject

/-- The bounds on the number of positional arguments; no upper one when it is 0. -/
def PositionalsFit (command : CommandSpec) (count : Nat) : Prop :=
  command.positionalMin ≤ count ∧ (0 < command.positionalMax → count ≤ command.positionalMax)

instance (command : CommandSpec) (count : Nat) : Decidable (PositionalsFit command count) :=
  inferInstanceAs (Decidable (_ ∧ _))

def planFinish (spec : ProgramSpec) (state : ScanState) (positionalValues : List CString) :
    Plan (ParseStatus × Parsed) :=
  match state.command with
  | none => .reject
  | some command =>
      (planDefaults cliGlobalPrefix state.globalSeen spec.globalOptions 0).andThen fun _ =>
        (planDefaults (commandPrefix command) state.commandSeen command.options 0).andThen fun _ =>
          if PositionalsFit command positionalValues.length then
            (Plan.call .sort).andThen fun _ => .done (.ok, ⟨some command, positionalValues⟩)
          else .reject

/-- No table has more rows than there are seen flags. -/
def TablesFit (spec : ProgramSpec) : Prop :=
  (∀ command ∈ spec.commands, command.options.length ≤ cliTableSize) ∧
    spec.globalOptions.length ≤ cliTableSize

instance (spec : ProgramSpec) : Decidable (TablesFit spec) := inferInstanceAs (Decidable (_ ∧ _))

/-- The status and `*out_parsed` of a scan that ends at `--help` or `--version`. -/
def planResult (spec : ProgramSpec) : ScanResult → Plan (ParseStatus × Parsed)
  | .help none => .done (.helpGlobal, .empty)
  | .help (some command) => .done (.helpCommand, ⟨some command, []⟩)
  | .version => .done (.version, .empty)
  | .ended state positionalValues => planFinish spec state positionalValues

def planParse (spec : ProgramSpec) (argumentValues : List CString) :
    Plan (ParseStatus × Parsed) :=
  if TablesFit spec then
    (planScan spec (argumentValues.drop 1) .initial).andThen (planResult spec)
  else .reject

end Plans

end BcRuntime
