import BcRuntime.Cli.PlanFollowed

/-!
Where the parser writes into its 256-byte arrays. Everything it does keeps the
writes inside, except the prefix it builds after the loop over the arguments,
which is as long as the command's name makes it.
-/

namespace BcRuntime
open Fallible Run

/-- From one state to the other only bytes inside the arrays are written. -/
def InBounds (m m' : Machine) : Prop :=
  ∃ indices, m'.bufferWrites = m.bufferWrites ++ indices ∧ ∀ i ∈ indices, i < cliKeyBufferSize

instance : Std.Refl InBounds :=
  ⟨fun m => ⟨[], (List.append_nil m.bufferWrites).symm, fun _ mem => absurd mem List.not_mem_nil⟩⟩

instance : IsTrans Machine InBounds where
  trans := by
    rintro m m' m'' ⟨first, hfirst, first_inside⟩ ⟨second, hsecond, second_inside⟩
    refine ⟨first ++ second, by rw [hsecond, hfirst, List.append_assoc], fun i mem => ?_⟩
    cases List.mem_append.mp mem with
    | inl early => exact first_inside i early
    | inr late => exact second_inside i late

theorem inBounds_of_same {m m' : Machine} (same : m'.bufferWrites = m.bufferWrites) :
    InBounds m m' :=
  ⟨[], by rw [same, List.append_nil], fun _ mem => absurd mem List.not_mem_nil⟩

theorem external_inBounds (call : ExternalCall) : Keeps InBounds (external call) :=
  fun _ _ => (wp_external _ _).mpr ⟨fun _ => inBounds_of_same rfl, fun _ => inBounds_of_same rfl⟩

theorem writeBuffer_inBounds {size : Nat} (fits : size ≤ cliKeyBufferSize) :
    Keeps InBounds (writeBuffer (List.range size)) :=
  .modify fun _ => ⟨_, rfl, fun _ mem => lt_of_lt_of_le (List.mem_range.mp mem) fits⟩

theorem cliBuildKey_inBounds (keyPrefix name : CString) :
    Keeps InBounds (cliBuildKey keyPrefix name) := by
  simp only [cliBuildKey]
  by_cases large : keyPrefix.length + name.length + 1 > cliKeyBufferSize
  · rw [if_pos large]
    exact .fail
  · rw [if_neg large]
    exact (writeBuffer_inBounds (not_lt.mp large)).bind fun _ => .pure _

theorem cliCommandPrefix_inBounds {command : CommandSpec}
    (fits : command.name.length + 2 ≤ cliKeyBufferSize) :
    Keeps InBounds (cliCommandPrefix command) :=
  (writeBuffer_inBounds fits).bind fun _ => .pure _

variable [BcCore] (context : ParseContext)

theorem perform_inBounds (call : StoreCall) : Keeps InBounds call.perform :=
  fun host m => wp_mono (perform_spec host m call) (fun _ _ same => inBounds_of_same same.1.writes)
    fun _ refused => inBounds_of_same refused.writes

theorem cliReport_inBounds (pieces : List (List UInt8)) :
    Keeps InBounds (cliReport context pieces) := by
  refine (external_inBounds .writerInitBufferOnly).attempt.bind fun writer => ?_
  cases writer with
  | none => exact .pure _
  | some _ =>
      refine (external_inBounds .writerBufferData).attempt.bind fun data => ?_
      cases data with
      | none => exact .pure _
      | some _ => exact .ite (.modify fun _ => inBounds_of_same rfl) (.pure _)

theorem cliReject_inBounds {α : Type} (pieces : List (List UInt8)) :
    Keeps InBounds (cliReject context pieces : Run α) :=
  (cliReport_inBounds context pieces).bind fun _ => .fail

theorem cliOptionKey_inBounds (keyPrefix : CString) (option : OptionSpec) :
    Keeps InBounds (cliOptionKey context keyPrefix option) :=
  (cliBuildKey_inBounds _ _).onFailure (cliReport_inBounds context _)

theorem cliApplyDefaults_inBounds (keyPrefix : CString) (seen : List Bool)
    (options : List OptionSpec) (index : Nat) :
    Keeps InBounds (cliApplyDefaults context keyPrefix seen options index) := by
  induction options generalizing index with
  | nil => exact .pure _
  | cons option options ih =>
      simp only [cliApplyDefaults]
      refine .ite (ih _) (.ite (cliReject_inBounds context _) ?_)
      cases option.defaultValue with
      | none => exact ih _
      | some defaultValue =>
          refine (cliOptionKey_inBounds context keyPrefix option).bind fun key => ?_
          refine Keeps.bind ?_ fun _ => ih _
          exact (perform_inBounds (.set key defaultValue)).onFailure (cliReport_inBounds context _)

theorem cliStoreOption_inBounds (keyPrefix : CString) (option : OptionSpec)
    {store : CString → Run Unit} (stores : ∀ key, Keeps InBounds (store key)) :
    Keeps InBounds (cliStoreOption context keyPrefix option store) :=
  (cliOptionKey_inBounds context keyPrefix option).bind fun key =>
    (stores key).onFailure (cliReport_inBounds context _)

theorem cliHandleAssignment_inBounds (options : List OptionSpec) (seen : List Bool)
    (keyPrefix : CString) (name : List UInt8) (value : Option CString) :
    Keeps InBounds (cliHandleAssignment context options seen keyPrefix name value) := by
  simp only [cliHandleAssignment]
  cases cliFindOption name options 0 with
  | none => exact cliReject_inBounds context _
  | some row =>
      obtain ⟨index, option⟩ := row
      have stored : ∀ call : CString → StoreCall, Keeps InBounds (do
          cliStoreOption context keyPrefix option fun key => (call key).perform
          pure (seen.set index true)) := fun call =>
        (cliStoreOption_inBounds context keyPrefix option fun key =>
          perform_inBounds (call key)).bind fun _ => .pure _
      cases value with
      | none =>
          exact .ite (stored fun key => .set key (.lit "true")) (cliReject_inBounds context _)
      | some value =>
          refine .ite (cliReject_inBounds context _) (.ite (cliReject_inBounds context _) ?_)
          by_cases isList : option.type = .list
          · simp only [isList, if_true]
            exact stored fun key => .append key value listSeparator (by decide)
          · simp only [isList, if_false]
            exact stored fun key => .set key value

theorem cliHandleOption_inBounds (state : ScanState) (name : List UInt8)
    (value : Option CString) : Keeps InBounds (cliHandleOption context state name value) := by
  simp only [cliHandleOption]
  cases state.command with
  | none => exact (cliHandleAssignment_inBounds context _ _ _ _ _).bind fun _ => .pure _
  | some command =>
      by_cases long : command.name.length + 2 > cliKeyBufferSize
      · simp only [long, if_true]
        exact cliReject_inBounds context _
      · simp only [long, if_false]
        refine (cliCommandPrefix_inBounds (not_lt.mp long)).bind fun keyPrefix => ?_
        exact (cliHandleAssignment_inBounds context _ _ _ _ _).bind fun _ => .pure _

theorem cliScan_inBounds (tokens : List CString) (state : ScanState) :
    Keeps InBounds (cliScan context tokens state) := by
  induction tokens generalizing state with
  | nil => exact .pure _
  | cons token rest ih =>
      simp only [cliScan]
      refine .ite (.pure _) (.ite ?_ ?_)
      · cases cliParseAssignment token with
        | none => exact cliReject_inBounds context _
        | some parts =>
            refine .ite (.pure _) (.ite (.pure _) ?_)
            exact (cliHandleOption_inBounds context state _ _).bind fun state => ih state
      · cases state.command with
        | some command => exact .pure _
        | none =>
            cases cliFindCommand token context.spec.commands with
            | none => exact cliReject_inBounds context _
            | some command => exact ih _

theorem cliCheckTables_inBounds : Keeps InBounds (cliCheckTables context) := by
  simp only [cliCheckTables]
  cases context.spec.commands.find? fun command => command.options.length > cliTableSize with
  | some command => exact cliReject_inBounds context _
  | none => exact .ite (cliReject_inBounds context _) (.pure _)

theorem cliCheckPositionals_inBounds (command : CommandSpec) (count : Nat) :
    Keeps InBounds (cliCheckPositionals context command count) :=
  .ite (cliReject_inBounds context _) (.ite (cliReject_inBounds context _) (.pure _))

/-- What follows the second prefix. -/
def cliFinishCommand (state : ScanState) (command : CommandSpec)
    (positionalValues : List CString) (commandPrefix : CString) : Run (ParseStatus × Parsed) := do
  cliApplyDefaults context commandPrefix state.commandSeen command.options 0
  cliCheckPositionals context command positionalValues.length
  onFailure configStoreSort
    (cliReport context [(CString.lit ": failed to sort config store\n").bytes])
  pure (.ok, ⟨some command, positionalValues⟩)

theorem cliFinishCommand_inBounds (state : ScanState) (command : CommandSpec)
    (positionalValues : List CString) (commandPrefix : CString) :
    Keeps InBounds (cliFinishCommand context state command positionalValues commandPrefix) := by
  refine (cliApplyDefaults_inBounds context _ _ _ 0).bind fun _ => ?_
  refine (cliCheckPositionals_inBounds context command _).bind fun _ => ?_
  refine Keeps.bind ?_ fun _ => .pure _
  exact (perform_inBounds .sort).onFailure (cliReport_inBounds context _)

end BcRuntime
