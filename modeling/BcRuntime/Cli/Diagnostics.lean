import BcRuntime.Cli.Acceptance

/-!
What the parser says on its error stream. Each of its functions either ends
normally and has said nothing, or fails and has given one diagnostic, itself or
by way of a function it calls; the list of the diagnostics is that of the error
exits of the source.
-/

namespace BcRuntime
open Fallible Run

def ProgramSpec.Lists (spec : ProgramSpec) (option : OptionSpec) : Prop :=
  option ∈ spec.globalOptions ∨ ∃ command ∈ spec.commands, option ∈ command.options

/-- The diagnostics of a parse, each without the program name it starts with. There
is none for a malformed option: what starts with two dashes is one or ends the options. -/
inductive CliDiagnostic (spec : ProgramSpec) (argumentValues : List CString) :
    List (List UInt8) → Prop
  | tooManyOptions {command : CommandSpec} (listed : command ∈ spec.commands) :
      CliDiagnostic spec argumentValues
        (quotedMessage ": internal error: too many options in command '" command.name "'\n")
  | tooManyGlobalOptions :
      CliDiagnostic spec argumentValues
        [(CString.lit ": internal error: too many global options\n").bytes]
  | unknownCommand {argument : CString} (given : argument ∈ argumentValues) :
      CliDiagnostic spec argumentValues (quotedMessage ": unknown command '" argument "'\n")
  | commandNameTooLong :
      CliDiagnostic spec argumentValues [(CString.lit ": command name too long\n").bytes]
  | unknownOption {argument : CString} (given : argument ∈ argumentValues) :
      CliDiagnostic spec argumentValues (optionMessage ": unknown option --" (tokenName argument))
  | takesNoValue {option : OptionSpec} (listed : spec.Lists option) :
      CliDiagnostic spec argumentValues
        (quotedMessage ": option --" option.longName " does not take a value\n")
  | requiresValue {option : OptionSpec} (listed : spec.Lists option) :
      CliDiagnostic spec argumentValues
        (quotedMessage ": option --" option.longName " requires a value\n")
  | invalidValue {argument value : CString} (given : argument ∈ argumentValues)
      (assigned : tokenValue argument = some value) {option : OptionSpec}
      (listed : spec.Lists option) :
      CliDiagnostic spec argumentValues
        (quotedMessage ": invalid value for --" option.longName ": '" ++
          [value.bytes, (CString.lit "'\n").bytes])
  | optionNameTooLong {option : OptionSpec} (listed : spec.Lists option) :
      CliDiagnostic spec argumentValues
        (optionMessage ": option name too long: " option.longName.bytes)
  | notStored {option : OptionSpec} (listed : spec.Lists option) :
      CliDiagnostic spec argumentValues
        (optionMessage ": failed to store --" option.longName.bytes)
  | missingCommand :
      CliDiagnostic spec argumentValues [(CString.lit ": missing command\n").bytes]
  | missingOption {option : OptionSpec} (listed : spec.Lists option) :
      CliDiagnostic spec argumentValues
        (optionMessage ": missing required option --" option.longName.bytes)
  | defaultNotStored {option : OptionSpec} (listed : spec.Lists option) :
      CliDiagnostic spec argumentValues
        (optionMessage ": failed to store default for --" option.longName.bytes)
  | tooFewPositionals {command : CommandSpec} (listed : command ∈ spec.commands) :
      CliDiagnostic spec argumentValues
        (boundMessage command "' requires at least " command.positionalMin)
  | tooManyPositionals {command : CommandSpec} (listed : command ∈ spec.commands) :
      CliDiagnostic spec argumentValues
        (boundMessage command "' accepts at most " command.positionalMax)
  | notSorted :
      CliDiagnostic spec argumentValues
        [(CString.lit ": failed to sort config store\n").bytes]

/-- The text of a diagnostic is what its last piece ends in. -/
theorem flatten_getLast? {pieces : List (List UInt8)} {last : List UInt8} {byte : UInt8}
    (final : pieces.getLast? = some last) (ends : last.getLast? = some byte) :
    pieces.flatten.getLast? = some byte := by
  obtain ⟨front, rfl⟩ := List.getLast?_eq_some_iff.mp final
  obtain ⟨text, rfl⟩ := List.getLast?_eq_some_iff.mp ends
  rw [List.flatten_append, List.flatten_singleton, ← List.append_assoc]
  exact List.getLast?_concat

theorem CliDiagnostic.ends_in_newline {spec : ProgramSpec} {argumentValues : List CString}
    {pieces : List (List UInt8)} (diagnostic : CliDiagnostic spec argumentValues pieces) :
    pieces.flatten.getLast? = some newline := by
  cases diagnostic <;> exact flatten_getLast? rfl rfl

/-- Nothing reaches the error stream. -/
def SameErrors (m m' : Machine) : Prop := m'.errorOutput = m.errorOutput

instance : Std.Refl SameErrors := ⟨fun _ => rfl⟩

instance : IsTrans Machine SameErrors where
  trans := fun _ _ _ first second => second.trans first

/-- The writer of a diagnostic can be set up and its buffer can be had. -/
def Host.WriterSucceeds (host : Host) : Prop :=
  ∀ n, host.succeeds n .writerInitBufferOnly = true ∧ host.succeeds n .writerBufferData = true

theorem writeBuffer_sameErrors (indices : List Nat) : Keeps SameErrors (writeBuffer indices) :=
  .modify fun _ => rfl

theorem cliBuildKey_sameErrors (keyPrefix name : CString) :
    Keeps SameErrors (cliBuildKey keyPrefix name) :=
  .ite .fail ((writeBuffer_sameErrors _).bind fun _ => .pure _)

variable [BcCore]

/-- What of a text reaches the stream: the contents of the writer's buffer, if any. -/
def drained (pieces : List (List UInt8)) : List (List UInt8) :=
  if 0 < (BcCore.writerData cliOutputBufferSize pieces).length then
    [BcCore.writerData cliOutputBufferSize pieces]
  else []

theorem drained_of_fits {pieces : List (List UInt8)} (some_byte : pieces.flatten ≠ [])
    (fits : pieces.flatten.length ≤ cliOutputBufferSize) : drained pieces = [pieces.flatten] := by
  rw [drained, BcCore.writerData_fits _ _ fits, if_pos (List.length_pos_iff.mpr some_byte)]

theorem length_drained_le (pieces : List (List UInt8)) :
    (drained pieces).flatten.length ≤ cliOutputBufferSize := by
  rw [drained]
  split
  · rw [List.flatten_singleton]
    exact BcCore.writerData_length _ _
  · exact Nat.zero_le _

/-- One text, started with the program name, has been given to the stream. -/
def Said (spec : ProgramSpec) (pieces : List (List UInt8)) (m m' : Machine) : Prop :=
  m'.errorOutput = m.errorOutput ++ drained (spec.programName.bytes :: pieces)

/-- A computation is silent when it ends normally and speaks once when it fails. -/
def SpeaksOnFailure {α : Type} (host : Host) (spec : ProgramSpec) (argumentValues : List CString)
    (c : Run α) : Prop :=
  ∀ m, wp c (fun _ m' => SameErrors m m')
    (fun m' => ∃ pieces, CliDiagnostic spec argumentValues pieces ∧ Said spec pieces m m') host m

section Reports
variable {host : Host} (writer : host.WriterSucceeds)
include writer

/-- A text that is put together in a buffer and handed to a stream in one piece. -/
theorem writer_drained (pieces : List (List UInt8)) (m : Machine) :
    wp (do
        match ← attempt (external .writerInitBufferOnly) with
        | none => pure ()
        | some _ => cliDrainWriterToStream true pieces)
      (fun _ m' => m'.errorOutput = m.errorOutput ++ drained pieces) (fun _ => False) host m := by
  simp only [cliDrainWriterToStream, wp_bind, wp_attempt, wp_external, and_true]
  refine ⟨fun _ => ⟨fun _ => ?_, fun failed => ?_⟩, fun failed => ?_⟩
  · rw [wp_ite]
    refine ⟨fun some_byte => ?_, fun nothing => ?_⟩
    · simp [drained, some_byte]
    · simp [drained, nothing]
  · exact absurd (failed.symm.trans (writer _).2) Bool.false_ne_true
  · exact absurd (failed.symm.trans (writer _).1) Bool.false_ne_true

theorem cliReport_said {context : ParseContext} (stream : context.errorStream = true)
    (pieces : List (List UInt8)) (m : Machine) :
    wp (cliReport context pieces) (fun _ m' => Said context.spec pieces m m') (fun _ => False)
      host m := by
  rw [cliReport, stream]
  exact writer_drained writer _ m

end Reports

namespace SpeaksOnFailure
variable {α β : Type} {host : Host} {spec : ProgramSpec} {argumentValues : List CString}

theorem pure {a : α} : SpeaksOnFailure host spec argumentValues (Pure.pure a : Run α) :=
  fun _ => rfl

/-- What follows may rely on what every result of the first part satisfies. -/
theorem bind_of {c : Run β} {f : β → Run α} {P : β → Prop}
    (h : SpeaksOnFailure host spec argumentValues c)
    (results : ∀ m, wp c (fun b _ => P b) (fun _ => True) host m)
    (rest : ∀ b, P b → SpeaksOnFailure host spec argumentValues (f b)) :
    SpeaksOnFailure host spec argumentValues (c >>= f) := by
  intro m
  rw [wp_bind]
  refine wp_mono (wp_and (h m) (results m)) (fun b m₁ first => ?_) fun _ spoken => spoken.1
  obtain ⟨silent, result⟩ := first
  refine wp_mono (rest b result m₁) (fun _ _ silent' => IsTrans.trans _ _ _ silent silent') ?_
  rintro m₂ ⟨pieces, diagnostic, said⟩
  exact ⟨pieces, diagnostic, said.trans (by rw [silent])⟩

theorem bind {c : Run β} {f : β → Run α} (h : SpeaksOnFailure host spec argumentValues c)
    (rest : ∀ b, SpeaksOnFailure host spec argumentValues (f b)) :
    SpeaksOnFailure host spec argumentValues (c >>= f) :=
  h.bind_of (fun m => wp_true host m c) fun b _ => rest b

theorem ite {p : Prop} [Decidable p] {c d : Run α}
    (hc : p → SpeaksOnFailure host spec argumentValues c)
    (hd : ¬ p → SpeaksOnFailure host spec argumentValues d) :
    SpeaksOnFailure host spec argumentValues (if p then c else d) := by
  by_cases h : p
  · rw [if_pos h]
    exact hc h
  · rw [if_neg h]
    exact hd h

theorem silent {c : Run α}
    (total : ∀ m, wp c (fun _ m' => SameErrors m m') (fun _ => False) host m) :
    SpeaksOnFailure host spec argumentValues c :=
  fun m => wp_mono (total m) (fun _ _ same => same) fun _ unreachable => unreachable.elim

variable (writer : host.WriterSucceeds) {context : ParseContext}
  (stream : context.errorStream = true)
include writer stream

theorem reject {pieces : List (List UInt8)}
    (diagnostic : CliDiagnostic context.spec argumentValues pieces) :
    SpeaksOnFailure host context.spec argumentValues (cliReject context pieces : Run α) := by
  intro m
  rw [cliReject, wp_bind]
  exact wp_mono (cliReport_said writer stream pieces m) (fun _ _ said => ⟨pieces, diagnostic, said⟩)
    fun _ unreachable => unreachable.elim

/-- The caller speaks for a computation that is silent either way. -/
theorem onFailure {c : Run α} (quiet : Keeps SameErrors c) {pieces : List (List UInt8)}
    (diagnostic : CliDiagnostic context.spec argumentValues pieces) :
    SpeaksOnFailure host context.spec argumentValues
      (Fallible.onFailure c (cliReport context pieces)) := by
  intro m
  rw [wp_onFailure]
  refine wp_mono (quiet host m) (fun _ _ same => same) fun m₁ same => ?_
  refine wp_mono (cliReport_said writer stream pieces m₁) (fun _ _ said => ?_)
    fun _ unreachable => unreachable.elim
  exact ⟨pieces, diagnostic, said.trans (by rw [same])⟩

end SpeaksOnFailure

theorem perform_sameErrors (call : StoreCall) : Keeps SameErrors call.perform :=
  fun host m => wp_mono (perform_spec host m call) (fun _ _ done => done.1.errors)
    fun _ refused => refused.errors

omit [BcCore] in
theorem cliFindCommand_listed {spec : ProgramSpec} {argument : CString} {command : CommandSpec}
    (found : cliFindCommand argument spec.commands = some command) : command ∈ spec.commands := by
  rw [cliFindCommand_eq] at found
  exact List.mem_of_find?_eq_some found

theorem cliScan_command (context : ParseContext) (tokens : List CString) {state : ScanState}
    (listed : ∀ command ∈ state.command, command ∈ context.spec.commands) (host : Host)
    (m : Machine) :
    wp (cliScan context tokens state)
      (fun result _ => ∀ last values, result = .ended last values →
        ∀ command ∈ last.command, command ∈ context.spec.commands)
      (fun _ => True) host m := by
  have ended : ∀ values last values', ScanResult.ended state values = .ended last values' →
      ∀ command ∈ last.command, command ∈ context.spec.commands := by
    rintro values _ _ ⟨rfl, rfl⟩
    exact listed
  have other : ∀ result : ScanResult, (∀ last values, result ≠ .ended last values) →
      ∀ last values, result = .ended last values →
        ∀ command ∈ last.command, command ∈ context.spec.commands :=
    fun _ never _ _ same => absurd same (never _ _)
  induction tokens generalizing state m with
  | nil => exact ended []
  | cons token rest ih =>
      rw [cliScan_cons]
      simp only [wp_ite]
      refine ⟨fun _ => ended rest, fun _ => ⟨fun _ => ⟨fun _ => ?_, fun _ => ⟨fun _ => ?_,
        fun _ => ?_⟩⟩, fun _ => ?_⟩⟩
      · exact other _ fun _ _ same => nomatch same
      · exact other _ fun _ _ same => nomatch same
      · rw [wp_bind]
        refine wp_mono (cliHandleOption_keepsCommand context state _ _ host m)
          (fun next m' same => ?_) fun _ _ => trivial
        have kept : ∀ command ∈ next.command, command ∈ context.spec.commands := by
          rw [same]
          exact listed
        refine ih kept m' ?_
        rintro values _ _ ⟨rfl, rfl⟩
        exact kept
      · cases selected : state.command with
        | some command => exact ended (token :: rest)
        | none =>
            cases found : cliFindCommand token context.spec.commands with
            | none => exact wp_bind_last fun _ _ => trivial
            | some command =>
                have kept : ∀ c ∈ some command, c ∈ context.spec.commands := by
                  rintro _ ⟨rfl⟩
                  exact cliFindCommand_listed found
                refine ih kept m ?_
                rintro values _ _ ⟨rfl, rfl⟩
                exact kept

section Functions
variable {host : Host} (writer : host.WriterSucceeds) {context : ParseContext}
  (stream : context.errorStream = true) {argumentValues : List CString}
include writer stream

theorem cliOptionKey_speaks (keyPrefix : CString) {option : OptionSpec}
    (listed : context.spec.Lists option) :
    SpeaksOnFailure host context.spec argumentValues (cliOptionKey context keyPrefix option) :=
  .onFailure writer stream (cliBuildKey_sameErrors _ _) (.optionNameTooLong listed)

theorem cliApplyDefaults_speaks (keyPrefix : CString) (seen : List Bool)
    {options : List OptionSpec} (listed : ∀ option ∈ options, context.spec.Lists option)
    (index : Nat) :
    SpeaksOnFailure host context.spec argumentValues
      (cliApplyDefaults context keyPrefix seen options index) := by
  induction options generalizing index with
  | nil => exact .pure
  | cons option options ih =>
      have first := listed option List.mem_cons_self
      have rest := ih fun option mem => listed option (List.mem_cons_of_mem _ mem)
      rw [cliApplyDefaults]
      refine .ite (fun _ => rest _) fun _ => .ite (fun _ => ?_) fun _ => ?_
      · exact .reject writer stream (.missingOption first)
      · cases option.defaultValue with
        | none => exact rest _
        | some defaultValue =>
            refine (cliOptionKey_speaks writer stream keyPrefix first).bind fun key => ?_
            refine SpeaksOnFailure.bind ?_ fun _ => rest _
            exact .onFailure writer stream (perform_sameErrors (.set key defaultValue))
              (.defaultNotStored first)

theorem cliStoreOption_speaks (keyPrefix : CString) {option : OptionSpec}
    (listed : context.spec.Lists option) (call : CString → StoreCall) :
    SpeaksOnFailure host context.spec argumentValues
      (cliStoreOption context keyPrefix option fun key => (call key).perform) :=
  (cliOptionKey_speaks writer stream keyPrefix listed).bind fun key =>
    .onFailure writer stream (perform_sameErrors (call key)) (.notStored listed)

theorem cliHandleAssignment_speaks {options : List OptionSpec}
    (listed : ∀ option ∈ options, context.spec.Lists option) (seen : List Bool)
    (keyPrefix : CString) {argument : CString} (given : argument ∈ argumentValues) :
    SpeaksOnFailure host context.spec argumentValues
      (cliHandleAssignment context options seen keyPrefix (tokenName argument)
        (tokenValue argument)) := by
  rw [cliHandleAssignment]
  cases found : cliFindOption (tokenName argument) options 0 with
  | none => exact .reject writer stream (.unknownOption given)
  | some row =>
      obtain ⟨index, option⟩ := row
      have row := listed option (List.mem_of_getElem? (cliFindOption_row found).2.2)
      have stored : ∀ call : CString → StoreCall,
          SpeaksOnFailure host context.spec argumentValues (do
            cliStoreOption context keyPrefix option fun key => (call key).perform
            pure (seen.set index true)) := fun call =>
        (cliStoreOption_speaks writer stream keyPrefix row call).bind fun _ => .pure
      refine .ite (fun _ => ?_) fun _ => ?_
      · cases tokenValue argument with
        | none => exact stored fun key => .set key (.lit "true")
        | some value => exact .reject writer stream (.takesNoValue row)
      · cases assigned : tokenValue argument with
        | none => exact .reject writer stream (.requiresValue row)
        | some value =>
            refine .ite (fun _ => ?_) fun _ => ?_
            · exact .reject writer stream (.invalidValue given assigned row)
            · by_cases isList : option.type = .list
              · simp only [isList, if_true]
                exact stored fun key => .append key value listSeparator (by decide)
              · simp only [isList, if_false]
                exact stored fun key => .set key value

theorem cliHandleOption_speaks {state : ScanState}
    (listed : ∀ command ∈ state.command, command ∈ context.spec.commands) {argument : CString}
    (given : argument ∈ argumentValues) :
    SpeaksOnFailure host context.spec argumentValues
      (cliHandleOption context state (tokenName argument) (tokenValue argument)) := by
  rw [cliHandleOption]
  cases selected : state.command with
  | none =>
      refine SpeaksOnFailure.bind ?_ fun _ => .pure
      exact cliHandleAssignment_speaks writer stream (fun _ mem => .inl mem) _ _ given
  | some command =>
      have row := listed command selected
      refine .ite (fun _ => ?_) fun _ => ?_
      · exact .reject writer stream .commandNameTooLong
      · refine SpeaksOnFailure.bind (.silent fun _ => rfl) fun keyPrefix => ?_
        refine SpeaksOnFailure.bind ?_ fun _ => .pure
        exact cliHandleAssignment_speaks writer stream (fun _ mem => .inr ⟨command, row, mem⟩) _ _
          given

theorem cliScan_speaks {tokens : List CString} (given : ∀ token ∈ tokens, token ∈ argumentValues)
    {state : ScanState} (listed : ∀ command ∈ state.command, command ∈ context.spec.commands) :
    SpeaksOnFailure host context.spec argumentValues (cliScan context tokens state) := by
  induction tokens generalizing state with
  | nil => exact .pure
  | cons token rest ih =>
      have here := given token List.mem_cons_self
      have later := fun token mem => given token (List.mem_cons_of_mem _ mem)
      rw [cliScan_cons]
      refine .ite (fun _ => .pure) fun _ => .ite (fun _ => ?_) fun _ => ?_
      · refine .ite (fun _ => .pure) fun _ => .ite (fun _ => .pure) fun _ => ?_
        refine (cliHandleOption_speaks writer stream listed here).bind_of
          (fun m => cliHandleOption_keepsCommand context state _ _ host m) fun next same => ?_
        exact ih later (by rw [same]; exact listed)
      · cases state.command with
        | some command => exact .pure
        | none =>
            cases found : cliFindCommand token context.spec.commands with
            | none => exact .reject writer stream (.unknownCommand here)
            | some command =>
                refine ih later ?_
                rintro _ ⟨rfl⟩
                exact cliFindCommand_listed found

theorem cliCheckTables_speaks :
    SpeaksOnFailure host context.spec argumentValues (cliCheckTables context) := by
  rw [cliCheckTables]
  cases found : context.spec.commands.find? fun command => command.options.length > cliTableSize with
  | some command =>
      exact .reject writer stream (.tooManyOptions (List.mem_of_find?_eq_some found))
  | none => exact .ite (fun _ => .reject writer stream .tooManyGlobalOptions) fun _ => .pure

theorem cliCheckPositionals_speaks {command : CommandSpec}
    (listed : command ∈ context.spec.commands) (count : Nat) :
    SpeaksOnFailure host context.spec argumentValues (cliCheckPositionals context command count) :=
  .ite (fun _ => .reject writer stream (.tooFewPositionals listed)) fun _ =>
    .ite (fun _ => .reject writer stream (.tooManyPositionals listed)) fun _ => .pure

theorem cliFinish_speaks {state : ScanState}
    (listed : ∀ command ∈ state.command, command ∈ context.spec.commands)
    (positionalValues : List CString) :
    SpeaksOnFailure host context.spec argumentValues
      (cliFinish context state positionalValues) := by
  rw [cliFinish]
  cases selected : state.command with
  | none => exact .reject writer stream .missingCommand
  | some command =>
      have row := listed command selected
      refine (cliApplyDefaults_speaks writer stream _ _ (fun _ mem => .inl mem) 0).bind fun _ => ?_
      refine SpeaksOnFailure.bind (.silent fun _ => rfl) fun keyPrefix => ?_
      refine (cliApplyDefaults_speaks writer stream _ _
        (fun _ mem => .inr ⟨command, row, mem⟩) 0).bind fun _ => ?_
      refine (cliCheckPositionals_speaks writer stream row _).bind fun _ => ?_
      refine SpeaksOnFailure.bind ?_ fun _ => .pure
      exact .onFailure writer stream (perform_sameErrors .sort) .notSorted

theorem cliParseArguments_speaks :
    SpeaksOnFailure host context.spec argumentValues
      (cliParseArguments context argumentValues) := by
  rw [cliParseArguments]
  have none_yet : ∀ command ∈ ScanState.initial.command, command ∈ context.spec.commands :=
    fun _ mem => absurd mem (Option.not_mem_none _)
  refine (cliCheckTables_speaks writer stream).bind fun _ => ?_
  refine (cliScan_speaks writer stream (fun _ mem => List.mem_of_mem_drop mem) none_yet).bind_of
    (fun m => cliScan_command context _ none_yet host m) fun result listed => ?_
  cases result with
  | help command => cases command <;> exact .pure
  | version => exact .pure
  | ended state values => exact cliFinish_speaks writer stream (listed state values rfl) values

end Functions

/-- A normal end is not an error, and tells of a command only with `--help` behind
one or when all is well. -/
theorem cliParseArguments_result (context : ParseContext) (argumentValues : List CString)
    (host : Host) (m : Machine) :
    wp (cliParseArguments context argumentValues)
      (fun result _ => result.1 ≠ .error ∧
        (result.1 = .helpGlobal ∨ result.1 = .version → result.2 = .empty))
      (fun _ => True) host m := by
  refine wp_bind_last fun _ m₁ => wp_bind_last fun result m₂ => ?_
  cases result with
  | help command => cases command <;> simp
  | version => simp
  | ended state values =>
      simp only [cliFinish]
      cases state.command with
      | none => exact wp_bind_last fun _ _ => trivial
      | some command =>
          refine wp_bind_last fun _ _ => wp_bind_last fun _ _ => wp_bind_last fun _ _ => ?_
          refine wp_bind_last fun _ _ => wp_bind_last fun _ _ => ?_
          simp

/-- Whatever the arguments are and whichever store calls fail, the parser gives one
diagnostic when it returns an error and is silent otherwise, and hands out a command
or positional arguments in no result that has none. -/
theorem cliParse_speaks_once {host : Host} (writer : host.WriterSucceeds) (spec : ProgramSpec)
    (argumentValues : List CString) (m : Machine) :
    ∃ status parsed m', cliParse spec argumentValues true host m = (some (status, parsed), m') ∧
      (status ≠ .error → m'.errorOutput = m.errorOutput) ∧
      (status = .error → ∃ pieces, CliDiagnostic spec argumentValues pieces ∧
        let diagnostic := spec.programName.bytes ++ pieces.flatten
        diagnostic.getLast? = some newline ∧
        m'.errorOutput = m.errorOutput ++ drained (spec.programName.bytes :: pieces) ∧
        (diagnostic.length ≤ cliOutputBufferSize →
          m'.errorOutput = m.errorOutput ++ [diagnostic])) ∧
      (status = .error ∨ status = .helpGlobal ∨ status = .version → parsed = .empty) := by
  have stream : ParseContext.errorStream ⟨spec, true⟩ = true := rfl
  have speaks : SpeaksOnFailure host spec argumentValues
      (cliParseArguments ⟨spec, true⟩ argumentValues) := cliParseArguments_speaks writer stream
  rw [cliParse]
  cases wp_cases (wp_and (speaks m)
      (cliParseArguments_result ⟨spec, true⟩ argumentValues host m)) with
  | inl ended =>
      obtain ⟨⟨status, parsed⟩, m', run, silent, fine, empty⟩ := ended
      rw [bind_run_of_some (attempt_run_of_some run)]
      refine ⟨status, parsed, m', rfl, fun _ => silent, fun failed => absurd failed fine, ?_⟩
      exact fun which => empty (which.resolve_left fine)
  | inr failed =>
      obtain ⟨m', run, ⟨pieces, diagnostic, said⟩, _⟩ := failed
      rw [bind_run_of_some (attempt_run_of_none run)]
      refine ⟨.error, .empty, m', rfl, fun fine => absurd rfl fine, fun _ => ?_, fun _ => rfl⟩
      have ends := diagnostic.ends_in_newline
      have some_byte : (spec.programName.bytes :: pieces).flatten ≠ [] := by
        intro nothing
        rw [List.flatten_cons, List.append_eq_nil_iff] at nothing
        rw [nothing.2] at ends
        cases ends
      refine ⟨pieces, diagnostic, ?_, said, fun fits => ?_⟩
      · rw [List.getLast?_append, ends]
        rfl
      · exact said.trans (congrArg _ (drained_of_fits some_byte fits))

/-- A store in which nothing can be stored. -/
def fullStore : Host where
  succeeds := fun _ call => !call.isStoreCall
  environ := []
  fileContent := fun _ => []
  readCount := fun _ => 0

omit [BcCore] in
theorem cliParse_speaks_once_full :
    ∃ pieces, CliDiagnostic copySpec copyArguments pieces ∧
      (@cliParse .reference copySpec copyArguments true fullStore .initial).2.errorOutput =
        @drained .reference (copySpec.programName.bytes :: pieces) := by
  have writer : fullStore.WriterSucceeds := fun _ => ⟨rfl, rfl⟩
  have refused : (@cliParse .reference copySpec copyArguments true fullStore .initial).1 =
      some (.error, .empty) := by decide +kernel
  obtain ⟨status, parsed, m', run, _, spoken, _⟩ :=
    @cliParse_speaks_once .reference fullStore writer copySpec copyArguments .initial
  rw [run] at refused ⊢
  cases refused
  obtain ⟨pieces, diagnostic, _, said, _⟩ := spoken rfl
  exact ⟨pieces, diagnostic, said⟩

end BcRuntime
