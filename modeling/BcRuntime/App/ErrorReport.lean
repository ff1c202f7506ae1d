import BcRuntime.App.ErrorCollector
import BcRuntime.Foundation.Fallible
import BcRuntime.Foundation.Lines

/-!
Writing the collected errors to `stderr`. The report of a record is a sequence of
writes that ends the whole report when one of them fails; it is one line exactly
when there is no newline in what is kept of the path.
-/

namespace BcRuntime
open Fallible

inductive ReportCall
  | writerInit
  | coreLength (text : CString)
  | writerWrite (data : List UInt8)
  | writerDestroy
deriving DecidableEq

/-- The outcome of each numbered call, and the text that `bc_core_error_describe` has
for the code of a system error, where both that and the conversion succeed. -/
structure ReportHost where
  succeeds : Nat → ReportCall → Bool
  describe : Int → Option (List UInt8)

/-- What the writer has been given, and what has reached `stderr`. -/
structure ReportMachine where
  calls : Nat
  written : List UInt8
  stderr : List UInt8

def ReportMachine.initial : ReportMachine := ⟨0, [], []⟩

abbrev ReportRun := Fallible ReportHost ReportMachine

namespace ReportRun

def external (call : ReportCall) : ReportRun Unit := fun host m =>
  (if host.succeeds m.calls call then some () else none, { m with calls := m.calls + 1 })

def writeBytes (data : List UInt8) : ReportRun Unit := do
  external (.writerWrite data)
  modify fun m => { m with written := m.written ++ data }

def writeString (value : CString) : ReportRun Unit := do
  external (.coreLength value)
  writeBytes value.bytes

end ReportRun

open ReportRun

def reportSeparator : List UInt8 := (CString.lit ": ").bytes

def writeStage : Option CString → ReportRun Unit
  | some stage => do
      writeString stage
      writeBytes reportSeparator
  | none => pure ()

/-- The reason of a record: a description, or a literal without one. -/
def writeReason (errnoValue : Int) : ReportRun Unit := do
  let host ← ask
  match (if errnoValue ≠ 0 then host.describe errnoValue else none) with
  | some reason => writeBytes reason
  | none => writeString (.lit "error")

/-- The body of the loop, up to the first write that fails. -/
def flushRecord (prefixName : CString) (record : ErrorRecord (Option CString)) :
    ReportRun Unit := do
  writeString prefixName
  writeBytes reportSeparator
  writeStage record.stage
  writeString (.ofBuffer record.path)
  writeBytes reportSeparator
  writeReason record.errnoValue
  writeBytes [newline]

def flushRecords (prefixName : CString) : List (ErrorRecord (Option CString)) → ReportRun Unit
  | [] => pure ()
  | record :: records => do
      flushRecord prefixName record
      flushRecords prefixName records

/-- `bc_runtime_error_collector_flush_to_stderr`. -/
def flushToStderr (records : List (ErrorRecord (Option CString))) (programName : Option CString) :
    ReportRun Unit := do
  let prefixName := programName.getD (.lit "")
  external .writerInit
  let _ ← attempt (flushRecords prefixName records)
  external .writerDestroy
  modify fun m => { m with stderr := m.stderr ++ m.written }

def reasonText (host : ReportHost) (errnoValue : Int) : List UInt8 :=
  if errnoValue = 0 then (CString.lit "error").bytes
  else (host.describe errnoValue).getD (CString.lit "error").bytes

/-- The report of a call of `append`, without the newline it ends in. -/
def reportText (host : ReportHost) (programName : Option CString)
    (call : AppendCall (Option CString)) : List UInt8 :=
  (programName.elim [] CString.bytes) ++ reportSeparator ++
    (call.stage.elim [] fun stage => stage.bytes ++ reportSeparator) ++
    call.path.bytes.take 511 ++ reportSeparator ++ reasonText host call.errnoValue

def ReportHost.WritesSucceed (host : ReportHost) : Prop :=
  ∀ n call, host.succeeds n call = true

/-- `bc_core_error_describe` gives texts without newlines. -/
def ReportHost.DescribesInOneLine (host : ReportHost) : Prop :=
  ∀ errnoValue, ∀ text ∈ host.describe errnoValue, newline ∉ text

/-- The computation succeeds, and gives the data to the writer. -/
def Writes (host : ReportHost) (c : ReportRun Unit) (data : List UInt8) : Prop :=
  ∀ m, ∃ calls, c host m = (some (), { m with calls := calls, written := m.written ++ data })

section Writing
variable {host : ReportHost} {c c' : ReportRun Unit} {data data' : List UInt8}

theorem Writes.nothing : Writes host (pure ()) [] :=
  fun m => ⟨m.calls, by rw [List.append_nil]; rfl⟩

theorem Writes.andThen (first : Writes host c data) (second : Writes host c' data') :
    Writes host (do c; c') (data ++ data') := by
  intro m
  obtain ⟨calls, run⟩ := first m
  obtain ⟨calls', run'⟩ := second { m with calls := calls, written := m.written ++ data }
  refine ⟨calls', ?_⟩
  rw [bind_run_of_some run, run', List.append_assoc]

variable (writes : host.WritesSucceed)
include writes

theorem external_run_succeeds (call : ReportCall) (m : ReportMachine) :
    ReportRun.external call host m = (some (), { m with calls := m.calls + 1 }) := by
  rw [ReportRun.external, if_pos (writes m.calls call)]

theorem writeBytes_writes (data : List UInt8) : Writes host (writeBytes data) data := by
  intro m
  refine ⟨m.calls + 1, ?_⟩
  rw [writeBytes, bind_run_of_some (external_run_succeeds writes _ m)]
  rfl

theorem writeString_writes (value : CString) : Writes host (writeString value) value.bytes := by
  intro m
  obtain ⟨calls, run⟩ := writeBytes_writes writes value.bytes { m with calls := m.calls + 1 }
  exact ⟨calls, (bind_run_of_some (external_run_succeeds writes _ m) _).trans run⟩

theorem writeStage_writes (stage : Option CString) :
    Writes host (writeStage stage) (stage.elim [] fun stage => stage.bytes ++ reportSeparator) := by
  cases stage with
  | none => exact .nothing
  | some stage => exact (writeString_writes writes stage).andThen (writeBytes_writes writes _)

theorem writeReason_writes (errnoValue : Int) :
    Writes host (writeReason errnoValue) (reasonText host errnoValue) := by
  intro m
  change ∃ calls, (match (if errnoValue ≠ 0 then host.describe errnoValue else none) with
    | some reason => writeBytes reason
    | none => writeString (.lit "error")) host m = _
  rw [reasonText]
  by_cases zero : errnoValue = 0
  · rw [if_neg (not_not.mpr zero), if_pos zero]
    exact writeString_writes writes (.lit "error") m
  · rw [if_pos zero, if_neg zero]
    cases host.describe errnoValue with
    | none => exact writeString_writes writes (.lit "error") m
    | some reason => exact writeBytes_writes writes reason m

theorem flushRecord_writes (programName : Option CString) (call : AppendCall (Option CString)) :
    Writes host (flushRecord (programName.getD (.lit "")) call.record)
      (reportText host programName call ++ [newline]) := by
  have path : (CString.ofBuffer call.record.path).bytes = call.path.bytes.take 511 := by
    rw [AppendCall.record_path]
    exact CString.ofBuffer_bytes fun nul => call.path.noNul (List.mem_of_mem_take nul)
  have name : (programName.getD (.lit "")).bytes = programName.elim [] CString.bytes := by
    cases programName <;> rfl
  have written := (writeString_writes writes (programName.getD (.lit ""))).andThen
    ((writeBytes_writes writes reportSeparator).andThen
    ((writeStage_writes writes call.stage).andThen
    ((writeString_writes writes (.ofBuffer call.record.path)).andThen
    ((writeBytes_writes writes reportSeparator).andThen
    ((writeReason_writes writes call.errnoValue).andThen (writeBytes_writes writes [newline]))))))
  rw [path, name] at written
  simp only [reportText, List.append_assoc]
  exact written

theorem flushRecords_writes (programName : Option CString)
    (calls : List (AppendCall (Option CString))) :
    Writes host (flushRecords (programName.getD (.lit "")) (calls.map AppendCall.record))
      ((calls.map (reportText host programName)).flatMap (· ++ [newline])) := by
  induction calls with
  | nil => exact .nothing
  | cons call calls ih => exact (flushRecord_writes writes programName call).andThen ih

theorem flushToStderr_stderr (programName : Option CString)
    (calls : List (AppendCall (Option CString))) :
    (flushToStderr (calls.map AppendCall.record) programName host .initial).2.stderr =
      (calls.map (reportText host programName)).flatMap (· ++ [newline]) := by
  have started : ReportRun.external .writerInit host .initial = (some (), ⟨1, [], []⟩) :=
    external_run_succeeds writes _ _
  obtain ⟨n, run⟩ := flushRecords_writes writes programName calls ⟨1, [], []⟩
  rw [flushToStderr, bind_run_of_some started, bind_run_of_some (attempt_run_of_some run),
    bind_run_of_some (external_run_succeeds writes _ _)]
  rfl

end Writing

/-- All parts of a report but the path are known to be in one line. -/
theorem newline_not_mem_reportText_iff {host : ReportHost} (described : host.DescribesInOneLine)
    {programName : Option CString} (name : ∀ text ∈ programName, newline ∉ text.bytes)
    {call : AppendCall (Option CString)} (stage : ∀ text ∈ call.stage, newline ∉ text.bytes) :
    newline ∉ reportText host programName call ↔ newline ∉ call.path.bytes.take 511 := by
  have separator : newline ∉ reportSeparator := by decide
  have prefixed : newline ∉ programName.elim [] CString.bytes := by
    cases programName with
    | none => exact List.not_mem_nil
    | some text => exact name text rfl
  have staged : newline ∉ call.stage.elim [] fun stage => stage.bytes ++ reportSeparator := by
    cases here : call.stage with
    | none => exact List.not_mem_nil
    | some text =>
        rw [Option.elim_some, List.mem_append, not_or]
        exact ⟨stage text here, separator⟩
  have reason : newline ∉ reasonText host call.errnoValue := by
    have fallback : newline ∉ (CString.lit "error").bytes := by decide
    rw [reasonText]
    split
    · exact fallback
    · cases text : host.describe call.errnoValue with
      | none => exact fallback
      | some text' => exact described _ _ text
  simp only [reportText, List.mem_append, not_or]
  exact ⟨fun inside => inside.1.1.2, fun path => ⟨⟨⟨⟨⟨prefixed, separator⟩, staged⟩, path⟩,
    separator⟩, reason⟩⟩

namespace ErrorCollector

/-- When every call has returned and every write succeeds, the report has a line for
each record, which reports it, exactly when no kept path has a newline in it. -/
theorem flush_lines_iff {Thread : Type} [DecidableEq Thread] {host : ReportHost}
    (writes : host.WritesSucceed) (described : host.DescribesInOneLine)
    (cells : Nat → ErrorRecord (Option CString))
    (schedule : List (Thread × AppendAction (Option CString)))
    (idle : ∀ t, (schedule.foldl step (created cells)).place t = .idle)
    {programName : Option CString} (name : ∀ text ∈ programName, newline ∉ text.bytes)
    (stages : ∀ call ∈ (schedule.foldl step (created cells)).collected,
      ∀ text ∈ call.stage, newline ∉ text.bytes) :
    let collector := schedule.foldl step (created cells)
    let output := (flushToStderr collector.records programName host .initial).2.stderr
    ((output.linesAt newline).length = collector.count ∧
      output.linesAt newline =
        collector.collected.map fun call => reportText host programName call ++ [newline]) ↔
      ∀ call ∈ collector.collected, newline ∉ call.path.bytes.take 511 := by
  intro collector output
  have invariant : collector.Invariant :=
    Runs.foldl_keeps invariant_kept schedule (created_invariant cells)
  obtain ⟨records, counted⟩ := invariant.settled idle
  have written : output =
      (collector.collected.map (reportText host programName)).flatMap (· ++ [newline]) := by
    rw [← flushToStderr_stderr writes programName, ← records]
  have bodies : (collector.collected.map fun call => reportText host programName call ++ [newline]) =
      (collector.collected.map (reportText host programName)).map (· ++ [newline]) := by
    rw [List.map_map]
    rfl
  have inLine : (∀ body ∈ collector.collected.map (reportText host programName), newline ∉ body) ↔
      ∀ call ∈ collector.collected, newline ∉ call.path.bytes.take 511 := by
    rw [List.forall_mem_map]
    exact forall₂_congr fun call mem =>
      newline_not_mem_reportText_iff described name (stages call mem)
  rw [← inLine, ← List.linesAt_terminated_iff, ← written, bodies]
  refine ⟨fun both => both.2, fun same => ⟨?_, same⟩⟩
  rw [same, List.length_map, List.length_map, counted]

/-- One call after another, each of them with success at every place. -/
def appendEach (calls : List (AppendCall (Option CString))) :
    List (Unit × AppendAction (Option CString)) :=
  calls.flatMap fun call => ((), .call call) :: List.replicate 7 ((), .proceed true)

/-- Descriptions for two of the system's errors. -/
def terseHost : ReportHost where
  succeeds := fun _ _ => true
  describe := fun errnoValue =>
    if errnoValue = 2 then some (CString.lit "not found").bytes
    else if errnoValue = 5 then some (CString.lit "input/output error").bytes
    else none

def emptyCells : Nat → ErrorRecord (Option CString) := fun _ => ⟨[], none, 0⟩

theorem terseHost_describesInOneLine : terseHost.DescribesInOneLine := by
  intro errnoValue text described inside
  simp only [terseHost] at described
  split at described
  · cases described
    exact absurd inside (by decide)
  · split at described
    · cases described
      exact absurd inside (by decide)
    · cases described

/-- A stage, no stage and an error without a description. -/
def plainErrors : List (AppendCall (Option CString)) :=
  [⟨.lit "/a", some (.lit "open"), 2⟩, ⟨.lit "/b", none, 0⟩, ⟨.lit "/c", some (.lit "read"), 77⟩]

theorem flush_lines_iff_plain :
    let collector := (appendEach plainErrors).foldl step (created emptyCells)
    let output := (flushToStderr collector.records (some (.lit "prog")) terseHost .initial).2.stderr
    (output.linesAt newline).length = collector.count ∧
      output.linesAt newline =
        collector.collected.map fun call =>
          reportText terseHost (some (.lit "prog")) call ++ [newline] := by
  have collected : ((appendEach plainErrors).foldl step (created emptyCells)).collected =
      plainErrors := rfl
  refine (flush_lines_iff (fun _ _ => rfl) terseHost_describesInOneLine emptyCells
    (appendEach plainErrors) (fun _ => rfl) ?_ ?_).mpr ?_
  · rintro _ ⟨rfl⟩
    decide
  · rw [collected]
    decide
  · rw [collected]
    decide

/-- A file name with a newline in it. -/
def brokenError : List (AppendCall (Option CString)) :=
  [⟨.lit "/tmp/a\nb", some (.lit "open"), 2⟩]

/-- One record, and two lines of output. -/
theorem brokenError_lines :
    let collector := (appendEach brokenError).foldl step (created emptyCells)
    let output := (flushToStderr collector.records (some (.lit "prog")) terseHost .initial).2.stderr
    collector.collected.length = 1 ∧ ¬ ((output.linesAt newline).length = collector.count ∧
      output.linesAt newline =
        collector.collected.map fun call =>
          reportText terseHost (some (.lit "prog")) call ++ [newline]) := by
  decide +kernel

end ErrorCollector

end BcRuntime
