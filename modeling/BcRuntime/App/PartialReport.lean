import BcRuntime.App.ErrorReport
import BcRuntime.Foundation.Emission

/-!
A report that stops. The first call that fails ends the loop over the records, so
the writer has been given whole reports of the first records, in their order, and
a proper first part of the next one.
-/

namespace BcRuntime
open Fallible ReportRun

/-- What the writer is given by a part of the report. -/
abbrev EmitsReport (host : ReportHost) (c : ReportRun Unit) (data : List UInt8) : Prop :=
  Emits ReportMachine.written host c data

section Emitting
variable (host : ReportHost)

theorem external_emits (call : ReportCall) : EmitsReport host (ReportRun.external call) [] :=
  .of_silent fun _ => rfl

theorem writeBytes_emits (data : List UInt8) : EmitsReport host (writeBytes data) data := by
  have emits : EmitsReport host (writeBytes data) ([] ++ data) := by
    apply Emits.bind (external_emits host _)
    intro _ m
    rfl
  exact emits

theorem writeString_emits (value : CString) : EmitsReport host (writeString value) value.bytes := by
  have emits : EmitsReport host (writeString value) ([] ++ value.bytes) := by
    apply Emits.bind (external_emits host _)
    intro _
    exact writeBytes_emits host value.bytes
  exact emits

theorem writeStage_emits (stage : Option CString) : EmitsReport host (writeStage stage)
    (stage.elim [] fun stage => stage.bytes ++ reportSeparator) := by
  cases stage with
  | none => exact .pure _
  | some stage => exact (writeString_emits host stage).bind fun _ => writeBytes_emits host _

theorem writeReason_emits (errnoValue : Int) :
    EmitsReport host (writeReason errnoValue) (reasonText host errnoValue) := by
  intro m
  rw [writeReason, wp_bind, wp_ask, reasonText]
  by_cases zero : errnoValue = 0
  · rw [if_neg (not_not.mpr zero), if_pos zero]
    exact writeString_emits host (.lit "error") m
  · rw [if_pos zero, if_neg zero]
    cases host.describe errnoValue with
    | none => exact writeString_emits host (.lit "error") m
    | some reason => exact writeBytes_emits host reason m

theorem flushRecord_emits (programName : Option CString) (call : AppendCall (Option CString)) :
    EmitsReport host (flushRecord (programName.getD (.lit "")) call.record)
      (reportText host programName call ++ [newline]) := by
  have path : (CString.ofBuffer call.record.path).bytes = call.path.bytes.take 511 := by
    rw [AppendCall.record_path]
    exact CString.ofBuffer_bytes fun nul => call.path.noNul (List.mem_of_mem_take nul)
  have name : (programName.getD (.lit "")).bytes = programName.elim [] CString.bytes := by
    cases programName <;> rfl
  have emits := (writeString_emits host (programName.getD (.lit ""))).bind fun _ =>
    (writeBytes_emits host reportSeparator).bind fun _ =>
    (writeStage_emits host call.stage).bind fun _ =>
    (writeString_emits host (.ofBuffer call.record.path)).bind fun _ =>
    (writeBytes_emits host reportSeparator).bind fun _ =>
    (writeReason_emits host call.errnoValue).bind fun _ => writeBytes_emits host [newline]
  rw [path, name] at emits
  simp only [reportText, List.append_assoc]
  exact emits

theorem flushRecords_emits (programName : Option CString)
    (calls : List (AppendCall (Option CString))) :
    EmitsReport host (flushRecords (programName.getD (.lit "")) (calls.map AppendCall.record))
      (calls.flatMap fun call => reportText host programName call ++ [newline]) := by
  induction calls with
  | nil => exact .pure _
  | cons call calls ih => exact (flushRecord_emits host programName call).bind fun _ => ih

def fullReport (host : ReportHost) (programName : Option CString)
    (calls : List (AppendCall (Option CString))) : List UInt8 :=
  calls.flatMap fun call => reportText host programName call ++ [newline]

theorem flushToStderr_written (programName : Option CString)
    (calls : List (AppendCall (Option CString))) :
    (flushToStderr (calls.map AppendCall.record) programName host .initial).2.written <+:
      fullReport host programName calls := by
  let Told (m : ReportMachine) : Prop := m.written <+: fullReport host programName calls
  have destroyed : ∀ m, Told m → wp (do
      ReportRun.external .writerDestroy
      modify fun m => { m with stderr := m.stderr ++ m.written })
      (fun _ m' => Told m') Told host m := by
    intro m told
    have kept : wp (ReportRun.external .writerDestroy) (fun _ m' => Told m') Told host m :=
      (wp_always_iff Told host m _).mpr told
    rw [wp_bind]
    apply wp_mono kept
    · intro _ m' told
      exact told
    · intro m' told
      exact told
  apply (wp_always_iff Told host .initial _).mp
  rw [flushToStderr, wp_bind]
  apply wp_mono (external_emits host .writerInit .initial)
  · intro _ m started
    rw [wp_bind, wp_attempt]
    have begun : m.written = [] := started
    apply wp_mono (flushRecords_emits host programName calls m)
    · intro _ m' whole
      apply destroyed
      change m'.written <+: _
      rw [whole, begun]
      exact List.prefix_rfl
    · intro m' stopped
      obtain ⟨part, begins, told⟩ := stopped
      apply destroyed
      change m'.written <+: _
      rw [told, begun]
      exact begins
  · intro m refused
    obtain ⟨part, begins, told⟩ := refused
    change m.written <+: _
    rw [told, List.prefix_nil.mp begins]
    exact List.nil_prefix

theorem flushToStderr_whole (writes : host.WritesSucceed) (programName : Option CString)
    (calls : List (AppendCall (Option CString))) :
    let m := (flushToStderr (calls.map AppendCall.record) programName host .initial).2
    m.written = fullReport host programName calls ∧ m.stderr = m.written := by
  have started : ReportRun.external .writerInit host .initial = (some (), ⟨1, [], []⟩) :=
    external_run_succeeds writes _ _
  obtain ⟨n, run⟩ := flushRecords_writes writes programName calls ⟨1, [], []⟩
  rw [flushToStderr, bind_run_of_some started, bind_run_of_some (attempt_run_of_some run),
    bind_run_of_some (external_run_succeeds writes _ _)]
  exact ⟨List.flatMap_map (reportText host programName) (· ++ [newline]) calls, rfl⟩

end Emitting

theorem length_fullReport_take {host : ReportHost} {programName : Option CString}
    {calls : List (AppendCall (Option CString))} {n : Nat} {call : AppendCall (Option CString)}
    (next : call ∈ calls[n]?) :
    (fullReport host programName (calls.take n)).length + (reportText host programName call).length <
      (fullReport host programName calls).length := by
  obtain ⟨inRange, rfl⟩ := List.getElem?_eq_some_iff.mp next
  have split : fullReport host programName calls =
      fullReport host programName (calls.take n) ++
        (reportText host programName calls[n] ++ [newline] ++
          fullReport host programName (calls.drop (n + 1))) := by
    calc fullReport host programName calls
        = fullReport host programName (calls.take n ++ calls.drop n) := by
          rw [List.take_append_drop]
      _ = fullReport host programName (calls.take n) ++ fullReport host programName (calls.drop n) :=
          List.flatMap_append
      _ = _ := by
          rw [List.drop_eq_getElem_cons inRange]
          rfl
  rw [split]
  simp only [List.length_append, List.length_singleton]
  omega

namespace ErrorCollector

/-- Whichever calls fail, the report begins with whole reports of the first records in
their order; it stops inside the next one, or has them all. -/
theorem flush_partial {Thread : Type} [DecidableEq Thread] (host : ReportHost)
    (cells : Nat → ErrorRecord (Option CString))
    (schedule : List (Thread × AppendAction (Option CString)))
    (idle : ∀ t, (schedule.foldl step (created cells)).place t = .idle)
    (programName : Option CString) :
    let collector := schedule.foldl step (created cells)
    let m := (flushToStderr collector.records programName host .initial).2
    ∃ n ≤ collector.count, ∃ rest,
      m.written = fullReport host programName (collector.collected.take n) ++ rest ∧
      (∀ call ∈ collector.collected[n]?, rest <+: reportText host programName call) ∧
      (n = collector.count → rest = []) ∧
      (host.WritesSucceed → n = collector.count ∧ m.stderr = m.written) := by
  intro collector m
  have invariant : collector.Invariant :=
    Runs.foldl_keeps invariant_kept schedule (created_invariant cells)
  obtain ⟨records, counted⟩ := invariant.settled idle
  have ended : m = (flushToStderr (collector.collected.map AppendCall.record) programName host
      .initial).2 := by rw [← records]
  have begins : m.written <+: fullReport host programName collector.collected := by
    rw [ended]
    exact flushToStderr_written host programName collector.collected
  obtain ⟨n, inRange, rest, written, next, last⟩ := List.exists_whole_of_prefix_flatMap _ begins
  rw [counted]
  have unfinished : ∀ call ∈ collector.collected[n]?, rest <+: reportText host programName call := by
    intro call mem
    obtain ⟨inside, short⟩ := next call mem
    cases List.prefix_concat_iff.mp inside with
    | inl whole => exact absurd (congrArg List.length whole) (Nat.ne_of_lt short)
    | inr inside => exact inside
  refine ⟨n, inRange, rest, written, unfinished, last, fun writes => ?_⟩
  obtain ⟨whole, reached⟩ := flushToStderr_whole host writes programName collector.collected
  rw [← ended] at whole reached
  refine ⟨?_, reached⟩
  apply Nat.le_antisymm inRange
  apply Nat.le_of_not_lt
  intro short
  have here : collector.collected[n] ∈ collector.collected[n]? := List.getElem?_eq_getElem short
  have longer := @length_fullReport_take host programName _ n _ here
  have sizes := congrArg List.length written
  rw [whole, List.length_append] at sizes
  have bound := (unfinished _ here).length_le
  change _ = (fullReport host programName (collector.collected.take n)).length + rest.length at sizes
  omega

/-- The disk is full after some calls. -/
def stallingHost : ReportHost := { terseHost with succeeds := fun n _ => n < 17 }

theorem flush_partial_stalling :
    let collector := (appendEach plainErrors).foldl step (created emptyCells)
    let m := (flushToStderr collector.records (some (.lit "prog")) stallingHost .initial).2
    m.written = (CString.lit "prog: open: /a: not found\nprog: /b").bytes ∧
      ∃ n ≤ collector.count, ∃ rest,
        m.written = fullReport stallingHost (some (.lit "prog")) (collector.collected.take n) ++
          rest ∧
        (∀ call ∈ collector.collected[n]?,
          rest <+: reportText stallingHost (some (.lit "prog")) call) ∧
        (n = collector.count → rest = []) ∧
        (stallingHost.WritesSucceed → n = collector.count ∧ m.stderr = m.written) :=
  ⟨by decide +kernel, flush_partial stallingHost emptyCells (appendEach plainErrors)
    (fun _ => rfl) (some (.lit "prog"))⟩

end ErrorCollector

end BcRuntime
