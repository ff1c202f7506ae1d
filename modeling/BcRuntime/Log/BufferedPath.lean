import BcRuntime.Log.Delivery

/-!
Logging through a buffer against logging directly. The same messages, formatted at the
same times, go to `stderr` one by one or are kept and written at the next drain. The two
runs go in lockstep: what the one has written is what the other has received, and when
it all fits the drain writes the same bytes and counts the same messages.
-/

namespace BcRuntime
open Fallible LogRun

def LogOperation.timeRead (host : LogHost) (m : LogMachine) :
    LogOperation → List (LocalTime × Int)
  | .log level _ =>
      if level.rank > m.logLevel.rank then []
      else [(host.localTime (m.calls + 1), host.nanoseconds m.calls)]
  | .logToBuffer id level _ =>
      if level.rank > (m.buffers id).logLevel.rank then []
      else [(host.localTime (m.calls + 1), host.nanoseconds m.calls)]
  | _ => []

def timesRead (host : LogHost) : LogMachine → List LogOperation → List (LocalTime × Int)
  | _, [] => []
  | m, operation :: operations =>
      operation.timeRead host m ++ timesRead host (stepLog host m operation) operations

def logDirectly (messages : List (LogLevel × CString)) : List LogOperation :=
  messages.map fun message => .log message.1 message.2

def logThrough (id : Nat) (messages : List (LogLevel × CString)) : List LogOperation :=
  messages.map fun message => .logToBuffer id message.1 message.2

/-- The data of the sessions that succeeded: while none fails, all that reaches `stderr`. -/
def LogMachine.output (m : LogMachine) : List UInt8 := m.sessions.flatMap Written.bytes

namespace BufferHistory

def receiveAll (capacity : Nat) (records : List (List UInt8)) (history : BufferHistory) :
    BufferHistory :=
  records.foldl (BufferHistory.receive capacity) history

/-- What is kept are some of the records, in their order, and the others are lost. -/
theorem receiveAll_kept (capacity : Nat) (records : List (List UInt8)) (history : BufferHistory) :
    ∃ kept, (history.receiveAll capacity records).kept = history.kept ++ kept ∧
      kept.Sublist records ∧
      (history.receiveAll capacity records).lost + kept.length = history.lost + records.length := by
  induction records generalizing history with
  | nil => exact ⟨[], (List.append_nil _).symm, .slnil, rfl⟩
  | cons record records ih =>
      obtain ⟨kept, whole, sublist, sizes⟩ := ih (history.receive capacity record)
      by_cases fits : history.kept.flatten.length + record.length ≤ capacity
      · rw [receive, if_pos fits] at whole sizes
        refine ⟨record :: kept, ?_, sublist.cons_cons record, ?_⟩
        · rw [receiveAll, List.foldl_cons, receive, if_pos fits]
          exact whole.trans (List.append_assoc _ _ _)
        · rw [receiveAll, List.foldl_cons, receive, if_pos fits, List.length_cons,
            List.length_cons]
          rw [receiveAll] at sizes
          change _ + kept.length = history.lost + records.length at sizes
          omega
      · rw [receive, if_neg fits] at whole sizes
        refine ⟨kept, ?_, sublist.cons record, ?_⟩
        · rw [receiveAll, List.foldl_cons, receive, if_neg fits]
          exact whole
        · rw [receiveAll, List.foldl_cons, receive, if_neg fits, List.length_cons]
          rw [receiveAll] at sizes
          change _ + kept.length = history.lost + 1 + records.length at sizes
          omega

theorem receiveAll_fits {capacity : Nat} {records : List (List UInt8)} {history : BufferHistory}
    (fits : history.kept.flatten.length + records.flatten.length ≤ capacity) :
    (history.receiveAll capacity records).kept = history.kept ++ records ∧
      (history.receiveAll capacity records).lost = history.lost := by
  induction records generalizing history with
  | nil => exact ⟨(List.append_nil _).symm, rfl⟩
  | cons record records ih =>
      rw [List.flatten_cons, List.length_append] at fits
      have room : history.kept.flatten.length + record.length ≤ capacity := by omega
      have later : (history.kept ++ [record]).flatten.length + records.flatten.length ≤
          capacity := by
        rw [List.flatten_append, List.length_append, List.flatten_singleton]
        omega
      rw [receiveAll, List.foldl_cons, receive, if_pos room]
      obtain ⟨kept, lost⟩ := @ih { history with kept := history.kept ++ [record] } later
      exact ⟨kept.trans (List.append_assoc _ _ _), lost⟩

end BufferHistory

section Steps
variable {host : LogHost} {m : LogMachine}

theorem stepLog_log_filtered {level : LogLevel} (stops : level.rank > m.logLevel.rank)
    (message : CString) : stepLog host m (.log level message) = m := by
  rw [stepLog, log, bind_run_of_some (get_run host m), if_pos stops]
  rfl

theorem stepLog_logToBuffer_filtered {id : Nat} {level : LogLevel}
    (stops : level.rank > (m.buffers id).logLevel.rank) (message : CString) :
    stepLog host m (.logToBuffer id level message) = m := by
  rw [stepLog, logToBuffer, bind_run_of_some (get_run host m), if_pos stops]
  rfl

theorem stepLog_log_passes (succeeds : host.AllCallsSucceed) {level : LogLevel}
    (passes : ¬ level.rank > m.logLevel.rank) (message : CString) :
    ∃ m', stepLog host m (.log level message) = m' ∧ m'.logLevel = m.logLevel ∧
      m'.output = m.output ++ recordText host m.calls level message ∧
      m'.logMessagesWritten = m.logMessagesWritten + 1 := by
  obtain ⟨calls, run⟩ := log_run succeeds m passes message
  refine ⟨_, congrArg Prod.snd run, rfl, ?_, rfl⟩
  rw [LogMachine.output, List.flatMap_append, List.flatMap_singleton]
  rfl

theorem stepLog_logToBuffer_passes (succeeds : host.AllCallsSucceed) {id capacity : Nat}
    {level : LogLevel} {history : BufferHistory}
    (passes : ¬ level.rank > (m.buffers id).logLevel.rank)
    (holds : (m.buffers id).Holds capacity history) (message : CString) :
    ∃ m', stepLog host m (.logToBuffer id level message) = m' ∧
      (m'.buffers id).logLevel = (m.buffers id).logLevel ∧
      (m'.buffers id).Holds capacity
        (history.receive capacity (recordText host m.calls level message)) ∧
      m'.sessions = m.sessions ∧ m'.logMessagesWritten = m.logMessagesWritten := by
  obtain ⟨calls, run⟩ := logToBuffer_run succeeds m passes message
  have received := @LogBuffer.Holds.receive _ _ _ holds (recordText host m.calls level message)
    (by simp [recordText])
  refine ⟨_, congrArg Prod.snd run, ?_, ?_, rfl, rfl⟩
  · simp only [LogMachine.setBuffer, Function.update_self]
    split <;> rfl
  · simpa only [LogMachine.setBuffer, Function.update_self] using received

end Steps

section Lockstep
variable {host host' : LogHost} (succeeds : host.AllCallsSucceed)
  (succeeds' : host'.AllCallsSucceed)
include succeeds succeeds'

omit succeeds succeeds' in
theorem recordText_of_times {n n' : Nat}
    (times : (host.localTime (n + 1), host.nanoseconds n) =
      (host'.localTime (n' + 1), host'.nanoseconds n')) (level : LogLevel) (message : CString) :
    recordText host n level message = recordText host' n' level message := by
  obtain ⟨local_time, nanoseconds⟩ := Prod.mk.inj times
  rw [recordText, recordText, local_time, nanoseconds]

/-- What the direct run has written, the buffered run has received. -/
theorem logged_in_lockstep (messages : List (LogLevel × CString)) {m n : LogMachine} {id : Nat}
    {capacity : Nat} {history : BufferHistory} (levels : (n.buffers id).logLevel = m.logLevel)
    (holds : (n.buffers id).Holds capacity history)
    (times : timesRead host m (logDirectly messages) = timesRead host' n (logThrough id messages)) :
    let m' := (logDirectly messages).foldl (stepLog host) m
    let n' := (logThrough id messages).foldl (stepLog host') n
    ∃ records, records = loggedRecords (logEvents host m (logDirectly messages)) ∧
      m'.output = m.output ++ records.flatten ∧
      m'.logMessagesWritten = m.logMessagesWritten + records.length ∧
      n'.sessions = n.sessions ∧ n'.logMessagesWritten = n.logMessagesWritten ∧
      (n'.buffers id).Holds capacity (history.receiveAll capacity records) := by
  induction messages generalizing m n history with
  | nil => exact ⟨[], rfl, (List.append_nil _).symm, rfl, rfl, rfl, holds⟩
  | cons message messages ih =>
      obtain ⟨level, text⟩ := message
      simp only [logDirectly, logThrough, List.map_cons, List.foldl_cons, timesRead,
        LogOperation.timeRead, logEvents, LogOperation.events] at times ⊢
      by_cases stops : level.rank > m.logLevel.rank
      · have stops' : level.rank > (n.buffers id).logLevel.rank := by rw [levels]; exact stops
        rw [if_pos stops, if_pos stops', List.nil_append, List.nil_append,
          stepLog_log_filtered stops, stepLog_logToBuffer_filtered stops'] at times
        rw [stepLog_log_filtered stops, stepLog_logToBuffer_filtered stops', if_pos stops]
        exact ih levels holds times
      · have passes : ¬ level.rank > (n.buffers id).logLevel.rank := by rw [levels]; exact stops
        rw [if_neg stops, if_neg passes, List.singleton_append, List.singleton_append] at times
        obtain ⟨time, later⟩ := List.cons.inj times
        obtain ⟨m₁, first, level₁, output₁, counted₁⟩ := stepLog_log_passes succeeds stops text
        obtain ⟨n₁, second, levels₁, holds₁, quiet₁, uncounted₁⟩ :=
          stepLog_logToBuffer_passes succeeds' passes holds text
        rw [first, second] at later
        rw [first, second, if_neg stops]
        rw [← recordText_of_times time level text] at holds₁
        obtain ⟨records, logged, output, counted, quiet, uncounted, holds₂⟩ :=
          ih (by rw [levels₁, levels, level₁]) holds₁ later
        refine ⟨recordText host m.calls level text :: records, ?_, ?_, ?_, quiet.trans quiet₁,
          uncounted.trans uncounted₁, holds₂⟩
        · rw [logged]
          rfl
        · refine output.trans ?_
          rw [output₁, List.flatten_cons, List.append_assoc]
        · refine counted.trans ?_
          rw [counted₁, List.length_cons]
          omega

omit succeeds in
/-- A drain writes the warning, if there is something lost, and then what is kept. -/
theorem stepLog_drain {n : LogMachine} {id capacity : Nat} {history : BufferHistory}
    (holds : (n.buffers id).Holds capacity history) :
    ∃ timestamp, (stepLog host' n (.logDrain [id])).output = n.output ++
        (if 0 < history.lost then (Piece.lost id history.lost timestamp).bytes else []) ++
        history.kept.flatten ∧
      (stepLog host' n (.logDrain [id])).logMessagesWritten =
        n.logMessagesWritten + history.kept.length := by
  obtain ⟨calls, timestamp, run⟩ := drainStep_run succeeds' n id
  have drained : stepLog host' n (.logDrain [id]) = drainStep host' n id :=
    logDrain_state [id] n true
  refine ⟨timestamp, ?_⟩
  rw [drained, run]
  have dumped : (n.buffers id).data.take (n.buffers id).writePosition = history.kept.flatten := by
    rw [holds.valid.holds, holds.kept]
  have entries : (n.buffers id).entryCount = history.kept.length := by
    rw [holds.valid.counted, holds.kept]
  by_cases some_data : 0 < (n.buffers id).writePosition
  · simp only [LogMachine.output, LogMachine.setBuffer, if_pos some_data, dumped, entries,
      holds.lost, List.flatMap_append, List.flatMap_singleton, List.append_assoc]
    refine ⟨?_, trivial⟩
    split <;> simp
  · have none_kept : history.kept = [] := by
      rw [← holds.kept]
      exact not_not.mp (mt holds.valid.position_pos_iff.mpr some_data)
    simp only [LogMachine.output, LogMachine.setBuffer, if_neg some_data, none_kept, holds.lost,
      List.flatMap_append, List.append_nil, List.flatten_nil, List.length_nil, Nat.add_zero]
    refine ⟨?_, trivial⟩
    split <;> simp

/-- The buffered path against the direct one: the same records, of which the drain writes
those that fit, in one piece, behind the number of the others. When they all fit, the
bytes and the counter are those of the direct run. -/
theorem buffered_matches_direct {m n : LogMachine} {id capacity : Nat}
    (levels : (n.buffers id).logLevel = m.logLevel)
    (unused : (n.buffers id).Holds capacity .empty) (messages : List (LogLevel × CString))
    (times : timesRead host m (logDirectly messages) = timesRead host' n (logThrough id messages)) :
    let m' := (logDirectly messages).foldl (stepLog host) m
    let n' := (logThrough id messages ++ [LogOperation.logDrain [id]]).foldl (stepLog host') n
    let records := loggedRecords (logEvents host m (logDirectly messages))
    ∃ (kept : List (List UInt8)) (lost : Nat) (timestamp : List UInt8),
      (m'.output = m.output ++ records.flatten ∧
        m'.logMessagesWritten = m.logMessagesWritten + records.length) ∧
      (n'.output = n.output ++ (if 0 < lost then (Piece.lost id lost timestamp).bytes else []) ++
          kept.flatten ∧
        n'.logMessagesWritten = n.logMessagesWritten + kept.length) ∧
      kept.Sublist records ∧ lost + kept.length = records.length ∧
      (records.flatten.length ≤ capacity → kept = records ∧ lost = 0) := by
  intro m' n' records
  obtain ⟨_, rfl, output, counted, quiet, uncounted, holds⟩ :=
    logged_in_lockstep succeeds succeeds' messages levels unused times
  obtain ⟨timestamp, drained, drained_count⟩ := stepLog_drain succeeds' holds
  obtain ⟨kept, whole, sublist, sizes⟩ := BufferHistory.receiveAll_kept capacity records .empty
  have same : (BufferHistory.empty.receiveAll capacity records).kept = kept := whole
  rw [same] at drained drained_count
  have last : n' = stepLog host' ((logThrough id messages).foldl (stepLog host') n)
      (.logDrain [id]) := List.foldl_append
  refine ⟨kept, (BufferHistory.empty.receiveAll capacity records).lost, timestamp,
    ⟨output, counted⟩, ⟨?_, ?_⟩, sublist, ?_, fun fits => ?_⟩
  · rw [last, drained, LogMachine.output, LogMachine.output, quiet]
  · rw [last, drained_count, uncounted]
  · rw [sizes]
    exact Nat.zero_add _
  · have room : BufferHistory.empty.kept.flatten.length + records.flatten.length ≤ capacity := by
      rw [show BufferHistory.empty.kept.flatten.length = 0 from rfl, Nat.zero_add]
      exact fits
    obtain ⟨all, none_lost⟩ := BufferHistory.receiveAll_fits room
    exact ⟨same.symm.trans all, none_lost⟩

end Lockstep

/-- Three messages, of which the level stops the second. -/
def threeMessages : List (LogLevel × CString) :=
  [(.error, .lit "disk full"), (.debug, .lit "retrying"), (.info, .lit "recovered")]

theorem buffered_matches_direct_three :
    let m := LogMachine.started .info (fun _ => List.replicate 128 0) fun _ => .info
    let m' := (logDirectly threeMessages).foldl (stepLog obligingStderr) m
    let n' := (logThrough 0 threeMessages ++ [LogOperation.logDrain [0]]).foldl
      (stepLog obligingStderr) m
    m'.output = n'.output ∧ m'.logMessagesWritten = n'.logMessagesWritten := by
  intro m m' n'
  have succeeds : obligingStderr.AllCallsSucceed := fun _ _ => rfl
  have times : timesRead obligingStderr m (logDirectly threeMessages) =
      timesRead obligingStderr m (logThrough 0 threeMessages) := by decide +kernel
  have unused : (m.buffers 0).Holds 128 .empty :=
    ⟨LogBuffer.created_valid _ _, List.length_replicate, rfl, rfl⟩
  obtain ⟨kept, lost, timestamp, ⟨direct, counted⟩, ⟨drained, drained_count⟩, _, _, fits⟩ :=
    buffered_matches_direct succeeds succeeds rfl unused threeMessages times
  have bytes : m'.output.length ≤ 128 := by decide +kernel
  have room : (loggedRecords (logEvents obligingStderr m
      (logDirectly threeMessages))).flatten.length ≤ 128 := by
    rw [direct, List.length_append] at bytes
    omega
  obtain ⟨rfl, rfl⟩ := fits room
  constructor
  · rw [direct, drained]
    simp
  · rw [counted, drained_count]

end BcRuntime
