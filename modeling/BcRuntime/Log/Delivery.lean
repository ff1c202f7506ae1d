import BcRuntime.Log.Counter
import Mathlib.Algebra.BigOperators.Group.List.Basic

/-!
What buffered logging delivers, told without bytes or positions. A message that
passes its filter is handed over at once, or is kept until its buffer is next
drained, or is lost when the records already kept leave no room for it. When the
calls outside succeed the functions do exactly this, for any order of logging
and draining over any buffers.
-/

namespace BcRuntime
open Fallible LogRun

/-- A message that passed its filter, or one buffer of the list of a drain. -/
inductive LogEvent
  | logged (record : List UInt8)
  | buffered (id : Nat) (record : List UInt8)
  | drained (id : Nat)

/-- The messages of one buffer. Those `kept` and those `lost` since its last drain
wait for the next one; `delivered` and `reported` are what its drains have told. -/
structure BufferHistory where
  kept : List (List UInt8)
  lost : Nat
  delivered : List (List UInt8)
  reported : Nat

namespace BufferHistory

def empty : BufferHistory := ⟨[], 0, [], 0⟩

def receive (capacity : Nat) (history : BufferHistory) (record : List UInt8) : BufferHistory :=
  if history.kept.flatten.length + record.length ≤ capacity then
    { history with kept := history.kept ++ [record] }
  else { history with lost := history.lost + 1 }

def drain (history : BufferHistory) : BufferHistory where
  kept := []
  lost := 0
  delivered := history.delivered ++ history.kept
  reported := history.reported + history.lost

def step (capacity id : Nat) (history : BufferHistory) : LogEvent → BufferHistory
  | .logged _ => history
  | .buffered other record => if other = id then history.receive capacity record else history
  | .drained other => if other = id then history.drain else history

end BufferHistory

def bufferHistory (capacity id : Nat) (events : List LogEvent) : BufferHistory :=
  events.foldl (BufferHistory.step capacity id) .empty

def loggedRecords : List LogEvent → List (List UInt8) :=
  List.filterMap fun
    | .logged record => some record
    | _ => none

/-- A part of the output: a record, logged directly or through a buffer, or the
warning that tells how many messages of a buffer are lost. -/
inductive Piece
  | record (source : Option Nat) (bytes : List UInt8)
  | lost (id count : Nat) (timestamp : List UInt8)

namespace Piece

def bytes : Piece → List UInt8
  | .record _ bytes => bytes
  | .lost _ count timestamp =>
      [timestamp, [32], levelPrefix .warn, [32], (CString.lit (toString count)).bytes,
        (CString.lit " log messages lost (buffer full)\n").bytes].flatten

def recordFrom (source : Option Nat) : Piece → Option (List UInt8)
  | .record other bytes => if other = source then some bytes else none
  | .lost _ _ _ => none

def lostFrom (id : Nat) : Piece → Option Nat
  | .record _ _ => none
  | .lost other count _ => if other = id then some count else none

def isRecord : Piece → Bool
  | .record _ _ => true
  | .lost _ _ _ => false

section Records
variable (source : Option Nat) (records : List (List UInt8))

theorem bytes_records : (records.map (record source)).flatMap bytes = records.flatten := by
  simp [List.flatMap_map, bytes, List.flatMap_id']

theorem recordFrom_records (other : Option Nat) :
    (records.map (record source)).filterMap (recordFrom other) =
      if source = other then records else [] := by
  rw [List.filterMap_map]
  by_cases same : source = other
  · simp [recordFrom, same]
  · simp [recordFrom, same]

theorem lostFrom_records (id : Nat) :
    (records.map (record source)).filterMap (lostFrom id) = [] := by
  simp [List.filterMap_map, Function.comp_def, lostFrom]

theorem countP_records : (records.map (record source)).countP isRecord = records.length := by
  simp [List.countP_map, Function.comp_def, isRecord]

end Records

end Piece

/-- The pieces are the output and tell each event once, in order. -/
structure Delivers (capacity : Nat → Nat) (events : List LogEvent) (m : LogMachine)
    (pieces : List Piece) : Prop where
  output : m.sessions.flatMap Written.bytes = pieces.flatMap Piece.bytes
  logged : pieces.filterMap (Piece.recordFrom none) = loggedRecords events
  delivered : ∀ id, pieces.filterMap (Piece.recordFrom (some id)) =
    (bufferHistory (capacity id) id events).delivered
  reported : ∀ id, (pieces.filterMap (Piece.lostFrom id)).sum =
    (bufferHistory (capacity id) id events).reported
  counted : m.logMessagesWritten = pieces.countP Piece.isRecord

/-- Everything outside succeeds: the clock, the writes and the `bc_core` calls. -/
def LogHost.AllCallsSucceed (host : LogHost) : Prop := ∀ n call, host.succeeds n call = true

/-- The record of a message whose formatting begins with the call numbered `n`. -/
def recordText (host : LogHost) (n : Nat) (level : LogLevel) (message : CString) : List UInt8 :=
  let header := timestampBytes (host.localTime (n + 1)) (host.nanoseconds n) ++ [32] ++
    levelPrefix level ++ [32]
  header ++ message.bytes.take (logStackSize - header.length - 1) ++ [newline]

def LogOperation.events (host : LogHost) (m : LogMachine) : LogOperation → List LogEvent
  | .log level message =>
      if level.rank > m.logLevel.rank then [] else [.logged (recordText host m.calls level message)]
  | .logToBuffer id level message =>
      if level.rank > (m.buffers id).logLevel.rank then []
      else [.buffered id (recordText host m.calls level message)]
  | .logDrain ids => ids.map .drained
  | .logSetLevel _ => []

def logEvents (host : LogHost) : LogMachine → List LogOperation → List LogEvent
  | _, [] => []
  | m, operation :: operations =>
      operation.events host m ++ logEvents host (stepLog host m operation) operations

section Specs
variable {host : LogHost} (succeeds : host.AllCallsSucceed) (m : LogMachine)
include succeeds

theorem external_run (call : LogCall) :
    external call host m = (some m.calls, { m with calls := m.calls + 1 }) := by
  rw [external, if_pos (succeeds m.calls call)]

theorem logFormatTimestamp_run (bufferSize : Nat) (room : 29 ≤ bufferSize) :
    logFormatTimestamp bufferSize host m =
      (some (timestampBytes (host.localTime (m.calls + 1)) (host.nanoseconds m.calls)),
        { m with calls := m.calls + 2 }) := by
  rw [logFormatTimestamp, if_neg (not_lt.mpr room),
    bind_run_of_some (external_run succeeds m .clockGettime),
    bind_run_of_some (external_run succeeds _ .localtime)]
  rfl

theorem formatRecord_run (level : LogLevel) (message : CString) :
    formatRecordIntoBuffer level message logStackSize host m =
      (some (recordText host m.calls level message), { m with calls := m.calls + 5 }) := by
  have room : ¬ (timestampBytes (host.localTime (m.calls + 1)) (host.nanoseconds m.calls)).length +
      1 + levelPrefixLength + 1 + 1 > logStackSize := by
    simp [timestampBytes, levelPrefixLength, logStackSize]
  rw [formatRecordIntoBuffer, bind_run_of_some (logFormatTimestamp_run succeeds m _ (by decide)),
    if_neg room, bind_run_of_some (external_run succeeds _ _),
    bind_run_of_some (external_run succeeds _ _), bind_run_of_some (external_run succeeds _ _),
    take_messageLength]
  rfl

theorem writeToStderr_run (data : List UInt8) (records : List (List UInt8)) :
    ∃ calls, writeToStderr data records host m =
      (some (), { m with calls := calls, sessions := m.sessions ++ [⟨data, records⟩] }) := by
  have spec : wp (writeToStderr data records) _ _ host m := writeToStderr_spec host m data records
  have reached : wp (writeToStderr data records) _ (fun _ => False) host m :=
    wp_mono spec (fun _ _ wrote => wrote.2) fun _ failed =>
      failed.1 ⟨succeeds _ _, succeeds _ _, succeeds _ _⟩
  obtain ⟨_, m', run, calls, written⟩ := exists_run_of_wp reached
  exact ⟨calls, written ▸ run⟩

theorem writePieces_run (pieces : List (List UInt8)) :
    ∃ calls, writePieces pieces host m = (some (), { m with calls := calls }) := by
  induction pieces generalizing m with
  | nil => exact ⟨m.calls, rfl⟩
  | cons piece pieces ih =>
      rw [writePieces, bind_run_of_some (external_run succeeds m _)]
      exact ih _

theorem log_run {level : LogLevel} (passes : ¬ level.rank > m.logLevel.rank)
    (message : CString) :
    ∃ calls, log level message host m = (some (), { m with
      calls := calls
      sessions := m.sessions ++ [⟨recordText host m.calls level message,
        [recordText host m.calls level message]⟩]
      logMessagesWritten := m.logMessagesWritten + 1 }) := by
  have formatted := formatRecord_run succeeds m level message
  obtain ⟨calls, written⟩ := writeToStderr_run succeeds { m with calls := m.calls + 5 }
    (recordText host m.calls level message) [recordText host m.calls level message]
  refine ⟨calls, ?_⟩
  rw [log, bind_run_of_some (get_run host m), if_neg passes, bind_run_of_some formatted,
    bind_run_of_some written]
  rfl

theorem logToBuffer_run {id : Nat} {level : LogLevel}
    (passes : ¬ level.rank > (m.buffers id).logLevel.rank) (message : CString) :
    ∃ calls, logToBuffer id level message host m = (some (), LogMachine.setBuffer
      { m with calls := calls } id
      (if (m.buffers id).writePosition + (recordText host m.calls level message).length >
          (m.buffers id).capacity then (m.buffers id).overflow
        else (m.buffers id).store (recordText host m.calls level message))) := by
  have formatted := formatRecord_run succeeds m level message
  rw [logToBuffer, bind_run_of_some (get_run host m), if_neg passes, bind_run_of_some formatted]
  split
  · exact ⟨_, rfl⟩
  · rw [bind_run_of_some (external_run succeeds _ _)]
    exact ⟨_, rfl⟩

theorem drainOverflow_run (id : Nat) :
    ∃ calls timestamp, (drainOverflow id host m).2 =
      if 0 < (m.buffers id).overflowCount then { m with
        calls := calls
        sessions := m.sessions ++
          [⟨(Piece.lost id (m.buffers id).overflowCount timestamp).bytes, []⟩] }
      else m := by
  by_cases some_lost : (m.buffers id).overflowCount > 0
  · obtain ⟨calls, written⟩ := writePieces_run succeeds { m with calls := m.calls + 3 }
      [timestampBytes (host.localTime (m.calls + 2)) (host.nanoseconds (m.calls + 1)), [32],
        levelPrefix .warn, [32], (CString.lit (toString (m.buffers id).overflowCount)).bytes,
        (CString.lit " log messages lost (buffer full)\n").bytes]
    refine ⟨calls + 1,
      timestampBytes (host.localTime (m.calls + 2)) (host.nanoseconds (m.calls + 1)), ?_⟩
    rw [if_pos some_lost]
    rw [drainOverflow, bind_run_of_some (get_run host m), if_pos some_lost]
    change (drainWriteOverflowWarning _ host m).2 = _
    rw [drainWriteOverflowWarning, bind_run_of_some (external_run succeeds m .writerInit),
      bind_run_of_some (logFormatTimestamp_run succeeds _ 32 (by decide)),
      bind_run_of_some written, bind_run_of_some (external_run succeeds _ .writerDestroy)]
    rfl
  · refine ⟨0, [], ?_⟩
    rw [if_neg some_lost]
    rw [drainOverflow, bind_run_of_some (get_run host m), if_neg some_lost]
    rfl

theorem drainEntries_run (id : Nat) :
    ∃ calls, (drainEntries id host m).2 =
      if 0 < (m.buffers id).writePosition then LogMachine.setBuffer { m with
        calls := calls
        sessions := m.sessions ++ [⟨(m.buffers id).data.take (m.buffers id).writePosition,
          (m.buffers id).records⟩]
        logMessagesWritten := m.logMessagesWritten + (m.buffers id).entryCount }
        id (m.buffers id).reset
      else m.setBuffer id (m.buffers id).reset := by
  by_cases some_data : (m.buffers id).writePosition > 0
  · obtain ⟨calls, written⟩ := writeToStderr_run succeeds m
      ((m.buffers id).data.take (m.buffers id).writePosition) (m.buffers id).records
    refine ⟨calls, ?_⟩
    rw [if_pos some_data, drainEntries, bind_run_of_some (get_run host m)]
    simp only [if_pos some_data, drainDumpBuffer, attempt, bind_run, written]
    rfl
  · refine ⟨0, ?_⟩
    rw [if_neg some_data, drainEntries, bind_run_of_some (get_run host m)]
    simp only [if_neg some_data]
    rfl

end Specs

/-- A buffer holds what its history keeps for the next drain. -/
structure LogBuffer.Holds (capacity : Nat) (buffer : LogBuffer) (history : BufferHistory) :
    Prop where
  valid : buffer.Valid
  capacity_eq : buffer.capacity = capacity
  kept : buffer.records = history.kept
  lost : buffer.overflowCount = history.lost

theorem LogBuffer.Holds.receive {capacity : Nat} {buffer : LogBuffer} {history : BufferHistory}
    (holds : buffer.Holds capacity history) {record : List UInt8} (some_byte : record ≠ []) :
    LogBuffer.Holds capacity
      (if buffer.writePosition + record.length > buffer.capacity then buffer.overflow
        else buffer.store record) (history.receive capacity record) := by
  have position : history.kept.flatten.length = buffer.writePosition := by
    rw [← holds.kept, holds.valid.length_records]
  by_cases full : buffer.writePosition + record.length > buffer.capacity
  · have lost : ¬ history.kept.flatten.length + record.length ≤ capacity := by
      rw [position, ← holds.capacity_eq]
      exact not_le.mpr full
    rw [if_pos full, BufferHistory.receive, if_neg lost]
    exact ⟨holds.valid.overflow, holds.capacity_eq, holds.kept, congrArg (· + 1) holds.lost⟩
  · have fits : history.kept.flatten.length + record.length ≤ capacity := by
      rw [position, ← holds.capacity_eq]
      exact not_lt.mp full
    rw [if_neg full, BufferHistory.receive, if_pos fits]
    exact ⟨holds.valid.store some_byte (not_lt.mp full), holds.capacity_eq,
      congrArg (· ++ [record]) holds.kept, holds.lost⟩

theorem LogBuffer.Holds.drain {capacity : Nat} {buffer : LogBuffer} {history : BufferHistory}
    (holds : buffer.Holds capacity history) : buffer.reset.Holds capacity history.drain :=
  ⟨holds.valid.reset, holds.capacity_eq, rfl, rfl⟩

theorem bufferHistory_append (capacity id : Nat) (events : List LogEvent) (event : LogEvent) :
    bufferHistory capacity id (events ++ [event]) =
      (bufferHistory capacity id events).step capacity id event := by
  rw [bufferHistory, List.foldl_append]
  rfl

/-- The state after the events; the buffers hold what is still to be delivered. -/
structure InStep (capacity : Nat → Nat) (events : List LogEvent) (m : LogMachine) : Prop where
  delivers : ∃ pieces, Delivers capacity events m pieces
  holds : ∀ id, (m.buffers id).Holds (capacity id) (bufferHistory (capacity id) id events)

section Steps
variable {capacity : Nat → Nat} {events : List LogEvent} {m : LogMachine}

theorem Delivers.append {pieces : List Piece} (before : Delivers capacity events m pieces)
    {event : LogEvent} {m' : LogMachine} (more : List Piece)
    (output : m'.sessions.flatMap Written.bytes =
      m.sessions.flatMap Written.bytes ++ more.flatMap Piece.bytes)
    (logged : more.filterMap (Piece.recordFrom none) = loggedRecords [event])
    (delivered : ∀ id, ((bufferHistory (capacity id) id events).step (capacity id) id
      event).delivered = (bufferHistory (capacity id) id events).delivered ++
        more.filterMap (Piece.recordFrom (some id)))
    (reported : ∀ id, ((bufferHistory (capacity id) id events).step (capacity id) id
      event).reported = (bufferHistory (capacity id) id events).reported +
        (more.filterMap (Piece.lostFrom id)).sum)
    (counted : m'.logMessagesWritten = m.logMessagesWritten + more.countP Piece.isRecord) :
    Delivers capacity (events ++ [event]) m' (pieces ++ more) where
  output := by rw [output, before.output, List.flatMap_append]
  logged := by
    rw [List.filterMap_append, before.logged, logged]
    exact List.filterMap_append.symm
  delivered := fun id => by
    rw [List.filterMap_append, before.delivered, bufferHistory_append, delivered]
  reported := fun id => by
    rw [List.filterMap_append, List.sum_append, before.reported, bufferHistory_append, reported]
  counted := by rw [counted, before.counted, List.countP_append]

theorem InStep.logged (before : InStep capacity events m) (record : List UInt8) (calls : Nat) :
    InStep capacity (events ++ [.logged record]) { m with
      calls := calls
      sessions := m.sessions ++ [⟨record, [record]⟩]
      logMessagesWritten := m.logMessagesWritten + 1 } := by
  obtain ⟨pieces, delivers⟩ := before.delivers
  refine ⟨⟨_, delivers.append [.record none record] ?_ rfl (fun id => ?_) (fun id => ?_) rfl⟩,
    fun id => ?_⟩
  · simp [Piece.bytes]
  · exact (List.append_nil _).symm
  · rfl
  · rw [bufferHistory_append]
    exact before.holds id

theorem InStep.setBuffer (before : InStep capacity events m) {id : Nat} {buffer : LogBuffer}
    {record : List UInt8}
    (holds : buffer.Holds (capacity id)
      ((bufferHistory (capacity id) id events).receive (capacity id) record)) (calls : Nat) :
    InStep capacity (events ++ [.buffered id record])
      (LogMachine.setBuffer { m with calls := calls } id buffer) := by
  obtain ⟨pieces, delivers⟩ := before.delivers
  have receive : ∀ capacity (history : BufferHistory),
      (history.receive capacity record).delivered = history.delivered ∧
        (history.receive capacity record).reported = history.reported := by
    intro capacity history
    rw [BufferHistory.receive]
    split <;> exact ⟨rfl, rfl⟩
  refine ⟨⟨_, delivers.append [] (List.append_nil _).symm rfl (fun other => ?_)
    (fun other => ?_) rfl⟩, fun other => ?_⟩
  · rw [List.filterMap_nil, List.append_nil, BufferHistory.step]
    split
    · exact (receive _ _).1
    · rfl
  · rw [BufferHistory.step]
    split
    · exact (receive _ _).2
    · rfl
  · rw [bufferHistory_append, BufferHistory.step]
    by_cases same : id = other
    · subst same
      simpa [LogMachine.setBuffer] using holds
    · rw [if_neg same]
      simpa [LogMachine.setBuffer, Ne.symm same] using before.holds other

theorem drainStep_run {host : LogHost} (succeeds : host.AllCallsSucceed) (m : LogMachine)
    (id : Nat) :
    ∃ calls timestamp, drainStep host m id = LogMachine.setBuffer { m with
      calls := calls
      sessions := m.sessions ++
        ((if 0 < (m.buffers id).overflowCount then
          [⟨(Piece.lost id (m.buffers id).overflowCount timestamp).bytes, []⟩] else []) ++
        (if 0 < (m.buffers id).writePosition then
          [⟨(m.buffers id).data.take (m.buffers id).writePosition, (m.buffers id).records⟩] else []))
      logMessagesWritten := m.logMessagesWritten +
        (if 0 < (m.buffers id).writePosition then (m.buffers id).entryCount else 0) }
      id (m.buffers id).reset := by
  obtain ⟨warned, timestamp, warning⟩ := drainOverflow_run succeeds m id
  obtain ⟨dumped, dump⟩ := drainEntries_run succeeds (drainOverflow id host m).2 id
  have same : (drainOverflow id host m).2.buffers = m.buffers := by
    rw [warning]
    split <;> rfl
  rw [same] at dump
  by_cases some_data : 0 < (m.buffers id).writePosition
  · refine ⟨dumped, timestamp, ?_⟩
    rw [drainStep, dump, warning, if_pos some_data, if_pos some_data, if_pos some_data]
    split <;> simp [LogMachine.setBuffer]
  · refine ⟨(drainOverflow id host m).2.calls, timestamp, ?_⟩
    rw [drainStep, dump, if_neg some_data, if_neg some_data, if_neg some_data, warning]
    split <;> simp [LogMachine.setBuffer]

theorem InStep.drained {host : LogHost} (succeeds : host.AllCallsSucceed)
    (before : InStep capacity events m) (id : Nat) :
    InStep capacity (events ++ [.drained id]) (drainStep host m id) := by
  obtain ⟨pieces, delivers⟩ := before.delivers
  obtain ⟨calls, timestamp, run⟩ := drainStep_run succeeds m id
  have holds := before.holds id
  -- An empty buffer is not dumped, and has nothing to be counted either.
  have dump : ∀ filled : List Written, filled = [⟨(m.buffers id).data.take
      (m.buffers id).writePosition, (m.buffers id).records⟩] →
      ((if 0 < (m.buffers id).writePosition then filled else []).flatMap Written.bytes =
          (m.buffers id).records.flatten ∧
        (if 0 < (m.buffers id).writePosition then (m.buffers id).entryCount else 0) =
          (m.buffers id).records.length) := by
    rintro filled rfl
    by_cases some_data : 0 < (m.buffers id).writePosition
    · rw [if_pos some_data, if_pos some_data, holds.valid.counted]
      exact ⟨by simp [holds.valid.holds], rfl⟩
    · have none : (m.buffers id).records = [] :=
        not_not.mp (mt holds.valid.position_pos_iff.mpr some_data)
      rw [if_neg some_data, if_neg some_data, none]
      exact ⟨rfl, rfl⟩
  obtain ⟨bytes, count⟩ := dump _ rfl
  refine ⟨⟨_, delivers.append ((if 0 < (m.buffers id).overflowCount then
      [.lost id (m.buffers id).overflowCount timestamp] else []) ++
      (m.buffers id).records.map (Piece.record (some id))) ?_ ?_ (fun other => ?_) (fun other => ?_)
      ?_⟩, fun other => ?_⟩
  · rw [run]
    simp only [LogMachine.setBuffer, List.flatMap_append, bytes, Piece.bytes_records]
    split <;> simp
  · rw [List.filterMap_append, Piece.recordFrom_records]
    split <;> rfl
  · rw [List.filterMap_append, Piece.recordFrom_records, holds.kept, BufferHistory.step]
    by_cases same : id = other
    · subst same
      rw [if_pos rfl, if_pos rfl]
      split <;> simp [BufferHistory.drain, Piece.recordFrom]
    · rw [if_neg same, if_neg (fun equal => same (Option.some.inj equal))]
      split <;> simp [Piece.recordFrom]
  · rw [List.filterMap_append, Piece.lostFrom_records, List.append_nil, holds.lost,
      BufferHistory.step]
    by_cases same : id = other
    · subst same
      rw [if_pos rfl, BufferHistory.drain]
      split
      · simp [Piece.lostFrom]
      · rename_i none_lost
        simp [Nat.eq_zero_of_not_pos none_lost]
    · rw [if_neg same]
      split <;> simp [Piece.lostFrom, same]
  · rw [run, List.countP_append, Piece.countP_records, count]
    split <;> simp [LogMachine.setBuffer, Piece.isRecord]
  · rw [run, bufferHistory_append, BufferHistory.step]
    by_cases same : id = other
    · subst same
      simpa [LogMachine.setBuffer] using holds.drain
    · rw [if_neg same]
      simpa [LogMachine.setBuffer, Ne.symm same] using before.holds other

end Steps

theorem InStep.step {capacity : Nat → Nat} {events : List LogEvent} {m : LogMachine}
    {host : LogHost} (succeeds : host.AllCallsSucceed) (before : InStep capacity events m)
    (operation : LogOperation) :
    InStep capacity (events ++ operation.events host m) (stepLog host m operation) := by
  cases operation with
  | log level message =>
      by_cases filtered : level.rank > m.logLevel.rank
      · have unchanged : (log level message host m).2 = m := by
          rw [log, bind_run_of_some (get_run host m), if_pos filtered]
          rfl
        simpa [LogOperation.events, stepLog, filtered, unchanged] using before
      · obtain ⟨calls, run⟩ := log_run succeeds m filtered message
        rw [LogOperation.events, if_neg filtered, stepLog, run]
        exact before.logged _ calls
  | logToBuffer id level message =>
      by_cases filtered : level.rank > (m.buffers id).logLevel.rank
      · have unchanged : (logToBuffer id level message host m).2 = m := by
          rw [logToBuffer, bind_run_of_some (get_run host m), if_pos filtered]
          rfl
        simpa [LogOperation.events, stepLog, filtered, unchanged] using before
      · obtain ⟨calls, run⟩ := logToBuffer_run succeeds m filtered message
        rw [LogOperation.events, if_neg filtered, stepLog, run]
        exact before.setBuffer ((before.holds id).receive (by simp [recordText])) calls
  | logDrain ids =>
      have drained : ∀ events (m : LogMachine), InStep capacity events m →
          InStep capacity (events ++ ids.map .drained) (ids.foldl (drainStep host) m) := by
        induction ids with
        | nil =>
            intro events m before
            rwa [List.map_nil, List.append_nil]
        | cons id ids ih =>
            intro events m before
            rw [List.map_cons, List.append_cons]
            exact ih _ _ (before.drained succeeds id)
      rw [stepLog, logDrain_state]
      exact drained _ _ before
  | logSetLevel level =>
      rw [LogOperation.events, List.append_nil]
      exact ⟨before.delivers.imp fun _ delivers => ⟨delivers.output, delivers.logged,
        delivers.delivered, delivers.reported, delivers.counted⟩, before.holds⟩

theorem InStep.run {capacity : Nat → Nat} {events : List LogEvent} {m : LogMachine}
    {host : LogHost} (succeeds : host.AllCallsSucceed) (before : InStep capacity events m)
    (operations : List LogOperation) :
    InStep capacity (events ++ logEvents host m operations)
      (operations.foldl (stepLog host) m) := by
  induction operations generalizing events m with
  | nil => rwa [logEvents, List.append_nil]
  | cons operation operations ih =>
      rw [logEvents, ← List.append_assoc]
      exact ih (before.step succeeds operation)

theorem inStep_started (level : LogLevel) (blocks : Nat → List UInt8) (levels : Nat → LogLevel) :
    InStep (fun id => (blocks id).length) [] (.started level blocks levels) where
  delivers := ⟨[], rfl, rfl, fun _ => rfl, fun _ => rfl, rfl⟩
  holds := fun id => ⟨LogBuffer.created_valid (blocks id) (levels id), rfl, rfl, rfl⟩

/-- Whatever the order of logging and draining, the output tells every message once. -/
theorem run_delivers {host : LogHost} (succeeds : host.AllCallsSucceed) (level : LogLevel)
    (blocks : Nat → List UInt8) (levels : Nat → LogLevel) (operations : List LogOperation) :
    ∃ pieces, Delivers (fun id => (blocks id).length)
      (logEvents host (.started level blocks levels) operations)
      (operations.foldl (stepLog host) (.started level blocks levels)) pieces :=
  ((inStep_started level blocks levels).run succeeds operations).delivers

/-- Two buffers with room for one record each, and a drain that names one of them twice. -/
def interleavedLogging : List LogOperation :=
  [.logToBuffer 0 .error (.lit "first"), .logToBuffer 1 .info (.lit "second"),
    .log .warn (.lit "at once"), .logToBuffer 0 .error (.lit "no room"), .logDrain [0, 1, 0],
    .logToBuffer 0 .debug (.lit "third"), .logDrain [0]]

def obligingStderr : LogHost where
  succeeds := fun _ _ => true
  nanoseconds := fun _ => 0
  localTime := fun _ => ⟨126, 0, 1, 0, 0, 0⟩

theorem run_delivers_interleaved :
    ∃ pieces, Delivers (fun _ => 64)
      (logEvents obligingStderr (.started .debug (fun _ => List.replicate 64 0) fun _ => .debug)
        interleavedLogging)
      (interleavedLogging.foldl (stepLog obligingStderr)
        (.started .debug (fun _ => List.replicate 64 0) fun _ => .debug)) pieces := by
  have succeeds : obligingStderr.AllCallsSucceed := fun _ _ => rfl
  simpa using run_delivers succeeds .debug
    (fun _ => List.replicate 64 0) (fun _ => .debug) interleavedLogging

end BcRuntime
