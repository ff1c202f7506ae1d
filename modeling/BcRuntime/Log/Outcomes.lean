import BcRuntime.Log.BufferContents

/-!
What becomes of every message when anything outside may fail. A call of `bc_runtime_log`
tells by its result whether the message was handed over. A message taken by a buffer
can still be lost in three ways: there is no room for it, the drain that should write
it fails, or the warning that should count it fails; only the first is meant to be told.
-/

namespace BcRuntime
open Fallible LogRun

/-- What came of a call: a message handed over, a message taken by a buffer, or one
buffer of a drain with what came of its warning and of its dump. -/
inductive LogOutcome
  | written (record : List UInt8)
  | taken (id : Nat) (record : List UInt8)
  | drained (id : Nat) (warned dumped : Bool)

/-- The messages of a buffer: besides its history those it had room for, those of them
that a failing dump has lost, and how many lost ones no warning has told of. -/
structure BufferLedger extends BufferHistory where
  stored : List (List UInt8)
  dropped : List (List UInt8)
  unreported : Nat

namespace BufferLedger

def empty : BufferLedger where
  toBufferHistory := .empty
  stored := []
  dropped := []
  unreported := 0

def receive (capacity : Nat) (ledger : BufferLedger) (record : List UInt8) : BufferLedger :=
  { ledger with
    toBufferHistory := ledger.toBufferHistory.receive capacity record
    stored :=
      if ledger.kept.flatten.length + record.length ≤ capacity then ledger.stored ++ [record]
      else ledger.stored }

def drain (ledger : BufferLedger) (warned dumped : Bool) : BufferLedger where
  kept := []
  lost := 0
  delivered := ledger.delivered ++ if dumped then ledger.kept else []
  reported := ledger.reported + if warned then ledger.lost else 0
  stored := ledger.stored
  dropped := ledger.dropped ++ if dumped then [] else ledger.kept
  unreported := ledger.unreported + if warned then 0 else ledger.lost

def step (capacity id : Nat) (ledger : BufferLedger) : LogOutcome → BufferLedger
  | .written _ => ledger
  | .taken other record => if other = id then ledger.receive capacity record else ledger
  | .drained other warned dumped => if other = id then ledger.drain warned dumped else ledger

end BufferLedger

def bufferLedger (capacity id : Nat) (outcomes : List LogOutcome) : BufferLedger :=
  outcomes.foldl (BufferLedger.step capacity id) .empty

def writtenRecords : List LogOutcome → List (List UInt8) :=
  List.filterMap fun
    | .written record => some record
    | _ => none

def drainOutcomes (host : LogHost) : LogMachine → List Nat → List LogOutcome
  | _, [] => []
  | m, id :: ids =>
      .drained id ((drainOverflow id host m).1 == some true)
        ((drainEntries id host (drainOverflow id host m).2).1 == some true) ::
          drainOutcomes host (drainStep host m id) ids

/-- What a call has done, told by its result. -/
def callOutcomes (host : LogHost) (m : LogMachine) : LogOperation → List LogOutcome
  | .log level message =>
      if level.rank > m.logLevel.rank then []
      else (log level message host m).1.toList.map fun _ =>
        .written (recordText host m.calls level message)
  | .logToBuffer id level message =>
      if level.rank > (m.buffers id).logLevel.rank then []
      else (logToBuffer id level message host m).1.toList.map fun _ =>
        .taken id (recordText host m.calls level message)
  | .logDrain ids => drainOutcomes host m ids
  | .logSetLevel _ => []

def logOutcomes (host : LogHost) : LogMachine → List LogOperation → List LogOutcome
  | _, [] => []
  | m, operation :: operations =>
      callOutcomes host m operation ++ logOutcomes host (stepLog host m operation) operations

/-- The data of the sessions that succeeded and the counter against the outcomes;
`dropped` are the records that were counted although their dump failed. -/
structure Accounts (capacity : Nat → Nat) (outcomes : List LogOutcome) (m : LogMachine)
    (pieces dropped : List Piece) : Prop where
  output : m.sessions.flatMap Written.bytes = pieces.flatMap Piece.bytes
  written : pieces.filterMap (Piece.recordFrom none) = writtenRecords outcomes
  delivered : ∀ id, pieces.filterMap (Piece.recordFrom (some id)) =
    (bufferLedger (capacity id) id outcomes).delivered
  reported : ∀ id, (pieces.filterMap (Piece.lostFrom id)).sum =
    (bufferLedger (capacity id) id outcomes).reported
  undelivered : ∀ id, dropped.filterMap (Piece.recordFrom (some id)) =
    (bufferLedger (capacity id) id outcomes).dropped
  counted : m.logMessagesWritten = pieces.countP Piece.isRecord + dropped.length

/-- Every message taken is in one place: it had no room and is counted as lost, or it
is kept, or delivered, or dropped, with the order of the calls in each. -/
structure BufferLedger.Balanced (ledger : BufferLedger) (taken : List (List UInt8)) : Prop where
  stored : ledger.stored.Sublist taken
  counted : ledger.stored.length + ledger.lost + ledger.reported + ledger.unreported = taken.length
  settled : ∃ earlier, ledger.stored = earlier ++ ledger.kept ∧
    ledger.delivered.Sublist earlier ∧ ledger.dropped.Sublist earlier ∧
      (ledger.delivered ++ ledger.dropped).Perm earlier

section Ledgers
variable {capacity id : Nat} {ledger : BufferLedger} {taken : List (List UInt8)}

theorem bufferLedger_append (capacity id : Nat) (outcomes : List LogOutcome)
    (outcome : LogOutcome) :
    bufferLedger capacity id (outcomes ++ [outcome]) =
      (bufferLedger capacity id outcomes).step capacity id outcome := by
  rw [bufferLedger, List.foldl_append]
  rfl

theorem BufferLedger.Balanced.receive (h : ledger.Balanced taken) (record : List UInt8) :
    (ledger.receive capacity record).Balanced (taken ++ [record]) := by
  obtain ⟨earlier, split, delivered, dropped, both⟩ := h.settled
  have counted := h.counted
  by_cases fits : ledger.kept.flatten.length + record.length ≤ capacity
  · simp only [BufferLedger.receive, BufferHistory.receive, if_pos fits]
    refine ⟨h.stored.append (List.Sublist.refl _), ?_, earlier, ?_, delivered, dropped, both⟩
    · simp only [List.length_append, List.length_singleton]
      omega
    · simp only [split, List.append_assoc]
  · simp only [BufferLedger.receive, BufferHistory.receive, if_neg fits]
    refine ⟨h.stored.trans (List.sublist_append_left _ _), ?_, earlier, split, delivered,
      dropped, both⟩
    simp only [List.length_append, List.length_singleton]
    omega

theorem BufferLedger.Balanced.drain (h : ledger.Balanced taken) (warned dumped : Bool) :
    (ledger.drain warned dumped).Balanced taken := by
  obtain ⟨earlier, split, delivered, dropped, both⟩ := h.settled
  have counted := h.counted
  refine ⟨h.stored, ?_, ledger.stored, (List.append_nil _).symm, ?_, ?_, ?_⟩
  · cases warned with
    | true => simpa only [BufferLedger.drain, if_true, Nat.add_zero, Nat.add_assoc,
        Nat.add_comm, Nat.add_left_comm] using counted
    | false => simpa only [BufferLedger.drain, Bool.false_eq_true, if_false, Nat.add_zero,
        Nat.add_assoc, Nat.add_comm, Nat.add_left_comm] using counted
  · rw [split]
    refine delivered.append ?_
    cases dumped with
    | true => exact List.Sublist.refl _
    | false => exact List.nil_sublist _
  · rw [split]
    refine dropped.append ?_
    cases dumped with
    | true => exact List.nil_sublist _
    | false => exact List.Sublist.refl _
  · rw [split]
    cases dumped with
    | true =>
        simp only [BufferLedger.drain, if_true, List.append_nil, List.append_assoc]
        refine (List.Perm.append_left _ List.perm_append_comm).trans ?_
        rw [← List.append_assoc]
        exact both.append_right _
    | false =>
        simp only [BufferLedger.drain, Bool.false_eq_true, if_false, List.append_nil,
          ← List.append_assoc]
        exact both.append_right _

end Ledgers

section Specs
variable (host : LogHost) (m : LogMachine)

theorem log_outcome {level : LogLevel} (passes : ¬ level.rank > m.logLevel.rank)
    (message : CString) :
    wp (log level message)
      (fun _ m' => ∃ calls, m' = { m with
        calls := calls
        sessions := m.sessions ++ [⟨recordText host m.calls level message,
          [recordText host m.calls level message]⟩]
        logMessagesWritten := m.logMessagesWritten + 1 })
      (fun m' => OnlyCalls m m') host m := by
  rw [log, wp_bind, wp_get, if_neg passes, wp_bind]
  refine wp_mono (formatRecord_text host m level message) ?_ fun _ quiet => quiet
  intro record m₁ formatted
  obtain ⟨same, text⟩ := formatted
  subst same text
  rw [wp_bind]
  refine wp_mono (writeToStderr_spec host _ _ _) ?_ ?_
  · intro _ m₂ wrote
    obtain ⟨_, calls', same⟩ := wrote
    exact ⟨calls', by rw [same]⟩
  · intro m₂ failed
    obtain ⟨_, calls', same⟩ := failed
    exact ⟨calls', same⟩

theorem logToBuffer_outcome {id : Nat} {level : LogLevel}
    (passes : ¬ level.rank > (m.buffers id).logLevel.rank) (message : CString) :
    wp (logToBuffer id level message)
      (fun _ m' => ∃ calls, m' = LogMachine.setBuffer { m with calls := calls } id
        ((m.buffers id).receive (recordText host m.calls level message)))
      (fun m' => OnlyCalls m m') host m := by
  rw [logToBuffer, wp_bind, wp_get, if_neg passes, wp_bind]
  refine wp_mono (formatRecord_text host m level message) ?_ fun _ quiet => quiet
  intro record m₁ formatted
  obtain ⟨same, text⟩ := formatted
  subst same text
  rw [wp_ite, LogBuffer.receive]
  refine ⟨fun full => ⟨m.calls + 5, by rw [if_pos full]⟩, fun fits => ?_⟩
  rw [wp_bind, wp_external]
  exact ⟨fun _ => ⟨m.calls + 6, by rw [if_neg fits]⟩, fun _ => ⟨m.calls + 6, rfl⟩⟩

/-- The time stamp of a warning is read after its writer has been made. -/
def warningStamp (host : LogHost) (m : LogMachine) : List UInt8 :=
  timestampBytes (host.localTime (m.calls + 2)) (host.nanoseconds (m.calls + 1))

theorem drainOverflow_outcome (id : Nat) :
    wp (drainOverflow id)
      (fun warned m' => ∃ calls told,
        m' = { m with calls := calls, sessions := m.sessions ++ told } ∧
        told.flatMap Written.bytes =
          if warned ∧ 0 < (m.buffers id).overflowCount then
            (Piece.lost id (m.buffers id).overflowCount (warningStamp host m)).bytes
          else [])
      (fun _ => False) host m := by
  have quiet : ∀ m', OnlyCalls m m' → ∃ calls told,
      m' = { m with calls := calls, sessions := m.sessions ++ told } ∧
      told.flatMap Written.bytes =
        if (none : Option Unit).isSome ∧ 0 < (m.buffers id).overflowCount then
          (Piece.lost id (m.buffers id).overflowCount (warningStamp host m)).bytes
        else [] := by
    intro m' same
    obtain ⟨calls, same⟩ := same
    exact ⟨calls, [], by rw [same, List.append_nil], by simp⟩
  rw [drainOverflow, wp_bind, wp_get, wp_ite]
  refine ⟨fun some_lost => ?_, fun none_lost => ?_⟩
  · rw [wp_bind, wp_attempt, drainWriteOverflowWarning, wp_bind]
    simp only [wp_external, wp_bind]
    refine ⟨fun _ => ?_, fun _ => quiet _ ⟨_, rfl⟩⟩
    have stamped := logFormatTimestamp_result 32 host { m with calls := m.calls + 1 }
    refine wp_mono (wp_and (logFormatTimestamp_onlyCalls 32 host _) stamped) ?_
      fun m₁ failed => quiet m₁ ?_
    · intro timestamp m₁ formatted
      obtain ⟨⟨calls, same⟩, -, -, -, stamp⟩ := formatted
      subst same stamp
      refine wp_mono (writePieces_onlyCalls _ host _) ?_ fun m₂ same => quiet m₂ ?_
      · intro _ m₂ same
        obtain ⟨calls', same⟩ := same
        subst same
        refine ⟨fun _ => ?_, fun _ => quiet _ ⟨_, rfl⟩⟩
        refine ⟨calls' + 1,
          [⟨(Piece.lost id (m.buffers id).overflowCount (warningStamp host m)).bytes, []⟩], rfl, ?_⟩
        simp [some_lost]
      · obtain ⟨calls', same⟩ := same
        exact ⟨calls', same⟩
    · obtain ⟨calls, same⟩ := failed.1
      exact ⟨calls, same⟩
  · exact ⟨m.calls, [], by rw [List.append_nil], by simp [none_lost]⟩

theorem drainEntries_outcome {id : Nat} (valid : (m.buffers id).Valid) :
    wp (drainEntries id)
      (fun dumped m' => ∃ calls told,
        m' = LogMachine.setBuffer { m with
          calls := calls
          sessions := m.sessions ++ told
          logMessagesWritten := m.logMessagesWritten + (m.buffers id).records.length }
          id (m.buffers id).reset ∧
        told.flatMap Written.bytes = if dumped then (m.buffers id).records.flatten else [])
      (fun _ => False) host m := by
  rw [drainEntries, wp_bind, wp_get]
  by_cases some_data : (m.buffers id).writePosition > 0
  · simp only [if_pos some_data, wp_bind, wp_attempt, drainDumpBuffer, valid.counted]
    refine wp_mono (writeToStderr_spec host m _ (m.buffers id).records) ?_ ?_
    · intro _ m₁ wrote
      obtain ⟨_, calls, same⟩ := wrote
      subst same
      exact ⟨calls, [⟨_, (m.buffers id).records⟩], rfl, by simp [valid.holds]⟩
    · intro m₁ failed
      obtain ⟨_, calls, same⟩ := failed
      subst same
      refine ⟨calls, [], ?_, by simp⟩
      rw [List.append_nil]
  · have none : (m.buffers id).records = [] :=
      not_not.mp (mt valid.position_pos_iff.mpr some_data)
    simp only [if_neg some_data, wp_bind]
    refine ⟨m.calls, [], ?_, by simp [none]⟩
    rw [none, List.append_nil]
    rfl

end Specs

namespace Piece

def warning (id count : Nat) (timestamp : List UInt8) (warned : Bool) : List Piece :=
  if warned ∧ 0 < count then [.lost id count timestamp] else []

section Warning
variable (id count : Nat) (timestamp : List UInt8) (warned : Bool)

theorem bytes_warning :
    (warning id count timestamp warned).flatMap bytes =
      if warned ∧ 0 < count then (Piece.lost id count timestamp).bytes else [] := by
  rw [warning]
  split
  · exact List.append_nil _
  · rfl

theorem recordFrom_warning (source : Option Nat) :
    (warning id count timestamp warned).filterMap (recordFrom source) = [] := by
  rw [warning]
  split <;> rfl

theorem lostFrom_warning (other : Nat) :
    ((warning id count timestamp warned).filterMap (lostFrom other)).sum =
      if id = other then if warned then count else 0 else 0 := by
  rw [warning]
  by_cases same : id = other
  · cases warned with
    | true =>
        cases count with
        | zero => simp
        | succ count => simp [lostFrom, same]
    | false => simp
  · split <;> simp [lostFrom, same]

theorem countP_warning : (warning id count timestamp warned).countP isRecord = 0 := by
  rw [warning]
  split <;> rfl

end Warning

end Piece

/-- The state after a run with these outcomes; the buffers hold what is still kept. -/
structure Accounted (capacity : Nat → Nat) (outcomes : List LogOutcome) (m : LogMachine) :
    Prop where
  accounts : ∃ pieces dropped, Accounts capacity outcomes m pieces dropped
  holds : ∀ id, (m.buffers id).Holds (capacity id)
    (bufferLedger (capacity id) id outcomes).toBufferHistory

section Steps
variable {capacity : Nat → Nat} {outcomes : List LogOutcome} {m : LogMachine} {host : LogHost}

/-- What one outcome adds to the output, and to what was counted without it. -/
theorem Accounts.append {pieces dropped : List Piece}
    (before : Accounts capacity outcomes m pieces dropped) {outcome : LogOutcome} {m' : LogMachine}
    (more gone : List Piece)
    (output : m'.sessions.flatMap Written.bytes =
      m.sessions.flatMap Written.bytes ++ more.flatMap Piece.bytes)
    (written : more.filterMap (Piece.recordFrom none) = writtenRecords [outcome])
    (ledger : ∀ id, ((bufferLedger (capacity id) id outcomes).step (capacity id) id
        outcome).delivered = (bufferLedger (capacity id) id outcomes).delivered ++
          more.filterMap (Piece.recordFrom (some id)) ∧
      ((bufferLedger (capacity id) id outcomes).step (capacity id) id outcome).reported =
        (bufferLedger (capacity id) id outcomes).reported +
          (more.filterMap (Piece.lostFrom id)).sum ∧
      ((bufferLedger (capacity id) id outcomes).step (capacity id) id outcome).dropped =
        (bufferLedger (capacity id) id outcomes).dropped ++
          gone.filterMap (Piece.recordFrom (some id)))
    (counted : m'.logMessagesWritten =
      m.logMessagesWritten + (more.countP Piece.isRecord + gone.length)) :
    Accounts capacity (outcomes ++ [outcome]) m' (pieces ++ more) (dropped ++ gone) where
  output := by rw [output, before.output, List.flatMap_append]
  written := by
    rw [List.filterMap_append, before.written, written]
    exact List.filterMap_append.symm
  delivered := fun id => by
    rw [List.filterMap_append, before.delivered, bufferLedger_append, (ledger id).1]
  reported := fun id => by
    rw [List.filterMap_append, List.sum_append, before.reported, bufferLedger_append,
      (ledger id).2.1]
  undelivered := fun id => by
    rw [List.filterMap_append, before.undelivered, bufferLedger_append, (ledger id).2.2]
  counted := by
    rw [counted, before.counted, List.countP_append, List.length_append]
    exact Nat.add_add_add_comm _ _ _ _

theorem Accounted.quiet (before : Accounted capacity outcomes m) {m' : LogMachine}
    (quiet : OnlyCalls m m') : Accounted capacity outcomes m' := by
  obtain ⟨calls, same⟩ := quiet
  subst same
  obtain ⟨pieces, dropped, h⟩ := before.accounts
  exact ⟨⟨pieces, dropped, h.output, h.written, h.delivered, h.reported, h.undelivered,
    h.counted⟩, before.holds⟩

theorem Accounted.written (before : Accounted capacity outcomes m) (record : List UInt8)
    (calls : Nat) :
    Accounted capacity (outcomes ++ [.written record]) { m with
      calls := calls
      sessions := m.sessions ++ [⟨record, [record]⟩]
      logMessagesWritten := m.logMessagesWritten + 1 } := by
  obtain ⟨pieces, dropped, h⟩ := before.accounts
  refine ⟨⟨_, _, h.append [.record none record] [] ?_ rfl (fun id => ?_) rfl⟩, fun id => ?_⟩
  · simp [Piece.bytes]
  · exact ⟨(List.append_nil _).symm, rfl, (List.append_nil _).symm⟩
  · rw [bufferLedger_append]
    exact before.holds id

theorem Accounted.taken (before : Accounted capacity outcomes m) {id : Nat} {record : List UInt8}
    (some_byte : record ≠ []) (calls : Nat) :
    Accounted capacity (outcomes ++ [.taken id record])
      (LogMachine.setBuffer { m with calls := calls } id ((m.buffers id).receive record)) := by
  obtain ⟨pieces, dropped, h⟩ := before.accounts
  have same_ledger : ∀ capacity (ledger : BufferLedger),
      (ledger.receive capacity record).delivered = ledger.delivered ∧
        (ledger.receive capacity record).reported = ledger.reported ∧
          (ledger.receive capacity record).dropped = ledger.dropped := by
    intro capacity ledger
    have history : ∀ history : BufferHistory,
        (history.receive capacity record).delivered = history.delivered ∧
          (history.receive capacity record).reported = history.reported := by
      intro history
      rw [BufferHistory.receive]
      split <;> exact ⟨rfl, rfl⟩
    exact ⟨(history ledger.toBufferHistory).1, (history ledger.toBufferHistory).2, rfl⟩
  refine ⟨⟨_, _, h.append [] [] (List.append_nil _).symm rfl (fun other => ?_) rfl⟩,
    fun other => ?_⟩
  · rw [List.filterMap_nil, List.filterMap_nil, List.append_nil, List.append_nil,
      BufferLedger.step]
    split
    · exact same_ledger _ _
    · exact ⟨rfl, rfl, rfl⟩
  · rw [bufferLedger_append, BufferLedger.step]
    by_cases same : id = other
    · subst same
      rw [if_pos rfl]
      simpa [LogMachine.setBuffer, BufferLedger.receive, LogBuffer.receive] using
        (before.holds id).receive some_byte
    · rw [if_neg same]
      simpa [LogMachine.setBuffer, Ne.symm same] using before.holds other

/-- One buffer of a drain, whatever fails: the records it kept are delivered or dropped. -/
theorem Accounted.drained (before : Accounted capacity outcomes m) (host : LogHost) (id : Nat) :
    ∃ warned dumped, (drainOverflow id host m).1 = some warned ∧
      (drainEntries id host (drainOverflow id host m).2).1 = some dumped ∧
      Accounted capacity (outcomes ++ [.drained id warned dumped]) (drainStep host m id) := by
  obtain ⟨pieces, dropped, h⟩ := before.accounts
  have holds := before.holds id
  obtain ⟨warned, m₁, first, calls, told, same, bytes⟩ :=
    exists_run_of_wp (drainOverflow_outcome host m id)
  subst same
  have valid : LogBuffer.Valid ((({ m with calls := calls, sessions := m.sessions ++ told } :
    LogMachine)).buffers id) := holds.valid
  obtain ⟨dumped, m₂, second, calls', told', same, bytes'⟩ :=
    exists_run_of_wp (drainEntries_outcome host _ valid)
  have stepped : drainStep host m id = m₂ := by rw [drainStep, first, second]
  refine ⟨warned, dumped, by rw [first], by rw [first, second], ?_⟩
  rw [stepped, same]
  have elsewhere : ∀ {other : Nat}, ¬ id = other → ∀ records : List (List UInt8),
      (records.map (Piece.record (some id))).filterMap (Piece.recordFrom (some other)) = [] := by
    intro other apart records
    rw [Piece.recordFrom_records, if_neg fun equal => apart (Option.some.inj equal)]
  refine ⟨⟨_, _, h.append
    (Piece.warning id (m.buffers id).overflowCount (warningStamp host m) warned ++
      if dumped then (m.buffers id).records.map (Piece.record (some id)) else [])
    (if dumped then [] else (m.buffers id).records.map (Piece.record (some id)))
    ?_ ?_ (fun other => ?_) ?_⟩, fun other => ?_⟩
  · simp only [LogMachine.setBuffer, List.flatMap_append, bytes, bytes', List.append_assoc,
      Piece.bytes_warning]
    cases dumped with
    | true => simp only [if_true, Piece.bytes_records]
    | false => rfl
  · rw [List.filterMap_append, Piece.recordFrom_warning]
    cases dumped with
    | true =>
        rw [if_pos rfl, Piece.recordFrom_records]
        rfl
    | false => rfl
  · rw [List.filterMap_append, List.filterMap_append, Piece.recordFrom_warning, List.sum_append,
      Piece.lostFrom_warning, BufferLedger.step]
    by_cases same : id = other
    · subst same
      rw [if_pos rfl, if_pos rfl, BufferLedger.drain, ← holds.kept, ← holds.lost]
      cases dumped with
      | true => simp only [if_true, Piece.recordFrom_records, Piece.lostFrom_records,
          List.nil_append, List.filterMap_nil, List.sum_nil, Nat.add_zero, and_self]
      | false => simp only [Bool.false_eq_true, if_false, if_true, Piece.recordFrom_records,
          List.filterMap_nil, List.append_nil, List.sum_nil, Nat.add_zero, and_self]
    · rw [if_neg same, if_neg same]
      cases dumped with
      | true => simp only [if_true, elsewhere same, Piece.lostFrom_records, List.append_nil,
          List.filterMap_nil, List.sum_nil, Nat.add_zero, and_self]
      | false => simp only [Bool.false_eq_true, if_false, elsewhere same, List.append_nil,
          List.filterMap_nil, List.sum_nil, Nat.add_zero, and_self]
  · rw [List.countP_append, Piece.countP_warning]
    cases dumped with
    | true => simp only [LogMachine.setBuffer, if_true, Piece.countP_records, List.length_nil,
        Nat.zero_add, Nat.add_zero]
    | false => simp only [LogMachine.setBuffer, Bool.false_eq_true, if_false, List.countP_nil,
        List.length_map, Nat.zero_add]
  · rw [bufferLedger_append, BufferLedger.step]
    by_cases same : id = other
    · subst same
      rw [if_pos rfl]
      have reset : LogBuffer.Holds (capacity id) (m.buffers id).reset
          ((bufferLedger (capacity id) id outcomes).drain warned dumped).toBufferHistory :=
        ⟨holds.valid.reset, holds.capacity_eq, rfl, rfl⟩
      simpa [LogMachine.setBuffer] using reset
    · rw [if_neg same]
      simpa [LogMachine.setBuffer, Ne.symm same] using before.holds other

end Steps

/-- What a drain was to write of one buffer has been written. -/
def LogOutcome.complete : LogOutcome → Bool
  | .drained _ warned dumped => warned && dumped
  | _ => true

section Runs
variable {capacity : Nat → Nat} {outcomes : List LogOutcome} {m : LogMachine} {host : LogHost}

theorem Accounted.drain (before : Accounted capacity outcomes m) (ids : List Nat) :
    Accounted capacity (outcomes ++ drainOutcomes host m ids) (ids.foldl (drainStep host) m) := by
  induction ids generalizing outcomes m with
  | nil =>
      rw [drainOutcomes, List.append_nil]
      exact before
  | cons id ids ih =>
      obtain ⟨warned, dumped, first, second, after⟩ := before.drained host id
      have flag : ∀ result : Bool, (some result == some true) = result := by decide
      rw [drainOutcomes, first, second, flag, flag, List.append_cons]
      exact ih after

theorem Accounted.step (before : Accounted capacity outcomes m) (operation : LogOperation) :
    Accounted capacity (outcomes ++ callOutcomes host m operation) (stepLog host m operation) := by
  cases operation with
  | log level message =>
      rw [callOutcomes, stepLog]
      by_cases filtered : level.rank > m.logLevel.rank
      · rw [if_pos filtered, List.append_nil, log, bind_run_of_some (get_run host m),
          if_pos filtered]
        exact before
      · rw [if_neg filtered]
        cases wp_cases (log_outcome host m filtered message) with
        | inl wrote =>
            obtain ⟨_, m', run, calls, same⟩ := wrote
            rw [run, same]
            exact before.written _ calls
        | inr failed =>
            obtain ⟨m', run, quiet⟩ := failed
            rw [run, Option.toList_none, List.map_nil, List.append_nil]
            exact before.quiet quiet
  | logToBuffer id level message =>
      rw [callOutcomes, stepLog]
      by_cases filtered : level.rank > (m.buffers id).logLevel.rank
      · rw [if_pos filtered, List.append_nil, logToBuffer, bind_run_of_some (get_run host m),
          if_pos filtered]
        exact before
      · rw [if_neg filtered]
        cases wp_cases (logToBuffer_outcome host m filtered message) with
        | inl took =>
            obtain ⟨_, m', run, calls, same⟩ := took
            have some_byte : recordText host m.calls level message ≠ [] := by simp [recordText]
            rw [run, same]
            exact before.taken some_byte calls
        | inr failed =>
            obtain ⟨m', run, quiet⟩ := failed
            rw [run, Option.toList_none, List.map_nil, List.append_nil]
            exact before.quiet quiet
  | logDrain ids =>
      rw [stepLog, logDrain_state]
      exact before.drain ids
  | logSetLevel level =>
      obtain ⟨pieces, dropped, h⟩ := before.accounts
      rw [callOutcomes, List.append_nil]
      exact ⟨⟨pieces, dropped, h.output, h.written, h.delivered, h.reported, h.undelivered,
        h.counted⟩, before.holds⟩

theorem Accounted.run (before : Accounted capacity outcomes m) (operations : List LogOperation) :
    Accounted capacity (outcomes ++ logOutcomes host m operations)
      (operations.foldl (stepLog host) m) := by
  induction operations generalizing outcomes m with
  | nil =>
      rw [logOutcomes, List.append_nil]
      exact before
  | cons operation operations ih =>
      rw [logOutcomes, ← List.append_assoc]
      exact ih (before.step operation)

end Runs

end BcRuntime
