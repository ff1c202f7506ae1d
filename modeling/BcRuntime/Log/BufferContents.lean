import BcRuntime.Log.CheckedRecord
import Mathlib.Data.List.Induction

/-!
What a buffer holds in every state of a run, told from the calls that were made: of the
messages it has taken since it was last drained it keeps each one that the messages kept
before leave room for, and counts the others. Anything outside may fail at any call; a
message that cannot be formatted, or fits and cannot be copied, is not taken.
-/

namespace BcRuntime
open Fallible LogRun

/-- A message for a buffer; `call` is the number of the first call outside made for it. -/
structure LoggedMessage where
  call : Nat
  level : LogLevel
  message : CString

namespace LoggedMessage

def text (host : LogHost) (logged : LoggedMessage) : List UInt8 :=
  recordText host logged.call logged.level logged.message

/-- The record can be copied into its buffer; its formatting makes the five calls before. -/
def copied (host : LogHost) (logged : LoggedMessage) : Bool :=
  host.succeeds (logged.call + 5) (.coreCopy (logged.text host).length)

end LoggedMessage

abbrev MessageOfCall := LogHost → LogMachine → Nat → LogLevel → CString → Option LoggedMessage

/-- The message of a call of `bc_runtime_log_to_buffer` that passes the level of the buffer
and is formatted. -/
def formattedMessage : MessageOfCall := fun host m id level message =>
  if level.rank > (m.buffers id).logLevel.rank then none
  else (formatRecordIntoBuffer level message logStackSize host m).1.map fun _ =>
    ⟨m.calls, level, message⟩

/-- The message of a call that passes the level of the buffer and returns `true`. -/
def takenMessage : MessageOfCall := fun host m id level message =>
  if level.rank > (m.buffers id).logLevel.rank then none
  else (logToBuffer id level message host m).1.map fun _ => ⟨m.calls, level, message⟩

/-- Messages for a buffer since its last drain, after one more operation. -/
def LogOperation.since (messageOf : MessageOfCall) (host : LogHost) (m : LogMachine) (id : Nat)
    (since : List LoggedMessage) : LogOperation → List LoggedMessage
  | .logToBuffer other level message =>
      if other = id then since ++ (messageOf host m id level message).toList else since
  | .logDrain ids => if id ∈ ids then [] else since
  | .log _ _ => since
  | .logSetLevel _ => since

/-- Messages for a buffer since its last drain, after a run. -/
def messagesSince (messageOf : MessageOfCall) (host : LogHost) (id : Nat) :
    LogMachine → List LoggedMessage → List LogOperation → List LoggedMessage
  | _, since, [] => since
  | m, since, operation :: operations =>
      messagesSince messageOf host id (stepLog host m operation)
        (operation.since messageOf host m id since) operations

def keepMessage (host : LogHost) (capacity : Nat) (kept : List LoggedMessage)
    (logged : LoggedMessage) : List LoggedMessage :=
  if (kept.flatMap (LoggedMessage.text host)).length + (logged.text host).length ≤ capacity then
    kept ++ [logged]
  else kept

def keptMessages (host : LogHost) (capacity : Nat) (since : List LoggedMessage) :
    List LoggedMessage :=
  since.foldl (keepMessage host capacity) []

/-- The fields of a buffer against the messages it has taken since its last drain. -/
structure LogBuffer.Contains (host : LogHost) (capacity : Nat) (buffer : LogBuffer)
    (since : List LoggedMessage) : Prop where
  capacity_eq : buffer.capacity = capacity
  size : buffer.data.length = capacity
  inside : buffer.writePosition ≤ capacity
  contents : buffer.data.take buffer.writePosition =
    (keptMessages host capacity since).flatMap (LoggedMessage.text host)
  entries : buffer.entryCount = (keptMessages host capacity since).length
  counted : buffer.entryCount + buffer.overflowCount = since.length

/-- What a call does to its buffer when the message is taken. -/
def LogBuffer.receive (buffer : LogBuffer) (record : List UInt8) : LogBuffer :=
  if buffer.writePosition + record.length > buffer.capacity then buffer.overflow
  else buffer.store record

section Kept
variable (host : LogHost) (capacity : Nat)

theorem keptMessages_append (since : List LoggedMessage) (logged : LoggedMessage) :
    keptMessages host capacity (since ++ [logged]) =
      keepMessage host capacity (keptMessages host capacity since) logged := by
  rw [keptMessages, List.foldl_append]
  rfl

theorem keptMessages_sublist (since : List LoggedMessage) :
    (keptMessages host capacity since).Sublist since := by
  induction since using List.reverseRecOn with
  | nil => exact .slnil
  | append_singleton since logged ih =>
      rw [keptMessages_append, keepMessage]
      split
      · exact ih.append (.refl _)
      · exact ih.trans (List.sublist_append_left _ _)

theorem recordText_eq (host : LogHost) (n : Nat) (level : LogLevel) (message : CString) :
    recordText host n level message =
      timestampBytes (host.localTime (n + 1)) (host.nanoseconds n) ++ [32] ++ levelPrefix level ++
        [32] ++ message.bytes.take (logStackSize - 38) ++ [newline] := by
  rw [recordText, length_header level (length_timestampBytes _ _)]
  rfl

theorem text_ends_in_newline (logged : LoggedMessage) :
    (logged.text host).getLast? = some newline := List.getLast?_concat

end Kept

section Buffers
variable {host : LogHost} {capacity : Nat} {buffer : LogBuffer} {since : List LoggedMessage}

theorem LogBuffer.Contains.created (data : List UInt8) (level : LogLevel) :
    (LogBuffer.created data level).Contains host data.length [] where
  capacity_eq := rfl
  size := rfl
  inside := Nat.zero_le _
  contents := rfl
  entries := rfl
  counted := rfl

theorem LogBuffer.Contains.reset (held : buffer.Contains host capacity since) :
    buffer.reset.Contains host capacity [] where
  capacity_eq := held.capacity_eq
  size := held.size
  inside := Nat.zero_le _
  contents := rfl
  entries := rfl
  counted := rfl

theorem LogBuffer.Contains.position (held : buffer.Contains host capacity since) :
    ((keptMessages host capacity since).flatMap (LoggedMessage.text host)).length =
      buffer.writePosition := by
  have inside : buffer.writePosition ≤ buffer.data.length := by
    rw [held.size]
    exact held.inside
  rw [← held.contents, List.length_take_of_le inside]

theorem LogBuffer.Contains.receive (held : buffer.Contains host capacity since)
    (logged : LoggedMessage) :
    (buffer.receive (logged.text host)).Contains host capacity (since ++ [logged]) := by
  have position := held.position
  have counted := held.counted
  rw [LogBuffer.receive, held.capacity_eq]
  by_cases full : buffer.writePosition + (logged.text host).length > capacity
  · have same : keptMessages host capacity (since ++ [logged]) =
        keptMessages host capacity since := by
      rw [keptMessages_append, keepMessage, position, if_neg (by omega)]
    rw [if_pos full]
    refine ⟨held.capacity_eq, held.size, held.inside, ?_, ?_, ?_⟩
    · rw [same]
      exact held.contents
    · rw [same]
      exact held.entries
    · rw [List.length_append, List.length_singleton, ← counted]
      rfl
  · have more : keptMessages host capacity (since ++ [logged]) =
        keptMessages host capacity since ++ [logged] := by
      rw [keptMessages_append, keepMessage, position, if_pos (by omega)]
    have inside : buffer.writePosition ≤ buffer.data.length := by
      rw [held.size]
      exact held.inside
    rw [if_neg full]
    refine ⟨held.capacity_eq, ?_, not_lt.mp full, ?_, ?_, ?_⟩
    · exact (Splice.length_splice (by rw [held.size]; omega)).trans held.size
    · have read : (Splice.splice buffer.data buffer.writePosition (logged.text host)).take
          (buffer.writePosition + (logged.text host).length) =
          buffer.data.take buffer.writePosition ++ logged.text host := Splice.take_splice inside
      rw [more, List.flatMap_append, List.flatMap_singleton, ← held.contents]
      exact read
    · rw [more, List.length_append, List.length_singleton, ← held.entries]
      rfl
    · rw [List.length_append, List.length_singleton, ← counted]
      exact Nat.add_right_comm _ _ _

end Buffers

def SameBuffers (m m' : LogMachine) : Prop := m'.buffers = m.buffers

instance : Std.Refl SameBuffers := ⟨fun _ => rfl⟩

instance : IsTrans LogMachine SameBuffers where
  trans := fun _ _ _ first second => second.trans first

section Operations

theorem onlyCalls_sameBuffers {α : Type} {c : LogRun α} (quiet : Keeps OnlyCalls c) :
    Keeps SameBuffers c := by
  have same : ∀ m m', OnlyCalls m m' → SameBuffers m m' := by
    rintro m _ ⟨calls, rfl⟩
    rfl
  exact fun host m => wp_mono (quiet host m) (fun _ => same m) (same m)

theorem writeToStderr_sameBuffers (data : List UInt8) (records : List (List UInt8)) :
    Keeps SameBuffers (writeToStderr data records) := by
  intro host m
  refine wp_mono (writeToStderr_spec host m data records) ?_ ?_
  · rintro _ _ ⟨_, _, rfl⟩
    rfl
  · rintro _ ⟨_, _, rfl⟩
    rfl

theorem formatRecord_onlyCalls (level : LogLevel) (message : CString) (capacity : Nat) :
    Keeps OnlyCalls (formatRecordIntoBuffer level message capacity) :=
  fun host m => wp_mono (formatRecord_spec host m level message capacity) (fun _ _ h => h.1)
    fun _ h => h

theorem formatRecord_text (host : LogHost) (m : LogMachine) (level : LogLevel)
    (message : CString) :
    wp (formatRecordIntoBuffer level message logStackSize)
      (fun record m' => m' = { m with calls := m.calls + 5 } ∧
        record = recordText host m.calls level message)
      (fun m' => OnlyCalls m m') host m := by
  refine wp_mono (wp_and (formatRecord_onlyCalls level message logStackSize host m)
    (formatRecord_result host m level message logStackSize)) ?_ fun _ failed => failed.1
  rintro record m' ⟨_, same, _, _, text⟩
  exact ⟨same, text.trans (recordText_eq host m.calls level message).symm⟩

theorem log_sameBuffers (level : LogLevel) (message : CString) :
    Keeps SameBuffers (log level message) := by
  intro host m
  simp only [log, wp_bind, wp_get]
  have logged : Keeps SameBuffers (do
      let record ← formatRecordIntoBuffer level message logStackSize
      writeToStderr record [record]
      modify fun m => { m with logMessagesWritten := m.logMessagesWritten + 1 }) := by
    refine (onlyCalls_sameBuffers (formatRecord_onlyCalls _ _ _)).bind fun record => ?_
    exact (writeToStderr_sameBuffers _ _).bind fun _ => .modify fun _ => rfl
  exact Keeps.ite (.pure _) logged host m

section Calls
variable {host : LogHost} {m : LogMachine} {id : Nat} {level : LogLevel} {message : CString}
  {logged : LoggedMessage}

/-- A call whose message is formatted: there is no room, or the record is copied, or the
copy fails and with it the call. -/
theorem logToBuffer_formatted
    (formatted : formattedMessage host m id level message = some logged) :
    logToBuffer id level message host m =
      if (m.buffers id).writePosition + (logged.text host).length > (m.buffers id).capacity then
        (some (), LogMachine.setBuffer { m with calls := m.calls + 5 } id (m.buffers id).overflow)
      else if logged.copied host then
        (some (), LogMachine.setBuffer { m with calls := m.calls + 6 } id
          ((m.buffers id).store (logged.text host)))
      else (none, { m with calls := m.calls + 6 }) := by
  rw [formattedMessage] at formatted
  by_cases filtered : level.rank > (m.buffers id).logLevel.rank
  · rw [if_pos filtered] at formatted
    cases formatted
  · rw [if_neg filtered] at formatted
    cases wp_cases (formatRecord_text host m level message) with
    | inl done =>
        obtain ⟨record, _, run, rfl, same⟩ := done
        rw [run] at formatted
        cases formatted
        have text : LoggedMessage.text host ⟨m.calls, level, message⟩ = record := same.symm
        rw [logToBuffer, bind_run_of_some (get_run host m), if_neg filtered, bind_run_of_some run,
          LoggedMessage.copied, text]
        by_cases full : (m.buffers id).writePosition + record.length > (m.buffers id).capacity
        · rw [if_pos full, if_pos full]
          rfl
        · rw [if_neg full, if_neg full]
          by_cases copied : host.succeeds (m.calls + 5) (.coreCopy record.length) = true
          · have copy : external (.coreCopy record.length) host { m with calls := m.calls + 5 } =
                (some (m.calls + 5), { m with calls := m.calls + 6 }) := by
              rw [external, if_pos copied]
            rw [bind_run_of_some copy, if_pos copied]
            rfl
          · have copy : external (.coreCopy record.length) host { m with calls := m.calls + 5 } =
                (none, { m with calls := m.calls + 6 }) := by
              rw [external, if_neg copied]
            rw [bind_run_of_none copy, if_neg copied]
    | inr failed =>
        obtain ⟨_, run, _⟩ := failed
        rw [run] at formatted
        cases formatted

theorem logToBuffer_unformatted
    (unformatted : formattedMessage host m id level message = none) :
    takenMessage host m id level message = none ∧
      ∃ result calls,
        logToBuffer id level message host m = (result, { m with calls := calls }) := by
  rw [formattedMessage] at unformatted
  rw [takenMessage, logToBuffer, bind_run_of_some (get_run host m)]
  by_cases filtered : level.rank > (m.buffers id).logLevel.rank
  · rw [if_pos filtered, if_pos filtered]
    exact ⟨rfl, some (), m.calls, rfl⟩
  · rw [if_neg filtered] at unformatted ⊢
    rw [if_neg filtered]
    cases wp_cases (formatRecord_text host m level message) with
    | inl formatted =>
        obtain ⟨record, _, run, _⟩ := formatted
        rw [run] at unformatted
        cases unformatted
    | inr failed =>
        obtain ⟨_, run, calls, rfl⟩ := failed
        rw [bind_run_of_none run]
        exact ⟨rfl, none, calls, rfl⟩

theorem takenMessage_of_formatted
    (formatted : formattedMessage host m id level message = some logged) :
    takenMessage host m id level message =
      (logToBuffer id level message host m).1.map fun _ => logged := by
  rw [formattedMessage] at formatted
  rw [takenMessage]
  by_cases filtered : level.rank > (m.buffers id).logLevel.rank
  · rw [if_pos filtered] at formatted
    cases formatted
  · rw [if_neg filtered] at formatted ⊢
    obtain ⟨_, _, rfl⟩ := Option.map_eq_some_iff.mp formatted
    rfl

end Calls

/-- One call, whatever fails in it: the buffer receives the message that it takes. -/
theorem logToBuffer_effect (host : LogHost) (m : LogMachine) (id : Nat) (level : LogLevel)
    (message : CString) :
    ∃ result calls, logToBuffer id level message host m =
        (result, (takenMessage host m id level message).elim { m with calls := calls }
          fun logged => LogMachine.setBuffer { m with calls := calls } id
            ((m.buffers id).receive (logged.text host))) := by
  cases formatted : formattedMessage host m id level message with
  | none =>
      obtain ⟨untaken, result, calls, run⟩ := logToBuffer_unformatted formatted
      rw [untaken]
      exact ⟨result, calls, run⟩
  | some logged =>
      rw [takenMessage_of_formatted formatted, logToBuffer_formatted formatted]
      by_cases full : (m.buffers id).writePosition + (logged.text host).length >
          (m.buffers id).capacity
      · have received : (m.buffers id).receive (logged.text host) = (m.buffers id).overflow :=
          if_pos full
        rw [if_pos full, ← received]
        exact ⟨_, _, rfl⟩
      · have received : (m.buffers id).receive (logged.text host) =
            (m.buffers id).store (logged.text host) := if_neg full
        rw [if_neg full, ← received]
        cases logged.copied host with
        | true => exact ⟨_, _, rfl⟩
        | false => exact ⟨_, _, rfl⟩

theorem drainOverflow_sameBuffers (id : Nat) : Keeps SameBuffers (drainOverflow id) := by
  have warning : ∀ count, Keeps SameBuffers (drainWriteOverflowWarning count) := by
    intro count
    refine (onlyCalls_sameBuffers (external_onlyCalls _)).bind fun _ => ?_
    refine (onlyCalls_sameBuffers (logFormatTimestamp_onlyCalls 32)).bind fun timestamp => ?_
    refine (onlyCalls_sameBuffers (writePieces_onlyCalls _)).bind fun _ => ?_
    exact (onlyCalls_sameBuffers (external_onlyCalls _)).bind fun _ => .modify fun _ => rfl
  intro host m
  simp only [drainOverflow, wp_bind, wp_get]
  exact Keeps.ite ((warning _).attempt.bind fun _ => .pure _) (.pure _) host m

theorem drainStep_buffers (host : LogHost) (m : LogMachine) (id : Nat) :
    (drainStep host m id).buffers = Function.update m.buffers id (m.buffers id).reset := by
  have warned : (drainOverflow id host m).2.buffers = m.buffers :=
    (wp_always_iff _ host m _).mp (drainOverflow_sameBuffers id host m)
  rw [drainStep, ← warned]
  generalize (drainOverflow id host m).2 = m₁
  have entries : wp (drainEntries id)
      (fun _ m' => m'.buffers = Function.update m₁.buffers id (m₁.buffers id).reset)
      (fun m' => m'.buffers = Function.update m₁.buffers id (m₁.buffers id).reset) host m₁ := by
    have reset : ∀ m', SameBuffers m₁ m' → (m'.setBuffer id (m₁.buffers id).reset).buffers =
        Function.update m₁.buffers id (m₁.buffers id).reset := by
      intro m' same
      rw [LogMachine.setBuffer, same]
    simp only [drainEntries, wp_bind, wp_get]
    by_cases some_data : (m₁.buffers id).writePosition > 0
    · simp only [if_pos some_data, wp_bind, wp_attempt]
      exact wp_mono (writeToStderr_sameBuffers _ _ host m₁) (fun _ m' same => reset _ same)
        fun m' same => reset _ same
    · simp only [if_neg some_data]
      exact reset m₁ rfl
  exact (wp_always_iff _ host m₁ _).mp entries

theorem foldl_drainStep_buffer (host : LogHost) (ids : List Nat) (m : LogMachine) (id : Nat) :
    (ids.foldl (drainStep host) m).buffers id =
      if id ∈ ids then (m.buffers id).reset else m.buffers id := by
  induction ids generalizing m with
  | nil => rfl
  | cons first ids ih =>
      rw [List.foldl_cons, ih, drainStep_buffers]
      by_cases same : id = first
      · subst same
        simp [LogBuffer.reset]
      · simp [same]

theorem LogBuffer.Contains.step {host : LogHost} {capacity id : Nat} {m : LogMachine}
    {since : List LoggedMessage} (held : (m.buffers id).Contains host capacity since)
    (operation : LogOperation) :
    ((stepLog host m operation).buffers id).Contains host capacity
      (operation.since takenMessage host m id since) := by
  cases operation with
  | log level message =>
      have same : SameBuffers m (log level message host m).2 :=
        (wp_always_iff _ host m _).mp (log_sameBuffers level message host m)
      rw [stepLog, same]
      exact held
  | logToBuffer other level message =>
      obtain ⟨result, calls, run⟩ := logToBuffer_effect host m other level message
      rw [stepLog, run, LogOperation.since]
      by_cases same : other = id
      · subst same
        rw [if_pos rfl]
        cases takenMessage host m other level message with
        | none => simpa using held
        | some logged => simpa [LogMachine.setBuffer] using held.receive logged
      · rw [if_neg same]
        cases takenMessage host m other level message with
        | none => exact held
        | some logged => simpa [LogMachine.setBuffer, Ne.symm same] using held
  | logDrain ids =>
      rw [stepLog, logDrain_state, foldl_drainStep_buffer, LogOperation.since]
      split
      · exact held.reset
      · exact held
  | logSetLevel level => exact held

theorem LogBuffer.Contains.run {host : LogHost} {capacity id : Nat} {m : LogMachine}
    {since : List LoggedMessage} (held : (m.buffers id).Contains host capacity since)
    (operations : List LogOperation) :
    ((operations.foldl (stepLog host) m).buffers id).Contains host capacity
      (messagesSince takenMessage host id m since operations) := by
  induction operations generalizing m since with
  | nil => exact held
  | cons operation operations ih => exact ih (held.step operation)

/-- In every reached state a buffer holds the records of the messages it keeps, and one
more call counts its message, or keeps it, or else changes nothing, whatever fails. -/
theorem buffer_contents (host : LogHost) (level : LogLevel) (blocks : Nat → List UInt8)
    (levels : Nat → LogLevel) (operations : List LogOperation) (id : Nat) :
    let m := operations.foldl (stepLog host) (.started level blocks levels)
    let buffer := m.buffers id
    let capacity := (blocks id).length
    let since := messagesSince takenMessage host id (.started level blocks levels) [] operations
    let kept := keptMessages host capacity since
    (buffer.Contains host capacity since ∧ kept.Sublist since ∧
      ∀ logged ∈ kept, (logged.text host).getLast? = some newline) ∧
    ∀ level message, ∃ result calls buffers,
      logToBuffer id level message host m =
        (result, { m with calls := calls, buffers := buffers }) ∧
      (result = none → buffers = m.buffers) ∧
      (formattedMessage host m id level message = none →
        takenMessage host m id level message = none ∧ buffers = m.buffers) ∧
      ∀ logged, formattedMessage host m id level message = some logged →
        (capacity < buffer.writePosition + (logged.text host).length → result = some () ∧
          buffers = Function.update m.buffers id
            { buffer with overflowCount := buffer.overflowCount + 1 }) ∧
        (buffer.writePosition + (logged.text host).length ≤ capacity →
          (logged.copied host = true → result = some () ∧
            buffers = Function.update m.buffers id (buffer.store (logged.text host))) ∧
          (logged.copied host = false → result = none)) := by
  intro m buffer capacity since kept
  have created : ((LogMachine.started level blocks levels).buffers id).Contains host capacity [] :=
    LogBuffer.Contains.created (blocks id) (levels id)
  have held : buffer.Contains host capacity since := created.run operations
  refine ⟨⟨held, keptMessages_sublist host capacity since,
    fun logged _ => text_ends_in_newline host logged⟩, fun level message => ?_⟩
  cases formatted : formattedMessage host m id level message with
  | none =>
      obtain ⟨untaken, result, calls, run⟩ := logToBuffer_unformatted formatted
      exact ⟨result, calls, m.buffers, run, fun _ => rfl, fun _ => ⟨untaken, rfl⟩,
        fun _ same => nomatch same⟩
  | some logged =>
      have run := logToBuffer_formatted formatted
      by_cases full : buffer.writePosition + (logged.text host).length > capacity
      · rw [if_pos (held.capacity_eq.symm ▸ full)] at run
        refine ⟨_, _, _, run, fun failed => ?_, (fun same => nomatch same), ?_⟩
        · cases failed
        · rintro _ ⟨rfl⟩
          exact ⟨fun _ => ⟨rfl, rfl⟩, fun fits => absurd full (not_lt.mpr fits)⟩
      · rw [if_neg (held.capacity_eq.symm ▸ full)] at run
        cases copied : logged.copied host with
        | true =>
            rw [if_pos copied] at run
            refine ⟨_, _, _, run, fun failed => ?_, (fun same => nomatch same), ?_⟩
            · cases failed
            · rintro _ ⟨rfl⟩
              exact ⟨fun no_room => absurd no_room full, fun _ => ⟨fun _ => ⟨rfl, rfl⟩,
                fun failed => absurd (failed.symm.trans copied) Bool.false_ne_true⟩⟩
        | false =>
            rw [copied, if_neg Bool.false_ne_true] at run
            refine ⟨_, _, _, run, fun _ => rfl, (fun same => nomatch same), ?_⟩
            rintro _ ⟨rfl⟩
            exact ⟨fun no_room => absurd no_room full, fun _ => ⟨fun success =>
              absurd (copied.symm.trans success) Bool.false_ne_true, fun _ => rfl⟩⟩

/-- The copy into the buffer fails: the message passed the level and was formatted, and
neither count has changed. -/
theorem formatted_uncounted :
    let start := LogMachine.started .debug (fun _ => List.replicate 64 0) fun _ => .debug
    let operations := [LogOperation.logToBuffer 0 .info (.lit "first")]
    let buffer := (operations.foldl (stepLog (failingAt 5)) start).buffers 0
    buffer.entryCount + buffer.overflowCount ≠
      (messagesSince formattedMessage (failingAt 5) 0 start [] operations).length := by
  decide +kernel

/-- A clock that cannot be read at first, and writes that fail. -/
def unsteadyClock : LogHost where
  succeeds := fun n call => match call with
    | .clockGettime => decide (0 < n)
    | .writerWrite _ => false
    | _ => true
  nanoseconds := fun _ => 0
  localTime := fun _ => ⟨126, 0, 1, 0, 0, 0⟩

/-- The second message is not formatted, the fourth does not fit, the fifth does. -/
example :
    let operations := [LogOperation.logToBuffer 0 .debug (.lit "filtered"),
      .logToBuffer 0 .error (.lit "too early"), .logToBuffer 0 .info (.lit "first"),
      .logToBuffer 0 .warn (.lit "too long for the rest"), .logToBuffer 0 .error (.lit "short")]
    let buffer := (operations.foldl (stepLog unsteadyClock) (.started .info
      (fun _ => List.replicate 90 0) fun _ => .info)).buffers 0
    (buffer.entryCount, buffer.overflowCount, buffer.writePosition) = (2, 1, 86) := by
  decide +kernel

end Operations

end BcRuntime
