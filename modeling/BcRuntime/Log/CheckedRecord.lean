import BcRuntime.Foundation.Checked
import BcRuntime.Log.Delivery

/-!
The formatting of a record, written into its buffer with every access checked. A
write past the capacity, a read past the end of the message and a difference of
sizes that wraps make it give nothing; it gives what the formatting gives, laid
out from the start of the buffer, for every capacity and every message.
-/

namespace BcRuntime
open Fallible LogRun Checked Splice

/-- The clock cannot be read by the call numbered `n`, or its reading not converted. -/
def ClockFails (host : LogHost) (n : Nat) : Prop :=
  host.succeeds n .clockGettime = false ∨ host.succeeds (n + 1) .localtime = false

/-- The tag or the part of the message that has room cannot be copied, by a formatting
whose first call is numbered `n`. -/
def CopyFails (host : LogHost) (n : Nat) (message : CString) (capacity : Nat) : Prop :=
  host.succeeds (n + 2) (.coreCopy levelPrefixLength) = false ∨
    host.succeeds (n + 4) (.coreCopy (min message.length (capacity - 38))) = false

def FormatFails (host : LogHost) (n : Nat) (message : CString) (capacity : Nat) : Prop :=
  ClockFails host n ∨ capacity < 38 ∨ CopyFails host n message capacity ∨
    host.succeeds (n + 3) (.coreLength message) = false

structure LongestPrefix (kept text : List UInt8) (room : Nat) : Prop where
  isPrefix : kept <+: text
  fits : kept.length ≤ room
  longest : ∀ other, other <+: text → other.length ≤ room → other <+: kept

theorem longestPrefix_take (text : List UInt8) (room : Nat) :
    LongestPrefix (text.take room) text room where
  isPrefix := List.take_prefix _ _
  fits := List.length_take_le _ _
  longest := fun _ starts fits => List.prefix_take_iff.mpr ⟨starts, fits⟩

/-- The 28 assignments to `buffer[0]` up to `buffer[27]`, as one block. -/
def checkedFormatTimestamp (buffer : List UInt8) : LogRun (Option (List UInt8 × Nat)) :=
  if buffer.length < 29 then fail
  else do
    let reading ← external .clockGettime
    let converted ← external .localtime
    let host ← ask
    let timestamp := timestampBytes (host.localTime converted) (host.nanoseconds reading)
    within (write buffer 0 timestamp) fun buffer => pure (some (buffer, timestamp.length))

/-- What follows the check of the room: the tag, the message and the newline. The
region of a copy is checked before the copy is made, whether or not it succeeds. -/
def checkedFormatRest (level : LogLevel) (message : CString) (buffer : List UInt8)
    (position : Nat) : LogRun (Option (List UInt8 × Nat)) :=
  let capacity := buffer.length
  within (write buffer position [32]) fun buffer =>
  let position := position + 1
  within (slice (levelPrefix level) 0 levelPrefixLength) fun tag =>
  within (write buffer position tag) fun buffer => do
    let _ ← external (.coreCopy levelPrefixLength)
    let position := position + levelPrefixLength
    within (write buffer position [32]) fun buffer => do
      let position := position + 1
      let _ ← external (.coreLength message)
      within (sub capacity position) fun room =>
      within (sub room 1) fun maxMessage =>
      let messageLength := if message.length > maxMessage then maxMessage else message.length
      within (slice message.bytes 0 messageLength) fun text =>
      within (write buffer position text) fun buffer => do
        let _ ← external (.coreCopy messageLength)
        let position := position + messageLength
        within (write buffer position [newline]) fun buffer =>
          pure (some (buffer, position + 1))

/-- `format_record_into_buffer`: the buffer it leaves and `*out_length`. -/
def checkedFormatRecord (level : LogLevel) (message : CString) (buffer : List UInt8) :
    LogRun (Option (List UInt8 × Nat)) := do
  match ← checkedFormatTimestamp buffer with
  | none => pure none
  | some (buffer, position) =>
      if position + 1 + levelPrefixLength + 1 + 1 > buffer.length then fail
      else checkedFormatRest level message buffer position

section Specs

theorem length_timestampBytes (time : LocalTime) (nanoseconds : Int) :
    (timestampBytes time nanoseconds).length = 28 := rfl

theorem length_levelPrefix (level : LogLevel) : (levelPrefix level).length = levelPrefixLength := by
  cases level <;> rfl

theorem length_header (level : LogLevel) {timestamp : List UInt8} (size : timestamp.length = 28) :
    (timestamp ++ [32] ++ levelPrefix level ++ [32]).length = 37 := by
  simp [size, length_levelPrefix, levelPrefixLength]

theorem checkedFormatRest_eq (level : LogLevel) (message : CString) {buffer timestamp : List UInt8}
    (size : timestamp.length = 28) (room : 38 ≤ buffer.length) :
    checkedFormatRest level message (splice buffer 0 timestamp) timestamp.length =
      (do
        let _ ← external (.coreCopy levelPrefixLength)
        let header := timestamp ++ [32] ++ levelPrefix level ++ [32]
        let _ ← external (.coreLength message)
        let maxMessage := buffer.length - header.length - 1
        let messageLength := if message.length > maxMessage then maxMessage else message.length
        let _ ← external (.coreCopy messageLength)
        let record := header ++ message.bytes.take messageLength ++ [newline]
        pure (some (splice buffer 0 record, record.length))) := by
  have tag := length_levelPrefix level
  have header := length_header level size
  have same : (splice buffer 0 timestamp).length = buffer.length := length_splice (by omega)
  rw [levelPrefixLength] at tag
  simp only [checkedFormatRest, same, levelPrefixLength]
  rw [write_next rfl (by simp [size]; omega), within_some, slice_of_le (by rw [tag]),
    within_some, List.drop_zero, List.take_of_length_le tag.le,
    write_next (by simp) (by simp [size, tag]; omega), within_some]
  refine bind_congr fun _ => ?_
  rw [write_next (by simp [size, tag]) (by simp [size, tag]; omega), within_some]
  refine bind_congr fun _ => ?_
  rw [sub_of_le (by omega), within_some, sub_of_le (by omega), within_some, header, size]
  simp only [Nat.reduceAdd]
  generalize cut : (if message.length > buffer.length - 37 - 1 then buffer.length - 37 - 1
    else message.length) = count
  have inside : count ≤ message.bytes.length := by
    have length : message.length = message.bytes.length := rfl
    rw [← cut]
    split <;> omega
  have fits : count ≤ buffer.length - 38 := by
    rw [← cut]
    split <;> omega
  have text : (timestamp ++ [32] ++ levelPrefix level ++ [32] ++
      message.bytes.take count).length = 37 + count := by
    rw [List.length_append, List.length_take_of_le inside, header]
  rw [slice_of_le (by omega), within_some, List.drop_zero,
    write_next header.symm (by rw [text]; omega), within_some]
  refine bind_congr fun _ => ?_
  rw [write_next text.symm (by rw [List.length_append, text, List.length_singleton]; omega),
    within_some, List.length_append, text]
  rfl

/-- The checked formatting is the formatting, laid out from the start of the buffer:
no step of it is out of bounds, whatever fails. -/
theorem checkedFormatRecord_eq (level : LogLevel) (message : CString) (buffer : List UInt8) :
    checkedFormatRecord level message buffer =
      (fun record => some (splice buffer 0 record, record.length)) <$>
        formatRecordIntoBuffer level message buffer.length := by
  simp only [checkedFormatRecord, checkedFormatTimestamp, formatRecordIntoBuffer,
    logFormatTimestamp, map_eq_pure_bind]
  by_cases small : buffer.length < 29
  · rw [if_pos small, if_pos small]
    rfl
  · rw [if_neg small, if_neg small]
    simp only [bind_assoc, pure_bind]
    refine bind_congr fun reading => bind_congr fun converted => bind_congr fun host => ?_
    have size := length_timestampBytes (host.localTime converted) (host.nanoseconds reading)
    generalize timestampBytes (host.localTime converted) (host.nanoseconds reading) = timestamp
      at size
    rw [write_of_le (by omega), within_some, pure_bind]
    simp only [length_splice (show 0 + timestamp.length ≤ buffer.length by omega)]
    by_cases short : timestamp.length + 1 + levelPrefixLength + 1 + 1 > buffer.length
    · rw [if_pos short, if_pos short]
      rfl
    · rw [if_neg short, if_neg short, checkedFormatRest_eq level message size (by
        rw [levelPrefixLength] at short
        omega)]
      simp only [bind_assoc, pure_bind]

theorem logFormatTimestamp_result (size : Nat) (host : LogHost) (m : LogMachine) :
    wp (logFormatTimestamp size)
      (fun text m' => m' = { m with calls := m.calls + 2 } ∧ 29 ≤ size ∧
        ¬ ClockFails host m.calls ∧
        text = timestampBytes (host.localTime (m.calls + 1)) (host.nanoseconds m.calls))
      (fun _ => size < 29 ∨ ClockFails host m.calls) host m := by
  rw [logFormatTimestamp, wp_ite]
  refine ⟨fun small => .inl small, fun room => ?_⟩
  simp only [wp_bind, wp_external, wp_ask, wp_pure]
  refine ⟨fun read => ⟨fun converted => ⟨trivial, not_lt.mp room, ?_, trivial⟩,
    fun failed => .inr (.inr failed)⟩, fun failed => .inr (.inl failed)⟩
  rintro (failed | failed)
  · exact Bool.false_ne_true (failed.symm.trans read)
  · exact Bool.false_ne_true (failed.symm.trans converted)

/-- What the formatting results in, whatever fails: five calls and a record, or a cause. -/
theorem formatRecord_result (host : LogHost) (m : LogMachine) (level : LogLevel)
    (message : CString) (capacity : Nat) :
    wp (formatRecordIntoBuffer level message capacity)
      (fun record m' => m' = { m with calls := m.calls + 5 } ∧
        ¬ FormatFails host m.calls message capacity ∧ 38 ≤ capacity ∧
        record = timestampBytes (host.localTime (m.calls + 1)) (host.nanoseconds m.calls) ++ [32] ++
          levelPrefix level ++ [32] ++ message.bytes.take (capacity - 38) ++ [newline])
      (fun _ => FormatFails host m.calls message capacity) host m := by
  rw [formatRecordIntoBuffer, wp_bind]
  refine wp_mono (logFormatTimestamp_result capacity host m) ?_ ?_
  · rintro _ _ ⟨rfl, room, works, rfl⟩
    rw [wp_ite, length_timestampBytes, levelPrefixLength]
    refine ⟨fun short => .inr (.inl (by omega)), fun fits => ?_⟩
    simp only [wp_bind, wp_external, wp_pure, length_header level (length_timestampBytes _ _),
      Nat.sub_sub, messageLength_eq_min]
    refine ⟨fun tag => ⟨fun length => ⟨fun text => ⟨trivial, ?_, by omega, ?_⟩, fun failed => ?_⟩,
      fun failed => .inr (.inr (.inr failed))⟩, fun failed => .inr (.inr (.inl (.inl failed)))⟩
    · rintro (clock | small | (failed | failed) | failed)
      · exact works clock
      · omega
      · exact Bool.false_ne_true (failed.symm.trans tag)
      · exact Bool.false_ne_true (failed.symm.trans text)
      · exact Bool.false_ne_true (failed.symm.trans length)
    · rw [← messageLength_eq_min, take_messageLength]
    · exact .inr (.inr (.inl (.inr failed)))
  · rintro m' (small | clock)
    · exact .inr (.inl (by omega))
    · exact .inl clock

/-- For every capacity, message and level and whatever fails, the length of the message
apart: `false` only for a clock or a copy that fails or a buffer that is too small, else
a record that fits into the buffer and fills it when the message has to be cut; no step
is out of bounds. -/
theorem formatRecord_fits {host : LogHost} {m : LogMachine} {message : CString}
    (measured : host.succeeds (m.calls + 3) (.coreLength message) = true) (level : LogLevel)
    (buffer : List UInt8) :
    ∃ result m', checkedFormatRecord level message buffer host m = (result, m') ∧
      (result = none ↔ ClockFails host m.calls ∨ buffer.length < 38 ∨
        CopyFails host m.calls message buffer.length) ∧
      ∀ written, result = some written →
        ∃ timestamp kept,
          timestamp = timestampBytes (host.localTime (m.calls + 1)) (host.nanoseconds m.calls) ∧
          timestamp.length = 28 ∧ (levelPrefix level).length = 7 ∧
          LongestPrefix kept message.bytes (buffer.length - 38) ∧
          let record := timestamp ++ [32] ++ levelPrefix level ++ [32] ++ kept ++ [newline]
          record.length ≤ buffer.length ∧
            written = some (splice buffer 0 record, record.length) := by
  rw [checkedFormatRecord_eq, map_eq_pure_bind]
  cases wp_cases (formatRecord_result host m level message buffer.length) with
  | inl formatted =>
      obtain ⟨record, m', run, _, works, room, rfl⟩ := formatted
      refine ⟨_, m', bind_run_of_some run _, ?_, fun written same => ⟨_, _, rfl, rfl,
        length_levelPrefix level, longestPrefix_take _ _, ?_, (Option.some.inj same).symm⟩⟩
      · refine iff_of_false (by simp) ?_
        rintro (clock | small | copy)
        · exact works (.inl clock)
        · exact works (.inr (.inl small))
        · exact works (.inr (.inr (.inl copy)))
      · have text := length_header level
          (length_timestampBytes (host.localTime (m.calls + 1)) (host.nanoseconds m.calls))
        rw [List.length_append, List.length_append, text, List.length_take, List.length_singleton]
        omega
  | inr failed =>
      obtain ⟨m', run, cause⟩ := failed
      refine ⟨none, m', bind_run_of_none run _, ?_, fun written same => by cases same⟩
      refine iff_of_true rfl ?_
      rcases cause with clock | small | copy | length
      · exact .inl clock
      · exact .inr (.inl small)
      · exact .inr (.inr copy)
      · exact absurd (length.symm.trans measured) Bool.false_ne_true

/-- Two bytes of room for the message. -/
theorem formatRecord_fits_forty :
    ∃ written m', checkedFormatRecord .warn (.lit "disk full") (List.replicate 40 0) obligingStderr
      (.started .debug (fun _ => []) fun _ => .debug) = (some (some written), m') ∧
        written.2 ≤ 40 := by
  have measured : obligingStderr.succeeds 3 (.coreLength (.lit "disk full")) = true := rfl
  obtain ⟨result, m', run, fails, content⟩ := formatRecord_fits measured .warn (List.replicate 40 0)
    (m := .started .debug (fun _ => []) fun _ => .debug)
  cases result with
  | none =>
      have stopped := fails.mp rfl
      simp [ClockFails, CopyFails, obligingStderr] at stopped
  | some written =>
      obtain ⟨_, _, _, _, _, _, fits, same⟩ := content written rfl
      cases same
      exact ⟨_, m', run, fits⟩

def failingAt (call : Nat) : LogHost where
  succeeds := fun n _ => n != call
  nanoseconds := fun _ => 0
  localTime := fun _ => ⟨126, 0, 1, 0, 0, 0⟩

/-- The tag cannot be copied: no record, though the clock works and there is room. -/
theorem formatRecord_untagged :
    let m := LogMachine.started .debug (fun _ => []) fun _ => .debug
    (failingAt 2).succeeds (m.calls + 3) (.coreLength (.lit "disk full")) = true ∧
      ¬ ((checkedFormatRecord .warn (.lit "disk full") (List.replicate 40 0) (failingAt 2) m).1 =
          none ↔
        ClockFails (failingAt 2) m.calls ∨ (List.replicate 40 (0 : UInt8)).length < 38) := by
  intro m
  refine ⟨rfl, fun exact_cause => ?_⟩
  have stopped := exact_cause.mp rfl
  simp [ClockFails, failingAt, m, LogMachine.started] at stopped

end Specs

end BcRuntime
