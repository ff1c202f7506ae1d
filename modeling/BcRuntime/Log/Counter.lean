import BcRuntime.Log.Logging
import BcRuntime.Foundation.Runs

/-!
The counter of written messages against what was handed to `stderr`. Logging and
the warnings of a drain keep the two in step whatever fails; a drain counts the
entries of a buffer also when their write has failed, and from then on the
counter is too large.
-/

namespace BcRuntime
open Fallible LogRun

/-- The counters of a buffer fit what it holds. -/
structure LogBuffer.Valid (buffer : LogBuffer) : Prop where
  size : buffer.data.length = buffer.capacity
  inside : buffer.writePosition ≤ buffer.capacity
  holds : buffer.data.take buffer.writePosition = buffer.records.flatten
  counted : buffer.entryCount = buffer.records.length
  nonempty : ∀ record ∈ buffer.records, record ≠ []

structure LogMachine.Valid (m : LogMachine) : Prop where
  buffers : ∀ id, (m.buffers id).Valid
  batches : ∀ written ∈ m.sessions, written.records ≠ [] → written.bytes = written.records.flatten
  bounded : m.delivered.length ≤ m.logMessagesWritten

/-- The counter is the number of log records in the sessions that succeeded. -/
def LogMachine.Honest (m : LogMachine) : Prop := m.logMessagesWritten = m.delivered.length

instance (m : LogMachine) : Decidable m.Honest := inferInstanceAs (Decidable (_ = _))

/-- The step keeps the state valid, and the counter as honest as it was. -/
structure Tallied (m m' : LogMachine) : Prop where
  valid : m.Valid → m'.Valid
  honest : m'.Honest ↔ m.Honest

instance : Std.Refl Tallied := ⟨fun _ => ⟨id, Iff.rfl⟩⟩

instance : IsTrans LogMachine Tallied where
  trans := fun _ _ _ first second =>
    ⟨fun valid => second.valid (first.valid valid), second.honest.trans first.honest⟩

def OnlyCalls (m m' : LogMachine) : Prop := ∃ calls, m' = { m with calls := calls }

instance : Std.Refl OnlyCalls := ⟨fun m => ⟨m.calls, rfl⟩⟩

instance : IsTrans LogMachine OnlyCalls where
  trans := by
    rintro m m' m'' ⟨_, first⟩ ⟨calls, second⟩
    exact ⟨calls, by rw [second, first]⟩

theorem OnlyCalls.tallied {m m' : LogMachine} (h : OnlyCalls m m') : Tallied m m' := by
  obtain ⟨calls, same⟩ := h
  subst same
  exact ⟨fun valid => ⟨valid.buffers, valid.batches, valid.bounded⟩, Iff.rfl⟩

section Buffers
variable {buffer : LogBuffer}

theorem LogBuffer.created_valid (data : List UInt8) (level : LogLevel) :
    (LogBuffer.created data level).Valid where
  size := rfl
  inside := Nat.zero_le _
  holds := rfl
  counted := rfl
  nonempty := fun _ mem => absurd mem List.not_mem_nil

theorem LogBuffer.Valid.overflow (h : buffer.Valid) : buffer.overflow.Valid :=
  ⟨h.size, h.inside, h.holds, h.counted, h.nonempty⟩

theorem LogBuffer.Valid.reset (h : buffer.Valid) : buffer.reset.Valid where
  size := h.size
  inside := Nat.zero_le _
  holds := rfl
  counted := rfl
  nonempty := fun _ mem => absurd mem List.not_mem_nil

theorem LogBuffer.Valid.store (h : buffer.Valid) {record : List UInt8} (some_byte : record ≠ [])
    (fits : buffer.writePosition + record.length ≤ buffer.capacity) :
    (buffer.store record).Valid where
  size := (Splice.length_splice (by rw [h.size]; exact fits)).trans h.size
  inside := fits
  holds := by
    have inside : buffer.writePosition ≤ buffer.data.length := by
      rw [h.size]
      exact h.inside
    have read : (Splice.splice buffer.data buffer.writePosition record).take _ = _ :=
      Splice.take_splice inside
    simpa [LogBuffer.store, h.holds] using read
  counted := by simp [LogBuffer.store, h.counted]
  nonempty := by
    intro other mem
    cases List.mem_append.mp mem with
    | inl earlier => exact h.nonempty other earlier
    | inr last => exact List.mem_singleton.mp last ▸ some_byte

theorem LogBuffer.Valid.length_records (h : buffer.Valid) :
    buffer.records.flatten.length = buffer.writePosition := by
  have inside : buffer.writePosition ≤ buffer.data.length := by
    rw [h.size]
    exact h.inside
  rw [← h.holds, List.length_take, Nat.min_eq_left inside]

/-- There is something to dump exactly when there are records. -/
theorem LogBuffer.Valid.position_pos_iff (h : buffer.Valid) :
    0 < buffer.writePosition ↔ buffer.records ≠ [] := by
  rw [← h.length_records, List.length_pos_iff, ne_eq, List.flatten_eq_nil_iff, not_iff_not]
  constructor
  · intro all_empty
    refine List.eq_nil_iff_forall_not_mem.mpr fun record mem => ?_
    exact h.nonempty record mem (all_empty record mem)
  · intro none record mem
    rw [none] at mem
    exact absurd mem List.not_mem_nil

end Buffers

section Specs
variable (host : LogHost) (m : LogMachine)

theorem external_onlyCalls (call : LogCall) : Keeps OnlyCalls (external call) :=
  fun _ _ => (wp_external _ _).mpr ⟨fun _ => ⟨_, rfl⟩, fun _ => ⟨_, rfl⟩⟩

theorem logFormatTimestamp_onlyCalls (bufferSize : Nat) :
    Keeps OnlyCalls (logFormatTimestamp bufferSize) := by
  refine .ite .fail ((external_onlyCalls _).bind fun reading => ?_)
  exact (external_onlyCalls _).bind fun converted => fun _ m => ⟨m.calls, rfl⟩

theorem formatRecord_spec (level : LogLevel) (message : CString) (capacity : Nat) :
    wp (formatRecordIntoBuffer level message capacity)
      (fun record m' => OnlyCalls m m' ∧ record ≠ []) (fun m' => OnlyCalls m m') host m := by
  simp only [formatRecordIntoBuffer, wp_bind]
  refine wp_mono (logFormatTimestamp_onlyCalls capacity host m) ?_ fun _ h => h
  intro timestamp m₁ h
  have later : ∀ calls, OnlyCalls m { m₁ with calls := calls } :=
    fun calls => IsTrans.trans _ _ _ h ⟨calls, rfl⟩
  rw [wp_ite]
  refine ⟨fun _ => h, fun _ => ?_⟩
  simp only [wp_bind, wp_external, wp_pure]
  refine ⟨fun _ => ⟨fun _ => ⟨fun _ => ⟨later _, by simp⟩, fun _ => later _⟩, fun _ => later _⟩,
    fun _ => later _⟩

/-- The three calls of a session on `stderr`, the first of them numbered `n`. -/
def WriteSucceeds (n : Nat) (data : List UInt8) : Prop :=
  host.succeeds n .writerInit = true ∧ host.succeeds (n + 1) (.writerWrite data) = true ∧
    host.succeeds (n + 2) .writerDestroy = true

theorem writeToStderr_spec (data : List UInt8) (records : List (List UInt8)) :
    wp (writeToStderr data records)
      (fun _ m' => WriteSucceeds host m.calls data ∧
        ∃ calls, m' = { m with calls := calls, sessions := m.sessions ++ [⟨data, records⟩] })
      (fun m' => ¬ WriteSucceeds host m.calls data ∧ OnlyCalls m m') host m := by
  simp only [writeToStderr, wp_bind, wp_external, wp_attempt]
  refine ⟨fun started => ⟨fun wrote => ⟨fun ended => ⟨⟨started, wrote, ended⟩, _, rfl⟩, ?_⟩, ?_⟩,
    ?_⟩
  · exact fun failed => ⟨fun all => by simp [all.2.2] at failed, _, rfl⟩
  · exact fun failed => ⟨fun _ => ⟨fun all => by simp [all.2.1] at failed, _, rfl⟩,
      fun _ => ⟨fun all => by simp [all.2.1] at failed, _, rfl⟩⟩
  · exact fun failed => ⟨fun all => by simp [all.1] at failed, _, rfl⟩

end Specs

section Tallies

/-- A write of whole records and their count in the counter. -/
theorem tallied_of_written {m : LogMachine} {data : List UInt8} {records : List (List UInt8)}
    (whole : records ≠ [] → data = records.flatten) (calls : Nat) :
    Tallied m { m with
      calls := calls
      sessions := m.sessions ++ [⟨data, records⟩]
      logMessagesWritten := m.logMessagesWritten + records.length } := by
  have delivered : (m.sessions ++ [(⟨data, records⟩ : Written)]).flatMap Written.records =
      m.delivered ++ records := by simp [LogMachine.delivered]
  constructor
  · intro valid
    refine ⟨valid.buffers, fun written mem => ?_, ?_⟩
    · cases List.mem_append.mp mem with
      | inl earlier => exact valid.batches written earlier
      | inr last =>
          obtain rfl := List.mem_singleton.mp last
          exact whole
    · rw [LogMachine.delivered, delivered, List.length_append]
      exact Nat.add_le_add_right valid.bounded _
  · rw [LogMachine.Honest, LogMachine.Honest, LogMachine.delivered, delivered, List.length_append]
    exact Nat.add_right_cancel_iff

theorem tallied_setBuffer {m : LogMachine} {id : Nat} {buffer : LogBuffer}
    (valid : (m.buffers id).Valid → buffer.Valid) : Tallied m (m.setBuffer id buffer) where
  valid := by
    intro before
    refine ⟨fun other => ?_, before.batches, before.bounded⟩
    by_cases same : other = id
    · subst same
      simpa [LogMachine.setBuffer] using valid (before.buffers other)
    · simpa [LogMachine.setBuffer, same] using before.buffers other
  honest := Iff.rfl

theorem log_tallied (level : LogLevel) (message : CString) : Keeps Tallied (log level message) := by
  intro host m
  simp only [log, wp_bind, wp_get]
  rw [wp_ite]
  refine ⟨fun _ => Std.Refl.refl m, fun _ => ?_⟩
  rw [wp_bind]
  refine wp_mono (formatRecord_spec host m level message logStackSize) ?_ fun _ h => h.tallied
  rintro record m₁ ⟨quiet, _⟩
  rw [wp_bind]
  refine wp_mono (writeToStderr_spec host m₁ record [record]) ?_
    fun _ failed => IsTrans.trans _ _ _ quiet.tallied failed.2.tallied
  rintro _ m₂ ⟨_, calls, written⟩
  subst written
  have whole : record = [record].flatten := List.flatten_singleton.symm
  exact IsTrans.trans _ _ _ quiet.tallied (tallied_of_written (fun _ => whole) calls)

theorem logToBuffer_tallied (id : Nat) (level : LogLevel) (message : CString) :
    Keeps Tallied (logToBuffer id level message) := by
  intro host m
  simp only [logToBuffer, wp_bind, wp_get]
  rw [wp_ite]
  refine ⟨fun _ => Std.Refl.refl m, fun _ => ?_⟩
  rw [wp_bind]
  refine wp_mono (formatRecord_spec host m level message logStackSize) ?_ fun _ h => h.tallied
  rintro record m₁ ⟨quiet, some_byte⟩
  have buffers : m₁.buffers = m.buffers := by
    obtain ⟨calls, same⟩ := quiet
    rw [same]
  rw [wp_ite]
  refine ⟨fun _ => ?_, fun fits => ?_⟩
  · refine IsTrans.trans _ _ _ quiet.tallied (tallied_setBuffer ?_)
    rw [buffers]
    exact fun valid => valid.overflow
  · simp only [wp_bind, wp_external, wp_modify]
    have copied : ∀ calls, Tallied m { m₁ with calls := calls } := fun calls =>
      IsTrans.trans _ _ _ quiet.tallied (OnlyCalls.tallied ⟨calls, rfl⟩)
    refine ⟨fun _ => IsTrans.trans _ _ _ (copied _) (tallied_setBuffer ?_), fun _ => copied _⟩
    rw [buffers]
    exact fun valid => valid.store some_byte (not_lt.mp fits)

theorem writePieces_onlyCalls (pieces : List (List UInt8)) :
    Keeps OnlyCalls (writePieces pieces) := by
  induction pieces with
  | nil => exact .pure _
  | cons piece pieces ih => exact (external_onlyCalls _).bind fun _ => ih

theorem drainOverflow_tallied (id : Nat) : Keeps Tallied (drainOverflow id) := by
  have quietly : ∀ {α : Type} {c : LogRun α}, Keeps OnlyCalls c → Keeps Tallied c :=
    fun keeps host m => wp_mono (keeps host m) (fun _ _ h => h.tallied) fun _ h => h.tallied
  have warning : ∀ count, Keeps Tallied (drainWriteOverflowWarning count) := by
    intro count
    refine (quietly (external_onlyCalls _)).bind fun _ => ?_
    refine (quietly (logFormatTimestamp_onlyCalls 32)).bind fun timestamp => ?_
    refine (quietly (writePieces_onlyCalls _)).bind fun _ => ?_
    refine (quietly (external_onlyCalls _)).bind fun _ => .modify fun m => ?_
    exact tallied_of_written (fun none => absurd rfl none) m.calls
  intro host m
  simp only [drainOverflow, wp_bind, wp_get]
  refine Keeps.ite ((warning _).attempt.bind fun _ => .pure _) (.pure _) host m

end Tallies

section Drain
variable {host : LogHost} {m : LogMachine} {id : Nat}

def DumpDelivered (host : LogHost) (m : LogMachine) (id : Nat) : Prop :=
  0 < (m.buffers id).writePosition →
    WriteSucceeds host m.calls ((m.buffers id).data.take (m.buffers id).writePosition)

/-- Entries that are counted although their write failed are never made up for. -/
theorem not_honest_of_undelivered (valid : m.Valid) (position : 0 < (m.buffers id).writePosition)
    (calls : Nat) :
    ∀ m', m' = { m with
      calls := calls, logMessagesWritten := m.logMessagesWritten + (m.buffers id).entryCount } →
    m'.Valid ∧ ¬ m'.Honest := by
  intro m' same
  subst same
  refine ⟨⟨valid.buffers, valid.batches, Nat.le_add_right_of_le valid.bounded⟩, ?_⟩
  have buffer := valid.buffers id
  have some_record := List.length_pos_iff.mpr (buffer.position_pos_iff.mp position)
  have bounded := valid.bounded
  rw [LogMachine.Honest, buffer.counted]
  change ¬ m.logMessagesWritten + _ = m.delivered.length
  omega

theorem drainEntries_spec (valid : m.Valid) (id : Nat) :
    wp (drainEntries id)
      (fun _ m' => m'.Valid ∧ (m'.Honest ↔ m.Honest ∧ DumpDelivered host m id))
      (fun _ => False) host m := by
  have buffer := valid.buffers id
  have reset : ∀ m₁ : LogMachine, m₁.buffers = m.buffers →
      Tallied m₁ (m₁.setBuffer id (m.buffers id).reset) := by
    intro m₁ same
    refine tallied_setBuffer fun before => ?_
    rw [same] at before
    exact before.reset
  simp only [drainEntries, wp_bind, wp_get]
  by_cases position : (m.buffers id).writePosition > 0
  · simp only [if_pos position, wp_bind, wp_attempt, drainDumpBuffer]
    refine wp_mono (writeToStderr_spec host m _ (m.buffers id).records) ?_ ?_
    · rintro _ m₁ ⟨succeeds, calls, written⟩
      subst written
      have tallied := IsTrans.trans _ _ _ (tallied_of_written (fun _ => buffer.holds) calls)
        (reset _ rfl)
      simp only [← buffer.counted] at tallied
      exact ⟨tallied.valid valid, tallied.honest.trans
        (and_iff_left fun _ => succeeds).symm⟩
    · rintro m₁ ⟨fails, calls, same⟩
      subst same
      obtain ⟨still_valid, dishonest⟩ := not_honest_of_undelivered valid position calls _ rfl
      have tallied := reset { m with
        calls := calls, logMessagesWritten := m.logMessagesWritten + (m.buffers id).entryCount } rfl
      exact ⟨tallied.valid still_valid, iff_of_false (fun honest => dishonest
        (tallied.honest.mp honest)) fun both => fails (both.2 position)⟩
  · simp only [if_neg position]
    have tallied := reset m rfl
    exact ⟨tallied.valid valid, tallied.honest.trans
      (and_iff_left fun some_data => absurd some_data position).symm⟩

theorem drainOverflow_total (id : Nat) :
    wp (drainOverflow id) (fun _ _ => True) (fun _ => False) host m := by
  simp only [drainOverflow, wp_bind, wp_get]
  refine (wp_ite _ _ _ _ _ _ _).mpr ⟨fun _ => ?_, fun _ => trivial⟩
  rw [wp_bind, wp_attempt]
  exact wp_true _ _ _

theorem drainEntries_total (id : Nat) :
    wp (drainEntries id) (fun _ _ => True) (fun _ => False) host m := by
  simp only [drainEntries, wp_bind, wp_get]
  refine (wp_ite _ _ _ _ _ _ _).mpr ⟨fun _ => ?_, fun _ => trivial⟩
  rw [wp_bind, wp_attempt]
  exact wp_true _ _ _

/-- The state a drain reaches after one buffer of its list. -/
def drainStep (host : LogHost) (m : LogMachine) (id : Nat) : LogMachine :=
  (drainEntries id host (drainOverflow id host m).2).2

def DumpSucceeds (host : LogHost) (m : LogMachine) (id : Nat) : Prop :=
  DumpDelivered host (drainOverflow id host m).2 id

theorem drainStep_spec (valid : m.Valid) (id : Nat) :
    (drainStep host m id).Valid ∧
      ((drainStep host m id).Honest ↔ m.Honest ∧ DumpSucceeds host m id) := by
  have warned : Tallied m (drainOverflow id host m).2 :=
    (wp_always_iff _ host m _).mp (drainOverflow_tallied id host m)
  have dumped : wp (drainEntries id) _ _ host _ := drainEntries_spec (warned.valid valid) id
  obtain ⟨_, m', run, still_valid, exactly⟩ := exists_run_of_wp dumped
  rw [drainStep, run]
  exact ⟨still_valid, exactly.trans (and_congr_left fun _ => warned.honest)⟩

/-- The loop of a drain is the fold of its steps, whatever fails on the way. -/
theorem logDrain_state (ids : List Nat) (m : LogMachine) (allSucceeded : Bool) :
    (logDrain ids allSucceeded host m).2 = ids.foldl (drainStep host) m := by
  induction ids generalizing m allSucceeded with
  | nil => rfl
  | cons id ids ih =>
      have overflow : wp (drainOverflow id) _ _ host m := drainOverflow_total id
      obtain ⟨warned, m₁, first, _⟩ := exists_run_of_wp overflow
      have entries : wp (drainEntries id) _ _ host m₁ := drainEntries_total id
      obtain ⟨dumped, m₂, second, _⟩ := exists_run_of_wp entries
      have step : drainStep host m id = m₂ := by rw [drainStep, first, second]
      rw [List.foldl_cons, step, logDrain, bind_run_of_some first, bind_run_of_some second]
      exact ih m₂ _

theorem logDrain_spec (ids : List Nat) (valid : m.Valid) :
    (logDrain ids true host m).2.Valid ∧
      ((logDrain ids true host m).2.Honest ↔
        m.Honest ∧ Runs.Along (drainStep host) (DumpSucceeds host) m ids) := by
  have kept : ∀ m id, LogMachine.Valid m → (drainStep host m id).Valid :=
    fun _ id valid => (drainStep_spec valid id).1
  have exactly : ∀ m id, LogMachine.Valid m →
      ((drainStep host m id).Honest ↔ m.Honest ∧ DumpSucceeds host m id) :=
    fun _ id valid => (drainStep_spec valid id).2
  rw [logDrain_state]
  exact ⟨Runs.foldl_keeps kept ids valid, Runs.foldl_iff_along kept exactly ids valid⟩

end Drain

inductive LogOperation
  | log (level : LogLevel) (message : CString)
  | logToBuffer (id : Nat) (level : LogLevel) (message : CString)
  | logDrain (ids : List Nat)
  | logSetLevel (level : LogLevel)

/-- The state after an operation, whatever it has returned. -/
def stepLog (host : LogHost) (m : LogMachine) : LogOperation → LogMachine
  | .log level message => (log level message host m).2
  | .logToBuffer id level message => (logToBuffer id level message host m).2
  | .logDrain ids => (logDrain ids true host m).2
  | .logSetLevel level => (logSetLevel level host m).2

/-- If the operation is a drain, every buffer with data is dumped successfully. -/
def DumpsSucceed (host : LogHost) (m : LogMachine) : LogOperation → Prop
  | .logDrain ids => Runs.Along (drainStep host) (DumpSucceeds host) m ids
  | _ => True

/-- The application as created, with the buffers that the run will use. -/
def LogMachine.started (level : LogLevel) (blocks : Nat → List UInt8) (levels : Nat → LogLevel) :
    LogMachine where
  calls := 0
  logLevel := level
  logMessagesWritten := 0
  buffers := fun id => .created (blocks id) (levels id)
  sessions := []

theorem LogMachine.started_valid (level : LogLevel) (blocks : Nat → List UInt8)
    (levels : Nat → LogLevel) : (LogMachine.started level blocks levels).Valid where
  buffers := fun id => LogBuffer.created_valid (blocks id) (levels id)
  batches := fun _ mem => absurd mem List.not_mem_nil
  bounded := Nat.le_refl 0

/-- The counter goes wrong exactly with the first dump that fails. -/
theorem stepLog_spec (host : LogHost) {m : LogMachine} (valid : m.Valid)
    (operation : LogOperation) :
    (stepLog host m operation).Valid ∧
      ((stepLog host m operation).Honest ↔ m.Honest ∧ DumpsSucceed host m operation) := by
  have tallies : ∀ {c : LogRun PUnit}, Keeps Tallied c →
      (c host m).2.Valid ∧ ((c host m).2.Honest ↔ m.Honest ∧ True) := by
    intro c keeps
    have tallied : Tallied m (c host m).2 := (wp_always_iff _ host m _).mp (keeps host m)
    exact ⟨tallied.valid valid, tallied.honest.trans (and_iff_left trivial).symm⟩
  cases operation with
  | log level message => exact tallies (log_tallied level message)
  | logToBuffer id level message => exact tallies (logToBuffer_tallied id level message)
  | logDrain ids => exact logDrain_spec ids valid
  | logSetLevel level =>
      exact ⟨⟨valid.buffers, valid.batches, valid.bounded⟩, (and_iff_left trivial).symm⟩

/-- The counter is right in every state of a run exactly when no dump of the run fails. -/
theorem honest_iff_dumps_succeed (host : LogHost) (level : LogLevel)
    (blocks : Nat → List UInt8) (levels : Nat → LogLevel) (operations : List LogOperation) :
    (∀ first, first <+: operations →
        (first.foldl (stepLog host) (.started level blocks levels)).Honest) ↔
      Runs.Along (stepLog host) (DumpsSucceed host) (.started level blocks levels) operations :=
  Runs.throughout_iff_along (fun _ operation valid => (stepLog_spec host valid operation).1)
    (fun _ operation valid => (stepLog_spec host valid operation).2) operations
    (LogMachine.started_valid level blocks levels) rfl

/-- Where no write succeeds, a message that was only drained is counted all the same. -/
def brokenStderr : LogHost where
  succeeds := fun _ call => match call with
    | .writerWrite _ => false
    | _ => true
  nanoseconds := fun _ => 0
  localTime := fun _ => ⟨126, 0, 1, 0, 0, 0⟩

def bufferedMessage : List LogOperation :=
  [.logToBuffer 0 .error (.lit "message"), .logDrain [0]]

theorem brokenStderr_not_honest :
    ¬ (bufferedMessage.foldl (stepLog brokenStderr) (.started .debug
      (fun _ => List.replicate 64 0) fun _ => .debug)).Honest := by
  decide +kernel

end BcRuntime
