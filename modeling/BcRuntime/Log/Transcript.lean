import BcRuntime.Foundation.Lines
import BcRuntime.Log.Outcomes
import BcRuntime.Log.Timestamps

/-!
The output as its reader sees it. A line can be taken apart into its time, its level and
its text, so the data of the sessions of a run that succeeded stand for one list of lines.
Which lines these are is told without bytes: a journal that keeps, for each buffer, the
lines to come.
-/

namespace BcRuntime
open Fallible LogRun FixedFields

/-- A line of the log: the fields of its time, its level and its text. -/
structure LogLine where
  time : List Int
  level : LogLevel
  text : List UInt8
deriving DecidableEq

/-- The bytes of a line around its text, and the room for the text of a record. -/
def lineFrame : Nat := 38
def textRoom : Nat := logStackSize - lineFrame

def LogLine.size (line : LogLine) : Nat := lineFrame + line.text.length

def levelOfPrefix (text : List UInt8) : Option LogLevel :=
  [LogLevel.error, .warn, .info, .debug].find? fun level => levelPrefix level = text

def readLogLine (line : List UInt8) : Option LogLine := do
  let level ← levelOfPrefix ((line.drop 29).take levelPrefixLength)
  pure ⟨readTimestamp (line.take 28), level, line.drop 37⟩

def readLogLines : List (List UInt8) → Option (List LogLine)
  | [] => some []
  | line :: lines => do
      let first ← readLogLine line.dropLast
      let rest ← readLogLines lines
      pure (first :: rest)

def readLog (output : List UInt8) : Option (List LogLine) :=
  readLogLines (output.linesAt newline)

/-- The time that a call reads when its reading of the clock is the call numbered `n`. -/
def timeAt (host : LogHost) (n : Nat) : List Int :=
  timestampFields (host.localTime (n + 1)) (host.nanoseconds n)

def lineAt (host : LogHost) (n : Nat) (level : LogLevel) (message : CString) : LogLine :=
  ⟨timeAt host n, level, message.bytes.take textRoom⟩

def lostText (count : Nat) : List UInt8 :=
  (CString.lit (toString count)).bytes ++ (CString.lit " log messages lost (buffer full)").bytes

/-- What is written so far, and what the next drain of each buffer is to write. -/
structure Journal where
  lines : List LogLine
  kept : Nat → List LogLine
  lost : Nat → Nat

/-- A call with what came of it: a line written at once, a line for a buffer, or one buffer
of a drain, with the time of its warning if that could be written. -/
inductive JournalEvent
  | written (line : LogLine)
  | taken (id : Nat) (line : LogLine)
  | drained (id : Nat) (warned : Option (List Int)) (dumped : Bool)

namespace Journal

def empty : Journal := ⟨[], fun _ => [], fun _ => 0⟩

def take (capacity id : Nat) (journal : Journal) (line : LogLine) : Journal :=
  if ((journal.kept id).map LogLine.size).sum + line.size ≤ capacity then
    { journal with kept := Function.update journal.kept id (journal.kept id ++ [line]) }
  else { journal with lost := Function.update journal.lost id (journal.lost id + 1) }

/-- The line that tells how many messages are lost, if there are any. -/
def warning (count : Nat) : Option (List Int) → List LogLine
  | some time => if 0 < count then [⟨time, .warn, lostText count⟩] else []
  | none => []

def drain (id : Nat) (journal : Journal) (warned : Option (List Int)) (dumped : Bool) :
    Journal where
  lines := journal.lines ++ warning (journal.lost id) warned ++
    if dumped then journal.kept id else []
  kept := Function.update journal.kept id []
  lost := Function.update journal.lost id 0

def step (capacity : Nat → Nat) (journal : Journal) : JournalEvent → Journal
  | .written line => { journal with lines := journal.lines ++ [line] }
  | .taken id line => journal.take (capacity id) id line
  | .drained id warned dumped => journal.drain id warned dumped

end Journal

/-- One buffer of a drain, told by the results of its two halves. -/
def drainEvent (host : LogHost) (m : LogMachine) (id : Nat) : JournalEvent :=
  .drained id
    (if (drainOverflow id host m).1 = some true then some (timeAt host (m.calls + 1)) else none)
    ((drainEntries id host (drainOverflow id host m).2).1 == some true)

def drainEvents (host : LogHost) : LogMachine → List Nat → List JournalEvent
  | _, [] => []
  | m, id :: ids => drainEvent host m id :: drainEvents host (drainStep host m id) ids

/-- What a call adds to the journal, told by its result. -/
def journalEvents (host : LogHost) (m : LogMachine) : LogOperation → List JournalEvent
  | .log level message =>
      if level.rank > m.logLevel.rank then []
      else (log level message host m).1.toList.map fun _ =>
        .written (lineAt host m.calls level message)
  | .logToBuffer id level message =>
      if level.rank > (m.buffers id).logLevel.rank then []
      else (logToBuffer id level message host m).1.toList.map fun _ =>
        .taken id (lineAt host m.calls level message)
  | .logDrain ids => drainEvents host m ids
  | .logSetLevel _ => []

def runEvents (host : LogHost) : LogMachine → List LogOperation → List JournalEvent
  | _, [] => []
  | m, operation :: operations =>
      journalEvents host m operation ++ runEvents host (stepLog host m operation) operations

/-- The readings of the clock are times that a time stamp can show. -/
def LogHost.ClockInRange (host : LogHost) : Prop :=
  ∀ n, InTimestampRange (host.localTime (n + 1)) (host.nanoseconds n)

def LogOperation.Plain : LogOperation → Prop
  | .log _ message | .logToBuffer _ _ message => newline ∉ message.bytes
  | _ => True

/-- Bytes that are one line and read as `line`. -/
structure Spells (bytes : List UInt8) (line : LogLine) : Prop where
  ended : ∃ body, bytes = body ++ [newline] ∧ newline ∉ body ∧ readLogLine body = some line
  size : bytes.length = line.size

section Reading
variable {chunks : List (List UInt8)} {lines : List LogLine}

theorem levelOfPrefix_levelPrefix (level : LogLevel) :
    levelOfPrefix (levelPrefix level) = some level := by
  cases level <;> decide +kernel

theorem newline_not_mem_levelPrefix (level : LogLevel) : newline ∉ levelPrefix level := by
  cases level <;> decide +kernel

theorem newline_not_mem_timestamp {time : LocalTime} {nanoseconds : Int}
    (range : InTimestampRange time nanoseconds) : newline ∉ timestampBytes time nanoseconds := by
  have places := (timestampBytes_tellsTime range).places
  have marks : ∀ place ∈ timestampParts.flatMap LayoutPart.places, place ≠ some newline := by
    decide +kernel
  have digit : isDigit newline = false := rfl
  generalize timestampParts.flatMap LayoutPart.places = all at places marks
  generalize timestampBytes time nanoseconds = text at places
  induction places with
  | nil => exact List.not_mem_nil
  | @cons place byte all text first rest ih =>
      intro mem
      cases List.mem_cons.mp mem with
      | inl here =>
          subst here
          cases place with
          | none => exact Bool.false_ne_true (digit.symm.trans first)
          | some mark => exact marks _ List.mem_cons_self (congrArg some first.symm)
      | inr later => exact ih (fun other mem => marks other (List.mem_cons_of_mem _ mem)) later

theorem spells_framed {time : LocalTime} {nanoseconds : Int}
    (range : InTimestampRange time nanoseconds) (level : LogLevel) {text : List UInt8}
    (plain : newline ∉ text) :
    Spells (timestampBytes time nanoseconds ++ [32] ++ levelPrefix level ++ [32] ++ text ++
      [newline]) ⟨timestampFields time nanoseconds, level, text⟩ := by
  have stamp := length_timestampBytes time nanoseconds
  have frame := length_levelPrefix level
  have after : (timestampBytes time nanoseconds ++ [32] ++ levelPrefix level ++ [32]).length = 37 :=
    length_header level stamp
  refine ⟨⟨_, rfl, ?_, ?_⟩, ?_⟩
  · simp only [List.mem_append, not_or]
    exact ⟨⟨⟨⟨newline_not_mem_timestamp range, by decide⟩, newline_not_mem_levelPrefix level⟩,
      by decide⟩, plain⟩
  · have level_part : ((timestampBytes time nanoseconds ++ [32] ++ levelPrefix level ++ [32] ++
        text).drop 29).take levelPrefixLength = levelPrefix level := by
      have opening : (timestampBytes time nanoseconds ++ [32]).length = 29 := by
        rw [List.length_append, stamp, List.length_singleton]
      rw [List.append_assoc, List.append_assoc, List.drop_left' opening, List.take_left' frame]
    have time_part : (timestampBytes time nanoseconds ++ [32] ++ levelPrefix level ++ [32] ++
        text).take 28 = timestampBytes time nanoseconds := by
      simp only [List.append_assoc]
      exact List.take_left' stamp
    rw [readLogLine, level_part, levelOfPrefix_levelPrefix, time_part, List.drop_left' after,
      (timestampBytes_tellsTime range).reads]
    rfl
  · rw [List.length_append, List.length_append, after, LogLine.size, lineFrame]
    simp only [List.length_singleton]
    omega

theorem readLog_of_spells (spells : List.Forall₂ Spells chunks lines) :
    readLog chunks.flatten = some lines := by
  induction spells with
  | nil => rfl
  | @cons bytes line chunks lines first rest ih =>
      obtain ⟨body, split, plain, reads⟩ := first.ended
      rw [readLog] at ih
      rw [readLog, List.flatten_cons, split, List.append_assoc, List.singleton_append,
        List.linesAt_append plain, readLogLines, List.dropLast_concat, reads, ih]
      rfl

theorem length_of_spells (spells : List.Forall₂ Spells chunks lines) :
    chunks.flatten.length = (lines.map LogLine.size).sum := by
  induction spells with
  | nil => rfl
  | cons first rest ih =>
      rw [List.flatten_cons, List.length_append, List.map_cons, List.sum_cons, first.size, ih]

theorem recordText_spells {host : LogHost} (clock : host.ClockInRange) (n : Nat) (level : LogLevel)
    {message : CString} (plain : newline ∉ message.bytes) :
    Spells (recordText host n level message) (lineAt host n level message) := by
  have cut : newline ∉ message.bytes.take textRoom := fun mem => plain (List.mem_of_mem_take mem)
  rw [recordText_eq]
  exact spells_framed (clock n) level cut

theorem newline_not_mem_lostText (count : Nat) : newline ∉ lostText count := by
  have number : (CString.lit (toString count)).bytes = decimalDigits count := by
    have digits := decimalText_bytes (count : Int)
    rwa [if_neg (not_lt.mpr (Int.natCast_nonneg count)), List.nil_append, Int.natAbs_natCast]
      at digits
  intro mem
  cases List.mem_append.mp mem with
  | inl digit =>
      rw [number] at digit
      exact absurd ((decimalDigits_spec count).1 newline digit) (by decide)
  | inr word => exact absurd word (by decide +kernel)

theorem warning_spells {host : LogHost} (clock : host.ClockInRange) (m : LogMachine)
    (id count : Nat) :
    Spells (Piece.lost id count (warningStamp host m)).bytes
      ⟨timeAt host (m.calls + 1), .warn, lostText count⟩ := by
  have ending : (CString.lit " log messages lost (buffer full)\n").bytes =
      (CString.lit " log messages lost (buffer full)").bytes ++ [newline] := by
    decide +kernel
  have framed := spells_framed (clock (m.calls + 1)) .warn (newline_not_mem_lostText count)
  have same : (Piece.lost id count (warningStamp host m)).bytes =
      warningStamp host m ++ [32] ++ levelPrefix .warn ++ [32] ++ lostText count ++ [newline] := by
    rw [Piece.bytes, ending, lostText]
    simp only [List.flatten_cons, List.flatten_nil, List.append_nil, List.append_assoc]
  rw [same]
  exact framed

end Reading

/-- A buffer holds the lines that the journal keeps for it, and has counted the lost ones. -/
structure LogBuffer.Keeps (buffer : LogBuffer) (capacity : Nat) (kept : List LogLine)
    (lost : Nat) : Prop where
  valid : buffer.Valid
  capacity_eq : buffer.capacity = capacity
  records : List.Forall₂ Spells buffer.records kept
  overflow : buffer.overflowCount = lost

/-- The journal tells what has been written and what the buffers hold. -/
structure Transcribes (capacity : Nat → Nat) (journal : Journal) (m : LogMachine) : Prop where
  output : ∃ chunks, m.sessions.flatMap Written.bytes = chunks.flatten ∧
    List.Forall₂ Spells chunks journal.lines
  buffers : ∀ id, (m.buffers id).Keeps (capacity id) (journal.kept id) (journal.lost id)

section Buffers
variable {buffer : LogBuffer} {capacity lost : Nat} {kept : List LogLine}

theorem LogBuffer.Keeps.room (held : buffer.Keeps capacity kept lost) :
    buffer.writePosition = (kept.map LogLine.size).sum := by
  rw [← length_of_spells held.records]
  exact held.valid.length_records.symm

theorem LogBuffer.Keeps.store (held : buffer.Keeps capacity kept lost) {record : List UInt8}
    {line : LogLine} (spells : Spells record line)
    (fits : buffer.writePosition + record.length ≤ buffer.capacity) :
    (buffer.store record).Keeps capacity (kept ++ [line]) lost := by
  have some_byte : record ≠ [] := by
    obtain ⟨body, split, -⟩ := spells.ended
    rw [split]
    exact List.append_ne_nil_of_right_ne_nil _ (List.cons_ne_nil _ _)
  have records : List.Forall₂ Spells (buffer.records ++ [record]) (kept ++ [line]) :=
    List.rel_append held.records (.cons spells .nil)
  exact ⟨held.valid.store some_byte fits, held.capacity_eq, records, held.overflow⟩

theorem LogBuffer.Keeps.reset (held : buffer.Keeps capacity kept lost) :
    buffer.reset.Keeps capacity [] 0 :=
  ⟨held.valid.reset, held.capacity_eq, .nil, rfl⟩

end Buffers

section Steps
variable {capacity : Nat → Nat} {journal : Journal} {m : LogMachine} {host : LogHost}

theorem Transcribes.quiet (before : Transcribes capacity journal m) {m' : LogMachine}
    (quiet : OnlyCalls m m') : Transcribes capacity journal m' := by
  obtain ⟨calls, same⟩ := quiet
  subst same
  exact ⟨before.output, before.buffers⟩

theorem Transcribes.written (before : Transcribes capacity journal m) {record : List UInt8}
    {line : LogLine} (spells : Spells record line) (calls : Nat) :
    Transcribes capacity (journal.step capacity (.written line)) { m with
      calls := calls
      sessions := m.sessions ++ [⟨record, [record]⟩]
      logMessagesWritten := m.logMessagesWritten + 1 } := by
  obtain ⟨chunks, output, all⟩ := before.output
  refine ⟨⟨chunks ++ [record], ?_, ?_⟩, before.buffers⟩
  · rw [List.flatMap_append, output, List.flatten_append, List.flatMap_singleton,
      List.flatten_singleton]
  · exact List.rel_append all (.cons spells .nil)

theorem Transcribes.setBuffer (before : Transcribes capacity journal m) {id lost : Nat}
    {kept : List LogLine} {buffer : LogBuffer} (keeps : buffer.Keeps (capacity id) kept lost) :
    Transcribes capacity
      ⟨journal.lines, Function.update journal.kept id kept, Function.update journal.lost id lost⟩
      (m.setBuffer id buffer) := by
  refine ⟨before.output, fun other => ?_⟩
  rw [LogMachine.setBuffer]
  by_cases here : other = id
  · subst here
    simp only [Function.update_self]
    exact keeps
  · simp only [Function.update_of_ne here]
    exact before.buffers other

theorem Transcribes.taken (before : Transcribes capacity journal m) {id : Nat}
    {record : List UInt8} {line : LogLine} (spells : Spells record line) (calls : Nat) :
    Transcribes capacity (journal.step capacity (.taken id line))
      (LogMachine.setBuffer { m with calls := calls } id ((m.buffers id).receive record)) := by
  have held := before.buffers id
  have quiet : Transcribes capacity journal { m with calls := calls } :=
    before.quiet ⟨calls, rfl⟩
  rw [Journal.step, Journal.take, ← held.room, ← spells.size, LogBuffer.receive,
    ← held.capacity_eq]
  by_cases fits : (m.buffers id).writePosition + record.length ≤ (m.buffers id).capacity
  · have stored := quiet.setBuffer (held.store spells fits)
    rw [if_pos fits, if_neg (not_lt.mpr fits)]
    rwa [Function.update_eq_self] at stored
  · have overflown : (m.buffers id).overflow.Keeps (capacity id) (journal.kept id)
        (journal.lost id + 1) :=
      ⟨held.valid.overflow, held.capacity_eq, held.records, congrArg (· + 1) held.overflow⟩
    have counted := quiet.setBuffer overflown
    rw [if_neg fits, if_pos (not_le.mp fits)]
    rwa [Function.update_eq_self] at counted

theorem Transcribes.append (before : Transcribes capacity journal m) {told : List Written}
    {lines : List LogLine} (calls counted : Nat)
    (output : ∃ chunks, told.flatMap Written.bytes = chunks.flatten ∧
      List.Forall₂ Spells chunks lines) :
    Transcribes capacity { journal with lines := journal.lines ++ lines } { m with
      calls := calls
      sessions := m.sessions ++ told
      logMessagesWritten := counted } := by
  obtain ⟨chunks, written, all⟩ := before.output
  obtain ⟨more, told_eq, spells⟩ := output
  refine ⟨⟨chunks ++ more, ?_, List.rel_append all spells⟩, before.buffers⟩
  rw [List.flatMap_append, written, told_eq, List.flatten_append]

/-- One buffer of a drain: the warning, then the lines kept, as far as they are written. -/
theorem Transcribes.drained (before : Transcribes capacity journal m) (clock : host.ClockInRange)
    (id : Nat) :
    Transcribes capacity (journal.step capacity (drainEvent host m id)) (drainStep host m id) := by
  have held := before.buffers id
  obtain ⟨warned, m₁, first, calls, told, same, bytes⟩ :=
    exists_run_of_wp (drainOverflow_outcome host m id)
  have stays : m₁.buffers = m.buffers := by rw [same]
  have valid : (m₁.buffers id).Valid := stays ▸ held.valid
  obtain ⟨dumped, m₂, second, calls', told', same', bytes'⟩ :=
    exists_run_of_wp (drainEntries_outcome host m₁ valid)
  have event : drainEvent host m id =
      .drained id (if warned then some (timeAt host (m.calls + 1)) else none) dumped := by
    rw [drainEvent, first, second]
    cases warned <;> cases dumped <;> rfl
  have stepped : drainStep host m id = m₂ := by rw [drainStep, first, second]
  have warning : ∃ chunks, told.flatMap Written.bytes = chunks.flatten ∧
      List.Forall₂ Spells chunks (Journal.warning (journal.lost id)
        (if warned then some (timeAt host (m.calls + 1)) else none)) := by
    rw [bytes, ← held.overflow]
    cases warned with
    | false => exact ⟨[], rfl, .nil⟩
    | true =>
        by_cases some_lost : 0 < (m.buffers id).overflowCount
        · refine ⟨[(Piece.lost id (m.buffers id).overflowCount (warningStamp host m)).bytes],
            ?_, ?_⟩
          · rw [if_pos ⟨rfl, some_lost⟩, List.flatten_singleton]
          · rw [if_pos rfl, Journal.warning, if_pos some_lost]
            exact .cons (warning_spells clock m id _) .nil
        · refine ⟨[], if_neg fun both => some_lost both.2, ?_⟩
          rw [if_pos rfl, Journal.warning, if_neg some_lost]
          exact .nil
  have dump : ∃ chunks, told'.flatMap Written.bytes = chunks.flatten ∧
      List.Forall₂ Spells chunks (if dumped then journal.kept id else []) := by
    rw [bytes', stays]
    cases dumped with
    | false => exact ⟨[], rfl, .nil⟩
    | true => exact ⟨(m.buffers id).records, rfl, held.records⟩
  have warned_lines : Transcribes capacity _ m₁ :=
    same ▸ before.append calls m.logMessagesWritten warning
  have dumped_lines := warned_lines.append calls'
    (m₁.logMessagesWritten + (m₁.buffers id).records.length) dump
  have emptied : (m₁.buffers id).reset.Keeps (capacity id) [] 0 := stays ▸ held.reset
  rw [event, stepped, same']
  exact dumped_lines.setBuffer emptied

theorem Transcribes.drain (before : Transcribes capacity journal m) (clock : host.ClockInRange)
    (ids : List Nat) :
    Transcribes capacity ((drainEvents host m ids).foldl (Journal.step capacity) journal)
      (ids.foldl (drainStep host) m) := by
  induction ids generalizing journal m with
  | nil => exact before
  | cons id ids ih => exact ih (before.drained clock id)

theorem Transcribes.step (before : Transcribes capacity journal m) (clock : host.ClockInRange)
    {operation : LogOperation} (plain : operation.Plain) :
    Transcribes capacity ((journalEvents host m operation).foldl (Journal.step capacity) journal)
      (stepLog host m operation) := by
  cases operation with
  | log level message =>
      rw [journalEvents, stepLog]
      by_cases filtered : level.rank > m.logLevel.rank
      · rw [if_pos filtered, log, bind_run_of_some (get_run host m), if_pos filtered]
        exact before
      · rw [if_neg filtered]
        cases wp_cases (log_outcome host m filtered message) with
        | inl wrote =>
            obtain ⟨_, m', run, calls, same⟩ := wrote
            rw [run, same]
            exact before.written (recordText_spells clock m.calls level plain) calls
        | inr failed =>
            obtain ⟨m', run, quiet⟩ := failed
            rw [run]
            exact before.quiet quiet
  | logToBuffer id level message =>
      rw [journalEvents, stepLog]
      by_cases filtered : level.rank > (m.buffers id).logLevel.rank
      · rw [if_pos filtered, logToBuffer, bind_run_of_some (get_run host m), if_pos filtered]
        exact before
      · rw [if_neg filtered]
        cases wp_cases (logToBuffer_outcome host m filtered message) with
        | inl took =>
            obtain ⟨_, m', run, calls, same⟩ := took
            rw [run, same]
            exact before.taken (recordText_spells clock m.calls level plain) calls
        | inr failed =>
            obtain ⟨m', run, quiet⟩ := failed
            rw [run]
            exact before.quiet quiet
  | logDrain ids =>
      rw [stepLog, logDrain_state]
      exact before.drain clock ids
  | logSetLevel level => exact ⟨before.output, before.buffers⟩

theorem Transcribes.run (before : Transcribes capacity journal m) (clock : host.ClockInRange)
    {operations : List LogOperation} (plain : ∀ operation ∈ operations, operation.Plain) :
    Transcribes capacity ((runEvents host m operations).foldl (Journal.step capacity) journal)
      (operations.foldl (stepLog host) m) := by
  induction operations generalizing journal m with
  | nil => exact before
  | cons operation operations ih =>
      have first := before.step clock (plain operation List.mem_cons_self)
      have rest := ih first fun later mem => plain later (List.mem_cons_of_mem _ mem)
      rw [runEvents, List.foldl_append]
      exact rest

end Steps

/-- What the sessions of a run that succeeded have written, read back, whatever else fails:
the lines are those of the journal, each with its time, its level and its text, and what a
buffer holds are the lines that its next drain is to write. -/
theorem output_reads_back (host : LogHost) (clock : host.ClockInRange) (level : LogLevel)
    (blocks : Nat → List UInt8) (levels : Nat → LogLevel) (operations : List LogOperation)
    (plain : ∀ operation ∈ operations, operation.Plain) :
    let start := LogMachine.started level blocks levels
    let m := operations.foldl (stepLog host) start
    let journal := (runEvents host start operations).foldl
      (Journal.step fun id => (blocks id).length) .empty
    readLog (m.sessions.flatMap Written.bytes) = some journal.lines ∧
      ∀ id, readLog ((m.buffers id).data.take (m.buffers id).writePosition) =
          some (journal.kept id) ∧
        (m.buffers id).overflowCount = journal.lost id := by
  intro start m journal
  have fresh : Transcribes (fun id => (blocks id).length) .empty start :=
    ⟨⟨[], rfl, .nil⟩, fun id => ⟨LogBuffer.created_valid _ _, rfl, .nil, rfl⟩⟩
  have told : Transcribes (fun id => (blocks id).length) journal m := fresh.run clock plain
  obtain ⟨chunks, output, spells⟩ := told.output
  refine ⟨?_, fun id => ⟨?_, (told.buffers id).overflow⟩⟩
  · rw [output]
    exact readLog_of_spells spells
  · rw [(told.buffers id).valid.holds]
    exact readLog_of_spells (told.buffers id).records

/-- A buffer has room for one of two messages. -/
def crowdedBuffer : List LogOperation :=
  [.log .warn (.lit "disk full"), .logToBuffer 0 .info (.lit "one"),
    .logToBuffer 0 .debug (.lit "two"), .logDrain [0]]

theorem output_reads_back_crowded :
    let host := stoppedClock ⟨116, 11, 31, 23, 59, 60⟩ 999999999
    let m := crowdedBuffer.foldl (stepLog host)
      (.started .debug (fun _ => List.replicate 45 0) fun _ => .debug)
    let time := [2016, 12, 31, 23, 59, 60, 999999]
    readLog (m.sessions.flatMap Written.bytes) =
      some [⟨time, .warn, (CString.lit "disk full").bytes⟩, ⟨time, .warn, lostText 1⟩,
        ⟨time, .info, (CString.lit "one").bytes⟩] := by
  intro host m time
  have range : InTimestampRange ⟨116, 11, 31, 23, 59, 60⟩ 999999999 := by constructor <;> decide
  have clock : host.ClockInRange := fun _ => range
  have plain : ∀ operation ∈ crowdedBuffer, operation.Plain := by
    intro operation mem
    simp only [crowdedBuffer, List.mem_cons, List.not_mem_nil, or_false] at mem
    rcases mem with rfl | rfl | rfl | rfl
    · exact (by decide +kernel : newline ∉ (CString.lit "disk full").bytes)
    · exact (by decide +kernel : newline ∉ (CString.lit "one").bytes)
    · exact (by decide +kernel : newline ∉ (CString.lit "two").bytes)
    · exact trivial
  have reads := (output_reads_back host clock .debug (fun _ => List.replicate 45 0)
    (fun _ => .debug) crowdedBuffer plain).1
  refine reads.trans (congrArg some ?_)
  decide +kernel

end BcRuntime
