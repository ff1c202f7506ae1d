import BcRuntime.Config.FileReading
import BcRuntime.Config.LoadFailures

/-!
The reads of a file, one by one. A second copy of the loader keeps a record of
every `fread` it makes, and erasing the record gives the loader back. The record
is also a function of the answers of the host alone.
-/

namespace BcRuntime
open Fallible Run

/-- One `fread` of the loop, and what the loop knew when it made it. -/
structure ReadCall where
  call : Nat
  totalSize : Nat
  capacity : Nat
  unread : List UInt8
  read : List UInt8
deriving DecidableEq

def ReadCall.requested (read : ReadCall) : Nat := read.capacity - read.totalSize

def delivered (reads : List ReadCall) : List UInt8 := reads.flatMap ReadCall.read

def observedFileRead (unread : List UInt8) (totalSize capacity : Nat) : Run ReadCall := do
  let m ← get
  let read ← fileRead unread (capacity - totalSize)
  pure ⟨m.calls, totalSize, capacity, unread, read⟩

/-- `readLoop` with a record of its reads. -/
def observedReadLoop (file : Resource) :
    Nat → List UInt8 → List UInt8 → Nat → Resource →
      Run ((List UInt8 × Resource) × List ReadCall)
  | 0, _, fileBuffer, _, block => pure ((fileBuffer, block), [])
  | n + 1, unread, fileBuffer, capacity, block => do
      let (block, capacity) ← growFileBuffer file block fileBuffer.length capacity
      let seen ← observedFileRead unread fileBuffer.length capacity
      if seen.read.length = 0 then pure ((fileBuffer, block), [seen])
      else do
        let (result, reads) ← observedReadLoop file n (unread.drop seen.read.length)
          (fileBuffer ++ seen.read) capacity block
        pure (result, seen :: reads)

/-- A load that returned true: its reads, and the bytes it gave to the line parser. -/
structure ObservedLoad where
  reads : List ReadCall
  given : List UInt8

/-- `loadFile` with a record of its reads. -/
def observedLoadFile [BcCore] (filePath : CString) : Run ObservedLoad := do
  let host ← ask
  let file ← acquire .file (.fileOpen filePath)
  let block ← onFailure (poolAllocate configStoreArenaCapacity) (release file)
  let content := host.fileContent filePath
  let ((fileBuffer, block), reads) ←
    observedReadLoop file (content.length + 1) content [] configStoreArenaCapacity block
  release file
  if 0 < fileBuffer.length then loadFromBuffer fileBuffer
  release block
  pure ⟨reads, fileBuffer⟩

def GrowthFails (host : Host) (call totalSize capacity : Nat) : Prop :=
  totalSize = capacity ∧ host.succeeds call (.poolReallocate (capacity * 2)) = false

instance (host : Host) (call totalSize capacity : Nat) :
    Decidable (GrowthFails host call totalSize capacity) := inferInstanceAs (Decidable (_ ∧ _))

/-- The reads of the loop from the answers of the host; none when the buffer is
not let grow. -/
def readCalls (host : Host) : Nat → Nat → List UInt8 → Nat → Nat → Option (List ReadCall)
  | 0, _, _, _, _ => some []
  | n + 1, call, unread, totalSize, capacity =>
      if GrowthFails host call totalSize capacity then none
      else
        let readCall := if totalSize = capacity then call + 1 else call
        let capacity := if totalSize = capacity then capacity * 2 else capacity
        let read := unread.take (min (capacity - totalSize) (host.readCount readCall))
        let seen : ReadCall := ⟨readCall, totalSize, capacity, unread, read⟩
        if read.length = 0 then some [seen]
        else
          (readCalls host n (readCall + 1) (unread.drop read.length) (totalSize + read.length)
            capacity).map (seen :: ·)

section Erasure

theorem observedFileRead_erases (unread : List UInt8) (totalSize capacity : Nat) :
    ReadCall.read <$> observedFileRead unread totalSize capacity =
      fileRead unread (capacity - totalSize) := rfl

theorem observedReadLoop_erases (file : Resource) (n : Nat) (unread fileBuffer : List UInt8)
    (capacity : Nat) (block : Resource) :
    Prod.fst <$> observedReadLoop file n unread fileBuffer capacity block =
      readLoop file n unread fileBuffer capacity block := by
  induction n generalizing unread fileBuffer capacity block with
  | zero => rfl
  | succ n ih =>
      rw [observedReadLoop, readLoop, map_bind]
      refine bind_congr fun grown => ?_
      obtain ⟨block, capacity⟩ := grown
      simp only [← observedFileRead_erases, bind_map_left, map_bind]
      refine bind_congr fun seen => ?_
      by_cases nothing : seen.read.length = 0
      · rw [if_pos nothing, if_pos nothing, map_pure]
      · rw [if_neg nothing, if_neg nothing, map_bind, ← ih, ← bind_pure_comp]
        exact bind_congr fun _ => rfl

/-- The record is the only difference. -/
theorem observedLoadFile_erases [BcCore] (filePath : CString) :
    (fun _ => ()) <$> observedLoadFile filePath = loadFile filePath := by
  simp only [observedLoadFile, loadFile, map_bind, ← observedReadLoop_erases, bind_map_left]
  refine bind_congr fun host => bind_congr fun file => bind_congr fun block =>
    bind_congr fun loop => ?_
  refine bind_congr fun _ => ?_
  by_cases some_byte : 0 < loop.1.1.length
  · simp only [if_pos some_byte, map_bind, map_pure]
    exact bind_congr fun _ => bind_pure_unit
  · simp only [if_neg some_byte, map_bind, map_pure]
    exact bind_pure_unit

end Erasure

section Answers
variable {host : Host}

theorem wp_observedFileRead (m : Machine) (unread : List UInt8) (totalSize capacity : Nat)
    (Q : ReadCall → Machine → Prop) (E : Machine → Prop) :
    wp (observedFileRead unread totalSize capacity) Q E host m ↔
      Q ⟨m.calls, totalSize, capacity, unread,
          unread.take (min (capacity - totalSize) (host.readCount m.calls))⟩
        { m with calls := m.calls + 1 } := Iff.rfl

theorem growFileBuffer_calls (m : Machine) (file block : Resource) (totalSize capacity : Nat) :
    wp (growFileBuffer file block totalSize capacity)
      (fun grown m' => Quiet m m' ∧ ¬ GrowthFails host m.calls totalSize capacity ∧
        m'.calls = (if totalSize = capacity then m.calls + 1 else m.calls) ∧
        grown.2 = if totalSize = capacity then capacity * 2 else capacity)
      (fun _ => GrowthFails host m.calls totalSize capacity) host m := by
  rw [growFileBuffer]
  by_cases full : totalSize = capacity
  · simp only [if_pos full, wp_bind, wp_onFailure, poolReallocate, wp_external, wp_record, wp_pure]
    refine ⟨fun granted => ⟨⟨⟨rfl, rfl⟩, rfl⟩, fun fails => ?_, trivial, trivial⟩, fun denied => ?_⟩
    · rw [GrowthFails, granted] at fails
      exact absurd fails.2 (by decide)
    · exact ⟨full, denied⟩
  · simp only [if_neg full, wp_pure]
    exact ⟨.refl m, fun fails => full fails.1, trivial, trivial⟩

/-- The loop makes the reads that the answers of the host determine, and collects
what they deliver. -/
theorem observedReadLoop_spec (file : Resource) (n : Nat) (unread fileBuffer : List UInt8)
    (capacity : Nat) (block : Resource) (m : Machine) :
    wp (observedReadLoop file n unread fileBuffer capacity block)
      (fun result m' => Quiet m m' ∧
        readCalls host n m.calls unread fileBuffer.length capacity = some result.2 ∧
        result.1.1 = fileBuffer ++ delivered result.2)
      (fun _ => readCalls host n m.calls unread fileBuffer.length capacity = none) host m := by
  induction n generalizing unread fileBuffer capacity block m with
  | zero => exact ⟨.refl m, rfl, (List.append_nil fileBuffer).symm⟩
  | succ n ih =>
      rw [observedReadLoop, wp_bind]
      refine wp_mono (growFileBuffer_calls m file block _ _) ?_ fun _ fails => if_pos fails
      rintro ⟨block, grown⟩ m₁ ⟨quiet₁, grows, calls, same⟩
      simp only [readCalls, if_neg grows, ← calls, ← same]
      rw [wp_bind, wp_observedFileRead]
      have quiet₂ : Quiet m { m₁ with calls := m₁.calls + 1 } := quiet₁.trans ⟨⟨rfl, rfl⟩, rfl⟩
      by_cases nothing : (unread.take (min (grown - fileBuffer.length)
          (host.readCount m₁.calls))).length = 0
      · rw [if_pos nothing, if_pos nothing]
        refine ⟨quiet₂, rfl, ?_⟩
        rw [delivered, List.flatMap_singleton, List.length_eq_zero_iff.mp nothing, List.append_nil]
      · rw [if_neg nothing, if_neg nothing, wp_bind, ← List.length_append]
        refine wp_mono (ih _ _ grown block _) ?_ fun m' fails => ?_
        · rintro ⟨result, reads⟩ m' ⟨quiet₃, rest, given⟩
          refine ⟨quiet₂.trans quiet₃, by rw [rest]; rfl, ?_⟩
          rw [given, List.append_assoc]
          rfl
        · rw [fails]
          rfl

/-- Every read asks for a byte at least and gets what the host lets it have; all
reads but the last deliver, and the last leaves unread what they have not delivered. -/
structure Reading (host : Host) (content : List UInt8) (earlier : List ReadCall)
    (last : ReadCall) : Prop where
  room : ∀ read ∈ earlier ++ [last], read.totalSize < read.capacity
  answered : ∀ read ∈ earlier ++ [last],
    read.read = read.unread.take (min read.requested (host.readCount read.call))
  delivers : ∀ read ∈ earlier, read.read ≠ []
  stops : last.read = []
  whole : content = delivered earlier ++ last.unread

theorem Reading.cons {content : List UInt8} {first last : ReadCall} {earlier : List ReadCall}
    (reading : Reading host (content.drop first.read.length) earlier last)
    (room : first.totalSize < first.capacity) (unread : first.unread = content)
    (answered : first.read =
      first.unread.take (min first.requested (host.readCount first.call)))
    (delivers : first.read ≠ []) : Reading host content (first :: earlier) last where
  room := List.forall_mem_cons.mpr ⟨room, reading.room⟩
  answered := List.forall_mem_cons.mpr ⟨answered, reading.answered⟩
  delivers := List.forall_mem_cons.mpr ⟨delivers, reading.delivers⟩
  stops := reading.stops
  whole := by
    have starts : first.read <+: content := by
      rw [answered, unread]
      exact List.take_prefix _ _
    have rest : content.drop first.read.length = delivered earlier ++ last.unread := reading.whole
    rw [← List.prefix_iff_eq_append.mp starts, rest, delivered, delivered, List.flatMap_cons,
      List.append_assoc]

/-- With one turn more than bytes the loop ends in a read that delivers nothing. -/
theorem readCalls_reading {n call totalSize capacity : Nat} {unread : List UInt8}
    {reads : List ReadCall} (enough : unread.length < n) (fits : totalSize ≤ capacity)
    (nonempty : 0 < capacity)
    (answers : readCalls host n call unread totalSize capacity = some reads) :
    ∃ earlier last, reads = earlier ++ [last] ∧ Reading host unread earlier last := by
  induction n generalizing call totalSize capacity unread reads with
  | zero => exact absurd enough (Nat.not_lt_zero _)
  | succ n ih =>
      rw [readCalls] at answers
      by_cases fails : GrowthFails host call totalSize capacity
      · rw [if_pos fails] at answers
        cases answers
      · simp only [if_neg fails] at answers
        have grown : ∃ grown, grown = (if totalSize = capacity then capacity * 2 else capacity) ∧
            totalSize < grown := by
          by_cases full : totalSize = capacity
          · exact ⟨capacity * 2, (if_pos full).symm, by omega⟩
          · exact ⟨capacity, (if_neg full).symm, by omega⟩
        obtain ⟨grown, same, room⟩ := grown
        simp only [← same] at answers
        generalize (if totalSize = capacity then call + 1 else call) = number at answers
        by_cases nothing : (unread.take (min (grown - totalSize) (host.readCount number))).length = 0
        · rw [if_pos nothing] at answers
          obtain rfl := Option.some.inj answers
          exact ⟨[], _, rfl, List.forall_mem_singleton.mpr room, List.forall_mem_singleton.mpr rfl,
            List.forall_mem_nil _, List.length_eq_zero_iff.mp nothing, rfl⟩
        · rw [if_neg nothing, Option.map_eq_some_iff] at answers
          obtain ⟨rest, answers, rfl⟩ := answers
          have size : (unread.take (min (grown - totalSize) (host.readCount number))).length =
              min (min (grown - totalSize) (host.readCount number)) unread.length :=
            List.length_take
          obtain ⟨earlier, last, rfl, reading⟩ := ih
            (by rw [List.length_drop]; omega) (by omega) (by omega) answers
          exact ⟨_ :: earlier, last, rfl, reading.cons room rfl rfl
            fun empty => nothing (List.length_eq_zero_iff.mpr empty)⟩

theorem Reading.delivered_eq {content : List UInt8} {earlier : List ReadCall} {last : ReadCall}
    (reading : Reading host content earlier last) (ended : last.unread = []) :
    delivered (earlier ++ [last]) = content := by
  rw [reading.whole, ended, delivered, List.flatMap_append, List.flatMap_singleton, reading.stops]
  rfl

end Answers

/-- The reads of a load whose first call outside has the number `first`; none when
the file is not opened or an allocation of the load fails. -/
def loadReads (host : Host) (filePath : CString) (first : Nat) : Option (List ReadCall) :=
  if host.succeeds first (.fileOpen filePath) = true ∧
      host.succeeds (first + 1) (.poolAllocate configStoreArenaCapacity) = true then
    readCalls host ((host.fileContent filePath).length + 1) (first + 2) (host.fileContent filePath)
      0 configStoreArenaCapacity
  else none

theorem loadReads_reading {host : Host} {filePath : CString} {first : Nat}
    {reads : List ReadCall} (answers : loadReads host filePath first = some reads) :
    ∃ earlier last, reads = earlier ++ [last] ∧
      Reading host (host.fileContent filePath) earlier last := by
  rw [loadReads] at answers
  split at answers
  · exact readCalls_reading (Nat.lt_succ_self _) (Nat.zero_le _) (by decide) answers
  · cases answers

section Loading
variable [BcCore] {host : Host}

theorem loadFromBuffer_returns_true (host : Host) (m : Machine) (data : List UInt8) :
    (loadFromBuffer data host m).1 = some () := by
  rw [loadFromBuffer_eq]
  exact setEach_returns_true host m _

/-- No bytes are no line, so leaving the parser out for them makes no difference. -/
theorem parse_nonempty {α : Type} (data : List UInt8) (rest : Run α) :
    (if 0 < data.length then (do loadFromBuffer data; rest) else rest) =
      (do loadFromBuffer data; rest) := by
  cases data with
  | nil => rfl
  | cons byte data => exact if_pos (Nat.succ_pos _)

/-- The line parser is run once on the bytes, and what follows leaves the store
as it is. -/
def ParsesOnce (host : Host) (data : List UInt8) (m m' : Machine) : Prop :=
  ∃ m₁ m₂, Quiet m m₁ ∧ loadFromBuffer data host m₁ = (some (), m₂) ∧ Quiet m₂ m'

theorem observedLoadFile_spec (filePath : CString) (m : Machine) :
    wp (observedLoadFile filePath)
      (fun load m' => loadReads host filePath m.calls = some load.reads ∧
        load.given = delivered load.reads ∧ ParsesOnce host load.given m m')
      (fun _ => loadReads host filePath m.calls = none) host m := by
  simp only [observedLoadFile, wp_bind, wp_ask, wp_onFailure, acquire, poolAllocate, wp_external,
    wp_record, wp_release, wp_pure]
  refine ⟨fun opened => ⟨fun allocated => ?_, fun denied => ?_⟩, fun denied => ?_⟩
  · have answers : loadReads host filePath m.calls = _ := if_pos ⟨opened, allocated⟩
    rw [answers]
    refine wp_mono (observedReadLoop_spec _ _ _ [] _ _ _) ?_ fun _ fails => fails
    rintro ⟨⟨fileBuffer, block⟩, reads⟩ m₁ ⟨quiet₁, same, given⟩
    obtain rfl : fileBuffer = delivered reads := given
    have before : Quiet m { m₁ with trace := m₁.trace ++ [.released ⟨.file, m.calls⟩] } :=
      ⟨⟨quiet₁.writes, quiet₁.errors⟩, quiet₁.store⟩
    have parsed := Prod.ext (y := (some (), _)) (loadFromBuffer_returns_true host
      { m₁ with trace := m₁.trace ++ [.released ⟨.file, m.calls⟩] } (delivered reads)) rfl
    rw [parse_nonempty, wp_bind]
    exact wp_of_run parsed ⟨same, rfl, _, _, before, parsed, ⟨⟨rfl, rfl⟩, rfl⟩⟩
  · exact if_neg fun both => absurd (both.2.symm.trans denied) (by decide)
  · exact if_neg fun both => absurd (both.1.symm.trans denied) (by decide)

theorem loadFile_of_observed {filePath : CString} {m : Machine} :
    loadFile filePath host m =
      ((observedLoadFile filePath host m).1.map fun _ => (),
        (observedLoadFile filePath host m).2) := by
  rw [← observedLoadFile_erases, ← bind_pure_comp, bind_run]
  cases observedLoadFile filePath host m with
  | mk load m' => cases load <;> rfl

theorem loadFile_of_observed_run {filePath : CString} {m m' : Machine} {load : ObservedLoad}
    (run : observedLoadFile filePath host m = (some load, m')) :
    loadFile filePath host m = (some (), m') := by
  rw [loadFile_of_observed, run]
  rfl

/-- A load whose reads are answered returns true, with what they delivered parsed once. -/
theorem observedLoadFile_run {filePath : CString} {m : Machine} {reads : List ReadCall}
    (answers : loadReads host filePath m.calls = some reads) :
    ∃ m', observedLoadFile filePath host m = (some ⟨reads, delivered reads⟩, m') ∧
      ParsesOnce host (delivered reads) m m' := by
  cases wp_cases (@observedLoadFile_spec _ host filePath m) with
  | inr failed =>
      obtain ⟨m', _, unanswered⟩ := failed
      cases answers.symm.trans unanswered
  | inl returned =>
      obtain ⟨⟨made, bytes⟩, m', run, same, given, once⟩ := returned
      obtain rfl : reads = made := Option.some.inj (answers.symm.trans same)
      obtain rfl : bytes = delivered reads := given
      exact ⟨m', run, once⟩

/-- The load returns true exactly when its reads are answered, however they end. -/
theorem loadFile_returns_true_iff (filePath : CString) (m : Machine) :
    (loadFile filePath host m).1 = some () ↔
      ∃ reads, loadReads host filePath m.calls = some reads := by
  constructor
  · intro returned
    cases wp_cases (@observedLoadFile_spec _ host filePath m) with
    | inl load =>
        obtain ⟨load, _, _, answers, _⟩ := load
        exact ⟨load.reads, answers⟩
    | inr failed =>
        obtain ⟨m', run, _⟩ := failed
        rw [loadFile_of_observed, run] at returned
        cases returned
  · rintro ⟨reads, answers⟩
    obtain ⟨m', run, _⟩ := observedLoadFile_run answers
    rw [loadFile_of_observed_run run]

end Loading

end BcRuntime
