import BcRuntime.Config.ReadCalls

/-!
A file is loaded the same way however it is cut into reads. When the allocations
succeed and every read delivers a byte, the loop stops only at the end of the
file, and the line parser gets the whole content at once.
-/

namespace BcRuntime
open Fallible Run

def Host.AllocationsSucceed (host : Host) : Prop :=
  ∀ n size, host.succeeds n (.poolAllocate size) = true ∧
    host.succeeds n (.poolReallocate size) = true

theorem Host.StoreCallsSucceed.allocations {host : Host} (h : host.StoreCallsSucceed) :
    host.AllocationsSucceed := fun n _ => ⟨h n _ rfl, h n _ rfl⟩

/-- Two stores with the same entries under the same flag. -/
def SameStored (m m' : Machine) : Prop :=
  m'.store.entries = m.store.entries ∧ m'.store.sorted = m.store.sorted

variable {host : Host}

section Reading

theorem readCalls_isSome (allocations : host.AllocationsSucceed)
    (n call : Nat) (unread : List UInt8) (totalSize capacity : Nat) :
    ∃ reads, readCalls host n call unread totalSize capacity = some reads := by
  induction n generalizing call unread totalSize capacity with
  | zero => exact ⟨[], rfl⟩
  | succ n ih =>
      have grows : ¬ GrowthFails host call totalSize capacity := fun fails =>
        absurd ((allocations call _).2.symm.trans fails.2) (by decide)
      simp only [readCalls, if_neg grows]
      generalize (if totalSize = capacity then call + 1 else call) = number
      generalize (if totalSize = capacity then capacity * 2 else capacity) = grown
      generalize unread.take (min (grown - totalSize) (host.readCount number)) = read
      by_cases nothing : read.length = 0
      · exact ⟨_, if_pos nothing⟩
      · obtain ⟨rest, answers⟩ := ih (number + 1) (unread.drop read.length)
          (totalSize + read.length) grown
        rw [if_neg nothing, answers]
        exact ⟨_, rfl⟩

theorem Reading.complete {content : List UInt8} {earlier : List ReadCall} {last : ReadCall}
    (reading : Reading host content earlier last) (reads : host.ReadsDeliver) :
    last.unread = [] := by
  have room : 0 < last.requested := Nat.sub_pos_of_lt
    (reading.room last (List.mem_append_right earlier List.mem_cons_self))
  have answered := reading.answered last (List.mem_append_right earlier List.mem_cons_self)
  rw [reading.stops, eq_comm, List.take_eq_nil_iff] at answered
  have positive := reads last.call
  exact answered.resolve_left (by omega)

end Reading

variable [BcCore]

section Storing

theorem configStoreSet_same (store : host.StoreCallsSucceed) {m₁ m₂ : Machine}
    (same : SameStored m₁ m₂) (key value : CString) :
    SameStored (configStoreSet key value host m₁).2 (configStoreSet key value host m₂).2 := by
  have stores : ∀ m, Upserted key (fun _ => value) value m (configStoreSet key value host m).2 :=
    fun m => (wp_always_iff _ host m _).mp <| wp_mono (configStoreSet_spec host m key value)
      (fun _ _ stored => stored) fun _ refused => absurd store refused.failure
  constructor
  · rw [(stores m₁).entries, (stores m₂).entries, same.1]
  · rw [(stores m₁).sorted, (stores m₂).sorted, same.2, ConfigStore.keys, ConfigStore.keys, same.1]

/-- What the line parser stores depends on the bytes and the store alone. -/
theorem loadFromBuffer_same (store : host.StoreCallsSucceed) {m₁ m₂ : Machine}
    (same : SameStored m₁ m₂) (data : List UInt8) :
    SameStored (loadFromBuffer data host m₁).2 (loadFromBuffer data host m₂).2 := by
  rw [loadFromBuffer_eq]
  induction storedBindings data generalizing m₁ m₂ with
  | nil => exact same
  | cons binding bindings ih => exact ih (configStoreSet_same store same binding.1 binding.2)

end Storing

section Loading
variable {filePath : CString} {m : Machine}

omit [BcCore] in
/-- The reads of a load deliver the whole file and end at its end. -/
theorem loadReads_whole {first : Nat} (opened : host.succeeds first (.fileOpen filePath) = true)
    (allocations : host.AllocationsSucceed) (reads : host.ReadsDeliver) :
    ∃ earlier last, loadReads host filePath first = some (earlier ++ [last]) ∧
      Reading host (host.fileContent filePath) earlier last ∧ last.unread = [] := by
  have answers : ∃ made, loadReads host filePath first = some made := by
    rw [loadReads, if_pos ⟨opened, (allocations _ _).1⟩]
    exact readCalls_isSome allocations _ _ _ _ _
  obtain ⟨made, answers⟩ := answers
  obtain ⟨earlier, last, rfl, reading⟩ := loadReads_reading answers
  exact ⟨earlier, last, answers, reading, reading.complete reads⟩

theorem loadFile_spec (calls : host.AllCallsSucceed) (reads : host.ReadsDeliver)
    (filePath : CString) (m : Machine) :
    wp (loadFile filePath)
      (fun _ m' => Loaded (storedBindings (host.fileContent filePath)) m m')
      (fun _ => False) host m := by
  obtain ⟨earlier, last, answers, reading, ended⟩ :=
    loadReads_whole (calls m.calls (.fileOpen filePath)) calls.store.allocations reads
  obtain ⟨m', run, m₁, m₂, before, parsed, after⟩ := observedLoadFile_run answers
  have loaded := wp_some (loadFromBuffer_spec calls.store _ m₁) parsed
  rw [reading.delivered_eq ended] at loaded
  refine wp_of_run (loadFile_of_observed_run run) ?_
  exact List.append_nil (storedBindings _) ▸
    (before.untouched.loaded.append loaded).append after.untouched.loaded

/-- Loading a file has the effect of one load of its whole content from a buffer. -/
theorem loadFile_chunking (opened : host.succeeds m.calls (.fileOpen filePath) = true)
    (allocations : host.AllocationsSucceed) (reads : host.ReadsDeliver) :
    ∃ load m', observedLoadFile filePath host m = (some load, m') ∧
      loadFile filePath host m = (some (), m') ∧
      load.given = host.fileContent filePath ∧
      delivered load.reads = host.fileContent filePath ∧
      ParsesOnce host (host.fileContent filePath) m m' ∧
      (host.StoreCallsSucceed →
        SameStored (loadFromBuffer (host.fileContent filePath) host m).2 m') ∧
      (∀ read ∈ load.reads, read.totalSize ≤ read.capacity ∧ 1 ≤ read.requested) ∧
      ∃ earlier last, load.reads = earlier ++ [last] ∧ (∀ read ∈ earlier, read.read ≠ []) ∧
        last.unread = [] ∧ last.read = [] := by
  obtain ⟨earlier, last, answers, reading, ended⟩ := loadReads_whole opened allocations reads
  obtain ⟨m', run, once⟩ := observedLoadFile_run answers
  have whole := reading.delivered_eq ended
  rw [whole] at once
  refine ⟨_, m', run, loadFile_of_observed_run run, whole, whole, once, fun store => ?_, ?_,
    earlier, last, rfl, reading.delivers, ended, reading.stops⟩
  · obtain ⟨m₁, m₂, before, parsed, after⟩ := once
    have kept : SameStored m m₁ := ⟨congrArg _ before.store, congrArg _ before.store⟩
    have same := loadFromBuffer_same store kept (host.fileContent filePath)
    rw [parsed] at same
    rw [SameStored, after.store]
    exact same
  · intro read mem
    have room := reading.room read mem
    exact ⟨room.le, Nat.sub_pos_of_lt room⟩

end Loading

/-- A file of five bytes that is read one byte at a time. -/
def slowHost : Host := .obliging [] (CString.lit "a=b\n\n").bytes

omit [BcCore] in
theorem loadFile_chunking_slow :
    ∃ load m', @observedLoadFile .reference (.lit "f") slowHost .initial = (some load, m') ∧
      delivered load.reads = (CString.lit "a=b\n\n").bytes := by
  obtain ⟨load, m', run, _, _, whole, _⟩ := @loadFile_chunking slowHost .reference (.lit "f")
    .initial rfl (fun _ _ => ⟨rfl, rfl⟩) fun _ => Nat.one_pos
  exact ⟨load, m', run, whole⟩

end BcRuntime
