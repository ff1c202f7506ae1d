import BcRuntime.Config.FileReading
import BcRuntime.Config.LoadFailures
import BcRuntime.Config.Loads
import BcRuntime.Model.Ledger

/-!
What the functions of the store hold. The store itself holds its arena, its
array and its own block; every function that fills it leaves exactly these held
beside whatever its caller holds, also when it fails half way.
-/

namespace BcRuntime
open Fallible Run

/-- In the order in which the store is destroyed. -/
def ConfigStore.resources (store : ConfigStore) : List Resource :=
  [store.arena, store.entriesBlock, store.block]

/-- Beside whatever else is held, what the store holds stays held. -/
def KeepsHoldings (m m' : Machine) : Prop :=
  ∀ start others, Holds start (m.store.resources ++ others) m →
    Holds start (m'.store.resources ++ others) m'

instance keepsHoldings_refl : Std.Refl KeepsHoldings := ⟨fun _ _ _ h => h⟩

instance keepsHoldings_trans : IsTrans Machine KeepsHoldings :=
  ⟨fun _ _ _ first second start others h => second start others (first start others h)⟩

theorem external_keepsHoldings (call : ExternalCall) : Keeps KeepsHoldings (external call) := by
  intro host m
  have called : KeepsHoldings m { m with calls := m.calls + 1 } :=
    fun _ _ h => h.of_trace_eq rfl (Nat.le_succ _)
  exact (wp_external _ _).mpr ⟨fun _ => called, fun _ => called⟩

theorem modifyStore_keepsHoldings {f : ConfigStore → ConfigStore}
    (same : ∀ store, (f store).resources = store.resources) :
    Keeps KeepsHoldings (modifyStore f) := by
  intro host m start others h
  change Holds start ((f m.store).resources ++ others) _
  rw [same]
  exact h.of_trace_eq rfl (Nat.le_refl _)

/-- For a computation that acquires and releases, with what its caller holds fixed. -/
theorem keepsHoldings_of_holds {α : Type} {c : Run α}
    (h : ∀ host m start others, Holds start (m.store.resources ++ others) m →
      wp c (fun _ m' => Holds start (m'.store.resources ++ others) m')
        (fun m' => Holds start (m'.store.resources ++ others) m') host m) :
    Keeps KeepsHoldings c := by
  intro host m
  rw [wp_iff]
  refine ⟨fun a m' run start others before => ?_, fun m' run start others before => ?_⟩
  · exact ((wp_iff _ _ _ _ _).mp (h host m start others before)).1 a m' run
  · exact ((wp_iff _ _ _ _ _).mp (h host m start others before)).2 m' run

/-- Reallocation gives the array of the store back and hands out another. -/
theorem growEntries_keepsHoldings : Keeps KeepsHoldings growEntries := by
  refine keepsHoldings_of_holds fun host m start others h => ?_
  simp only [growEntries, wp_bind, wp_get]
  refine (wp_ite _ _ _ _ _ _ _).mpr ⟨fun _ => ?_, fun _ => h⟩
  have array : Holds start (m.store.entriesBlock :: m.store.arena :: m.store.block :: others) m :=
    h.perm (.swap _ _ _)
  rw [wp_bind]
  refine wp_mono (poolReallocate_holds _ array) ?_ ?_
  · rintro newEntries m₁ ⟨store, holds⟩
    have back : Holds start (m₁.store.arena :: newEntries :: m₁.store.block :: others) m₁ := by
      rw [store]
      exact holds.perm (.swap _ _ _)
    exact back.of_trace_eq rfl (Nat.le_refl _)
  · rintro m₁ ⟨store, holds⟩
    rw [store]
    exact holds.perm (.swap _ _ _)

variable [BcCore]

theorem configStoreSet_keepsHoldings (key value : CString) :
    Keeps KeepsHoldings (configStoreSet key value) :=
  configStoreSet_keeps external_keepsHoldings
    (fun _ _ => modifyStore_keepsHoldings fun _ => rfl) growEntries_keepsHoldings
    (fun _ => modifyStore_keepsHoldings fun _ => rfl) key value

theorem loadFromBuffer_holds (data : List UInt8) (host : Host) (m : Machine) :
    wp (loadFromBuffer data) (fun _ m' => KeepsHoldings m m') (fun _ => False) host m := by
  have kept := loadFromBuffer_keeps configStoreSet_keepsHoldings data host m
  have succeeds := setEach_returns_true host m (storedBindings data)
  rw [← loadFromBuffer_eq] at succeeds
  refine (wp_iff _ _ _ _ _).mpr ⟨fun a m' run => wp_some kept run, fun m' run => ?_⟩
  rw [run] at succeeds
  cases succeeds

omit [BcCore] in
/-- The file and its buffer are held while the file is read; of the two only the
buffer is left when the reading ends, and nothing when it fails. -/
theorem readLoop_holds {host : Host} {start : Machine} {file : Resource} {others : List Resource}
    (n : Nat) (unread fileBuffer : List UInt8) (capacity : Nat) (block : Resource) (m : Machine)
    (h : Holds start (block :: file :: others) m) :
    wp (readLoop file n unread fileBuffer capacity block)
      (fun result m' => m'.store = m.store ∧ Holds start (result.2 :: file :: others) m')
      (fun m' => m'.store = m.store ∧ Holds start others m') host m := by
  induction n generalizing unread fileBuffer capacity block m with
  | zero => exact ⟨rfl, h⟩
  | succ n ih =>
      have grown : wp (growFileBuffer file block fileBuffer.length capacity)
          (fun result m' => m'.store = m.store ∧ Holds start (result.1 :: file :: others) m')
          (fun m' => m'.store = m.store ∧ Holds start others m') host m := by
        rw [growFileBuffer, wp_ite]
        refine ⟨fun _ => ?_, fun _ => ⟨rfl, h⟩⟩
        rw [wp_bind, wp_onFailure]
        refine wp_mono (poolReallocate_holds _ h) (fun _ _ holds => holds) ?_
        rintro m₁ ⟨store, holds⟩
        have freed : Holds start (file :: others)
            { m₁ with trace := m₁.trace ++ [.released block] } :=
          holds.release rfl (Nat.le_refl _)
        exact ⟨store, freed.release rfl (Nat.le_refl _)⟩
      rw [readLoop, wp_bind]
      refine wp_mono grown ?_ fun _ failed => failed
      rintro ⟨block', capacity'⟩ m₁ ⟨store, holds⟩
      have read : Holds start (block' :: file :: others) { m₁ with calls := m₁.calls + 1 } :=
        holds.of_trace_eq rfl (Nat.le_succ _)
      change wp (if _ then _ else _ : Run (List UInt8 × Resource)) _ _ host
        { m₁ with calls := m₁.calls + 1 }
      split
      · exact ⟨store, read⟩
      · rw [← store]
        exact ih _ _ _ _ _ read

theorem loadFile_keepsHoldings (filePath : CString) : Keeps KeepsHoldings (loadFile filePath) := by
  refine keepsHoldings_of_holds fun host m start others h => ?_
  simp only [loadFile, wp_bind, wp_ask, wp_onFailure]
  refine wp_mono (acquire_holds _ _ h) ?_ ?_
  · rintro file m₁ ⟨-, store₁, opened⟩
    refine wp_mono (acquire_holds _ _ opened) ?_ ?_
    · rintro block m₂ ⟨-, store₂, allocated⟩
      refine wp_mono (readLoop_holds _ _ _ _ _ m₂ allocated) ?_ ?_
      · rintro ⟨fileBuffer, block'⟩ m₃ ⟨store₃, read⟩
        refine wp_mono (release_holds (read.perm (.swap _ _ _))) ?_ fun _ failed => failed
        rintro _ m₄ ⟨store₄, closed⟩
        rw [← store₁, ← store₂, ← store₃, ← store₄] at closed
        have beside : Holds start (m₄.store.resources ++ (block' :: others)) m₄ :=
          closed.perm List.perm_middle.symm
        have freed : ∀ m₅, KeepsHoldings m₄ m₅ →
            wp (release block') (fun _ m' => Holds start (m'.store.resources ++ others) m')
              (fun m' => Holds start (m'.store.resources ++ others) m') host m₅ := by
          intro m₅ kept
          refine wp_mono (release_holds ((kept _ _ beside).perm List.perm_middle)) ?_
            fun _ failed => failed
          rintro _ m₆ ⟨store₆, holds⟩
          rw [store₆]
          exact holds
        split
        · rw [wp_bind]
          exact wp_mono (loadFromBuffer_holds _ host m₄) (fun _ m₅ kept => freed m₅ kept)
            fun _ failed => failed.elim
        · exact freed m₄ (Std.Refl.refl m₄)
      · rintro m₃ ⟨store₃, closed⟩
        rw [store₃, store₂, store₁]
        exact closed
    · rintro m₂ ⟨store₂, failed⟩
      refine wp_mono (release_holds failed) ?_ fun _ failed => failed
      rintro _ m₃ ⟨store₃, closed⟩
      rw [store₃, store₂, store₁]
      exact closed
  · rintro m₁ ⟨store₁, failed⟩
    rw [store₁]
    exact failed

theorem configStoreSort_keepsHoldings : Keeps KeepsHoldings configStoreSort := by
  refine keepsHoldings_of_holds fun host m start others h => ?_
  simp only [configStoreSort, wp_bind, wp_get]
  refine (wp_ite _ _ _ _ _ _ _).mpr ⟨fun _ => h.of_trace_eq rfl (Nat.le_refl _), fun _ => ?_⟩
  rw [wp_bind]
  refine wp_mono (acquire_holds _ _ h) ?_ ?_
  · rintro tempBlock m₁ ⟨-, store, holds⟩
    rw [← store] at holds
    exact holds.release rfl (Nat.le_refl _)
  · rintro m₁ ⟨store, holds⟩
    rw [store]
    exact holds

end BcRuntime
