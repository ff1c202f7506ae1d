import BcRuntime.Config.Holdings
import BcRuntime.Config.StoreRefinement

/-!
A store operation that returns `false` leaves the store as it was. Its array may
have moved to a larger block before the failure, which the entries do not show;
the temporary block of an append or a sort is given back on every path.
-/

namespace BcRuntime
open Fallible Run

/-- The array points at a block of `entry_capacity` entries, and they fit into it. -/
structure ConfigStore.InBlock (store : ConfigStore) : Prop where
  count : store.entries.length ≤ store.entryCapacity
  block : store.entriesBlock.kind = .poolBlock (store.entryCapacity * configEntrySize)

/-- The block of the array never shrinks, and its size stays that of the capacity. -/
structure BlockKept (m m' : Machine) : Prop where
  capacity : m.store.entryCapacity ≤ m'.store.entryCapacity
  block : m.store.entriesBlock.kind = .poolBlock (m.store.entryCapacity * configEntrySize) →
    m'.store.entriesBlock.kind = .poolBlock (m'.store.entryCapacity * configEntrySize)

instance blockKept_refl : Std.Refl BlockKept := ⟨fun _ => ⟨Nat.le_refl _, id⟩⟩

instance blockKept_trans : IsTrans Machine BlockKept where
  trans := fun _ _ _ first second =>
    ⟨first.capacity.trans second.capacity, fun block => second.block (first.block block)⟩

/-- What a failed operation leaves behind. -/
structure Unchanged (m m' : Machine) : Prop where
  entries : m'.store.entries = m.store.entries
  sorted : m'.store.sorted = m.store.sorted
  inBlock : m.store.InBlock → m'.store.InBlock
  holdings : KeepsHoldings m m'

section Block

theorem external_blockKept (call : ExternalCall) : Keeps BlockKept (external call) :=
  fun _ _ => (wp_external _ _).mpr ⟨fun _ => ⟨Nat.le_refl _, id⟩, fun _ => ⟨Nat.le_refl _, id⟩⟩

theorem record_blockKept (event : Event) : Keeps BlockKept (record event) :=
  .modify fun _ => ⟨Nat.le_refl _, id⟩

theorem modifyStore_blockKept {f : ConfigStore → ConfigStore}
    (block : ∀ store, (f store).entriesBlock = store.entriesBlock)
    (capacity : ∀ store, (f store).entryCapacity = store.entryCapacity) :
    Keeps BlockKept (modifyStore f) := by
  refine .modify fun m => ⟨(capacity m.store).ge, fun before => ?_⟩
  change (f m.store).entriesBlock.kind = .poolBlock ((f m.store).entryCapacity * configEntrySize)
  rw [block, capacity]
  exact before

theorem growEntries_blockKept : Keeps BlockKept growEntries := by
  intro host m
  simp only [growEntries, wp_bind, wp_get]
  refine (wp_ite _ _ _ _ _ _ _).mpr ⟨fun _ => ?_, fun _ => Std.Refl.refl m⟩
  rw [wp_bind, poolReallocate, wp_bind, wp_external]
  refine ⟨fun _ => ⟨?_, fun _ => rfl⟩, fun _ => ⟨Nat.le_refl _, id⟩⟩
  exact Nat.le_mul_of_pos_right _ (by decide)

theorem assignValue_blockKept (i : Nat) (value : CString) : Keeps BlockKept (assignValue i value) :=
  modifyStore_blockKept (fun _ => rfl) fun _ => rfl

variable [BcCore]

theorem configStoreSet_blockKept (key value : CString) :
    Keeps BlockKept (configStoreSet key value) :=
  configStoreSet_keeps external_blockKept assignValue_blockKept growEntries_blockKept
    (fun _ => modifyStore_blockKept (fun _ => rfl) fun _ => rfl) key value

theorem configStoreAppend_blockKept (key value : CString) (separator : UInt8) :
    Keeps BlockKept (configStoreAppend key value separator) :=
  configStoreAppend_keeps external_blockKept assignValue_blockKept record_blockKept
    configStoreSet_blockKept key value separator

theorem configStoreSort_blockKept : Keeps BlockKept configStoreSort :=
  configStoreSort_keeps external_blockKept record_blockKept
    (modifyStore_blockKept (fun _ => rfl) fun _ => rfl)
    (modifyStore_blockKept (fun _ => rfl) fun _ => rfl)

end Block

section Holdings
variable [BcCore]

/-- The buffer in which an append joins its strings is given back either way. -/
theorem configStoreAppend_keepsHoldings (key value : CString) (separator : UInt8) :
    Keeps KeepsHoldings (configStoreAppend key value separator) := by
  refine (coreLength_keeps external_keepsHoldings key).bind fun keyLength => ?_
  refine (coreLength_keeps external_keepsHoldings value).bind fun valueLength => ?_
  refine Keeps.bind (fun _ _ _ _ h => h) fun m => ?_
  refine (scanEntries_keeps external_keepsHoldings _ _ _ _).bind fun found => ?_
  cases found with
  | none => exact configStoreSet_keepsHoldings key value
  | some place =>
      refine (coreLength_keeps external_keepsHoldings _).bind fun existingLength => ?_
      refine keepsHoldings_of_holds fun host m start others h => ?_
      rw [wp_bind]
      refine wp_mono (acquire_holds _ _ h) ?_ ?_
      · rintro combinedBlock m₁ ⟨-, store, holds⟩
        rw [← store] at holds
        rw [wp_bind, wp_onFailure, arenaCopyString, wp_bind, wp_external]
        have called : Holds start (combinedBlock :: (m₁.store.resources ++ others))
            { m₁ with calls := m₁.calls + 1 } := holds.of_trace_eq rfl (Nat.le_succ _)
        have released : Holds start (m₁.store.resources ++ others) { m₁ with
            calls := m₁.calls + 1, trace := m₁.trace ++ [.released combinedBlock] } :=
          called.release rfl (Nat.le_refl _)
        exact ⟨fun _ => released.of_trace_eq rfl (Nat.le_refl _), fun _ => released⟩
      · rintro m₁ ⟨store, holds⟩
        rw [store]
        exact holds

end Holdings

section Failures
variable {host : Host} {m : Machine}

theorem unchanged_of_refused {c : Run Unit}
    (refuses : wp c (fun _ _ => True) (Refused host m) host m) (block : Keeps BlockKept c)
    (holdings : Keeps KeepsHoldings c) {m' : Machine} (failed : c host m = (none, m')) :
    Unchanged m m' := by
  have same := (wp_none refuses failed).toUntouched
  have kept := wp_none (block host m) failed
  refine ⟨same.entries, same.sorted, fun inBlock => ⟨?_, kept.block inBlock.block⟩,
    wp_none (holdings host m) failed⟩
  rw [same.entries]
  exact inBlock.count.trans kept.capacity

variable [BcCore]

/-- For every state of the store and every pattern of failures: a set, an append or
a sort that returns `false` has changed nothing of the store's content. -/
theorem failed_operation_unchanged (host : Host) (m : Machine) (key value : CString)
    (separator : UInt8) :
    ∀ operation ∈ [configStoreSet key value, configStoreAppend key value separator,
        configStoreSort],
      ∀ m', operation host m = (none, m') → Unchanged m m' := by
  have only : ∀ {Q : Machine → Prop} {c : Run Unit},
      wp c (fun _ => Q) (Refused host m) host m →
        wp c (fun _ _ => True) (Refused host m) host m :=
    fun spec => wp_mono spec (fun _ _ _ => trivial) fun _ refused => refused
  intro operation mem m' failed
  simp only [List.mem_cons, List.not_mem_nil, or_false] at mem
  rcases mem with rfl | rfl | rfl
  · exact unchanged_of_refused (only (configStoreSet_spec host m key value))
      (configStoreSet_blockKept key value) (configStoreSet_keepsHoldings key value) failed
  · exact unchanged_of_refused (only (configStoreAppend_spec host m key value separator))
      (configStoreAppend_blockKept key value separator)
      (configStoreAppend_keepsHoldings key value separator) failed
  · exact unchanged_of_refused (only (configStoreSort_spec host m)) configStoreSort_blockKept
      configStoreSort_keepsHoldings failed

/-- Where memory has run out every copy and every allocation fails. -/
def exhaustedHost : Host :=
  { Host.obliging [] [] with
    succeeds := fun _ call => match call with
      | .coreLength _ | .coreEqual _ => true
      | _ => false }

omit [BcCore] in
theorem failed_operation_unchanged_exhausted :
    ∃ m', @configStoreAppend .reference (.lit "a") (.lit "4") newline exhaustedHost
        repeatedKeys = (none, m') ∧ Unchanged repeatedKeys m' :=
  ⟨_, rfl, @failed_operation_unchanged .reference exhaustedHost repeatedKeys (.lit "a") (.lit "4")
    newline _ (List.mem_cons_of_mem _ List.mem_cons_self) _ rfl⟩

end Failures

end BcRuntime
