import BcRuntime.Config.StoreLookup

/-!
The store against a finite map. A reference map follows the calls that returned
true; every reachable store is valid and has the map for its content, whichever
calls outside failed on the way.
-/

namespace BcRuntime
open Fallible Run

/-- A successful sort: the entries in the order of their keys, and marked so. -/
structure SortedFrom (m m' : Machine) : Prop extends SameOutput m m' where
  perm : m'.store.entries.Perm m.store.entries
  ascending : KeysAscending m'.store.entries
  sorted : m'.store.sorted = true

theorem SortedFrom.content {m m' : Machine} (h : SortedFrom m m')
    (distinct : m.store.keys.Nodup) (key : CString) :
    m'.store.content key = m.store.content key := by
  rw [ConfigStore.content, ConfigStore.content,
    KeyedList.find_perm ConfigEntry.key distinct h.perm.symm]

theorem SortedFrom.valid {m m' : Machine} (h : SortedFrom m m')
    (distinct : m.store.keys.Nodup) : m'.store.Valid where
  distinct := (h.perm.map ConfigEntry.key).nodup_iff.mpr distinct
  ascending := fun _ => h.ascending

theorem Untouched.valid {m m' : Machine} (h : Untouched m m') (valid : m.store.Valid) :
    m'.store.Valid where
  distinct := by
    rw [ConfigStore.keys, h.entries]
    exact valid.distinct
  ascending := by
    rw [h.entries, h.sorted]
    exact valid.ascending

theorem Untouched.content {m m' : Machine} (h : Untouched m m') (key : CString) :
    m'.store.content key = m.store.content key := by
  rw [ConfigStore.content, ConfigStore.content, h.entries]

private theorem keysAscending_of_keys_eq {entries others : List ConfigEntry}
    (same : entries.map ConfigEntry.key = others.map ConfigEntry.key)
    (h : KeysAscending others) : KeysAscending entries := by
  have mapped : ∀ l : List ConfigEntry, KeysAscending l ↔
      (l.map ConfigEntry.key).Pairwise fun a b => a.bytes ≤ b.bytes := by
    intro l
    rw [List.pairwise_map]
    rfl
  rw [mapped, same, ← mapped]
  exact h

/-- An upsert keeps the keys distinct; it clears the flag unless it keeps the keys. -/
theorem Upserted.valid {key fresh : CString} {change : CString → CString} {m m' : Machine}
    (h : Upserted key change fresh m m') (valid : m.store.Valid) : m'.store.Valid where
  distinct := by
    rw [ConfigStore.keys, h.entries]
    exact KeyedList.nodup_upsert (changeValue_keeps change key) rfl valid.distinct
  ascending := by
    intro sorted
    rw [h.sorted, Bool.and_eq_true, decide_eq_true_iff] at sorted
    have keys := h.keys
    rw [if_pos sorted.2] at keys
    exact keysAscending_of_keys_eq keys (valid.ascending sorted.1)

section Sorting
variable [BcCore] (host : Host) (m : Machine)

theorem configStoreSort_spec :
    wp configStoreSort (fun _ m' => SortedFrom m m') (Refused host m) host m := by
  simp only [configStoreSort, wp_bind, wp_get]
  by_cases short : m.store.entries.length ≤ 1
  · rw [if_pos short, wp_modifyStore]
    exact ⟨⟨rfl, rfl⟩, .refl _, keysAscending_of_short short, rfl⟩
  · rw [if_neg short]
    simp only [wp_bind, wp_modifyStore, wp_release]
    refine wp_mono (poolAllocate_spec host m _) ?_ fun _ h => h
    intro tempBlock m₁ quiet
    obtain ⟨perm, ascending⟩ := sortPasses_sorts m₁.store.entries
    exact ⟨⟨quiet.writes, quiet.errors⟩, by rw [← quiet.store]; exact perm, ascending, rfl⟩

end Sorting

/-- The calls that change a store, on strings without NUL. -/
inductive StoreCall
  | set (key value : CString)
  | append (key value : CString) (separator : UInt8) (nonzero : separator ≠ 0)
  | sort

/-- The map a store stands for, and whether a sort has succeeded since the last
successful insertion of a new key. -/
structure Reference where
  map : CString → Option CString
  sortedSinceInsertion : Bool

namespace Reference

def empty : Reference := ⟨fun _ => none, false⟩

def assign (reference : Reference) (key value : CString) : Reference where
  map := fun k => if k = key then some value else reference.map k
  sortedSinceInsertion := reference.sortedSinceInsertion && (reference.map key).isSome

end Reference

/-- `old`, a separator and `new` in one string. -/
def CString.join (old new : CString) (separator : UInt8) (nonzero : separator ≠ 0) : CString where
  bytes := old.bytes ++ [separator] ++ new.bytes
  noNul := by simp [old.noNul, new.noNul, nonzero.symm]

theorem joined_eq_join (old new : CString) (separator : UInt8) (nonzero : separator ≠ 0) :
    joined old separator new = old.join new separator nonzero := by
  rw [← CString.ofBuffer_self (old.join new separator nonzero)]
  exact congrArg CString.ofBuffer (by simp [CString.join])

namespace StoreCall

def perform [BcCore] : StoreCall → Run Unit
  | .set key value => configStoreSet key value
  | .append key value separator _ => configStoreAppend key value separator
  | .sort => configStoreSort

/-- What a call that returned true does to the map. -/
def reflect : StoreCall → Reference → Reference
  | .set key value, reference => reference.assign key value
  | .append key value separator nonzero, reference =>
      reference.assign key <|
        match reference.map key with
        | none => value
        | some old => old.join value separator nonzero
  | .sort, reference => { reference with sortedSinceInsertion := true }

end StoreCall

/-- Make one call; the reference follows it when it returns true. -/
def stepCall [BcCore] (host : Host) (state : Reference × Machine) (call : StoreCall) :
    Reference × Machine :=
  match call.perform host state.2 with
  | (some _, m) => (call.reflect state.1, m)
  | (none, m) => (state.1, m)

def runCalls [BcCore] (host : Host) (calls : List StoreCall) (state : Reference × Machine) :
    Reference × Machine :=
  calls.foldl (stepCall host) state

structure Refines (reference : Reference) (m : Machine) : Prop where
  valid : m.store.Valid
  content : ∀ key, m.store.content key = reference.map key
  sorted : m.store.sorted = reference.sortedSinceInsertion

theorem Refines.of_untouched {reference : Reference} {m m' : Machine}
    (h : Refines reference m) (same : Untouched m m') : Refines reference m' where
  valid := same.valid h.valid
  content := fun key => by rw [same.content, h.content]
  sorted := by rw [same.sorted, h.sorted]

theorem Refines.of_upserted {reference : Reference} {m m' : Machine}
    {key fresh value : CString} {change : CString → CString} (h : Refines reference m)
    (stored : Upserted key change fresh m m')
    (new : (((reference.map key).map change).getD fresh) = value) :
    Refines (reference.assign key value) m' where
  valid := stored.valid h.valid
  content := fun k => by
    rw [stored.content, h.content, h.content, new]
    rfl
  sorted := by
    have present : decide (key ∈ m.store.keys) = (reference.map key).isSome := by
      rw [← h.content, ← Bool.decide_coe (m.store.content key).isSome,
        decide_eq_decide, mem_keys_iff_content]
    rw [stored.sorted, h.sorted, present]
    rfl

variable [BcCore]

/-- A call that returns true does to every reference what it says; one that
returns false does nothing. -/
theorem perform_spec (host : Host) (m : Machine) (call : StoreCall) :
    wp call.perform
      (fun _ m' => SameOutput m m' ∧
        ∀ reference, Refines reference m → Refines (call.reflect reference) m')
      (Refused host m) host m := by
  cases call with
  | set key value =>
      refine wp_mono (configStoreSet_spec host m key value) (fun _ m' stored => ?_) fun _ h => h
      refine ⟨stored.toSameOutput, fun reference h => ?_⟩
      exact h.of_upserted stored (by cases reference.map key <;> rfl)
  | append key value separator nonzero =>
      refine wp_mono (configStoreAppend_spec host m key value separator) (fun _ m' stored => ?_)
        fun _ h => h
      refine ⟨stored.toSameOutput, fun reference h => h.of_upserted stored ?_⟩
      cases reference.map key with
      | none => rfl
      | some old =>
          exact joined_eq_join old value separator nonzero
  | sort =>
      refine wp_mono (configStoreSort_spec host m) (fun _ m' sorted => ?_) fun _ h => h
      refine ⟨sorted.toSameOutput, fun reference h => ?_⟩
      exact ⟨sorted.valid h.valid.distinct,
        fun key => by rw [sorted.content h.valid.distinct, h.content]; rfl, sorted.sorted⟩

theorem stepCall_refines {host : Host} {reference : Reference} {m : Machine}
    (h : Refines reference m) (call : StoreCall) :
    Refines (stepCall host (reference, m) call).1 (stepCall host (reference, m) call).2 := by
  cases wp_cases (perform_spec host m call) with
  | inl performed =>
      obtain ⟨_, m', run, _, refines⟩ := performed
      simp only [stepCall, run]
      exact refines reference h
  | inr failed =>
      obtain ⟨m', run, refused⟩ := failed
      simp only [stepCall, run]
      exact h.of_untouched refused.toUntouched

theorem runCalls_refines (host : Host) {reference : Reference} {m : Machine}
    (h : Refines reference m) (calls : List StoreCall) :
    Refines (runCalls host calls (reference, m)).1 (runCalls host calls (reference, m)).2 := by
  induction calls generalizing reference m with
  | nil => exact h
  | cons call calls ih => exact ih (stepCall_refines h call)

omit [BcCore] in
theorem configStoreCreate_refines {host : Host} {m₀ m₁ : Machine}
    (created : configStoreCreate host m₀ = (some (), m₁)) : Refines .empty m₁ := by
  have spec : wp configStoreCreate (fun _ m' => Refines .empty m') (fun _ => True) host m₀ := by
    simp only [configStoreCreate, wp_bind, wp_onFailure, poolAllocate, acquire, wp_external,
      wp_record, wp_pure, wp_release, wp_modifyStore, implies_true, and_true]
    exact fun _ _ _ => ⟨⟨List.nodup_nil, fun h => absurd h Bool.false_ne_true⟩, fun _ => rfl, rfl⟩
  exact wp_some spec created

/-- In every state reached from a created store, lookup reads the reference map
when the sorted flag is set and finds nothing when it is not; the flag is set
exactly when a sort has succeeded since the last insertion. -/
theorem configStore_refines_map {host : Host} (core : host.CoreCallsSucceed) {m₀ m₁ : Machine}
    (created : configStoreCreate host m₀ = (some (), m₁)) (calls : List StoreCall) :
    (∀ key, (configStoreLookup key host (runCalls host calls (.empty, m₁)).2).1 =
      if (runCalls host calls (.empty, m₁)).2.store.sorted = true then
        (runCalls host calls (.empty, m₁)).1.map key
      else none) ∧
    (runCalls host calls (.empty, m₁)).2.store.sorted =
      (runCalls host calls (.empty, m₁)).1.sortedSinceInsertion := by
  have refines := runCalls_refines host (configStoreCreate_refines created) calls
  refine ⟨fun key => ?_, refines.sorted⟩
  obtain ⟨m', run, -⟩ := configStoreLookup_run core refines.valid key
  rw [run, refines.content]

/-- A host whose arena copies fail on odd calls. -/
def flakyHost : Host where
  succeeds n call :=
    match call with
    | .arenaCopyString _ => n % 2 = 0
    | _ => true
  environ := []
  fileContent _ := []
  readCount _ := 1

def flakyCalls : List StoreCall :=
  [.set (.lit "b") (.lit "1"), .append (.lit "b") (.lit "2") 10 (by decide),
   .set (.lit "a") (.lit "3"), .sort]

omit [BcCore] in
theorem configStore_refines_map_flaky :
    (@configStoreLookup .reference (.lit "b") flakyHost
        (@runCalls .reference flakyHost flakyCalls
          (.empty, (configStoreCreate flakyHost .initial).2)).2).1 =
      if (@runCalls .reference flakyHost flakyCalls
          (.empty, (configStoreCreate flakyHost .initial).2)).2.store.sorted = true then
        (@runCalls .reference flakyHost flakyCalls
          (.empty, (configStoreCreate flakyHost .initial).2)).1.map (.lit "b")
      else none :=
  (@configStore_refines_map .reference flakyHost (fun _ => ⟨fun _ => rfl, fun _ => rfl⟩) .initial
    _ rfl flakyCalls).1 (.lit "b")

end BcRuntime
