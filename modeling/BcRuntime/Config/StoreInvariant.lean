import BcRuntime.Config.Loads
import BcRuntime.Config.StoreRefinement
import BcRuntime.Foundation.Runs
import Mathlib.Algebra.Group.Nat.Defs
import Mathlib.Data.Finset.Card
import Mathlib.Data.Finset.Dedup

/-!
The representation of a store in every reachable state: one entry a key, in an
array of doubled size with room for all of them, sorted when it says so. The
entries are those of the keys that have ever been stored with success, also
after calls that failed half way.
-/

namespace BcRuntime
open Fallible Run

/-- The entries are inside the block of the array, whose capacity has been doubled. -/
structure ConfigStore.Fits (store : ConfigStore) : Prop where
  count : store.entries.length ≤ store.entryCapacity
  doubled : ∃ n : Nat, store.entryCapacity = configStoreInitialCapacity * 2 ^ n
  block : store.entriesBlock.kind = .poolBlock (store.entryCapacity * configEntrySize)

def FitsKept (m m' : Machine) : Prop := m.store.Fits → m'.store.Fits

instance fitsKept_refl : Std.Refl FitsKept := ⟨fun _ fits => fits⟩

instance fitsKept_trans : IsTrans Machine FitsKept :=
  ⟨fun _ _ _ first second fits => second (first fits)⟩

theorem external_fitsKept (call : ExternalCall) : Keeps FitsKept (external call) :=
  fun _ _ => (wp_external _ _).mpr ⟨fun _ fits => fits, fun _ fits => fits⟩

theorem record_fitsKept (event : Event) : Keeps FitsKept (record event) :=
  fun _ _ fits => fits

theorem growEntries_fits {host : Host} {m : Machine} (fits : m.store.Fits) :
    wp growEntries
      (fun _ m' => m'.store.Fits ∧ m'.store.entries.length < m'.store.entryCapacity)
      (fun m' => m'.store.Fits) host m := by
  simp only [growEntries, wp_bind, wp_get]
  by_cases full : m.store.entries.length = m.store.entryCapacity
  · rw [if_pos full, wp_bind, poolReallocate, wp_bind, wp_external]
    refine ⟨fun _ => ?_, fun _ => fits⟩
    obtain ⟨n, capacity⟩ := fits.doubled
    have some_room : 0 < m.store.entryCapacity := by
      rw [capacity]
      exact Nat.mul_pos (by decide) (Nat.two_pow_pos n)
    have doubled : m.store.entryCapacity * 2 = configStoreInitialCapacity * 2 ^ (n + 1) := by
      rw [capacity, Nat.pow_succ, Nat.mul_assoc]
    have room : m.store.entries.length < m.store.entryCapacity * 2 := by omega
    exact ⟨⟨Nat.le_of_lt room, ⟨n + 1, doubled⟩, rfl⟩, room⟩
  · rw [if_neg full]
    exact ⟨fits, lt_of_le_of_ne fits.count full⟩

section Operations
variable [BcCore]

omit [BcCore] in
theorem assignValue_fitsKept (i : Nat) (value : CString) : Keeps FitsKept (assignValue i value) := by
  intro host m fits
  exact ⟨le_of_eq_of_le (List.length_modify _ _ _) fits.count, fits.doubled, fits.block⟩

theorem configStoreSet_fitsKept (key value : CString) :
    Keeps FitsKept (configStoreSet key value) := by
  refine (coreLength_keeps external_fitsKept key).bind fun keyLength => ?_
  refine Keeps.bind (fun _ _ fits => fits) fun m => ?_
  refine (scanEntries_keeps external_fitsKept _ _ _ _).bind fun found => ?_
  cases found with
  | some place =>
      exact (arenaCopyString_keeps external_fitsKept _).bind fun _ => assignValue_fitsKept _ _
  | none =>
      refine Keeps.of_wp (P := fun m : Machine => m.store.Fits) fun host m₁ fits => ?_
      simp only [wp_bind]
      refine wp_mono (growEntries_fits fits) ?_ fun _ failed => failed
      rintro _ m₂ ⟨fits, room⟩
      have copied : ∀ text m, m.store = m₂.store →
          wp (arenaCopyString text) (fun _ m' => m'.store = m₂.store) (fun m' => m'.store.Fits)
            host m := by
        intro text m same
        rw [arenaCopyString, wp_bind, wp_external]
        exact ⟨fun _ => same, fun _ => same ▸ fits⟩
      refine wp_mono (copied key m₂ rfl) (fun copiedKey m₃ same₃ => ?_) fun _ failed => failed
      refine wp_mono (copied value m₃ same₃) (fun copiedValue m₄ same₄ => ?_)
        fun _ failed => failed
      rw [wp_modifyStore, same₄]
      refine ⟨?_, fits.doubled, fits.block⟩
      rw [List.length_append]
      exact room

theorem configStoreAppend_fitsKept (key value : CString) (separator : UInt8) :
    Keeps FitsKept (configStoreAppend key value separator) :=
  configStoreAppend_keeps external_fitsKept assignValue_fitsKept record_fitsKept
    configStoreSet_fitsKept key value separator

theorem configStoreSort_fitsKept : Keeps FitsKept configStoreSort := by
  refine configStoreSort_keeps external_fitsKept record_fitsKept (.modify fun m fits => ?_)
    (.modify fun _ fits => ?_)
  · have perm := (sortPasses_sorts m.store.entries).1
    exact ⟨le_of_eq_of_le perm.length_eq fits.count, fits.doubled, fits.block⟩
  · exact ⟨fits.count, fits.doubled, fits.block⟩

end Operations

/-- The calls that change a store. The environment is the one at the time of the call. -/
inductive StoreOperation
  | set (key value : CString)
  | append (key value : CString) (separator : UInt8)
  | sort
  | loadFromBuffer (data : List UInt8)
  | loadEnvironment (environ : List CString)
  | loadArguments (argumentValues : List CString)

section Stored
variable [BcCore]

/-- The state after an operation, whatever it has returned. -/
def stepStore (host : Host) (m : Machine) : StoreOperation → Machine
  | .set key value => (configStoreSet key value host m).2
  | .append key value separator => (configStoreAppend key value separator host m).2
  | .sort => (configStoreSort host m).2
  | .loadFromBuffer data => (BcRuntime.loadFromBuffer data host m).2
  | .loadEnvironment environ => (BcRuntime.loadEnvironment { host with environ := environ } m).2
  | .loadArguments argumentValues => (BcRuntime.loadArguments argumentValues host m).2

/-- The keys of the bindings whose set succeeds, each tried in its turn. -/
def storedEach (host : Host) : List Binding → Machine → List CString
  | [], _ => []
  | (key, value) :: bindings, m =>
      match configStoreSet key value host m with
      | (some _, m') => key :: storedEach host bindings m'
      | (none, m') => storedEach host bindings m'

/-- The same for texts that are passed over when they are not bindings or cannot
be measured, up to the first set that fails. -/
def storedUntilFailure (host : Host) (binding : CString → Option Binding) :
    List CString → Machine → List CString
  | [], _ => []
  | text :: texts, m =>
      match coreLength text host m, binding text with
      | (some _, m'), some (key, value) =>
          match configStoreSet key value host m' with
          | (some _, m'') => key :: storedUntilFailure host binding texts m''
          | (none, _) => []
      | (_, m'), _ => storedUntilFailure host binding texts m'

/-- The keys that an operation stores with success. -/
def storedKeys (host : Host) (m : Machine) : StoreOperation → List CString
  | .set key value => storedEach host [(key, value)] m
  | .append key value separator =>
      match configStoreAppend key value separator host m with
      | (some _, _) => [key]
      | (none, _) => []
  | .sort => []
  | .loadFromBuffer data => storedEach host (storedBindings data) m
  | .loadEnvironment environ =>
      storedUntilFailure { host with environ := environ } environmentBinding environ m
  | .loadArguments argumentValues =>
      storedUntilFailure host argumentBinding (argumentValues.drop 1) m

def everStored (host : Host) : Machine → List StoreOperation → List CString
  | _, [] => []
  | m, operation :: operations =>
      storedKeys host m operation ++ everStored host (stepStore host m operation) operations

end Stored

/-- What an operation that stores the keys has done to the store. -/
structure Stores (stored : List CString) (m m' : Machine) : Prop where
  keys : ∀ key, key ∈ m'.store.keys ↔ key ∈ m.store.keys ∨ key ∈ stored
  valid : m.store.Valid → m'.store.Valid

namespace Stores
variable {m m' m'' : Machine}

theorem of_untouched (same : Untouched m m') : Stores [] m m' where
  keys := fun key => by
    rw [ConfigStore.keys, same.entries]
    simp [ConfigStore.keys]
  valid := same.valid

theorem of_upserted {key fresh : CString} {change : CString → CString}
    (stored : Upserted key change fresh m m') : Stores [key] m m' where
  keys := fun other => by
    rw [stored.keys]
    split
    · rename_i present
      constructor
      · exact Or.inl
      · rintro (here | here)
        · exact here
        · exact List.mem_singleton.mp here ▸ present
    · exact List.mem_append
  valid := stored.valid

theorem trans {first second : List CString} (h : Stores first m m') (h' : Stores second m' m'') :
    Stores (first ++ second) m m'' where
  keys := fun key => by rw [h'.keys, h.keys, List.mem_append, or_assoc]
  valid := fun valid => h'.valid (h.valid valid)

end Stores

section Steps
variable [BcCore] {host : Host}

theorem set_stores (m : Machine) (key value : CString) :
    Stores (storedEach host [(key, value)] m) m (configStoreSet key value host m).2 := by
  cases wp_cases (configStoreSet_spec host m key value) with
  | inl set =>
      obtain ⟨_, m', run, stored⟩ := set
      simp only [storedEach, run]
      exact .of_upserted stored
  | inr failed =>
      obtain ⟨m', run, refused⟩ := failed
      simp only [storedEach, run]
      exact .of_untouched refused.toUntouched

theorem storedEach_cons (binding : Binding) (bindings : List Binding) (m : Machine) :
    storedEach host (binding :: bindings) m = storedEach host [binding] m ++
      storedEach host bindings (configStoreSet binding.1 binding.2 host m).2 := by
  simp only [storedEach]
  cases configStoreSet binding.1 binding.2 host m with
  | mk result m' => cases result <;> rfl

theorem setEach_stores (bindings : List Binding) (m : Machine) :
    Stores (storedEach host bindings m) m (setEach bindings host m).2 := by
  induction bindings generalizing m with
  | nil => exact .of_untouched (.refl m)
  | cons binding bindings ih =>
      rw [storedEach_cons]
      exact (set_stores m binding.1 binding.2).trans (ih _)

theorem loadTexts_stores (host : Host) (binding : CString → Option Binding)
    (texts : List CString) (m : Machine) :
    Stores (storedUntilFailure host binding texts m) m (loadTexts binding texts host m).2 := by
  induction texts generalizing m with
  | nil => exact .of_untouched (.refl m)
  | cons text texts ih =>
      simp only [storedUntilFailure, loadTexts, loadText, bind_assoc]
      cases wp_cases (coreLength_spec host m text) with
      | inr unmeasured =>
          obtain ⟨m₁, measured, quiet, _⟩ := unmeasured
          rw [bind_run_of_some (attempt_run_of_none measured)]
          simp only [measured]
          exact (Stores.of_untouched quiet.untouched).trans (ih m₁)
      | inl length =>
          obtain ⟨length, m₁, measured, quiet⟩ := length
          have passed := Stores.of_untouched quiet.untouched
          rw [bind_run_of_some (attempt_run_of_some measured)]
          simp only [measured]
          cases is_binding : binding text with
          | none => exact passed.trans (ih m₁)
          | some pair =>
              obtain ⟨key, value⟩ := pair
              cases wp_cases (configStoreSet_spec host m₁ key value) with
              | inr failed =>
                  obtain ⟨m₂, run, refused⟩ := failed
                  simp only [setOption, run, bind_run_of_none run]
                  exact passed.trans (.of_untouched refused.toUntouched)
              | inl set =>
                  obtain ⟨_, m₂, run, stored⟩ := set
                  simp only [setOption, run, bind_run_of_some run]
                  exact passed.trans ((Stores.of_upserted stored).trans (ih m₂))

theorem stepStore_stores (m : Machine) (operation : StoreOperation) :
    Stores (storedKeys host m operation) m (stepStore host m operation) := by
  cases operation with
  | set key value => exact set_stores m key value
  | append key value separator =>
      cases wp_cases (configStoreAppend_spec host m key value separator) with
      | inl appended =>
          obtain ⟨_, m', run, stored⟩ := appended
          simp only [storedKeys, stepStore, run]
          exact .of_upserted stored
      | inr failed =>
          obtain ⟨m', run, refused⟩ := failed
          simp only [storedKeys, stepStore, run]
          exact .of_untouched refused.toUntouched
  | sort =>
      cases wp_cases (configStoreSort_spec host m) with
      | inl sorts =>
          obtain ⟨_, m', run, sorted⟩ := sorts
          simp only [storedKeys, stepStore, run]
          refine ⟨fun key => ?_, fun valid => sorted.valid valid.distinct⟩
          rw [ConfigStore.keys, (sorted.perm.map ConfigEntry.key).mem_iff]
          simp [ConfigStore.keys]
      | inr failed =>
          obtain ⟨m', run, refused⟩ := failed
          simp only [storedKeys, stepStore, run]
          exact .of_untouched refused.toUntouched
  | loadFromBuffer data =>
      rw [stepStore, loadFromBuffer_eq]
      exact setEach_stores (storedBindings data) m
  | loadEnvironment environ =>
      have loaded := loadTexts_stores { host with environ := environ } environmentBinding environ m
      rw [← loadEnvironmentEntries_eq] at loaded
      exact loaded
  | loadArguments argumentValues =>
      have loaded := loadTexts_stores host argumentBinding (argumentValues.drop 1) m
      rw [← loadArgumentsFrom_eq] at loaded
      exact loaded

theorem stepStore_fits (m : Machine) (operation : StoreOperation) :
    FitsKept m (stepStore host m operation) := by
  have ends : ∀ {c : Run Unit}, Keeps FitsKept c → ∀ host, FitsKept m (c host m).2 :=
    fun keeps host => (wp_always_iff _ host m _).mp (keeps host m)
  cases operation with
  | set key value => exact ends (configStoreSet_fitsKept key value) host
  | append key value separator => exact ends (configStoreAppend_fitsKept key value separator) host
  | sort => exact ends configStoreSort_fitsKept host
  | loadFromBuffer data => exact ends (loadFromBuffer_keeps configStoreSet_fitsKept data) host
  | loadEnvironment environ =>
      exact ends (loadEnvironment_keeps configStoreSet_fitsKept external_fitsKept) _
  | loadArguments argumentValues =>
      exact ends (loadArguments_keeps configStoreSet_fitsKept external_fitsKept _) host

theorem run_stores (host : Host) (m : Machine) (operations : List StoreOperation) :
    Stores (everStored host m operations) m (operations.foldl (stepStore host) m) := by
  induction operations generalizing m with
  | nil => exact .of_untouched (.refl m)
  | cons operation operations ih => exact (stepStore_stores m operation).trans (ih _)

theorem run_fits {m : Machine} (fits : m.store.Fits) (operations : List StoreOperation) :
    (operations.foldl (stepStore host) m).store.Fits :=
  Runs.foldl_keeps (fun m operation fits => stepStore_fits m operation fits) operations fits

end Steps

/-- What the functions of a store rely on in every state of it. -/
structure ConfigStore.Represents (store : ConfigStore) (stored : List CString) : Prop where
  distinct : store.keys.Nodup
  lengths : ∀ entry ∈ store.entries, entry.keyLength = entry.key.length
  fits : store.Fits
  increasing : store.sorted = true → store.keys.Pairwise fun a b => a.bytes < b.bytes
  keys_stored : ∀ key, key ∈ store.keys ↔ key ∈ stored
  count : store.entries.length = stored.toFinset.card

theorem increasing_of_valid {store : ConfigStore} (valid : store.Valid)
    (sorted : store.sorted = true) : store.keys.Pairwise fun a b => a.bytes < b.bytes := by
  have ascending : store.keys.Pairwise fun a b => a.bytes ≤ b.bytes :=
    List.pairwise_map.mpr (valid.ascending sorted)
  refine (ascending.and valid.distinct).imp ?_
  rintro a b ⟨le, ne⟩
  exact lt_of_le_of_ne le fun same => ne (CString.ext same)

section Created
variable [BcCore]

omit [BcCore] in
theorem configStoreCreate_fits {host : Host} {m₀ m₁ : Machine}
    (created : configStoreCreate host m₀ = (some (), m₁)) : m₁.store.Fits := by
  have spec : wp configStoreCreate (fun _ m' => m'.store.Fits) (fun _ => True) host m₀ := by
    simp only [configStoreCreate, wp_bind, wp_onFailure, poolAllocate, acquire, wp_external,
      wp_record, wp_pure, wp_release, wp_modifyStore, implies_true, and_true]
    exact fun _ _ _ => ⟨Nat.zero_le _, ⟨0, rfl⟩, rfl⟩
  exact wp_some spec created

theorem reachable_represents {host : Host} {m₀ m₁ : Machine}
    (created : configStoreCreate host m₀ = (some (), m₁)) (operations : List StoreOperation) :
    (operations.foldl (stepStore host) m₁).store.Represents (everStored host m₁ operations) := by
  have start := configStoreCreate_refines created
  have stores := run_stores host m₁ operations
  have valid := stores.valid start.valid
  have keys : ∀ key, key ∈ (operations.foldl (stepStore host) m₁).store.keys ↔
      key ∈ everStored host m₁ operations := by
    intro key
    have absent : ¬ key ∈ m₁.store.keys := by
      rw [mem_keys_iff_content, start.content]
      exact Bool.false_ne_true
    rw [stores.keys, or_iff_right absent]
  refine ⟨valid.distinct, fun entry _ => entry.keyLength_eq,
    run_fits (configStoreCreate_fits created) operations, increasing_of_valid valid, keys, ?_⟩
  have same : (operations.foldl (stepStore host) m₁).store.keys.toFinset =
      (everStored host m₁ operations).toFinset := by
    ext key
    rw [List.mem_toFinset, List.mem_toFinset, keys]
  rw [← same, List.toFinset_card_of_nodup valid.distinct, ConfigStore.keys, List.length_map]

end Created

end BcRuntime
