import BcRuntime.Config.StoreInvariant

/-!
Sorted stores with the same answers are interchangeable. Distinct keys in ascending
order leave one array for each map, whatever the history of the store; and from equal
arrays on, operations whose calls succeed do the same to both.
-/

namespace BcRuntime
open Fallible Run

/-- The entries and the flag of two stores agree; their blocks may differ. -/
structure SameEntries (m n : Machine) : Prop where
  entries : m.store.entries = n.store.entries
  sorted : m.store.sorted = n.store.sorted

theorem ConfigEntry.eq_of_key_of_value {a b : ConfigEntry} (key : a.key = b.key)
    (value : a.value = b.value) : a = b := by
  obtain ⟨aKey, aLength, aValue, aLength_eq⟩ := a
  obtain ⟨bKey, bLength, bValue, bLength_eq⟩ := b
  cases key
  cases value
  cases aLength_eq
  cases bLength_eq
  rfl

section Order
variable {entries others : List ConfigEntry}

theorem ascending_unique (distinct : (entries.map ConfigEntry.key).Nodup)
    (ascending : KeysAscending entries) (ascending' : KeysAscending others)
    (perm : entries.Perm others) : entries = others := by
  apply perm.eq_of_pairwise ?_ ascending ascending'
  intro a b memA memB le ge
  have sameKey : a.key = b.key := CString.ext (le_antisymm le ge)
  have foundA := KeyedList.find_eq_some_of_mem ConfigEntry.key distinct memA
  have foundB := KeyedList.find_eq_some_of_mem ConfigEntry.key distinct (perm.mem_iff.mpr memB)
  rw [sameKey, foundB] at foundA
  exact (Option.some.inj foundA).symm

theorem perm_of_values (distinct : (entries.map ConfigEntry.key).Nodup)
    (distinct' : (others.map ConfigEntry.key).Nodup)
    (values : ∀ key, (KeyedList.find ConfigEntry.key key entries).map ConfigEntry.value =
      (KeyedList.find ConfigEntry.key key others).map ConfigEntry.value) :
    entries.Perm others := by
  have included : ∀ {left right : List ConfigEntry}, (left.map ConfigEntry.key).Nodup →
      (∀ key, (KeyedList.find ConfigEntry.key key left).map ConfigEntry.value =
        (KeyedList.find ConfigEntry.key key right).map ConfigEntry.value) →
      ∀ entry ∈ left, entry ∈ right := by
    intro left right distinct values entry mem
    have found := values entry.key
    rw [KeyedList.find_eq_some_of_mem ConfigEntry.key distinct mem, Option.map_some] at found
    cases here : KeyedList.find ConfigEntry.key entry.key right with
    | none =>
        rw [here] at found
        cases found
    | some other =>
        rw [here] at found
        have same : entry = other :=
          ConfigEntry.eq_of_key_of_value (KeyedList.find_key _ here).symm (Option.some.inj found)
        rw [same]
        exact KeyedList.find_mem _ here
  apply (List.perm_ext_iff_of_nodup (.of_map _ distinct) (.of_map _ distinct')).mpr
  intro entry
  constructor
  · exact included distinct values entry
  · exact included distinct' (fun key => (values key).symm) entry

end Order

/-- One array for each map. -/
theorem entries_of_content {m n : Machine} (valid : m.store.Valid) (valid' : n.store.Valid)
    (sorted : m.store.sorted = true) (sorted' : n.store.sorted = true)
    (content : ∀ key, m.store.content key = n.store.content key) : SameEntries m n where
  entries := by
    have perm := perm_of_values valid.distinct valid'.distinct content
    exact ascending_unique valid.distinct (valid.ascending sorted) (valid'.ascending sorted') perm
  sorted := sorted.trans sorted'.symm

namespace SameEntries
variable {m n m' n' : Machine}

theorem content (same : SameEntries m n) (key : CString) :
    m.store.content key = n.store.content key := by
  rw [ConfigStore.content, ConfigStore.content, same.entries]

theorem of_untouched (same : SameEntries m n) (kept : Untouched m m') (kept' : Untouched n n') :
    SameEntries m' n' where
  entries := by rw [kept.entries, kept'.entries, same.entries]
  sorted := by rw [kept.sorted, kept'.sorted, same.sorted]

theorem of_upserted {key fresh : CString} {change : CString → CString} (same : SameEntries m n)
    (stored : Upserted key change fresh m m') (stored' : Upserted key change fresh n n') :
    SameEntries m' n' where
  entries := by rw [stored.entries, stored'.entries, same.entries]
  sorted := by rw [stored.sorted, stored'.sorted, same.sorted, ConfigStore.keys, ConfigStore.keys,
    same.entries]

theorem of_sortedFrom (same : SameEntries m n) (distinct : m.store.keys.Nodup)
    (sorted : SortedFrom m m') (sorted' : SortedFrom n n') : SameEntries m' n' where
  entries := by
    have perm : m'.store.entries.Perm n'.store.entries := by
      apply sorted.perm.trans
      rw [same.entries]
      exact sorted'.perm.symm
    exact ascending_unique (sorted.valid distinct).distinct sorted.ascending sorted'.ascending perm
  sorted := sorted.sorted.trans sorted'.sorted.symm

end SameEntries

section Steps
variable [BcCore] {host host' : Host} {m n : Machine}

omit [BcCore] in
theorem run_of_succeed {α : Type} {c : Run α} {Q : α → Machine → Prop}
    (succeed : host.StoreCallsSucceed) (spec : wp c Q (Refused host m) host m) :
    ∃ a m', c host m = (some a, m') ∧ Q a m' := by
  cases wp_cases spec with
  | inl ended => exact ended
  | inr failed =>
      obtain ⟨m', run, refused⟩ := failed
      exact absurd succeed refused.failure

theorem setOption_same (succeed : host.StoreCallsSucceed) (succeed' : host'.StoreCallsSucceed)
    (same : SameEntries m n) (binding : Option Binding) :
    ∃ m' n', setOption binding host m = (some (), m') ∧ setOption binding host' n = (some (), n') ∧
      SameEntries m' n' := by
  cases binding with
  | none => exact ⟨m, n, rfl, rfl, same⟩
  | some binding =>
      obtain ⟨_, m', run, stored⟩ :=
        run_of_succeed succeed (configStoreSet_spec host m binding.1 binding.2)
      obtain ⟨_, n', run', stored'⟩ :=
        run_of_succeed succeed' (configStoreSet_spec host' n binding.1 binding.2)
      exact ⟨m', n', run, run', same.of_upserted stored stored'⟩

theorem loadText_run (succeed : host.StoreCallsSucceed) (binding : CString → Option Binding)
    (text : CString) (m : Machine) :
    ∃ m₁, Quiet m m₁ ∧ loadText binding text host m = setOption (binding text) host m₁ := by
  cases wp_cases (coreLength_spec host m text) with
  | inl measured =>
      obtain ⟨length, m₁, run, quiet⟩ := measured
      refine ⟨m₁, quiet, ?_⟩
      rw [loadText, bind_run_of_some (attempt_run_of_some run)]
  | inr failed =>
      obtain ⟨m₁, run, quiet, failure⟩ := failed
      exact absurd succeed.core failure

theorem loadTexts_same (succeed : host.StoreCallsSucceed) (succeed' : host'.StoreCallsSucceed)
    (same : SameEntries m n) (binding : CString → Option Binding) (texts : List CString) :
    SameEntries (loadTexts binding texts host m).2 (loadTexts binding texts host' n).2 := by
  induction texts generalizing m n with
  | nil => exact same
  | cons text texts ih =>
      obtain ⟨m₁, quiet, run⟩ := loadText_run succeed binding text m
      obtain ⟨n₁, quiet', run'⟩ := loadText_run succeed' binding text n
      have measured := same.of_untouched quiet.untouched quiet'.untouched
      obtain ⟨m₂, n₂, set, set', same₂⟩ :=
        setOption_same succeed succeed' measured (binding text)
      rw [loadTexts, bind_run_of_some (run.trans set), bind_run_of_some (run'.trans set')]
      exact ih same₂

theorem setEach_same (succeed : host.StoreCallsSucceed) (succeed' : host'.StoreCallsSucceed)
    (same : SameEntries m n) (bindings : List Binding) :
    SameEntries (setEach bindings host m).2 (setEach bindings host' n).2 := by
  induction bindings generalizing m n with
  | nil => exact same
  | cons binding bindings ih =>
      obtain ⟨m₁, n₁, set, set', same₁⟩ := setOption_same succeed succeed' same (some binding)
      have dropped : setDropped binding host m = (some (), m₁) :=
        bind_run_of_some (attempt_run_of_some set) _
      have dropped' : setDropped binding host' n = (some (), n₁) :=
        bind_run_of_some (attempt_run_of_some set') _
      rw [setEach, bind_run_of_some dropped, bind_run_of_some dropped']
      exact ih same₁

theorem stepStore_same (succeed : host.StoreCallsSucceed) (succeed' : host'.StoreCallsSucceed)
    (same : SameEntries m n) (distinct : m.store.keys.Nodup) (operation : StoreOperation) :
    SameEntries (stepStore host m operation) (stepStore host' n operation) := by
  cases operation with
  | set key value =>
      obtain ⟨_, m', run, stored⟩ := run_of_succeed succeed (configStoreSet_spec host m key value)
      obtain ⟨_, n', run', stored'⟩ :=
        run_of_succeed succeed' (configStoreSet_spec host' n key value)
      rw [stepStore, stepStore, run, run']
      exact same.of_upserted stored stored'
  | append key value separator =>
      obtain ⟨_, m', run, stored⟩ :=
        run_of_succeed succeed (configStoreAppend_spec host m key value separator)
      obtain ⟨_, n', run', stored'⟩ :=
        run_of_succeed succeed' (configStoreAppend_spec host' n key value separator)
      rw [stepStore, stepStore, run, run']
      exact same.of_upserted stored stored'
  | sort =>
      obtain ⟨_, m', run, sorted⟩ := run_of_succeed succeed (configStoreSort_spec host m)
      obtain ⟨_, n', run', sorted'⟩ := run_of_succeed succeed' (configStoreSort_spec host' n)
      rw [stepStore, stepStore, run, run']
      exact same.of_sortedFrom distinct sorted sorted'
  | loadFromBuffer data =>
      rw [stepStore, stepStore, loadFromBuffer_eq]
      exact setEach_same succeed succeed' same (storedBindings data)
  | loadEnvironment environ =>
      have loaded := @loadTexts_same _ { host with environ := environ }
        { host' with environ := environ } m n succeed succeed' same environmentBinding environ
      rw [← loadEnvironmentEntries_eq] at loaded
      exact loaded
  | loadArguments argumentValues =>
      have loaded := loadTexts_same succeed succeed' same argumentBinding (argumentValues.drop 1)
      rw [← loadArgumentsFrom_eq] at loaded
      exact loaded

theorem run_same (succeed : host.StoreCallsSucceed) (succeed' : host'.StoreCallsSucceed)
    (same : SameEntries m n) (valid : m.store.Valid) (operations : List StoreOperation) :
    SameEntries (operations.foldl (stepStore host) m) (operations.foldl (stepStore host') n) := by
  induction operations generalizing m n with
  | nil => exact same
  | cons operation operations ih =>
      apply ih (stepStore_same succeed succeed' same valid.distinct operation)
      exact (stepStore_stores m operation).valid valid

end Steps

section Interchange
variable [BcCore] {host host' reader later later' : Host} {m₀ m₁ n₀ n₁ : Machine}

/-- Two stores of any histories, whatever has failed in them, that are sorted and answer
every lookup alike, asked where the calls of a lookup succeed, hold the same array, and
whatever is done to both from then on, while nothing fails, leaves the same array and the
same answers. -/
theorem sortedStores_interchangeable (created : configStoreCreate host m₀ = (some (), m₁))
    (created' : configStoreCreate host' n₀ = (some (), n₁))
    (history history' : List StoreOperation)
    (sorted : (history.foldl (stepStore host) m₁).store.sorted = true)
    (sorted' : (history'.foldl (stepStore host') n₁).store.sorted = true)
    (core : reader.CoreCallsSucceed)
    (answers : ∀ key, (configStoreLookup key reader (history.foldl (stepStore host) m₁)).1 =
      (configStoreLookup key reader (history'.foldl (stepStore host') n₁)).1)
    (succeed : later.StoreCallsSucceed) (succeed' : later'.StoreCallsSucceed)
    (operations : List StoreOperation) :
    let m := operations.foldl (stepStore later) (history.foldl (stepStore host) m₁)
    let n := operations.foldl (stepStore later') (history'.foldl (stepStore host') n₁)
    m.store.entries = n.store.entries ∧ m.store.sorted = n.store.sorted ∧
      ∀ key, (configStoreLookup key later m).1 = (configStoreLookup key later' n).1 := by
  intro m n
  have valid := (run_stores host m₁ history).valid (configStoreCreate_refines created).valid
  have valid' := (run_stores host' n₁ history').valid (configStoreCreate_refines created').valid
  have content : ∀ key, (history.foldl (stepStore host) m₁).store.content key =
      (history'.foldl (stepStore host') n₁).store.content key := by
    intro key
    obtain ⟨_, run, _⟩ := configStoreLookup_run core valid key
    obtain ⟨_, run', _⟩ := configStoreLookup_run core valid' key
    have answer := answers key
    rw [run, run', if_pos sorted, if_pos sorted'] at answer
    exact answer
  have same : SameEntries m n :=
    run_same succeed succeed' (entries_of_content valid valid' sorted sorted' content) valid
      operations
  refine ⟨same.entries, same.sorted, ?_⟩
  intro key
  obtain ⟨_, run, _⟩ :=
    configStoreLookup_run succeed.core ((run_stores later _ operations).valid valid) key
  obtain ⟨_, run', _⟩ :=
    configStoreLookup_run succeed'.core ((run_stores later' _ operations).valid valid') key
  rw [run, run', same.sorted, same.content]

/-- Two keys set by hand, and the same from a text, with an earlier value in it. -/
def handHistory : List StoreOperation :=
  [.set (.lit "b") (.lit "1"), .set (.lit "a") (.lit "2"), .sort]

def textHistory : List StoreOperation :=
  [.loadFromBuffer (CString.lit "a = 2\nb = 0\nb = 1\n").bytes, .sort]

omit [BcCore] in
theorem sortedStores_interchangeable_text :
    let m := [StoreOperation.append (.lit "b") (.lit "x") 44, .set (.lit "c") (.lit "3")].foldl
      (@stepStore .reference (.obliging [] [])) (handHistory.foldl
        (@stepStore .reference (.obliging [] []))
        (configStoreCreate (.obliging [] []) .initial).2)
    let n := [StoreOperation.append (.lit "b") (.lit "x") 44, .set (.lit "c") (.lit "3")].foldl
      (@stepStore .reference (.obliging [] [])) (textHistory.foldl
        (@stepStore .reference (.obliging [] []))
        (configStoreCreate (.obliging [] []) .initial).2)
    m.store.entries = n.store.entries ∧ m.store.sorted = n.store.sorted ∧
      ∀ key, (@configStoreLookup .reference key (.obliging [] []) m).1 =
        (@configStoreLookup .reference key (.obliging [] []) n).1 := by
  have succeed := Host.obliging_storeCallsSucceed [] []
  have created : configStoreCreate (.obliging [] []) .initial =
      (some (), (configStoreCreate (.obliging [] []) .initial).2) := rfl
  have valid : ∀ operations : List StoreOperation, (operations.foldl
      (@stepStore .reference (.obliging [] []))
      (configStoreCreate (.obliging [] []) .initial).2).store.Valid :=
    fun operations => (@run_stores .reference _ _ operations).valid
      (configStoreCreate_refines created).valid
  have sorted : (handHistory.foldl (@stepStore .reference (.obliging [] []))
      (configStoreCreate (.obliging [] []) .initial).2).store.sorted = true := by decide +kernel
  have sorted' : (textHistory.foldl (@stepStore .reference (.obliging [] []))
      (configStoreCreate (.obliging [] []) .initial).2).store.sorted = true := by decide +kernel
  have entries : (handHistory.foldl (@stepStore .reference (.obliging [] []))
      (configStoreCreate (.obliging [] []) .initial).2).store.entries =
      (textHistory.foldl (@stepStore .reference (.obliging [] []))
        (configStoreCreate (.obliging [] []) .initial).2).store.entries := by decide +kernel
  apply @sortedStores_interchangeable .reference _ _ _ _ _ _ _ _ _ created created handHistory
    textHistory sorted sorted' succeed.core _ succeed succeed
  intro key
  obtain ⟨_, run, _⟩ := @configStoreLookup_run .reference _ succeed.core _ (valid handHistory) key
  obtain ⟨_, run', _⟩ := @configStoreLookup_run .reference _ succeed.core _ (valid textHistory) key
  rw [run, run', sorted, sorted', ConfigStore.content, ConfigStore.content, entries]

end Interchange

end BcRuntime
