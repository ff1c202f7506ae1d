import BcRuntime.Config.StoreSpec
import BcRuntime.Config.StoreSort

/-!
The binary search answers from the content of the store. Its interval argument
is the general one; what is particular is that ascending keys make the sign of
the inlined comparison ascend.
-/

namespace BcRuntime
open Fallible Run

/-- What every store operation keeps: one entry a key, sorted when it says so. -/
structure ConfigStore.Valid (store : ConfigStore) : Prop where
  distinct : store.keys.Nodup
  ascending : store.sorted = true → KeysAscending store.entries

variable [BcCore]

private theorem probe_sign (entries : List ConfigEntry) (key : CString) {i : Nat}
    (inside : i < entries.length) :
    ((entries[i]?.map fun entry => lookupCompare entry key key.length).getD 0) =
      prefixCompare entries[i].key.bytes key.bytes := by
  rw [List.getElem?_eq_getElem inside, Option.map_some, Option.getD_some, lookupCompare_eq]

private theorem probes_ascend {entries : List ConfigEntry} (ascending : KeysAscending entries)
    (key : CString) :
    Bisection.Ascending
      (fun mid => (entries[mid]?.map fun entry => lookupCompare entry key key.length).getD 0)
      entries.length := by
  intro i j le inside
  have before : i < entries.length := by omega
  simp only [probe_sign entries key inside, probe_sign entries key before,
    prefixCompare_neg_iff, prefixCompare_pos_iff]
  have order : entries[i].key.bytes ≤ entries[j].key.bytes := by
    cases Nat.lt_or_eq_of_le le with
    | inl lt => exact List.pairwise_iff_getElem.mp ascending i j before inside lt
    | inr eq => subst eq; exact le_rfl
  exact ⟨fun h => lt_of_le_of_lt order h, fun h => lt_of_lt_of_le h order⟩

/-- On ascending keys, duplicates allowed, the search ends at an entry with the
key or there is none. -/
theorem lookupIndex_spec {entries : List ConfigEntry} (ascending : KeysAscending entries)
    (key : CString) :
    match lookupIndex entries key key.length with
    | some i => ∃ entry, entries[i]? = some entry ∧ entry.key = key
    | none => key ∉ entries.map ConfigEntry.key := by
  cases h : lookupIndex entries key key.length with
  | some i =>
      obtain ⟨zero, -, inside⟩ := Bisection.bisect_eq_some h
      refine ⟨entries[i], List.getElem?_eq_getElem inside, ?_⟩
      rw [probe_sign entries key inside, prefixCompare_eq_zero_iff] at zero
      exact CString.ext zero
  | none =>
      intro present
      obtain ⟨entry, mem, same⟩ := List.mem_map.mp present
      obtain ⟨i, inside, rfl⟩ := List.mem_iff_getElem.mp mem
      refine Bisection.bisect_eq_none (probes_ascend ascending key) (by omega) le_rfl h i
        (Nat.zero_le _) inside ?_
      rw [probe_sign entries key inside, prefixCompare_eq_zero_iff, same]

theorem lookup_finds_content {store : ConfigStore} (valid : store.Valid)
    (sorted : store.sorted = true) (key : CString) :
    ((lookupIndex store.entries key key.length).bind (store.entries[·]?)).map
      ConfigEntry.value = store.content key := by
  have spec := lookupIndex_spec (valid.ascending sorted) key
  simp only [ConfigStore.content]
  cases h : lookupIndex store.entries key key.length with
  | some i =>
      rw [h] at spec
      obtain ⟨entry, cell, same⟩ := spec
      rw [Option.bind_some, cell, ← same]
      rw [KeyedList.find_eq_some_of_mem _ valid.distinct (List.mem_of_getElem? cell)]
  | none =>
      rw [h] at spec
      rw [(KeyedList.find_eq_none_iff _ _ _).mpr spec]
      rfl

section Search
variable {host : Host} {m : Machine}

/-- What the loop of the lookup makes of the entry at `mid`. -/
def lookupSign (entries : List ConfigEntry) (key : CString) (mid : Nat) : Int :=
  (entries[mid]?.map fun entry => lookupCompare entry key key.length).getD 0

/-- One total order for sorting and searching: on entries that the comparator of
the sort has put in order, whether or not their keys are distinct, the search
ends by itself at an entry with the key, or there is none. -/
theorem lookup_searches_order (sorted : m.store.sorted = true)
    (ascending : m.store.entries.Pairwise fun a b => configEntryCompare a b ≤ 0)
    {key : CString} (measured : host.succeeds m.calls (.coreLength key) = true) :
    OrdersKeys configEntryCompare ∧
      (∀ entry other, other.key = key →
        (lookupCompare entry key key.length).sign = (configEntryCompare entry other).sign) ∧
      (∀ turns, m.store.entries.length ≤ turns →
        Bisection.bisect (lookupSign m.store.entries key) turns 0 m.store.entries.length =
          lookupIndex m.store.entries key key.length) ∧
      ((configStoreLookup key host m).1.isSome = true ↔
        ∃ entry ∈ m.store.entries, entry.key = key) ∧
      ∀ value, (configStoreLookup key host m).1 = some value →
        ∃ entry ∈ m.store.entries, entry.key = key ∧ entry.value = value := by
  refine ⟨configEntryCompare_ordersKeys, fun entry other same => ?_, fun turns enough => ?_, ?_⟩
  · subst same
    rw [lookupCompare_eq, configEntryCompare_eq]
  · exact Bisection.bisect_of_enough enough (Nat.le_refl _)
  · have search := lookupIndex_spec ((keysAscending_iff _).mpr ascending) key
    have run : (configStoreLookup key host m).1 =
        ((lookupIndex m.store.entries key key.length).bind (m.store.entries[·]?)).map
          ConfigEntry.value := by
      have length : coreLength key host m =
          (some ⟨BcCore.length key, BcCore.length_eq key⟩, { m with calls := m.calls + 1 }) := by
        rw [coreLength, bind_run, external, if_pos measured]
        rfl
      rw [configStoreLookup, bind_run_of_some (get_run host m), sorted,
        if_neg (by decide : ¬ true = false), bind_run_of_some length]
      simp only [BcCore.length_eq]
      cases (lookupIndex m.store.entries key key.length).bind (m.store.entries[·]?) <;> rfl
    rw [run]
    cases index : lookupIndex m.store.entries key key.length with
    | none =>
        rw [index] at search
        have absent : ¬ ∃ entry ∈ m.store.entries, entry.key = key := by
          rintro ⟨entry, mem, same⟩
          exact search (List.mem_map.mpr ⟨entry, mem, same⟩)
        exact ⟨iff_of_false Bool.false_ne_true absent, fun value found => by cases found⟩
    | some i =>
        rw [index] at search
        obtain ⟨entry, cell, same⟩ := search
        have mem := List.mem_of_getElem? cell
        rw [Option.bind_some, cell]
        exact ⟨⟨fun _ => ⟨entry, mem, same⟩, fun _ => rfl⟩,
          fun value found => ⟨entry, mem, same, Option.some.inj found⟩⟩

/-- Two entries under one key, in order, and one whose key begins with it. -/
def repeatedKeys : Machine :=
  { Machine.initial with
    store :=
      { Machine.initial.store with
        entries := [freshEntry (.lit "a") (.lit "1"), freshEntry (.lit "a") (.lit "2"),
          freshEntry (.lit "ab") (.lit "3")]
        sorted := true } }

omit [BcCore] in
theorem lookup_searches_order_repeated :
    (@configStoreLookup .reference (.lit "a") (.obliging [] []) repeatedKeys).1.isSome = true :=
  (@lookup_searches_order .reference (.obliging [] []) repeatedKeys rfl (by decide) (.lit "a")
    rfl).2.2.2.1.mpr ⟨freshEntry (.lit "a") (.lit "1"), List.mem_cons_self, rfl⟩

end Search

/-- Lookup answers from the content while the store is sorted, and fails otherwise. -/
theorem configStoreLookup_run {host : Host} (core : host.CoreCallsSucceed) {m : Machine}
    (valid : m.store.Valid) (key : CString) :
    ∃ m', configStoreLookup key host m =
      (if m.store.sorted = true then m.store.content key else none, m') ∧ Quiet m m' := by
  have spec : wp (configStoreLookup key)
      (fun value m' => (m.store.sorted = true ∧ m.store.content key = some value) ∧ Quiet m m')
      (fun m' => (m.store.sorted = true → m.store.content key = none) ∧ Quiet m m') host m := by
    simp only [configStoreLookup, wp_bind, wp_get]
    cases sorted : m.store.sorted with
    | false => exact ⟨fun h => absurd h (by decide), .refl m⟩
    | true =>
        simp only [Bool.true_eq_false, if_false, wp_bind]
        refine wp_mono (coreLength_spec host m key) ?_ fun m' failed => absurd core failed.2
        rintro ⟨keyLength, hlength⟩ m₁ quiet
        subst keyLength
        have content := lookup_finds_content valid sorted key
        cases h : (lookupIndex m.store.entries key key.length).bind (m.store.entries[·]?) with
        | some entry =>
            rw [h] at content
            exact ⟨⟨trivial, content.symm⟩, quiet⟩
        | none =>
            rw [h] at content
            exact ⟨fun _ => content.symm, quiet⟩
  cases wp_cases spec with
  | inl found =>
      obtain ⟨value, m', run, ⟨sorted, content⟩, quiet⟩ := found
      exact ⟨m', by rw [run, if_pos sorted, content], quiet⟩
  | inr failed =>
      obtain ⟨m', run, content, quiet⟩ := failed
      refine ⟨m', ?_, quiet⟩
      rw [run]
      by_cases sorted : m.store.sorted = true
      · rw [if_pos sorted, content sorted]
      · rw [if_neg sorted]

end BcRuntime
