import BcRuntime.Config.Store
import BcRuntime.Foundation.KeyedList

/-!
What one store operation can do, for every outcome of the calls it makes. A
successful upsert changes the entries as a keyed list and clears the sorted flag
exactly when the key is new; a failed one leaves entries and flag alone, and
fails only because some call outside failed.
-/

namespace BcRuntime
open Fallible Run

/-- The arrays and the error stream of the command-line parser are not touched. -/
structure SameOutput (m m' : Machine) : Prop where
  writes : m'.bufferWrites = m.bufferWrites
  errors : m'.errorOutput = m.errorOutput

/-- The contents of the store are not touched; its block may have moved. -/
structure Untouched (m m' : Machine) : Prop extends SameOutput m m' where
  entries : m'.store.entries = m.store.entries
  sorted : m'.store.sorted = m.store.sorted

/-- Neither is anything else of the store. -/
structure Quiet (m m' : Machine) : Prop extends SameOutput m m' where
  store : m'.store = m.store

theorem SameOutput.refl (m : Machine) : SameOutput m m := ⟨rfl, rfl⟩

theorem SameOutput.trans {m m' m'' : Machine} (h : SameOutput m m') (h' : SameOutput m' m'') :
    SameOutput m m'' := ⟨h'.writes.trans h.writes, h'.errors.trans h.errors⟩

theorem Untouched.refl (m : Machine) : Untouched m m := ⟨.refl m, rfl, rfl⟩

theorem Untouched.trans {m m' m'' : Machine} (h : Untouched m m') (h' : Untouched m' m'') :
    Untouched m m'' :=
  ⟨h.toSameOutput.trans h'.toSameOutput, h'.entries.trans h.entries, h'.sorted.trans h.sorted⟩

theorem Quiet.refl (m : Machine) : Quiet m m := ⟨.refl m, rfl⟩

theorem Quiet.trans {m m' m'' : Machine} (h : Quiet m m') (h' : Quiet m' m'') : Quiet m m'' :=
  ⟨h.toSameOutput.trans h'.toSameOutput, h'.store.trans h.store⟩

theorem Quiet.untouched {m m' : Machine} (h : Quiet m m') : Untouched m m' :=
  ⟨h.toSameOutput, by rw [h.store], by rw [h.store]⟩

/-- A store operation that failed: nothing changed, and some call outside failed. -/
structure Refused (host : Host) (m m' : Machine) : Prop extends Untouched m m' where
  failure : ¬ host.StoreCallsSucceed

/-- The value stored for a key: the abstract content of the store. -/
def ConfigStore.content (store : ConfigStore) (key : CString) : Option CString :=
  (KeyedList.find ConfigEntry.key key store.entries).map ConfigEntry.value

def freshEntry (key value : CString) : ConfigEntry := ⟨key, key.length, value, rfl⟩

def ConfigEntry.changeValue (change : CString → CString) (entry : ConfigEntry) : ConfigEntry :=
  { entry with value := change entry.value }

theorem changeValue_keeps (change : CString → CString) (key : CString)
    (entry : ConfigEntry) (h : entry.key = key) : (entry.changeValue change).key = key := h

/-- The entry of `key` has its value changed, or is added with `fresh`. -/
structure Upserted (key : CString) (change : CString → CString) (fresh : CString)
    (m m' : Machine) : Prop extends SameOutput m m' where
  entries : m'.store.entries =
    KeyedList.upsert ConfigEntry.key key (ConfigEntry.changeValue change)
      (freshEntry key fresh) m.store.entries
  sorted : m'.store.sorted = (m.store.sorted && decide (key ∈ m.store.keys))

/-- `existing`, the separator and `value`, as the arena copies them. -/
def joined (existing : CString) (separator : UInt8) (value : CString) : CString :=
  CString.ofBuffer (existing.bytes ++ separator :: value.bytes)

namespace Upserted
variable {key fresh : CString} {change : CString → CString} {m m' : Machine}

theorem content (h : Upserted key change fresh m m') (k : CString) :
    m'.store.content k =
      if k = key then some (((m.store.content key).map change).getD fresh)
      else m.store.content k := by
  simp only [ConfigStore.content]
  rw [h.entries]
  split
  · rename_i same
    subst same
    rw [KeyedList.find_upsert_self (changeValue_keeps change k) rfl]
    cases KeyedList.find ConfigEntry.key k m.store.entries <;> rfl
  · rename_i other
    rw [KeyedList.find_upsert_of_ne (changeValue_keeps change key) rfl other]

theorem of_untouched {m₀ : Machine} (h : Untouched m₀ m)
    (h' : Upserted key change fresh m m') : Upserted key change fresh m₀ m' where
  toSameOutput := h.toSameOutput.trans h'.toSameOutput
  entries := by rw [h'.entries, h.entries]
  sorted := by rw [h'.sorted, h.sorted, ConfigStore.keys, ConfigStore.keys, h.entries]

theorem keys (h : Upserted key change fresh m m') :
    m'.store.keys = if key ∈ m.store.keys then m.store.keys else m.store.keys ++ [key] := by
  simp only [ConfigStore.keys]
  rw [h.entries]
  exact KeyedList.keys_upsert (changeValue_keeps change key) rfl _

end Upserted

theorem mem_keys_iff_content (store : ConfigStore) (key : CString) :
    key ∈ store.keys ↔ (store.content key).isSome := by
  rw [ConfigStore.content, Option.isSome_map, ConfigStore.keys, Option.isSome_iff_ne_none, ne_eq,
    KeyedList.find_eq_none_iff, not_not]

section Spec
variable (host : Host) (m : Machine)

/-- A step of a store operation that has changed nothing so far. -/
theorem wp_refusing {α : Type} {c : Run α} {Q Q' : α → Machine → Prop} {host : Host}
    {m₀ m : Machine} (before : Untouched m₀ m) (h : wp c Q' (Refused host m) host m)
    (next : ∀ a m', Q' a m' → Q a m') : wp c Q (Refused host m₀) host m :=
  wp_mono h next fun _ refused => ⟨before.trans refused.toUntouched, refused.failure⟩

theorem wp_refusing_core {α : Type} {c : Run α} {Q Q' : α → Machine → Prop} {host : Host}
    {m₀ m : Machine} (before : Untouched m₀ m)
    (h : wp c Q' (fun m' => Quiet m m' ∧ ¬ host.CoreCallsSucceed) host m)
    (next : ∀ a m', Q' a m' → Q a m') : wp c Q (Refused host m₀) host m :=
  wp_mono h next fun _ failed =>
    ⟨before.trans failed.1.untouched, fun all => failed.2 all.core⟩

theorem arenaCopyString_spec (text : CString) :
    wp (arenaCopyString text) (fun _ m' => Quiet m m') (Refused host m) host m := by
  simp only [arenaCopyString, wp_bind, wp_external, wp_pure]
  refine ⟨fun _ => ⟨⟨rfl, rfl⟩, rfl⟩, fun failed => ⟨⟨⟨rfl, rfl⟩, rfl, rfl⟩, fun all => ?_⟩⟩
  simp [all m.calls (.arenaCopyString text) rfl] at failed

theorem poolAllocate_spec (size : Nat) :
    wp (poolAllocate size) (fun _ m' => Quiet m m') (Refused host m) host m := by
  simp only [poolAllocate, acquire, wp_bind, wp_external, wp_record, wp_pure]
  refine ⟨fun _ => ⟨⟨rfl, rfl⟩, rfl⟩, fun failed => ⟨⟨⟨rfl, rfl⟩, rfl, rfl⟩, fun all => ?_⟩⟩
  simp [all m.calls (.poolAllocate size) rfl] at failed

theorem release_spec (resource : Resource) :
    wp (release resource) (fun _ m' => Quiet m m') (fun _ => False) host m :=
  (wp_release _ _).mpr ⟨⟨rfl, rfl⟩, rfl⟩

theorem growEntries_spec :
    wp growEntries (fun _ m' => Untouched m m') (Refused host m) host m := by
  simp only [growEntries, wp_bind, wp_get]
  by_cases full : m.store.entries.length = m.store.entryCapacity
  · simp only [full, if_true, poolReallocate, wp_bind, wp_external, wp_record, wp_pure,
      wp_modifyStore]
    refine ⟨fun _ => ⟨⟨rfl, rfl⟩, rfl, rfl⟩, fun failed => ⟨⟨⟨rfl, rfl⟩, rfl, rfl⟩, fun all => ?_⟩⟩
    simp [all m.calls (.poolReallocate _) rfl] at failed
  · rw [if_neg full]
    exact Untouched.refl m

theorem assignValue_spec {key : CString} {entry : ConfigEntry} {i : Nat}
    (change : CString → CString) (fresh : CString)
    (index : m.store.entries.findIdx? (fun e => e.key = key) = some i)
    (hfind : KeyedList.find ConfigEntry.key key m.store.entries = some entry) :
    wp (assignValue i (change entry.value)) (fun _ m' => Upserted key change fresh m m')
      (fun _ => False) host m := by
  simp only [assignValue, wp_modifyStore]
  have present : key ∈ m.store.keys := by
    rw [mem_keys_iff_content, ConfigStore.content, hfind]
    rfl
  refine ⟨⟨rfl, rfl⟩, ?_, by simp [present]⟩
  rw [← KeyedList.modify_eq_upsert index]
  -- the cell at the index is the entry found, so the two changes agree on it
  refine List.ext_getElem? fun j => ?_
  rw [List.getElem?_modify, List.getElem?_modify]
  by_cases same : i = j
  · subst same
    have cell : m.store.entries[i]? = some entry := by
      rw [← hfind, KeyedList.find, List.find?_eq_bind_findIdx?_getElem?, index, Option.bind_some]
    simp [cell, ConfigEntry.changeValue]
  · simp [same]

variable [BcCore]

theorem coreLength_spec (text : CString) :
    wp (coreLength text) (fun _ m' => Quiet m m')
      (fun m' => Quiet m m' ∧ ¬ host.CoreCallsSucceed) host m := by
  simp only [coreLength, wp_bind, wp_external, wp_pure]
  refine ⟨fun _ => ⟨⟨rfl, rfl⟩, rfl⟩, fun failed => ⟨⟨⟨rfl, rfl⟩, rfl⟩, fun all => ?_⟩⟩
  simp [(all m.calls).1 text] at failed

theorem coreEqual_spec {left right : CString} {count : Nat} (hl : count = left.length)
    (hr : count = right.length) :
    wp (coreEqual left.bytes right.bytes count)
      (fun equal m' => Quiet m m' ∧ (equal = true ↔ left = right))
      (fun m' => Quiet m m' ∧ ¬ host.CoreCallsSucceed) host m := by
  simp only [coreEqual, wp_bind, wp_external, wp_pure]
  refine ⟨fun _ => ⟨⟨⟨rfl, rfl⟩, rfl⟩, ?_⟩,
    fun failed => ⟨⟨⟨rfl, rfl⟩, rfl⟩, fun all => ?_⟩⟩
  · rw [BcCore.equal_iff _ _ _ (le_of_eq hl) (le_of_eq hr), List.take_of_length_le (ge_of_eq hl),
      List.take_of_length_le (ge_of_eq hr), CString.ext_iff]
  · simp [(all m.calls).2 count] at failed

theorem scanEntries_spec (key : CString) (entries : List ConfigEntry) (i : Nat) :
    wp (scanEntries key key.length entries i)
      (fun found m' => Quiet m m' ∧
        match found with
        | none => key ∉ entries.map ConfigEntry.key
        | some (j, entry) => ∃ n, j = i + n ∧
            entries.findIdx? (fun e => e.key = key) = some n ∧
            KeyedList.find ConfigEntry.key key entries = some entry)
      (fun m' => Quiet m m' ∧ ¬ host.CoreCallsSucceed) host m := by
  induction entries generalizing i m with
  | nil => exact ⟨.refl m, by simp⟩
  | cons entry entries ih =>
      -- past an entry with another key the rest of the scan decides
      have skip : entry.key ≠ key → ∀ m', Quiet m m' →
          wp (scanEntries key key.length entries (i + 1))
            (fun found m' => Quiet m m' ∧
              match found with
              | none => key ∉ (entry :: entries).map ConfigEntry.key
              | some (j, found) => ∃ n, j = i + n ∧
                  (entry :: entries).findIdx? (fun e => e.key = key) = some n ∧
                  KeyedList.find ConfigEntry.key key (entry :: entries) = some found)
            (fun m' => Quiet m m' ∧ ¬ host.CoreCallsSucceed) host m' := by
        intro other m' quiet
        refine wp_mono (ih m' (i + 1)) ?_ fun m'' h => ⟨quiet.trans h.1, h.2⟩
        rintro (_ | ⟨j, found⟩) m'' ⟨quiet', result⟩
        · exact ⟨quiet.trans quiet', by simpa [Ne.symm other] using result⟩
        · obtain ⟨n, hj, index, hfind⟩ := result
          refine ⟨quiet.trans quiet', n + 1, by omega, ?_, ?_⟩
          · simp [List.findIdx?_cons, other, index]
          · simp [KeyedList.find_cons, other, hfind]
      rw [scanEntries]
      by_cases lengths : entry.keyLength ≠ key.length
      · rw [if_pos lengths]
        refine skip (fun same => lengths ?_) m (.refl m)
        rw [entry.keyLength_eq, same]
      · rw [if_neg lengths, wp_bind]
        rw [ne_eq, not_not] at lengths
        refine wp_mono (coreEqual_spec host m (lengths.symm.trans entry.keyLength_eq) rfl) ?_
          fun _ h => h
        rintro equal m' ⟨quiet, decides⟩
        cases equal with
        | true =>
            have same : entry.key = key := decides.mp rfl
            exact ⟨quiet, 0, rfl, by simp [List.findIdx?_cons, same],
              by simp [KeyedList.find_cons, same]⟩
        | false =>
            refine skip (fun same => ?_) m' quiet
            exact absurd (decides.mpr same) (by decide)

theorem configStoreSet_spec (key value : CString) :
    wp (configStoreSet key value) (fun _ m' => Upserted key (fun _ => value) value m m')
      (Refused host m) host m := by
  simp only [configStoreSet, wp_bind, wp_get]
  refine wp_refusing_core (.refl m) (coreLength_spec host m key) ?_
  rintro ⟨keyLength, hlength⟩ m₁ quiet₁
  subst keyLength
  refine wp_refusing_core quiet₁.untouched
    (scanEntries_spec host m₁ key m₁.store.entries 0) ?_
  rintro (_ | ⟨i, entry⟩) m₂ ⟨quiet₂, result⟩
  · have same₂ : Untouched m m₂ := (quiet₁.trans quiet₂).untouched
    simp only [wp_bind, wp_modifyStore]
    refine wp_refusing same₂ (growEntries_spec host m₂) ?_
    intro _ m₃ grown
    have same₃ := same₂.trans grown
    refine wp_refusing same₃ (arenaCopyString_spec host m₃ key) ?_
    rintro ⟨copiedKey, hkey⟩ m₄ quiet₄
    subst copiedKey
    have same₄ := same₃.trans quiet₄.untouched
    refine wp_refusing same₄ (arenaCopyString_spec host m₄ value) ?_
    rintro ⟨copiedValue, hvalue⟩ m₅ quiet₅
    subst copiedValue
    have same₅ := same₄.trans quiet₅.untouched
    have absent : key ∉ m₅.store.keys := by
      rw [ConfigStore.keys, same₅.entries]
      rwa [quiet₁.store] at result
    refine .of_untouched same₅ ⟨⟨rfl, rfl⟩, ?_, by simp [absent]⟩
    rw [← KeyedList.append_eq_upsert absent]
    rfl
  · obtain ⟨n, hn, index, hfind⟩ := result
    rw [Nat.zero_add] at hn
    subst hn
    simp only [wp_bind]
    have quiet := quiet₁.trans quiet₂
    refine wp_refusing quiet.untouched (arenaCopyString_spec host m₂ value) ?_
    rintro ⟨copiedValue, hvalue⟩ m₃ quiet₃
    subst copiedValue
    rw [← (quiet₂.trans quiet₃).store] at index hfind
    refine wp_mono (assignValue_spec host m₃ (fun _ => value) value index hfind) ?_
      fun _ h => h.elim
    exact fun _ m' h => .of_untouched (quiet.trans quiet₃).untouched h

theorem configStoreAppend_spec (key value : CString) (separator : UInt8) :
    wp (configStoreAppend key value separator)
      (fun _ m' => Upserted key (joined · separator value) value m m')
      (Refused host m) host m := by
  simp only [configStoreAppend, wp_bind, wp_get]
  refine wp_refusing_core (.refl m) (coreLength_spec host m key) ?_
  rintro ⟨keyLength, hlength⟩ m₁ quiet₁
  subst keyLength
  refine wp_refusing_core quiet₁.untouched (coreLength_spec host m₁ value) ?_
  rintro ⟨valueLength, hlength⟩ m₂ quiet₂
  subst valueLength
  have quiet₁₂ := quiet₁.trans quiet₂
  refine wp_refusing_core quiet₁₂.untouched
    (scanEntries_spec host m₂ key m₂.store.entries 0) ?_
  rintro (_ | ⟨i, entry⟩) m₃ ⟨quiet₃, result⟩
  · have same₃ := (quiet₁₂.trans quiet₃).untouched
    refine wp_refusing same₃ (configStoreSet_spec host m₃ key value) ?_
    intro _ m' stored
    refine .of_untouched same₃ ⟨stored.toSameOutput, ?_, stored.sorted⟩
    rw [← quiet₃.store] at result
    rw [stored.entries, ← KeyedList.append_eq_upsert result, ← KeyedList.append_eq_upsert result]
  · obtain ⟨n, hn, index, hfind⟩ := result
    rw [Nat.zero_add] at hn
    subst hn
    simp only [wp_bind, wp_onFailure]
    have quiet := quiet₁₂.trans quiet₃
    refine wp_refusing_core quiet.untouched (coreLength_spec host m₃ entry.value) ?_
    rintro ⟨existingLength, hlength⟩ m₄ quiet₄
    refine wp_refusing (quiet.trans quiet₄).untouched (poolAllocate_spec host m₄ _) ?_
    intro combinedBlock m₅ quiet₅
    have quiet' := (quiet.trans quiet₄).trans quiet₅
    refine wp_mono (arenaCopyString_spec host m₅ _) ?_ fun m' refused => ?_
    · rintro ⟨copiedValue, hvalue⟩ m₆ quiet₆
      subst copiedValue
      refine wp_mono (release_spec host m₆ combinedBlock) ?_ fun _ h => h.elim
      intro _ m₇ quiet₇
      have later := (quiet₄.trans quiet₅).trans (quiet₆.trans quiet₇)
      rw [← (quiet₃.trans later).store] at index hfind
      refine wp_mono (assignValue_spec host m₇ (joined · separator value) value index hfind) ?_
        fun _ h => h.elim
      exact fun _ m' h => .of_untouched (quiet.trans later).untouched h
    · refine wp_mono (release_spec host m' combinedBlock) ?_ fun _ h => h.elim
      intro _ m'' released
      exact ⟨(quiet'.untouched.trans refused.toUntouched).trans released.untouched,
        refused.failure⟩

end Spec

end BcRuntime
