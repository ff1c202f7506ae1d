import BcRuntime.Config.Bindings

/-!
The calls outside that a sequence of sets makes when none of them fails, as a
function of the bindings and of the entry array they start from. The sets
succeed exactly on the hosts that grant every one of these calls.
-/

namespace BcRuntime
open Fallible Run

/-- The host lets the calls numbered from `n` on succeed, if they are these. -/
def Granted (host : Host) (n : Nat) (calls : List ExternalCall) : Prop :=
  ∀ i call, calls[i]? = some call → host.succeeds (n + i) call = true

theorem granted_nil (host : Host) (n : Nat) : Granted host n [] := by
  intro i call h
  simp at h

theorem granted_cons_iff {host : Host} {n : Nat} {call : ExternalCall}
    {calls : List ExternalCall} :
    Granted host n (call :: calls) ↔
      host.succeeds n call = true ∧ Granted host (n + 1) calls := by
  constructor
  · intro h
    refine ⟨h 0 call rfl, fun i later cell => ?_⟩
    have granted := h (i + 1) later (by simpa using cell)
    rwa [Nat.add_assoc, Nat.add_comm 1 i]
  · intro h i later cell
    cases i with
    | zero =>
        obtain rfl : call = later := by simpa using cell
        exact h.1
    | succ i =>
        have granted := h.2 i later (by simpa using cell)
        rwa [Nat.add_assoc, Nat.add_comm 1 i] at granted

theorem granted_append_iff {host : Host} {n : Nat} {first second : List ExternalCall} :
    Granted host n (first ++ second) ↔
      Granted host n first ∧ Granted host (n + first.length) second := by
  induction first generalizing n with
  | nil => simp [granted_nil]
  | cons call first ih =>
      simp only [List.cons_append, granted_cons_iff, ih, List.length_cons, and_assoc]
      rw [Nat.add_assoc, Nat.add_comm 1 first.length]

/-- The computation makes these calls, and fails exactly when one is not granted. -/
def Follows {α : Type} (host : Host) (m : Machine) (calls : List ExternalCall) (c : Run α)
    (Q : α → Machine → Prop) : Prop :=
  wp c
    (fun a m' => Granted host m.calls calls ∧ m'.calls = m.calls + calls.length ∧ Q a m')
    (fun _ => ¬ Granted host m.calls calls) host m

section Follows
variable {α β : Type} {host : Host} {m : Machine} {first second calls : List ExternalCall}

theorem Follows.pure {Q : α → Machine → Prop} {a : α} (h : Q a m) :
    Follows host m [] (Pure.pure a) Q := ⟨granted_nil host _, rfl, h⟩

theorem Follows.bind {c : Run β} {f : β → Run α} {P : β → Machine → Prop}
    {Q : α → Machine → Prop} (h : Follows host m first c P)
    (next : ∀ b m', P b m' → Follows host m' second (f b) Q) :
    Follows host m (first ++ second) (c >>= f) Q := by
  rw [Follows, wp_bind]
  refine wp_mono h ?_ fun m' denied all => denied (granted_append_iff.mp all).1
  rintro b m₁ ⟨granted, count, reached⟩
  have rest := next b m₁ reached
  rw [Follows, count] at rest
  refine wp_mono rest ?_ fun m' denied all => denied (granted_append_iff.mp all).2
  rintro a m₂ ⟨granted', count', reached'⟩
  exact ⟨granted_append_iff.mpr ⟨granted, granted'⟩,
    by rw [count', List.length_append, Nat.add_assoc], reached'⟩

theorem Follows.cons {call : ExternalCall} {c : Run β} {f : β → Run α} {P : β → Machine → Prop}
    {Q : α → Machine → Prop} (h : Follows host m [call] c P)
    (next : ∀ b m', P b m' → Follows host m' calls (f b) Q) :
    Follows host m (call :: calls) (c >>= f) Q := h.bind next

theorem Follows.last {c : Run β} {f : β → Run α} {P : β → Machine → Prop}
    {Q : α → Machine → Prop} (h : Follows host m calls c P)
    (next : ∀ b m', P b m' → Follows host m' [] (f b) Q) :
    Follows host m calls (c >>= f) Q := by
  have both := h.bind next
  rwa [List.append_nil] at both

theorem Follows.get {f : Machine → Run α} {Q : α → Machine → Prop}
    (next : Follows host m calls (f m) Q) : Follows host m calls (Fallible.get >>= f) Q := next

theorem Follows.modifyStore {Q : Unit → Machine → Prop} {g : ConfigStore → ConfigStore}
    (h : Q () { m with store := g m.store }) : Follows host m [] (Run.modifyStore g) Q :=
  ⟨granted_nil host _, rfl, h⟩

theorem Follows.mono {c : Run α} {P Q : α → Machine → Prop} (h : Follows host m calls c P)
    (next : ∀ a m', P a m' → Q a m') : Follows host m calls c Q :=
  wp_mono h (fun _ _ reached => ⟨reached.1, reached.2.1, next _ _ reached.2.2⟩) fun _ h => h

theorem Follows.and {c : Run α} {P Q : α → Machine → Prop} {E : Machine → Prop}
    (h : Follows host m calls c P) (spec : wp c Q E host m) :
    Follows host m calls c (fun a m' => P a m' ∧ Q a m') :=
  wp_mono (wp_and h spec) (fun _ _ both => ⟨both.1.1, both.1.2.1, both.1.2.2, both.2⟩)
    fun _ both => both.1

theorem Follows.external (call : ExternalCall) :
    Follows host m [call] (external call)
      (fun id m' => id = m.calls ∧ m' = { m with calls := m.calls + 1 }) := by
  have single : Granted host m.calls [call] ↔ host.succeeds m.calls call = true := by
    simp [granted_cons_iff, granted_nil]
  rw [Follows, wp_external, single]
  exact ⟨fun granted => ⟨granted, rfl, rfl, rfl⟩, fun denied => by simp [denied]⟩

end Follows

/-- The comparisons of the scan: one for each entry with a key of the length,
up to the one with the key. -/
def scanCalls (key : CString) : List ConfigEntry → List ExternalCall
  | [] => []
  | entry :: entries =>
      if entry.keyLength ≠ key.length then scanCalls key entries
      else .coreEqual key.length :: if entry.key = key then [] else scanCalls key entries

def growCalls (count capacity : Nat) : List ExternalCall :=
  if count = capacity then [.poolReallocate (capacity * 2 * configEntrySize)] else []

def setCalls (entries : List ConfigEntry) (capacity : Nat) (binding : Binding) :
    List ExternalCall :=
  .coreLength binding.1 :: (scanCalls binding.1 entries ++
    if binding.1 ∈ entries.map ConfigEntry.key then [.arenaCopyString binding.2]
    else growCalls entries.length capacity ++
      [.arenaCopyString binding.1, .arenaCopyString binding.2])

def entriesAfter (entries : List ConfigEntry) (binding : Binding) : List ConfigEntry :=
  KeyedList.upsert ConfigEntry.key binding.1 (ConfigEntry.changeValue fun _ => binding.2)
    (freshEntry binding.1 binding.2) entries

def capacityAfter (entries : List ConfigEntry) (capacity : Nat) (binding : Binding) : Nat :=
  if binding.1 ∈ entries.map ConfigEntry.key then capacity
  else if entries.length = capacity then capacity * 2 else capacity

def bindingCalls (entries : List ConfigEntry) (capacity : Nat) :
    List Binding → List ExternalCall
  | [] => []
  | binding :: bindings =>
      setCalls entries capacity binding ++
        bindingCalls (entriesAfter entries binding) (capacityAfter entries capacity binding)
          bindings

section Calls
variable [BcCore] (host : Host) (m : Machine)

omit [BcCore] in
theorem external_follows {α : Type} {Q : α → Machine → Prop} (call : ExternalCall)
    (f : Nat → Run α)
    (next : ∀ id, Follows host { m with calls := m.calls + 1 } [] (f id) Q) :
    Follows host m [call] (external call >>= f) Q := by
  refine (Follows.external call).last ?_
  rintro id m' ⟨_, same⟩
  subst same
  exact next id

theorem coreLength_follows (text : CString) :
    Follows host m [.coreLength text] (coreLength text) (fun _ m' => m'.store = m.store) := by
  apply external_follows
  intro _
  exact .pure rfl

omit [BcCore] in
theorem arenaCopyString_follows (text : CString) :
    Follows host m [.arenaCopyString text] (arenaCopyString text)
      (fun _ m' => m'.store = m.store) := by
  apply external_follows
  intro _
  exact .pure rfl

theorem coreEqual_follows (left right : List UInt8) (count : Nat) :
    Follows host m [.coreEqual count] (coreEqual left right count)
      (fun _ m' => m'.store = m.store) := by
  apply external_follows
  intro _
  exact .pure rfl

omit [BcCore] in
theorem growEntries_follows :
    Follows host m (growCalls m.store.entries.length m.store.entryCapacity) growEntries
      (fun _ m' => m'.store.entries = m.store.entries ∧
        m'.store.entryCapacity =
          if m.store.entries.length = m.store.entryCapacity then m.store.entryCapacity * 2
          else m.store.entryCapacity) := by
  simp only [growCalls]
  by_cases full : m.store.entries.length = m.store.entryCapacity
  · simp only [Follows, growEntries, wp_bind, wp_get, full, if_true, poolReallocate, wp_external,
      wp_record, wp_pure, wp_modifyStore, granted_cons_iff]
    exact ⟨fun granted => ⟨⟨granted, granted_nil _ _⟩, rfl, trivial, trivial⟩,
      fun denied all => by simp [denied] at all⟩
  · simp only [Follows, growEntries, wp_bind, wp_get, full, if_false]
    exact ⟨granted_nil _ _, rfl, rfl, rfl⟩

theorem scanEntries_follows (key : CString) (entries : List ConfigEntry) (i : Nat) :
    Follows host m (scanCalls key entries) (scanEntries key key.length entries i)
      (fun _ m' => m'.store = m.store) := by
  induction entries generalizing i m with
  | nil => exact .pure rfl
  | cons entry entries ih =>
      rw [scanEntries, scanCalls]
      by_cases lengths : entry.keyLength ≠ key.length
      · rw [if_pos lengths, if_pos lengths]
        exact ih m (i + 1)
      · rw [if_neg lengths, if_neg lengths]
        have sizes : key.length = entry.key.length := by
          rw [← entry.keyLength_eq]
          exact (not_not.mp lengths).symm
        refine ((coreEqual_follows host m _ _ _).and
          (coreEqual_spec host m sizes rfl)).cons ?_
        rintro equal m₁ ⟨same, _, decides⟩
        cases equal with
        | true =>
            rw [if_pos (decides.mp rfl)]
            exact .pure same
        | false =>
            rw [if_neg fun h => absurd (decides.mpr h) (by decide)]
            exact (ih m₁ (i + 1)).mono fun _ _ same' => same'.trans same

theorem configStoreSet_follows (binding : Binding) :
    Follows host m (setCalls m.store.entries m.store.entryCapacity binding)
      (configStoreSet binding.1 binding.2)
      (fun _ m' => m'.store.entryCapacity =
          capacityAfter m.store.entries m.store.entryCapacity binding ∧
        m'.store.entries = entriesAfter m.store.entries binding) := by
  have capacity : Follows host m (setCalls m.store.entries m.store.entryCapacity binding)
      (configStoreSet binding.1 binding.2)
      (fun _ m' => m'.store.entryCapacity =
        capacityAfter m.store.entries m.store.entryCapacity binding) := by
    simp only [setCalls, configStoreSet, capacityAfter]
    refine ((coreLength_follows host m binding.1)).cons ?_
    rintro ⟨keyLength, hlength⟩ m₁ same₁
    subst keyLength
    apply Follows.get
    rw [← same₁]
    refine ((scanEntries_follows host m₁ binding.1 m₁.store.entries 0).and
      (scanEntries_spec host m₁ binding.1 m₁.store.entries 0)).bind ?_
    rintro found m₂ ⟨same₂, _, result⟩
    cases found with
    | some place =>
        obtain ⟨n, _, _, hfind⟩ := result
        have present : binding.1 ∈ m₁.store.entries.map ConfigEntry.key := by
          rw [← KeyedList.find_key _ hfind]
          exact List.mem_map_of_mem (KeyedList.find_mem _ hfind)
        simp only [present, if_true]
        refine (arenaCopyString_follows host m₂ binding.2).last ?_
        intro _ m₃ same₃
        exact .modifyStore (by rw [same₃, same₂])
    | none =>
        rw [← same₂] at result
        simp only [← same₂, result, if_false]
        refine (growEntries_follows host m₂).bind ?_
        rintro _ m₃ ⟨_, grown⟩
        refine (arenaCopyString_follows host m₃ binding.1).cons ?_
        intro _ m₄ same₄
        refine (arenaCopyString_follows host m₄ binding.2).last ?_
        intro _ m₅ same₅
        exact .modifyStore (by rw [same₅, same₄, grown])
  exact capacity.and (wp_mono (configStoreSet_spec host m binding.1 binding.2)
    (fun _ _ stored => stored.entries) fun _ h => h)

theorem setAll_follows (bindings : List Binding) :
    Follows host m (bindingCalls m.store.entries m.store.entryCapacity bindings)
      (setAll bindings) (fun _ _ => True) := by
  induction bindings generalizing m with
  | nil => exact .pure trivial
  | cons binding bindings ih =>
      refine (configStoreSet_follows host m binding).bind ?_
      rintro _ m₁ ⟨capacity, entries⟩
      rw [← capacity, ← entries]
      exact ih m₁

theorem setAll_succeeds_iff (bindings : List Binding) :
    (setAll bindings host m).1 = some () ↔
      Granted host m.calls (bindingCalls m.store.entries m.store.entryCapacity bindings) := by
  cases wp_cases (setAll_follows host m bindings) with
  | inl set =>
      obtain ⟨_, m', run, granted, _⟩ := set
      simp [run, granted]
  | inr failed =>
      obtain ⟨m', run, denied⟩ := failed
      simp [run, denied]

end Calls

end BcRuntime
