import Mathlib.Data.List.Basic
import Mathlib.Data.List.Nodup
import Mathlib.Data.List.Perm.Basic
import Mathlib.Data.List.TakeDrop

/-!
Lists of records read as finite maps through a key. The first record with a key
is the one that counts, so the results hold without distinctness; distinctness
is what lets the records be rearranged.
-/

namespace KeyedList

variable {ε κ ν : Type*} [DecidableEq κ] (key : ε → κ)

/-- The record that answers for a key. -/
def find (k : κ) (records : List ε) : Option ε := records.find? fun e => key e = k

/-- Change the first record with the key, or add one at the end. -/
def upsert (k : κ) (change : ε → ε) (fresh : ε) : List ε → List ε
  | [] => [fresh]
  | e :: records =>
      if key e = k then change e :: records else e :: upsert k change fresh records

@[simp] theorem find_nil (k : κ) : find key k ([] : List ε) = none := rfl

theorem find_cons (k : κ) (e : ε) (records : List ε) :
    find key k (e :: records) = if key e = k then some e else find key k records := by
  by_cases h : key e = k <;> simp [find, h]

theorem find_key {k : κ} {records : List ε} {e : ε} (h : find key k records = some e) :
    key e = k := by simpa using List.find?_some h

theorem find_mem {k : κ} {records : List ε} {e : ε} (h : find key k records = some e) :
    e ∈ records := List.mem_of_find?_eq_some h

theorem find_eq_none_iff (k : κ) (records : List ε) :
    find key k records = none ↔ k ∉ records.map key := by
  simp [find, List.find?_eq_none]

theorem find_eq_some_of_mem {records : List ε} (distinct : (records.map key).Nodup)
    {e : ε} (h : e ∈ records) : find key (key e) records = some e := by
  induction records with
  | nil => simp at h
  | cons head tail ih =>
      rw [List.map_cons, List.nodup_cons] at distinct
      rw [find_cons]
      cases List.mem_cons.mp h with
      | inl same => simp [same]
      | inr later =>
          have hne : key head ≠ key e :=
            fun same => distinct.1 (same ▸ List.mem_map_of_mem later)
          simp only [hne, if_false]
          exact ih distinct.2 later

/-- With distinct keys a record is found wherever it stands. -/
theorem find_perm {records others : List ε} (distinct : (records.map key).Nodup)
    (perm : records.Perm others) (k : κ) : find key k records = find key k others := by
  have distinct' : (others.map key).Nodup := (perm.map key).nodup_iff.mp distinct
  cases h : find key k records with
  | none =>
      rw [find_eq_none_iff, (perm.map key).mem_iff, ← find_eq_none_iff] at h
      exact h.symm
  | some e =>
      have hkey := find_key key h
      rw [← hkey]
      exact (find_eq_some_of_mem key distinct' (perm.mem_iff.mp (find_mem key h))).symm

variable {key} {k : κ} {change : ε → ε} {fresh : ε}

theorem find_upsert_self (keep : ∀ e, key e = k → key (change e) = k) (new : key fresh = k)
    (records : List ε) :
    find key k (upsert key k change fresh records) =
      some (((find key k records).map change).getD fresh) := by
  induction records with
  | nil => simp [upsert, find_cons, new]
  | cons e records ih =>
      by_cases h : key e = k
      · simp [upsert, find_cons, h, keep e h]
      · simp [upsert, find_cons, h, ih]

theorem find_upsert_of_ne (keep : ∀ e, key e = k → key (change e) = k) (new : key fresh = k)
    {k' : κ} (other : k' ≠ k) (records : List ε) :
    find key k' (upsert key k change fresh records) = find key k' records := by
  induction records with
  | nil => simp [upsert, find_cons, new, other.symm]
  | cons e records ih =>
      by_cases h : key e = k
      · simp [upsert, find_cons, h, keep e h, other.symm]
      · simp [upsert, find_cons, h, ih]

theorem keys_upsert (keep : ∀ e, key e = k → key (change e) = k) (new : key fresh = k)
    (records : List ε) :
    (upsert key k change fresh records).map key =
      if k ∈ records.map key then records.map key else records.map key ++ [k] := by
  induction records with
  | nil => simp [upsert, new]
  | cons e records ih =>
      by_cases h : key e = k
      · simp [upsert, h, keep e h]
      · by_cases later : k ∈ records.map key
        · simp only [upsert, h, if_false, List.map_cons, ih, later, if_true, List.mem_cons,
            or_true]
        · have hne : k ≠ key e := fun same => h same.symm
          simp only [upsert, h, if_false, List.map_cons, ih, later, List.mem_cons, hne,
            or_self, List.cons_append]

theorem nodup_upsert (keep : ∀ e, key e = k → key (change e) = k) (new : key fresh = k)
    {records : List ε} (distinct : (records.map key).Nodup) :
    ((upsert key k change fresh records).map key).Nodup := by
  rw [keys_upsert keep new]
  split
  · exact distinct
  · rename_i absent
    exact List.nodup_append.mpr ⟨distinct, by simp, by
      rintro a ha b hb rfl
      exact absent (List.mem_singleton.mp hb ▸ ha)⟩

/-- Changing the cell at the first index with the key is an upsert. -/
theorem modify_eq_upsert {records : List ε} {i : Nat}
    (first : records.findIdx? (fun e => key e = k) = some i) :
    records.modify i change = upsert key k change fresh records := by
  induction records generalizing i with
  | nil => simp at first
  | cons e records ih =>
      rw [List.findIdx?_cons] at first
      by_cases h : key e = k
      · simp only [h, decide_true, if_true, Option.some.injEq] at first
        subst first
        simp [upsert, h]
      · simp only [h, decide_false, Bool.false_eq_true, if_false, Option.map_eq_some_iff] at first
        obtain ⟨j, hj, rfl⟩ := first
        simp [upsert, h, List.modify_succ_cons, ih hj]

theorem append_eq_upsert {records : List ε} (absent : k ∉ records.map key) :
    records ++ [fresh] = upsert key k change fresh records := by
  induction records with
  | nil => rfl
  | cons e records ih =>
      rw [List.map_cons, List.mem_cons, not_or] at absent
      simp [upsert, Ne.symm absent.1, ih absent.2]

end KeyedList
