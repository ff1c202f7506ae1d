import BcRuntime.Config.StoreRefinement

/-!
The sort with every step checked. An access past the end of the entries or of the
temporary buffer, a cell copied back that the pass has not written and a loop that
has not ended when its turns are used up all make it give nothing; it gives what
the sort gives, for every array, and that is the stable sort of the entries.
-/

namespace BcRuntime
open Fallible Run Splice RunMerging

def writeCell (temp : Cells) (index : Nat) (entry : ConfigEntry) : Option Cells :=
  if index < temp.length then some (temp.set index (some entry)) else none

/-- `copyCells` with its accesses checked. -/
def checkedCopy (entries : List ConfigEntry) : Nat → Nat → Nat → Cells → Option Cells
  | 0, _, _, temp => some temp
  | count + 1, index, write, temp => do
      let entry ← entries[index]?
      let temp ← writeCell temp write entry
      checkedCopy entries count (index + 1) (write + 1) temp

section Checked
variable [BcCore]

/-- `mergeHeads` with its accesses and its turns checked. -/
def checkedHeads (entries : List ConfigEntry) (rightStart rightEnd : Nat) :
    Nat → Nat → Nat → Nat → Cells → Option (Nat × Nat × Nat × Cells)
  | 0, left, right, write, temp =>
      if left < rightStart ∧ right < rightEnd then none else some (left, right, write, temp)
  | n + 1, left, right, write, temp =>
      if left < rightStart ∧ right < rightEnd then do
        let a ← entries[left]?
        let b ← entries[right]?
        if configEntryCompare a b ≤ 0 then do
          let temp ← writeCell temp write a
          checkedHeads entries rightStart rightEnd n (left + 1) right (write + 1) temp
        else do
          let temp ← writeCell temp write b
          checkedHeads entries rightStart rightEnd n left (right + 1) (write + 1) temp
      else some (left, right, write, temp)

def checkedMerge (entries : List ConfigEntry) (temp : Cells)
    (leftStart rightStart rightEnd : Nat) : Option Cells := do
  let (left, right, write, temp) ← checkedHeads entries rightStart rightEnd
    (rightEnd - leftStart) leftStart rightStart leftStart temp
  let temp ← checkedCopy entries (rightStart - left) left write temp
  checkedCopy entries (rightEnd - right) right (write + (rightStart - left)) temp

def checkedPass (entries : List ConfigEntry) (width : Nat) : Nat → Nat → Cells → Option Cells
  | 0, i, temp => if i < entries.length then none else some temp
  | n + 1, i, temp =>
      if i < entries.length then do
        let rightStart := min (i + width) entries.length
        let rightEnd := min (i + 2 * width) entries.length
        let temp ← checkedMerge entries temp i rightStart rightEnd
        checkedPass entries width n (i + 2 * width) temp
      else some temp

/-- The cells as entries, if all of them have been written. -/
def writtenCells : Cells → Option (List ConfigEntry)
  | [] => some []
  | cell :: temp => do
      let entry ← cell
      let rest ← writtenCells temp
      pure (entry :: rest)

def checkedPasses : Nat → Nat → List ConfigEntry → Option (List ConfigEntry)
  | 0, width, entries => if width < entries.length then none else some entries
  | n + 1, width, entries =>
      if width < entries.length then do
        let temp ← checkedPass entries width entries.length 0
          (List.replicate entries.length none)
        let copied ← writtenCells temp
        checkedPasses n (width * 2) copied
      else some entries

end Checked

section Refinement
variable (entries : List ConfigEntry)

theorem writeCell_inside {temp : Cells} {index : Nat} (inside : index < temp.length)
    (entry : ConfigEntry) : writeCell temp index entry = some (temp.set index (some entry)) :=
  if_pos inside

theorem checkedCopy_eq (index stop write : Nat) (temp : Cells) (bound : stop ≤ entries.length)
    (room : write + (stop - index) ≤ temp.length) :
    checkedCopy entries (stop - index) index write temp =
      some (copyCells entries (stop - index) index write temp) := by
  induction h : stop - index generalizing index write temp with
  | zero => rfl
  | succ count ih =>
      have cell : entries[index]? = some entries[index] := List.getElem?_eq_getElem (by omega)
      have rest := ih (index + 1) (write + 1) (temp.set write (some entries[index]))
        (by rw [List.length_set]; omega) (by omega)
      simp only [checkedCopy, copyCells, cell, Option.bind_eq_bind, Option.bind_some,
        writeCell_inside (show write < temp.length by omega), rest]

theorem length_copyCells (count index write : Nat) (temp : Cells) :
    (copyCells entries count index write temp).length = temp.length := by
  induction count generalizing index write temp with
  | zero => rfl
  | succ count ih => rw [copyCells, ih, List.length_set]

theorem writtenCells_map (written : List ConfigEntry) :
    writtenCells (written.map some) = some written := by
  induction written with
  | nil => rfl
  | cons entry written ih => rw [List.map_cons, writtenCells, ih]; rfl

variable [BcCore]

/-- The first loop of the merge makes the same steps, keeps in bounds, and leaves
room for what the copying loops have still to write. -/
theorem checkedHeads_eq {rightStart rightEnd : Nat} (leftBound : rightStart ≤ entries.length)
    (rightBound : rightEnd ≤ entries.length) (n left right write : Nat) (temp : Cells)
    (enough : (rightStart - left) + (rightEnd - right) ≤ n)
    (room : write + (rightStart - left) + (rightEnd - right) ≤ temp.length) :
    ∃ left' right' write' temp',
      mergeHeads entries rightStart rightEnd n left right write temp =
          (left', right', write', temp') ∧
        checkedHeads entries rightStart rightEnd n left right write temp =
          some (left', right', write', temp') ∧
        write' + (rightStart - left') + (rightEnd - right') ≤ temp'.length ∧
        temp'.length = temp.length := by
  induction n generalizing left right write temp with
  | zero =>
      have stop : ¬ (left < rightStart ∧ right < rightEnd) := by omega
      exact ⟨left, right, write, temp, rfl, if_neg stop, room, rfl⟩
  | succ n ih =>
      by_cases more : left < rightStart ∧ right < rightEnd
      · have ha : entries[left]? = some entries[left] := List.getElem?_eq_getElem (by omega)
        have hb : entries[right]? = some entries[right] := List.getElem?_eq_getElem (by omega)
        rw [mergeHeads, checkedHeads, if_pos more, if_pos more, ha, hb]
        simp only [Option.bind_eq_bind, Option.bind_some]
        rw [writeCell_inside (by omega), writeCell_inside (by omega)]
        simp only [Option.bind_some]
        by_cases first : configEntryCompare entries[left] entries[right] ≤ 0
        · rw [if_pos first, if_pos first]
          obtain ⟨left', right', write', temp', same, checked, rest, len⟩ :=
            ih (left + 1) right (write + 1) (temp.set write (some entries[left])) (by omega)
              (by rw [List.length_set]; omega)
          exact ⟨left', right', write', temp', same, checked, rest, len.trans List.length_set⟩
        · rw [if_neg first, if_neg first]
          obtain ⟨left', right', write', temp', same, checked, rest, len⟩ :=
            ih left (right + 1) (write + 1) (temp.set write (some entries[right])) (by omega)
              (by rw [List.length_set]; omega)
          exact ⟨left', right', write', temp', same, checked, rest, len.trans List.length_set⟩
      · rw [mergeHeads, checkedHeads, if_neg more, if_neg more]
        exact ⟨left, right, write, temp, rfl, rfl, room, rfl⟩

theorem checkedMerge_eq {leftStart rightStart rightEnd : Nat} (temp : Cells)
    (left : leftStart ≤ rightStart) (right : rightStart ≤ rightEnd)
    (bound : rightEnd ≤ entries.length) (room : rightEnd ≤ temp.length) :
    checkedMerge entries temp leftStart rightStart rightEnd =
        some (mergeEntries entries temp leftStart rightStart rightEnd) ∧
      (mergeEntries entries temp leftStart rightStart rightEnd).length = temp.length := by
  obtain ⟨left', right', write', temp', same, checked, rest, len⟩ :=
    checkedHeads_eq entries (right.trans bound) bound (rightEnd - leftStart) leftStart rightStart
      leftStart temp (by omega) (by omega)
  rw [checkedMerge, checked, mergeEntries, mergeFrom, same]
  simp only [Option.bind_eq_bind, Option.bind_some]
  rw [checkedCopy_eq entries _ _ _ _ (right.trans bound) (by omega)]
  simp only [Option.bind_some]
  rw [checkedCopy_eq entries _ _ _ _ bound (by rw [length_copyCells]; omega)]
  exact ⟨rfl, by rw [length_copyCells, length_copyCells, len]⟩

theorem checkedPass_eq {width : Nat} (pos : 0 < width) (n i : Nat) (temp : Cells)
    (len : temp.length = entries.length) (enough : entries.length ≤ i + n) :
    checkedPass entries width n i temp = some (sortPass entries width n i temp) := by
  induction n generalizing i temp with
  | zero => exact if_neg (by omega)
  | succ n ih =>
      rw [checkedPass, sortPass]
      by_cases more : i < entries.length
      · obtain ⟨checked, same⟩ := checkedMerge_eq entries temp
          (show i ≤ min (i + width) entries.length by omega)
          (show _ ≤ min (i + 2 * width) entries.length by omega) (by omega) (by omega)
        rw [if_pos more, if_pos more]
        simp only [checked, Option.bind_eq_bind, Option.bind_some]
        exact ih _ _ (same.trans len) (by omega)
      · rw [if_neg more, if_neg more]

/-- The passes write every cell that they copy back, and their loop ends by itself. -/
theorem checkedPasses_eq {n width : Nat} (pos : 0 < width)
    (enough : entries.length ≤ width * 2 ^ n) :
    checkedPasses n width entries = some (sortPasses n width entries) := by
  induction n generalizing width entries with
  | zero =>
      have stop : ¬ width < entries.length := by
        rw [pow_zero, mul_one] at enough
        exact not_lt.mpr enough
      exact if_neg stop
  | succ n ih =>
      rw [checkedPasses, sortPasses]
      by_cases more : width < entries.length
      · have size : (List.replicate entries.length (none : Option ConfigEntry)).length =
            entries.length := List.length_replicate
        have filled := sortPass_eq entries pos entries.length 0 _ size (Nat.le_add_left _ _)
        rw [List.take_zero, List.nil_append, List.drop_zero] at filled
        rw [if_pos more, if_pos more, checkedPass_eq entries pos _ _ _ size (Nat.le_add_left _ _)]
        have copied : ((mergePass entryLe width entries).map some).reduceOption =
            mergePass entryLe width entries := by simp [List.reduceOption]
        simp only [filled, Option.bind_eq_bind, Option.bind_some, writtenCells_map, copied]
        refine ih _ (by omega) ?_
        rw [mergePass_length]
        calc entries.length ≤ width * 2 ^ (n + 1) := enough
          _ = width * 2 * 2 ^ n := by ring
      · rw [if_neg more, if_neg more]

end Refinement

section Sorting
variable [BcCore] {host : Host} {m : Machine}

theorem sortPasses_of_short {entries : List ConfigEntry} (short : entries.length ≤ 1) :
    sortPasses entries.length 1 entries = entries := by
  cases entries with
  | nil => rfl
  | cons entry rest => exact if_neg (not_lt.mpr short)

theorem sortPasses_stable (entries : List ConfigEntry) (key : CString) :
    (sortPasses entries.length 1 entries).filter (fun entry => entry.key = key) =
      entries.filter fun entry => entry.key = key := by
  rw [sortPasses_eq _ _ Nat.one_pos]
  refine filter_mergePasses entryLe_trans (fun a b ha hb => ?_) entryLe_total Nat.one_pos
    (runsSorted_one entryLe entries)
  rw [entryLe_iff, of_decide_eq_true ha, of_decide_eq_true hb]

/-- The sort is a stable sort for every array of entries. It ends, it keeps within
the entries, and every pass writes every cell it copies back. -/
theorem configStoreSort_stable
    (allocated : 1 < m.store.entries.length →
      host.succeeds m.calls (.poolAllocate (m.store.entries.length * configEntrySize)) = true) :
    ∃ m', configStoreSort host m = (some (), m') ∧ m'.store.sorted = true ∧
      checkedPasses m.store.entries.length 1 m.store.entries = some m'.store.entries ∧
      m'.store.entries.Perm m.store.entries ∧
      m'.store.entries.Pairwise (fun a b => configEntryCompare a b ≤ 0) ∧
      ∀ key, m'.store.entries.filter (fun entry => entry.key = key) =
        m.store.entries.filter fun entry => entry.key = key := by
  have checked : checkedPasses m.store.entries.length 1 m.store.entries =
      some (sortPasses m.store.entries.length 1 m.store.entries) := by
    refine checkedPasses_eq _ Nat.one_pos ?_
    rw [one_mul]
    exact Nat.le_of_lt Nat.lt_two_pow_self
  obtain ⟨perm, ascending⟩ := sortPasses_sorts m.store.entries
  have ordered : (sortPasses m.store.entries.length 1 m.store.entries).Pairwise
      (fun a b => configEntryCompare a b ≤ 0) := by
    refine ascending.imp fun le => ?_
    exact of_decide_eq_true ((entryLe_iff _ _).mpr le)
  have sorts : wp configStoreSort (fun _ m' => m'.store.sorted = true ∧
      m'.store.entries = sortPasses m.store.entries.length 1 m.store.entries)
      (fun _ => False) host m := by
    simp only [configStoreSort, wp_bind, wp_get]
    by_cases short : m.store.entries.length ≤ 1
    · rw [if_pos short, wp_modifyStore]
      exact ⟨rfl, (sortPasses_of_short short).symm⟩
    · rw [if_neg short]
      simp only [poolAllocate, acquire, wp_bind, wp_external, wp_record, wp_pure, wp_modifyStore,
        wp_release, allocated (not_le.mp short)]
      exact ⟨fun _ => ⟨trivial, trivial⟩, fun denied => absurd denied (by decide)⟩
  obtain ⟨_, m', run, sorted, entries⟩ := exists_run_of_wp sorts
  rw [← entries] at checked perm ordered
  refine ⟨m', run, sorted, checked, perm, ordered, fun key => ?_⟩
  rw [entries]
  exact sortPasses_stable m.store.entries key

/-- Two entries under one key and one whose key begins with it. -/
def duplicatesMachine : Machine :=
  { Machine.initial with
    store :=
      { Machine.initial.store with
        entries := [freshEntry (.lit "ab") (.lit "1"), freshEntry (.lit "a") (.lit "2"),
          freshEntry (.lit "a") (.lit "3")] } }

omit [BcCore] in
theorem configStoreSort_stable_duplicates :
    ∃ m', @configStoreSort .reference (.obliging [] []) duplicatesMachine = (some (), m') ∧
      m'.store.entries.filter (fun entry => entry.key = .lit "a") =
        [freshEntry (.lit "a") (.lit "2"), freshEntry (.lit "a") (.lit "3")] := by
  obtain ⟨m', run, _, _, _, _, stable⟩ := @configStoreSort_stable .reference (.obliging [] [])
    duplicatesMachine fun _ => rfl
  exact ⟨m', run, (stable (.lit "a")).trans (by decide)⟩

end Sorting

end BcRuntime
