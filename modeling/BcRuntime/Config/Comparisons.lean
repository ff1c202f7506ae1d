import BcRuntime.Config.CheckedSort
import BcRuntime.Foundation.Counted

/-!
How many keys the sort and the lookup compare. The loops are run with every comparison
counted, and give what they give without; a pass of the sort compares fewer pairs than
there are entries, whatever the width of its runs.
-/

namespace BcRuntime
open Fallible Run Splice RunMerging

section Counting
variable [BcCore]

/-- `mergeHeads` with its comparisons counted. -/
def countedHeads (entries : List ConfigEntry) (rightStart rightEnd : Nat) :
    Nat → Nat → Nat → Nat → Cells → Counted (Nat × Nat × Nat × Cells)
  | 0, left, right, write, temp => pure (left, right, write, temp)
  | n + 1, left, right, write, temp =>
      if left < rightStart ∧ right < rightEnd then
        match entries[left]?, entries[right]? with
        | some a, some b => do
            let comparison ← Counted.step (configEntryCompare a b)
            if comparison ≤ 0 then
              countedHeads entries rightStart rightEnd n (left + 1) right (write + 1)
                (temp.set write (some a))
            else
              countedHeads entries rightStart rightEnd n left (right + 1) (write + 1)
                (temp.set write (some b))
        | _, _ => pure (left, right, write, temp)
      else pure (left, right, write, temp)

def countedMerge (entries : List ConfigEntry) (temp : Cells)
    (leftStart rightStart rightEnd : Nat) : Counted Cells := do
  let (left, right, write, temp) ← countedHeads entries rightStart rightEnd
    (rightEnd - leftStart) leftStart rightStart leftStart temp
  pure (copyCells entries (rightEnd - right) right (write + (rightStart - left))
    (copyCells entries (rightStart - left) left write temp))

def countedPass (entries : List ConfigEntry) (width : Nat) : Nat → Nat → Cells → Counted Cells
  | 0, _, temp => pure temp
  | n + 1, i, temp =>
      if i < entries.length then do
        let rightStart := min (i + width) entries.length
        let rightEnd := min (i + 2 * width) entries.length
        let temp ← countedMerge entries temp i rightStart rightEnd
        countedPass entries width n (i + 2 * width) temp
      else pure temp

def countedPasses : Nat → Nat → List ConfigEntry → Counted (List ConfigEntry)
  | 0, _, entries => pure entries
  | n + 1, width, entries =>
      if width < entries.length then do
        let temp ← countedPass entries width entries.length 0
          (List.replicate entries.length none)
        countedPasses n (width * 2) temp.reduceOption
      else pure entries

/-- The sort and the lookup of a store's entries with their comparisons counted. -/
def countedSort (entries : List ConfigEntry) : Counted (List ConfigEntry) :=
  countedPasses entries.length 1 entries

def countedLookup (entries : List ConfigEntry) (key : CString) : Counted (Option Nat) :=
  Bisection.countedBisect (lookupSign entries key) entries.length 0 entries.length

end Counting

section Values
variable [BcCore] (entries : List ConfigEntry)

theorem value_countedHeads (rightStart rightEnd n left right write : Nat) (temp : Cells) :
    (countedHeads entries rightStart rightEnd n left right write temp).value =
      mergeHeads entries rightStart rightEnd n left right write temp := by
  induction n generalizing left right write temp with
  | zero => rfl
  | succ n ih =>
      rw [countedHeads, mergeHeads]
      by_cases more : left < rightStart ∧ right < rightEnd
      · rw [if_pos more, if_pos more]
        cases entries[left]? with
        | none => rfl
        | some a =>
            cases entries[right]? with
            | none => rfl
            | some b =>
                refine (Counted.value_step_bind _ _).trans ?_
                by_cases first : configEntryCompare a b ≤ 0
                · rw [if_pos first, ih]
                  exact (if_pos first).symm
                · rw [if_neg first, ih]
                  exact (if_neg first).symm
      · rw [if_neg more, if_neg more]
        rfl

theorem value_countedMerge (temp : Cells) (leftStart rightStart rightEnd : Nat) :
    (countedMerge entries temp leftStart rightStart rightEnd).value =
      mergeEntries entries temp leftStart rightStart rightEnd := by
  rw [countedMerge, mergeEntries, mergeFrom, Counted.value_bind, value_countedHeads]
  rfl

theorem value_countedPass (width n i : Nat) (temp : Cells) :
    (countedPass entries width n i temp).value = sortPass entries width n i temp := by
  induction n generalizing i temp with
  | zero => rfl
  | succ n ih =>
      rw [countedPass, sortPass]
      by_cases more : i < entries.length
      · rw [if_pos more, if_pos more, Counted.value_bind, value_countedMerge, ih]
      · rw [if_neg more, if_neg more]
        rfl

theorem value_countedPasses (n width : Nat) :
    (countedPasses n width entries).value = sortPasses n width entries := by
  induction n generalizing width entries with
  | zero => rfl
  | succ n ih =>
      rw [countedPasses, sortPasses]
      by_cases more : width < entries.length
      · rw [if_pos more, if_pos more, Counted.value_bind, value_countedPass, ih]
      · rw [if_neg more, if_neg more]
        rfl

end Values

section Counts
variable [BcCore] (entries : List ConfigEntry)

/-- The entry written last is not compared with any. -/
theorem count_countedHeads_le (rightStart rightEnd n left right write : Nat) (temp : Cells) :
    (countedHeads entries rightStart rightEnd n left right write temp).count ≤
      (rightStart - left) + (rightEnd - right) - 1 := by
  induction n generalizing left right write temp with
  | zero => exact Nat.zero_le _
  | succ n ih =>
      rw [countedHeads]
      by_cases more : left < rightStart ∧ right < rightEnd
      · rw [if_pos more]
        cases entries[left]? with
        | none => exact Nat.zero_le _
        | some a =>
            cases entries[right]? with
            | none => exact Nat.zero_le _
            | some b =>
                have fromLeft := ih (left + 1) right (write + 1) (temp.set write (some a))
                have fromRight := ih left (right + 1) (write + 1) (temp.set write (some b))
                refine (Counted.count_step_bind _ _).trans_le ?_
                by_cases first : configEntryCompare a b ≤ 0
                · rw [if_pos first]
                  omega
                · rw [if_neg first]
                  omega
      · rw [if_neg more]
        exact Nat.zero_le _

theorem count_countedMerge_le (temp : Cells) {leftStart rightStart rightEnd : Nat}
    (left : leftStart ≤ rightStart) (right : rightStart ≤ rightEnd) :
    (countedMerge entries temp leftStart rightStart rightEnd).count ≤ rightEnd - leftStart - 1 := by
  have heads := count_countedHeads_le entries rightStart rightEnd (rightEnd - leftStart)
    leftStart rightStart leftStart temp
  rw [countedMerge, Counted.count_bind, Counted.count_pure]
  omega

theorem count_countedPass_le (width n i : Nat) (temp : Cells) :
    (countedPass entries width n i temp).count ≤ entries.length - i - 1 := by
  induction n generalizing i temp with
  | zero => exact Nat.zero_le _
  | succ n ih =>
      rw [countedPass]
      by_cases more : i < entries.length
      · rw [if_pos more, Counted.count_bind]
        have merged := count_countedMerge_le entries temp
          (show i ≤ min (i + width) entries.length by omega)
          (show min (i + width) entries.length ≤ min (i + 2 * width) entries.length by omega)
        have rest := ih (i + 2 * width) (countedMerge entries temp i
          (min (i + width) entries.length) (min (i + 2 * width) entries.length)).value
        omega
      · rw [if_neg more]
        exact Nat.zero_le _

theorem length_pass {width : Nat} (pos : 0 < width) :
    (sortPass entries width entries.length 0
      (List.replicate entries.length none)).reduceOption.length = entries.length := by
  rw [sortPass_eq entries pos _ _ _ (List.length_replicate ..) (Nat.le_add_left _ _),
    List.take_zero, List.nil_append, List.drop_zero, List.reduceOption, List.filterMap_map]
  exact (congrArg List.length List.filterMap_some).trans (mergePass_length entryLe width entries)

/-- Each pass doubles the width of the runs, until there is one. -/
theorem count_countedPasses_le (n : Nat) {width doublings : Nat} (pos : 0 < width)
    (wide : entries.length ≤ width * 2 ^ doublings) :
    (countedPasses n width entries).count ≤ (entries.length - 1) * doublings := by
  induction n generalizing width doublings entries with
  | zero => exact Nat.zero_le _
  | succ n ih =>
      rw [countedPasses]
      by_cases more : width < entries.length
      · cases doublings with
        | zero => omega
        | succ doublings =>
            have pass := count_countedPass_le entries width entries.length 0
              (List.replicate entries.length none)
            have same := length_pass entries pos
            have narrower : (sortPass entries width entries.length 0
                (List.replicate entries.length none)).reduceOption.length ≤
                  width * 2 * 2 ^ doublings := by
              rw [same, Nat.mul_assoc, ← Nat.pow_succ']
              exact wide
            have rest := ih _ (Nat.mul_pos pos Nat.two_pos) narrower
            rw [if_pos more, Counted.count_bind, value_countedPass,
              Nat.mul_succ (entries.length - 1)]
            rw [same] at rest
            omega
      · rw [if_neg more]
        exact Nat.zero_le _

theorem count_countedSort_le :
    (countedSort entries).count ≤ (entries.length - 1) * Nat.clog 2 entries.length := by
  refine count_countedPasses_le entries _ Nat.one_pos ?_
  rw [one_mul]
  exact Nat.le_pow_clog Nat.one_lt_two _

theorem value_countedSort : (countedSort entries).value = sortPasses entries.length 1 entries :=
  value_countedPasses entries _ _

theorem value_countedLookup (key : CString) :
    (countedLookup entries key).value = lookupIndex entries key key.length :=
  Bisection.value_countedBisect _ _ _ _

theorem count_countedLookup_first {entries : List ConfigEntry} (some : entries ≠ [])
    {key : CString} (before : ∀ entry ∈ entries, 0 < lookupCompare entry key key.length) :
    (countedLookup entries key).count = Nat.log 2 entries.length + 1 := by
  refine Bisection.count_countedBisect_left _ (Nat.sub_le _ _) (fun mid _ inside => ?_)
    (List.length_pos_iff.mpr some)
  rw [lookupSign, List.getElem?_eq_getElem inside]
  exact before _ (List.getElem_mem inside)

end Counts

section Runs
variable [BcCore] {host : Host} {m : Machine}

theorem configStoreSort_counted :
    wp configStoreSort (fun _ m' => m'.store.entries = (countedSort m.store.entries).value)
      (fun m' => m'.store.entries = m.store.entries) host m := by
  rw [value_countedSort]
  simp only [configStoreSort, wp_bind, wp_get]
  by_cases short : m.store.entries.length ≤ 1
  · rw [if_pos short, wp_modifyStore]
    exact (sortPasses_of_short short).symm
  · rw [if_neg short]
    simp only [poolAllocate, acquire, wp_bind, wp_external, wp_record, wp_pure, wp_modifyStore,
      wp_release]
    exact ⟨fun _ => trivial, fun _ => trivial⟩

theorem configStoreLookup_counted (key : CString) :
    (configStoreLookup key host m).1 =
      if m.store.sorted = true ∧ host.succeeds m.calls (.coreLength key) = true then
        ((countedLookup m.store.entries key).value.bind (m.store.entries[·]?)).map ConfigEntry.value
      else none := by
  apply result_of_wp
  rw [value_countedLookup]
  simp only [configStoreLookup, wp_bind, wp_get, coreLength]
  cases m.store.sorted with
  | false => exact if_neg fun answered => Bool.false_ne_true answered.1
  | true =>
      simp only [Bool.true_eq_false, if_false, wp_bind, wp_external, wp_pure]
      refine ⟨fun measured => ?_, fun refused => ?_⟩
      · rw [if_pos ⟨trivial, measured⟩, BcCore.length_eq]
        cases (lookupIndex m.store.entries key key.length).bind (m.store.entries[·]?) with
        | none => rfl
        | some entry => rfl
      · exact if_neg fun answered => Bool.false_ne_true (refused.symm.trans answered.2)

/-- Sorting compares at most `(n - 1) * ⌈log₂ n⌉` pairs of keys, fewer than `n` in a pass over
any arrangement of the entries, and a lookup at most `⌊log₂ n⌋ + 1`, and that many for a key
before all the others. -/
theorem comparisons_bounded (host : Host) (m : Machine) :
    wp configStoreSort
        (fun _ m' => m'.store.entries = (countedSort m.store.entries).value)
        (fun m' => m'.store.entries = m.store.entries) host m ∧
      (countedSort m.store.entries).count ≤
        (m.store.entries.length - 1) * Nat.clog 2 m.store.entries.length ∧
      (∀ arranged width temp, arranged.Perm m.store.entries → width < arranged.length →
        (countedPass arranged width arranged.length 0 temp).count < arranged.length) ∧
      ∀ key, (countedLookup m.store.entries key).value =
            lookupIndex m.store.entries key key.length ∧
        (configStoreLookup key host m).1 =
          (if m.store.sorted = true ∧ host.succeeds m.calls (.coreLength key) = true then
            ((countedLookup m.store.entries key).value.bind (m.store.entries[·]?)).map
              ConfigEntry.value
          else none) ∧
        (countedLookup m.store.entries key).count ≤ Nat.log 2 m.store.entries.length + 1 ∧
        (m.store.entries ≠ [] →
          (∀ entry ∈ m.store.entries, 0 < lookupCompare entry key key.length) →
            (countedLookup m.store.entries key).count = Nat.log 2 m.store.entries.length + 1) := by
  refine ⟨configStoreSort_counted, count_countedSort_le _, ?_, fun key => ⟨?_, ?_, ?_, ?_⟩⟩
  · intro arranged width temp _ narrow
    have pass := count_countedPass_le arranged width arranged.length 0 temp
    omega
  · exact value_countedLookup _ key
  · exact configStoreLookup_counted key
  · exact Bisection.count_countedBisect_le_log _ _ _
  · exact fun some before => count_countedLookup_first some before

omit [BcCore] in
/-- The empty key is before those of three entries and is compared with two of them. -/
theorem comparisons_bounded_empty :
    (@countedSort .reference repeatedKeys.store.entries).count ≤
        (repeatedKeys.store.entries.length - 1) * Nat.clog 2 repeatedKeys.store.entries.length ∧
      (@countedLookup .reference repeatedKeys.store.entries (.lit "")).count =
        Nat.log 2 repeatedKeys.store.entries.length + 1 := by
  have bounded := @comparisons_bounded .reference (.obliging [] []) repeatedKeys
  have before : ∀ entry ∈ repeatedKeys.store.entries,
      0 < @lookupCompare .reference entry (.lit "") (CString.lit "").length := by
    decide +kernel
  exact ⟨bounded.2.1, (bounded.2.2.2 (.lit "")).2.2.2 (List.cons_ne_nil _ _) before⟩

end Runs

end BcRuntime
