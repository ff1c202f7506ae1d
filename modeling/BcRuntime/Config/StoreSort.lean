import BcRuntime.Config.EntryOrder
import BcRuntime.Foundation.RunMerging
import BcRuntime.Foundation.Splice
import Mathlib.Data.List.ReduceOption

/-!
The index arithmetic of the sort refines merging runs of a list. A call of
`merge_entries` overwrites one stretch of the temporary buffer with the merge of
two neighbouring runs; a pass fills every cell of it, so copying it back loses
nothing, and the passes together sort.
-/

namespace BcRuntime
open Splice RunMerging

def entryRun (entries : List ConfigEntry) (start stop : Nat) : List ConfigEntry :=
  (entries.drop start).take (stop - start)

section EntryRun
variable (entries : List ConfigEntry) {start stop : Nat}

theorem entryRun_cons (lt : start < stop) (bound : stop ≤ entries.length) :
    ∃ entry, entries[start]? = some entry ∧
      entryRun entries start stop = entry :: entryRun entries (start + 1) stop := by
  have inside : start < entries.length := by omega
  refine ⟨entries[start], List.getElem?_eq_getElem inside, ?_⟩
  rw [entryRun, entryRun, List.drop_eq_getElem_cons inside,
    show stop - start = (stop - (start + 1)) + 1 by omega, List.take_succ_cons]

theorem entryRun_of_le (le : stop ≤ start) : entryRun entries start stop = [] := by
  rw [entryRun, Nat.sub_eq_zero_of_le le, List.take_zero]

theorem length_entryRun (bound : stop ≤ entries.length) :
    (entryRun entries start stop).length = stop - start := by
  rw [entryRun, List.length_take, List.length_drop]
  omega

end EntryRun

variable [BcCore]

omit [BcCore] in
theorem copyCells_eq (entries : List ConfigEntry) (index stop write : Nat) (temp : Cells)
    (bound : stop ≤ entries.length) (room : write + (stop - index) ≤ temp.length) :
    copyCells entries (stop - index) index write temp =
      splice temp write ((entryRun entries index stop).map some) := by
  induction h : stop - index generalizing index write temp with
  | zero => rw [entryRun_of_le entries (by omega)]; simp [copyCells]
  | succ n ih =>
      have more : index < stop := by omega
      obtain ⟨entry, hget, hcons⟩ := entryRun_cons entries more bound
      rw [copyCells, hget, ih (index + 1) (write + 1) _ (by rw [List.length_set]; omega) (by omega),
        hcons, List.map_cons, splice_set (by omega)]

/-- From any indices the three loops write the merge of what is left of the runs. -/
theorem mergeFrom_eq (entries : List ConfigEntry) {rightStart rightEnd : Nat}
    (leftBound : rightStart ≤ entries.length) (rightBound : rightEnd ≤ entries.length)
    (n left right write : Nat) (temp : Cells)
    (enough : (rightStart - left) + (rightEnd - right) ≤ n)
    (room : write + (rightStart - left) + (rightEnd - right) ≤ temp.length) :
    mergeFrom entries rightStart rightEnd n left right write temp =
      splice temp write
        (((entryRun entries left rightStart).merge (entryRun entries right rightEnd) entryLe).map
          some) := by
  -- once one run is used up, the copying loops append the other
  have finish : ∀ left right write (temp : Cells),
      ¬ (left < rightStart ∧ right < rightEnd) →
      write + (rightStart - left) + (rightEnd - right) ≤ temp.length →
      copyCells entries (rightEnd - right) right (write + (rightStart - left))
        (copyCells entries (rightStart - left) left write temp) =
      splice temp write
        (((entryRun entries left rightStart).merge (entryRun entries right rightEnd) entryLe).map
          some) := by
    intro left right write temp stop room
    have len : ((entryRun entries left rightStart).map some).length = rightStart - left := by
      rw [List.length_map, length_entryRun entries leftBound]
    rw [copyCells_eq entries left rightStart write temp leftBound (by omega),
      copyCells_eq entries right rightEnd _ _ rightBound (by rw [length_splice] <;> omega), ← len,
      splice_append (by rw [len, List.length_map, length_entryRun entries rightBound]; omega),
      ← List.map_append]
    by_cases hl : left < rightStart
    · have used : rightEnd ≤ right := by omega
      rw [entryRun_of_le entries used, List.append_nil, List.merge_right]
    · have used : rightStart ≤ left := by omega
      rw [entryRun_of_le entries used, List.nil_append, List.nil_merge]
  induction n generalizing left right write temp with
  | zero => exact finish left right write temp (by omega) room
  | succ n ih =>
      by_cases more : left < rightStart ∧ right < rightEnd
      · obtain ⟨a, ha, hleft⟩ := entryRun_cons entries more.1 leftBound
        obtain ⟨b, hb, hright⟩ := entryRun_cons entries more.2 rightBound
        rw [hleft, hright, List.cons_merge_cons]
        by_cases first : configEntryCompare a b ≤ 0
        · have step : mergeFrom entries rightStart rightEnd (n + 1) left right write temp =
              mergeFrom entries rightStart rightEnd n (left + 1) right (write + 1)
                (temp.set write (some a)) := by
            simp [mergeFrom, mergeHeads, more, ha, hb, first]
          rw [step, ih _ _ _ _ (by omega) (by rw [List.length_set]; omega), hright,
            splice_set (by omega), entryLe, decide_eq_true first, if_pos rfl, List.map_cons]
        · have step : mergeFrom entries rightStart rightEnd (n + 1) left right write temp =
              mergeFrom entries rightStart rightEnd n left (right + 1) (write + 1)
                (temp.set write (some b)) := by
            simp [mergeFrom, mergeHeads, more, ha, hb, first]
          rw [step, ih _ _ _ _ (by omega) (by rw [List.length_set]; omega), hleft,
            splice_set (by omega), entryLe, decide_eq_false first, if_neg Bool.false_ne_true,
            List.map_cons]
      · rw [mergeFrom, mergeHeads, if_neg more]
        exact finish left right write temp more room

theorem mergeEntries_eq (entries : List ConfigEntry) (temp : Cells)
    {leftStart rightStart rightEnd : Nat} (left : leftStart ≤ rightStart)
    (right : rightStart ≤ rightEnd) (bound : rightEnd ≤ entries.length)
    (room : rightEnd ≤ temp.length) :
    mergeEntries entries temp leftStart rightStart rightEnd =
      splice temp leftStart
        (((entryRun entries leftStart rightStart).merge (entryRun entries rightStart rightEnd)
          entryLe).map some) := by
  rw [mergeEntries]
  exact mergeFrom_eq entries (by omega) bound _ _ _ _ _ (by omega) (by omega)

omit [BcCore] in
/-- The bounds cut at `entry_count` delimit the runs of `width` entries from `i`. -/
theorem entryRun_width (entries : List ConfigEntry) (i width : Nat) :
    entryRun entries i (min (i + width) entries.length) = (entries.drop i).take width ∧
      entryRun entries (min (i + width) entries.length) (min (i + 2 * width) entries.length) =
        ((entries.drop i).drop width).take width := by
  constructor
  · rw [entryRun, List.take_eq_take_iff, List.length_drop]
    omega
  · rw [List.drop_drop, entryRun]
    by_cases inside : i + width ≤ entries.length
    · rw [Nat.min_eq_left inside, List.take_eq_take_iff, List.length_drop]
      omega
    · rw [List.drop_eq_nil_of_le (by omega), List.drop_eq_nil_of_le (by omega), List.take_nil,
        List.take_nil]

/-- The inner loop fills the buffer from `i` on with the pass over the rest. -/
theorem sortPass_eq (entries : List ConfigEntry) {width : Nat} (pos : 0 < width)
    (n i : Nat) (temp : Cells) (len : temp.length = entries.length)
    (enough : entries.length ≤ i + n) :
    sortPass entries width n i temp =
      temp.take i ++ (mergePass entryLe width (entries.drop i)).map some := by
  have done : ∀ i, entries.length ≤ i → ∀ temp : Cells, temp.length = entries.length →
      temp = temp.take i ++ (mergePass entryLe width (entries.drop i)).map some := by
    intro i le temp len
    rw [List.drop_eq_nil_of_le le, mergePass_nil, List.map_nil, List.append_nil,
      List.take_of_length_le (by omega)]
  induction n generalizing i temp with
  | zero => exact done i (by omega) temp len
  | succ n ih =>
      by_cases more : i < entries.length
      · have ne : entries.drop i ≠ [] := by
          rw [ne_eq, List.drop_eq_nil_iff]
          omega
        obtain ⟨first, second⟩ := entryRun_width entries i width
        have merged := mergeEntries_eq entries temp
          (show i ≤ min (i + width) entries.length by omega)
          (show _ ≤ min (i + 2 * width) entries.length by omega) (by omega) (by omega)
        rw [first, second] at merged
        rw [sortPass, if_pos more, mergePass_of_pos entryLe pos ne]
        have blockLength : (((entries.drop i).take width).merge
            (((entries.drop i).drop width).take width) entryLe).length =
            min (i + 2 * width) entries.length - i := by
          simp only [List.length_merge, List.length_take, List.length_drop]
          omega
        simp only [merged]
        generalize ((entries.drop i).take width).merge
          (((entries.drop i).drop width).take width) entryLe = block at blockLength
        have room : i + (block.map some).length ≤ temp.length := by
          rw [List.length_map]
          omega
        have front : (splice temp i (block.map some)).take (i + (block.map some).length) =
            temp.take i ++ block.map some := take_splice (by omega)
        rw [ih _ _ (by rw [length_splice room, len]) (by omega), List.map_append,
          ← List.append_assoc, List.drop_drop, ← front]
        congr 1
        rw [List.take_eq_take_iff, length_splice room, List.length_map]
        omega
      · rw [sortPass, if_neg more]
        exact done i (by omega) temp len

theorem sortPasses_eq (n width : Nat) (pos : 0 < width) (entries : List ConfigEntry) :
    sortPasses n width entries = mergePasses entryLe n width entries := by
  induction n generalizing width entries with
  | zero => rfl
  | succ n ih =>
      rw [sortPasses, mergePasses]
      split
      · rw [sortPass_eq entries pos _ _ _ (by simp) (by simp), ih _ (by omega)]
        simp [List.reduceOption]
      · rfl

/-- The sort permutes the entries into the order of their keys. -/
theorem sortPasses_sorts (entries : List ConfigEntry) :
    (sortPasses entries.length 1 entries).Perm entries ∧
      KeysAscending (sortPasses entries.length 1 entries) := by
  rw [sortPasses_eq _ _ Nat.one_pos]
  refine ⟨mergePasses_perm _ _ _, ?_⟩
  have enough : entries.length ≤ 1 * 2 ^ entries.length := by
    rw [one_mul]
    exact Nat.le_of_lt Nat.lt_two_pow_self
  have sorted := mergePasses_sorted entryLe_trans entryLe_total Nat.one_pos
    (runsSorted_one entryLe entries) enough
  exact sorted.imp fun h => (entryLe_iff _ _).mp h

end BcRuntime
