import Mathlib.Data.List.Sort
import Mathlib.Tactic.Ring

/-!
Bottom-up merge sort on lists: a pass merges neighbouring runs of one width,
and passes of doubling width sort. A list is seen as consecutive runs of `width`
elements, the last one possibly shorter; merging itself is `List.merge`.
-/

namespace RunMerging

variable {α : Type*} (le : α → α → Bool)

/-- One pass over the list with runs of `width` elements. -/
def mergePass (width : Nat) (l : List α) : List α :=
  if _h : l = [] ∨ width = 0 then l
  else
    List.merge (l.take width) ((l.drop width).take width) le ++
      mergePass width (l.drop (2 * width))
termination_by l.length
decreasing_by
  have := List.length_pos_iff.mpr (not_or.mp _h).1
  simp only [List.length_drop]
  omega

/-- Passes of doubling width while the width is below the length. -/
def mergePasses : Nat → Nat → List α → List α
  | 0, _, l => l
  | fuel + 1, width, l =>
      if width < l.length then mergePasses fuel (width * 2) (mergePass le width l) else l

def RunsSorted (width : Nat) (l : List α) : Prop :=
  ∀ k, ((l.drop (k * width)).take width).Pairwise fun a b => le a b = true

theorem mergePass_nil (width : Nat) : mergePass le width [] = [] := by
  rw [mergePass]; simp

theorem mergePass_of_pos {width : Nat} (pos : 0 < width) {l : List α} (ne : l ≠ []) :
    mergePass le width l =
      List.merge (l.take width) ((l.drop width).take width) le ++
        mergePass le width (l.drop (2 * width)) := by
  rw [mergePass, dif_neg]
  simp only [ne, false_or]
  omega

private theorem take_drop_split (width : Nat) (l : List α) :
    l.take width ++ (l.drop width).take width ++ l.drop (2 * width) = l := by
  rw [List.append_assoc, two_mul, ← List.drop_drop, List.take_append_drop,
    List.take_append_drop]

theorem mergePass_perm (width : Nat) (l : List α) : (mergePass le width l).Perm l := by
  induction l using mergePass.induct width with
  | case1 l h => rw [mergePass, dif_pos h]
  | case2 l h ih =>
      rw [mergePass, dif_neg h]
      have front : (List.merge (l.take width) ((l.drop width).take width) le).Perm
          (l.take width ++ (l.drop width).take width) := List.merge_perm_append le
      have whole := front.append ih
      rwa [take_drop_split] at whole

@[simp] theorem mergePass_length (width : Nat) (l : List α) :
    (mergePass le width l).length = l.length := (mergePass_perm le width l).length_eq

theorem runsSorted_one (l : List α) : RunsSorted le 1 l := by
  intro k
  cases h : (l.drop (k * 1)) <;> simp

theorem sorted_of_runsSorted {width : Nat} {l : List α} (h : RunsSorted le width l)
    (short : l.length ≤ width) : l.Pairwise fun a b => le a b = true := by
  simpa [List.take_of_length_le short] using h 0

variable {le}

theorem RunsSorted.drop {width : Nat} {l : List α} (h : RunsSorted le width l) (n : Nat) :
    RunsSorted le width (l.drop (n * width)) := by
  intro k
  have := h (n + k)
  rwa [List.drop_drop, ← Nat.add_mul]

theorem RunsSorted.after_pass
    (trans : ∀ a b c, le a b = true → le b c = true → le a c = true)
    (total : ∀ a b, (le a b || le b a) = true)
    {width : Nat} (pos : 0 < width) {l : List α} (h : RunsSorted le width l) :
    RunsSorted le (width * 2) (mergePass le width l) := by
  intro k
  induction k generalizing l with
  | zero =>
      by_cases ne : l = []
      · simp [ne, mergePass_nil]
      have first := List.pairwise_merge trans total _ _ (by simpa using h 0)
        (by simpa using h 1)
      rw [mergePass_of_pos le pos ne, Nat.zero_mul, List.drop_zero]
      by_cases long : l.length ≤ width * 2
      · -- the first two runs are the whole list
        rw [show l.drop (2 * width) = [] by simp; omega, mergePass_nil, List.append_nil]
        exact first.sublist (List.take_sublist _ _)
      · have len : (List.merge (l.take width) ((l.drop width).take width) le).length =
            width * 2 := by
          rw [List.length_merge]
          simp only [List.length_take, List.length_drop]
          omega
        rwa [List.take_left' len]
  | succ k ih =>
      by_cases ne : l = []
      · simp [ne, mergePass_nil]
      by_cases long : l.length ≤ width * 2
      · have len : (mergePass le width l).length ≤ (k + 1) * (width * 2) := by
          rw [mergePass_length]
          exact le_trans long (Nat.le_mul_of_pos_left _ (Nat.succ_pos k))
        simp [List.drop_eq_nil_of_le len]
      · have len : (List.merge (l.take width) ((l.drop width).take width) le).length =
            width * 2 := by
          rw [List.length_merge]
          simp only [List.length_take, List.length_drop]
          omega
        have rest := ih (h.drop 2)
        rw [mergePass_of_pos le pos ne,
          show (k + 1) * (width * 2) = width * 2 + k * (width * 2) by ring,
          ← List.drop_drop, List.drop_left' len]
        exact rest

theorem mergePasses_perm (fuel width : Nat) (l : List α) :
    (mergePasses le fuel width l).Perm l := by
  induction fuel generalizing width l with
  | zero => rfl
  | succ fuel ih =>
      rw [mergePasses]
      split
      · exact (ih _ _).trans (mergePass_perm le width l)
      · rfl

/-- Enough doublings sort the whole list. -/
theorem mergePasses_sorted
    (trans : ∀ a b c, le a b = true → le b c = true → le a c = true)
    (total : ∀ a b, (le a b || le b a) = true)
    {fuel width : Nat} (pos : 0 < width) {l : List α} (h : RunsSorted le width l)
    (enough : l.length ≤ width * 2 ^ fuel) :
    (mergePasses le fuel width l).Pairwise fun a b => le a b = true := by
  induction fuel generalizing width l with
  | zero =>
      have short : l.length ≤ width := by simpa using enough
      exact sorted_of_runsSorted le h short
  | succ fuel ih =>
      rw [mergePasses]
      split
      · refine ih (by omega) (h.after_pass trans total pos) ?_
        rw [mergePass_length]
        calc l.length ≤ width * 2 ^ (fuel + 1) := enough
          _ = width * 2 * 2 ^ fuel := by ring
      · exact sorted_of_runsSorted le h (by omega)

section Stability
variable (trans : ∀ a b c, le a b = true → le b c = true → le a c = true) {p : α → Bool}
  (alike : ∀ a b, p a = true → p b = true → le a b = true)
include trans alike

/-- Merging keeps the order of elements that are alike: those of the left run come
first, since an element is taken from the right only past all the left ones like it. -/
theorem filter_merge {l r : List α} (sorted : l.Pairwise fun a b => le a b = true) :
    (List.merge l r le).filter p = l.filter p ++ r.filter p := by
  induction l generalizing r with
  | nil => rw [List.nil_merge, List.filter_nil, List.nil_append]
  | cons a l ihl =>
      obtain ⟨first, rest⟩ := List.pairwise_cons.mp sorted
      induction r with
      | nil => rw [List.merge_right, List.filter_nil, List.append_nil]
      | cons b r ihr =>
          rw [List.cons_merge_cons]
          cases h : le a b with
          | true =>
              rw [if_pos rfl, List.filter_cons, ihl rest, List.filter_cons (x := a)]
              cases p a <;> rfl
          | false =>
              rw [if_neg Bool.false_ne_true, List.filter_cons, ihr, List.filter_cons (x := b)]
              cases hb : p b with
              | false => rfl
              | true =>
                  have none_left : (a :: l).filter p = [] := by
                    refine List.filter_eq_nil_iff.mpr fun c mem hc => ?_
                    have cb := alike c b hc hb
                    have ab : le a b = true := by
                      cases List.mem_cons.mp mem with
                      | inl same => exact same ▸ cb
                      | inr later => exact trans a c b (first c later) cb
                    rw [h] at ab
                    exact Bool.false_ne_true ab
                  rw [none_left]
                  rfl

theorem filter_mergePass {width : Nat} {l : List α} (h : RunsSorted le width l) :
    (mergePass le width l).filter p = l.filter p := by
  induction l using mergePass.induct width with
  | case1 l stop => rw [mergePass, dif_pos stop]
  | case2 l more ih =>
      have first : (l.take width).Pairwise fun a b => le a b = true := by simpa using h 0
      rw [mergePass, dif_neg more, List.filter_append, filter_merge trans alike first,
        ih (h.drop 2), ← List.filter_append, ← List.filter_append, take_drop_split]

theorem filter_mergePasses (total : ∀ a b, (le a b || le b a) = true) {fuel width : Nat}
    (pos : 0 < width) {l : List α} (h : RunsSorted le width l) :
    (mergePasses le fuel width l).filter p = l.filter p := by
  induction fuel generalizing width l with
  | zero => rfl
  | succ fuel ih =>
      rw [mergePasses]
      split
      · rw [ih (by omega) (h.after_pass trans total pos), filter_mergePass trans alike h]
      · rfl

end Stability

end RunMerging
