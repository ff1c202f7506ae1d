import Mathlib.Data.List.Basic

/-!
A text as a sequence of lines, each ended by a mark. What is written as one line
after another is read back as those lines exactly when no mark stands inside one.
Where the mark only separates, splitting a joined text yields the pieces of its parts.
-/

namespace List

variable {α : Type*} [DecidableEq α]

/-- The lines of a text with their marks; what follows the last mark is a line without. -/
def linesAt (mark : α) : List α → List (List α)
  | [] => []
  | first :: rest =>
      if first = mark then [mark] :: linesAt mark rest
      else
        match linesAt mark rest with
        | [] => [[first]]
        | line :: lines => (first :: line) :: lines

theorem linesAt_append {mark : α} {body : List α} (inside : mark ∉ body) (rest : List α) :
    linesAt mark (body ++ mark :: rest) = (body ++ [mark]) :: linesAt mark rest := by
  induction body with
  | nil => rw [nil_append, linesAt, if_pos rfl, nil_append]
  | cons first body ih =>
      rw [mem_cons, not_or] at inside
      rw [cons_append, linesAt, if_neg (Ne.symm inside.1), ih inside.2]
      rfl

/-- Every mark ends a line. -/
theorem count_le_length_linesAt (mark : α) (text : List α) :
    text.count mark ≤ (linesAt mark text).length := by
  induction text with
  | nil => exact Nat.le_refl 0
  | cons first rest ih =>
      rw [linesAt]
      by_cases same : first = mark
      · rw [if_pos same, same, count_cons_self, length_cons]
        exact Nat.succ_le_succ ih
      · rw [if_neg same, count_cons_of_ne same]
        cases lines : linesAt mark rest with
        | nil =>
            rw [lines] at ih
            exact Nat.le_trans ih (Nat.zero_le 1)
        | cons line more =>
            rw [lines] at ih
            exact ih

theorem length_le_count_terminated (mark : α) (bodies : List (List α)) :
    bodies.length ≤ (bodies.flatMap (· ++ [mark])).count mark := by
  induction bodies with
  | nil => exact Nat.le_refl 0
  | cons body bodies ih =>
      rw [flatMap_cons, count_append, count_append, count_singleton_self, length_cons]
      omega

/-- A mark inside a body makes one line more. -/
theorem length_lt_count_terminated {mark : α} {bodies : List (List α)} {body : List α}
    (mem : body ∈ bodies) (inside : mark ∈ body) :
    bodies.length < (bodies.flatMap (· ++ [mark])).count mark := by
  obtain ⟨before, after, rfl⟩ := append_of_mem mem
  have some_mark := count_pos_iff.mpr inside
  have first := length_le_count_terminated mark before
  have last := length_le_count_terminated mark after
  simp only [flatMap_append, flatMap_cons, count_append, count_singleton_self, length_append,
    length_cons]
  omega

theorem linesAt_terminated_iff (mark : α) (bodies : List (List α)) :
    linesAt mark (bodies.flatMap (· ++ [mark])) = bodies.map (· ++ [mark]) ↔
      ∀ body ∈ bodies, mark ∉ body := by
  constructor
  · intro same body mem inside
    have more := length_lt_count_terminated mem inside
    have bounded := count_le_length_linesAt mark (bodies.flatMap (· ++ [mark]))
    rw [same, length_map] at bounded
    omega
  · intro none_inside
    induction bodies with
    | nil => rfl
    | cons body bodies ih =>
        have first := none_inside body mem_cons_self
        have later := ih fun body mem => none_inside body (mem_cons_of_mem _ mem)
        rw [flatMap_cons, append_assoc, singleton_append, linesAt_append first, later, map_cons]

/-- The parts of a joined text fall apart further where they hold the mark themselves. -/
theorem splitOn_intercalate_flatMap (mark : α) {parts : List (List α)} (nonempty : parts ≠ []) :
    ([mark].intercalate parts).splitOn mark = parts.flatMap (splitOn mark) := by
  induction parts with
  | nil => exact absurd rfl nonempty
  | cons part parts ih =>
      cases parts with
      | nil => rw [intercalate_singleton, flatMap_cons, flatMap_nil, append_nil]
      | cons next parts =>
          rw [intercalate_cons_cons, append_assoc, singleton_append, splitOn_append_cons_self,
            ih (cons_ne_nil next parts)]
          rfl

theorem flatMap_splitOn_of_notMem {mark : α} {parts : List (List α)}
    (plain : ∀ part ∈ parts, mark ∉ part) : parts.flatMap (splitOn mark) = parts := by
  induction parts with
  | nil => rfl
  | cons part parts ih =>
      rw [flatMap_cons, splitOn_eq_singleton (plain part mem_cons_self), singleton_append,
        ih fun later mem => plain later (mem_cons_of_mem _ mem)]

/-- What joined texts have in common: the pieces, and nothing else. -/
theorem intercalate_eq_iff (mark : α) {parts parts' : List (List α)} (nonempty : parts ≠ [])
    (nonempty' : parts' ≠ []) :
    [mark].intercalate parts = [mark].intercalate parts' ↔
      parts.flatMap (splitOn mark) = parts'.flatMap (splitOn mark) := by
  rw [← splitOn_intercalate_flatMap mark nonempty, ← splitOn_intercalate_flatMap mark nonempty']
  constructor
  · exact congrArg (splitOn mark)
  · intro same
    have joined := congrArg [mark].intercalate same
    rwa [intercalate_splitOn, intercalate_splitOn] at joined

end List
