import Mathlib.Data.List.Basic

/-!
Cutting a list at the first occurrence of an element: the list form of a search
that yields an offset, with the parts before and after it; and where a run of
elements that satisfy a test ends.
-/

namespace List

variable {α : Type*} [DecidableEq α]

/-- The parts before and after the first occurrence of an element. -/
def splitFirst (mark : α) : List α → Option (List α × List α)
  | [] => none
  | first :: rest =>
      if first = mark then some ([], rest)
      else (splitFirst mark rest).map fun parts => (first :: parts.1, parts.2)

theorem splitFirst_eq_some_iff {mark : α} {text before after : List α} :
    splitFirst mark text = some (before, after) ↔
      text = before ++ mark :: after ∧ mark ∉ before := by
  induction text generalizing before with
  | nil => simp [splitFirst]
  | cons first rest ih =>
      by_cases same : first = mark
      · simp only [splitFirst, same, if_true, Option.some.injEq, Prod.mk.injEq]
        cases before with
        | nil => simp [eq_comm]
        | cons head tail => simp +contextual
      · simp only [splitFirst, same, if_false, Option.map_eq_some_iff, Prod.exists, Prod.mk.injEq]
        constructor
        · rintro ⟨tail, after', split, hbefore, hafter⟩
          subst hbefore hafter
          obtain ⟨hrest, absent⟩ := ih.mp split
          exact ⟨by rw [hrest]; rfl, by simp [Ne.symm same, absent]⟩
        · rintro ⟨whole, absent⟩
          cases before with
          | nil => exact absurd (List.cons.inj whole).1 same
          | cons head tail =>
              obtain ⟨hhead, htail⟩ := List.cons.inj whole
              rw [List.mem_cons, not_or] at absent
              exact ⟨tail, after, ih.mpr ⟨htail, absent.2⟩, by rw [hhead], rfl⟩

theorem splitFirst_eq_none_iff {mark : α} {text : List α} :
    splitFirst mark text = none ↔ mark ∉ text := by
  induction text with
  | nil => simp [splitFirst]
  | cons first rest ih =>
      by_cases same : first = mark
      · simp [splitFirst, same]
      · simp [splitFirst, same, Ne.symm same, ih]

theorem splitFirst_append {mark : α} {start : List α} (absent : mark ∉ start) (text : List α) :
    splitFirst mark (start ++ text) =
      (splitFirst mark text).map fun parts => (start ++ parts.1, parts.2) := by
  induction start with
  | nil => simp
  | cons first start ih =>
      rw [mem_cons, not_or] at absent
      simp [splitFirst, Ne.symm absent.1, ih absent.2, Function.comp_def]

/-- The offset of the first occurrence is the length of the part before it. -/
theorem idxOf?_eq_splitFirst (mark : α) (text : List α) :
    text.idxOf? mark = (splitFirst mark text).map fun parts => parts.1.length := by
  induction text with
  | nil => rfl
  | cons first rest ih =>
      by_cases same : first = mark
      · simp [splitFirst, same, List.idxOf?_cons]
      · simp [splitFirst, same, List.idxOf?_cons, ih, Function.comp_def]

omit [DecidableEq α] in
/-- A run of elements that hold, cut from a rest that starts with one that does not. -/
theorem span_append {p : α → Bool} {run rest : List α} (holds : ∀ a ∈ run, p a = true)
    (ends : ∀ a ∈ rest.head?, p a = false) :
    (run ++ rest).takeWhile p = run ∧ (run ++ rest).dropWhile p = rest := by
  have stop : rest.takeWhile p = [] ∧ rest.dropWhile p = rest := by
    cases rest with
    | nil => exact ⟨rfl, rfl⟩
    | cons a rest => simp [ends a rfl]
  constructor
  · rw [takeWhile_append_of_pos holds, stop.1, append_nil]
  · rw [dropWhile_append_of_pos holds, stop.2]

end List
