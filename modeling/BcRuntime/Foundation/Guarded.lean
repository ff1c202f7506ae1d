import Mathlib.Logic.Function.Basic

/-!
A lock flag that guards a resource, among any number of threads each at some
place of its program. What the resource agrees to depends on the place of the
thread that holds the lock; a thread elsewhere can neither see nor break it. The
rules are the four ways one thread can move.
-/

/-- At most one thread is at an `inside` place, and one is just if the flag is set.
The resource agrees with the place of that thread, or with `free` when there is none. -/
structure Guarded {Thread Place : Type*} (inside : Place → Bool) (flag : Bool)
    (place : Thread → Place) (agrees : Place → Prop) (free : Prop) : Prop where
  flag_iff : flag = true ↔ ∃ t, inside (place t) = true
  alone : ∀ t u, inside (place t) = true → inside (place u) = true → t = u
  held : ∀ t, inside (place t) = true → agrees (place t)
  released : flag = false → free

namespace Guarded

variable {Thread Place : Type*} [DecidableEq Thread] {inside : Place → Bool} {flag : Bool}
  {place : Thread → Place} {agrees agrees' : Place → Prop} {free free' : Prop}
  {t : Thread} {next : Place}

theorem enter (h : Guarded inside false place agrees free) (into : inside next = true)
    (agree : agrees' next) :
    Guarded inside true (Function.update place t next) agrees' free' := by
  have nobody : ∀ u, ¬ inside (place u) = true := fun u held =>
    Bool.noConfusion (h.flag_iff.mpr ⟨u, held⟩)
  have only : ∀ u, inside (Function.update place t next u) = true → u = t := by
    intro u held
    by_contra other
    rw [Function.update_of_ne other] at held
    exact nobody u held
  have here : Function.update place t next t = next := Function.update_self ..
  refine ⟨⟨fun _ => ⟨t, by rwa [here]⟩, fun _ => rfl⟩, ?_, ?_, fun clear => Bool.noConfusion clear⟩
  · intro u v first second
    rw [only u first, only v second]
  · intro u held
    rw [only u held, here]
    exact agree

theorem work (h : Guarded inside flag place agrees free) (holds : inside (place t) = true)
    (stays : inside next = true) (agree : agrees' next) :
    Guarded inside flag (Function.update place t next) agrees' free' := by
  have set : flag = true := h.flag_iff.mpr ⟨t, holds⟩
  have only : ∀ u, inside (Function.update place t next u) = true → u = t := by
    intro u held
    by_contra other
    rw [Function.update_of_ne other] at held
    exact other (h.alone u t held holds)
  have here : Function.update place t next t = next := Function.update_self ..
  refine ⟨⟨fun _ => ⟨t, by rwa [here]⟩, fun _ => set⟩, ?_, ?_, fun clear => ?_⟩
  · intro u v first second
    rw [only u first, only v second]
  · intro u held
    rw [only u held, here]
    exact agree
  · exact Bool.noConfusion (set.symm.trans clear)

theorem leave (h : Guarded inside flag place agrees free) (holds : inside (place t) = true)
    (out : inside next = false) (agree : free') :
    Guarded inside false (Function.update place t next) agrees' free' := by
  have nobody : ∀ u, ¬ inside (Function.update place t next u) = true := by
    intro u held
    by_cases same : u = t
    · subst same
      rw [Function.update_self] at held
      exact Bool.noConfusion (out.symm.trans held)
    · rw [Function.update_of_ne same] at held
      exact same (h.alone u t held holds)
  exact ⟨⟨fun set => Bool.noConfusion set, fun some => absurd some.choose_spec (nobody _)⟩,
    fun u _ held => absurd held (nobody u), fun u held => absurd held (nobody u), fun _ => agree⟩

theorem elsewhere (h : Guarded inside flag place agrees free) (before : inside (place t) = false)
    (after : inside next = false) (keeps : ∀ p, agrees p → agrees' p) (keeps_free : free → free') :
    Guarded inside flag (Function.update place t next) agrees' free' := by
  have same : ∀ u, inside (Function.update place t next u) = inside (place u) := by
    intro u
    by_cases moved : u = t
    · subst moved
      rw [Function.update_self, before, after]
    · rw [Function.update_of_ne moved]
  refine ⟨?_, fun u v => ?_, fun u held => ?_, fun clear => keeps_free (h.released clear)⟩
  · simp only [same]
    exact h.flag_iff
  · rw [same, same]
    exact h.alone u v
  · rw [same] at held
    have moved : u ≠ t := fun moved => Bool.noConfusion (before.symm.trans (moved ▸ held))
    rw [Function.update_of_ne moved]
    exact keeps _ (h.held u held)

end Guarded
