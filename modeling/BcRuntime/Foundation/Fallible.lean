import Mathlib.Logic.Basic
import Mathlib.Tactic.Common

/-!
Computations that read an environment, change a state and may fail. Unlike
`OptionT` over a rolled-back state, a failure keeps the state reached: a C
function that returns `false` leaves behind whatever it has already done.

The logic is one weakest-precondition transformer with a postcondition for each
way a computation can end. Every rule is an equivalence, so a specification is
unfolded from a program and never guessed.
-/

universe u

/-- A computation over environment `ρ` and state `σ`; `none` is failure. -/
def Fallible (ρ σ α : Type u) : Type u := ρ → σ → Option α × σ

namespace Fallible

variable {ρ σ α β : Type u}

instance : Monad (Fallible ρ σ) where
  pure a := fun _ s => (some a, s)
  bind m f := fun r s =>
    match m r s with
    | (some a, s') => f a r s'
    | (none, s') => (none, s')

/-- Failure with the state as it stands. -/
def fail : Fallible ρ σ α := fun _ s => (none, s)

def ask : Fallible ρ σ ρ := fun r s => (some r, s)

def get : Fallible ρ σ σ := fun _ s => (some s, s)

def modify (f : σ → σ) : Fallible ρ σ PUnit := fun _ s => (some ⟨⟩, f s)

/-- Run a computation whose failure the caller inspects or ignores. -/
def attempt (m : Fallible ρ σ α) : Fallible ρ σ (Option α) := fun r s =>
  (some (m r s).1, (m r s).2)

/-- Run the handler when the computation fails, then fail all the same. -/
def onFailure (m : Fallible ρ σ α) (handler : Fallible ρ σ β) : Fallible ρ σ α :=
  fun r s =>
    match m r s with
    | (some a, s') => (some a, s')
    | (none, s') => (none, (handler r s').2)

@[simp] theorem pure_run (a : α) (r : ρ) (s : σ) :
    (pure a : Fallible ρ σ α) r s = (some a, s) := rfl

theorem get_run (r : ρ) (s : σ) : (get : Fallible ρ σ σ) r s = (some s, s) := rfl

theorem bind_run (m : Fallible ρ σ α) (f : α → Fallible ρ σ β) (r : ρ) (s : σ) :
    (m >>= f) r s =
      match m r s with
      | (some a, s') => f a r s'
      | (none, s') => (none, s') := rfl

theorem bind_run_of_some {m : Fallible ρ σ α} {r : ρ} {s s' : σ} {a : α}
    (h : m r s = (some a, s')) (f : α → Fallible ρ σ β) :
    (m >>= f) r s = f a r s' := by
  rw [bind_run, h]

theorem bind_run_of_none {m : Fallible ρ σ α} {r : ρ} {s s' : σ}
    (h : m r s = (none, s')) (f : α → Fallible ρ σ β) :
    (m >>= f) r s = (none, s') := by
  rw [bind_run, h]

theorem attempt_run_of_some {m : Fallible ρ σ α} {r : ρ} {s s' : σ} {a : α}
    (h : m r s = (some a, s')) : attempt m r s = (some (some a), s') := by
  rw [attempt, h]

theorem attempt_run_of_none {m : Fallible ρ σ α} {r : ρ} {s s' : σ}
    (h : m r s = (none, s')) : attempt m r s = (some none, s') := by
  rw [attempt, h]

theorem bind_run_eq_some_iff {m : Fallible ρ σ α} {f : α → Fallible ρ σ β} {r : ρ} {s s' : σ}
    {b : β} :
    (m >>= f) r s = (some b, s') ↔ ∃ a s₁, m r s = (some a, s₁) ∧ f a r s₁ = (some b, s') := by
  rw [bind_run]
  rcases m r s with ⟨_ | a, s₁⟩ <;> simp

instance : LawfulMonad (Fallible ρ σ) :=
  LawfulMonad.mk' _
    (fun m => by
      funext r s
      change (m >>= fun a => pure (id a)) r s = m r s
      rw [bind_run]
      rcases m r s with ⟨_ | a, s'⟩ <;> rfl)
    (fun _ _ => rfl)
    (fun m f g => by
      funext r s
      simp only [bind_run]
      rcases m r s with ⟨_ | a, s'⟩ <;> rfl)

/-- Weakest precondition: `Q` of a normal end, `E` of the state of a failure. -/
def wp (m : Fallible ρ σ α) (Q : α → σ → Prop) (E : σ → Prop) (r : ρ) (s : σ) : Prop :=
  match m r s with
  | (some a, s') => Q a s'
  | (none, s') => E s'

section Rules
variable (Q : α → σ → Prop) (E : σ → Prop) (r : ρ) (s : σ)

@[simp] theorem wp_pure (a : α) : wp (pure a) Q E r s ↔ Q a s := Iff.rfl

@[simp] theorem wp_fail : wp (fail : Fallible ρ σ α) Q E r s ↔ E s := Iff.rfl

@[simp] theorem wp_bind (m : Fallible ρ σ β) (f : β → Fallible ρ σ α) :
    wp (m >>= f) Q E r s ↔ wp m (fun b s' => wp (f b) Q E r s') E r s := by
  simp only [wp, bind_run]
  rcases m r s with ⟨_ | b, s'⟩ <;> rfl

@[simp] theorem wp_ask (Q : ρ → σ → Prop) :
    wp (ask : Fallible ρ σ ρ) Q E r s ↔ Q r s := Iff.rfl

@[simp] theorem wp_get (Q : σ → σ → Prop) :
    wp (get : Fallible ρ σ σ) Q E r s ↔ Q s s := Iff.rfl

@[simp] theorem wp_modify (f : σ → σ) (Q : PUnit → σ → Prop) :
    wp (modify f : Fallible ρ σ PUnit) Q E r s ↔ Q ⟨⟩ (f s) := Iff.rfl

@[simp] theorem wp_attempt (m : Fallible ρ σ α) (Q : Option α → σ → Prop) :
    wp (attempt m) Q E r s ↔
      wp m (fun a s' => Q (some a) s') (fun s' => Q none s') r s := by
  simp only [wp, attempt]
  rcases m r s with ⟨_ | a, s'⟩ <;> rfl

@[simp] theorem wp_onFailure (m : Fallible ρ σ α) (handler : Fallible ρ σ β) :
    wp (onFailure m handler) Q E r s ↔
      wp m Q (fun s' => wp handler (fun _ => E) E r s') r s := by
  simp only [wp, onFailure]
  rcases m r s with ⟨_ | a, s'⟩
  · rcases h : handler r s' with ⟨_ | b, s''⟩ <;> simp [h]
  · rfl

theorem wp_ite (c : Prop) [Decidable c] (m n : Fallible ρ σ α) :
    wp (if c then m else n) Q E r s ↔
      (c → wp m Q E r s) ∧ (¬ c → wp n Q E r s) := by
  by_cases h : c <;> simp [h]

/-- The transformer says what every run does, whichever way it ends. -/
theorem wp_iff (m : Fallible ρ σ α) :
    wp m Q E r s ↔
      (∀ a s', m r s = (some a, s') → Q a s') ∧ (∀ s', m r s = (none, s') → E s') := by
  simp only [wp]
  rcases m r s with ⟨_ | a, s'⟩ <;> simp

theorem wp_always_iff (m : Fallible ρ σ α) :
    wp m (fun _ s' => E s') E r s ↔ E (m r s).2 := by
  simp only [wp]
  rcases m r s with ⟨_ | a, s'⟩ <;> rfl

theorem wp_true (m : Fallible ρ σ α) : wp m (fun _ _ => True) (fun _ => True) r s :=
  (wp_always_iff (fun _ => True) r s m).mpr trivial

end Rules

section Derived
variable {Q Q' : α → σ → Prop} {E E' : σ → Prop} {r : ρ} {s s' : σ}

theorem wp_mono {m : Fallible ρ σ α} (h : wp m Q E r s)
    (hQ : ∀ a s', Q a s' → Q' a s') (hE : ∀ s', E s' → E' s') : wp m Q' E' r s := by
  rw [wp_iff] at h ⊢
  exact ⟨fun a s' run => hQ a s' (h.1 a s' run), fun s' run => hE s' (h.2 s' run)⟩

theorem wp_and {m : Fallible ρ σ α} (h : wp m Q E r s) (h' : wp m Q' E' r s) :
    wp m (fun a s' => Q a s' ∧ Q' a s') (fun s' => E s' ∧ E' s') r s := by
  rw [wp_iff] at h h' ⊢
  exact ⟨fun a s' run => ⟨h.1 a s' run, h'.1 a s' run⟩,
    fun s' run => ⟨h.2 s' run, h'.2 s' run⟩⟩

theorem wp_some {m : Fallible ρ σ α} (h : wp m Q E r s) {a : α}
    (run : m r s = (some a, s')) : Q a s' := ((wp_iff _ _ _ _ _).mp h).1 a s' run

theorem wp_none {m : Fallible ρ σ α} (h : wp m Q E r s)
    (run : m r s = (none, s')) : E s' := ((wp_iff _ _ _ _ _).mp h).2 s' run

/-- A result that every continuation gives, whatever comes before it. -/
theorem wp_bind_last {m : Fallible ρ σ β} {f : β → Fallible ρ σ α}
    (last : ∀ b s', wp (f b) Q (fun _ => True) r s') :
    wp (m >>= f) Q (fun _ => True) r s :=
  (wp_bind Q _ r s m f).mpr
    (wp_mono (wp_true r s m) (fun b s' _ => last b s') (fun _ _ => trivial))

theorem wp_onFailure_normal {m : Fallible ρ σ α} {handler : Fallible ρ σ β}
    (h : wp m Q (fun _ => True) r s) : wp (onFailure m handler) Q (fun _ => True) r s :=
  (wp_onFailure Q _ r s m handler).mpr
    (wp_mono h (fun _ _ normal => normal) (fun s' _ => wp_true r s' handler))

theorem wp_of_run {m : Fallible ρ σ α} {a : α} (run : m r s = (some a, s')) (h : Q a s') :
    wp m Q E r s := by
  rw [wp, run]
  exact h

/-- The two ways a computation can end, each with its postcondition. -/
theorem wp_cases {m : Fallible ρ σ α} (h : wp m Q E r s) :
    (∃ a s', m r s = (some a, s') ∧ Q a s') ∨ ∃ s', m r s = (none, s') ∧ E s' := by
  rw [wp] at h
  rcases run : m r s with ⟨_ | a, s'⟩
  · rw [run] at h
    exact .inr ⟨s', rfl, h⟩
  · rw [run] at h
    exact .inl ⟨a, s', rfl, h⟩

/-- Postconditions that name the value, or that there is none, give the result of the run. -/
theorem result_of_wp {m : Fallible ρ σ α} {result : Option α}
    (h : wp m (fun a _ => result = some a) (fun _ => result = none) r s) :
    (m r s).1 = result := by
  cases wp_cases h with
  | inl ended =>
      obtain ⟨a, s', run, value⟩ := ended
      rw [run, value]
  | inr failed =>
      obtain ⟨s', run, none⟩ := failed
      rw [run, none]

theorem exists_run_of_wp {m : Fallible ρ σ α} (h : wp m Q (fun _ => False) r s) :
    ∃ a s', m r s = (some a, s') ∧ Q a s' :=
  (wp_cases h).resolve_right fun failed => failed.elim fun _ unreachable => unreachable.2

end Derived

/-- A relation kept by every computation of a family, whichever way it ends. -/
def Keeps (R : σ → σ → Prop) (m : Fallible ρ σ α) : Prop :=
  ∀ r s, wp m (fun _ s' => R s s') (fun s' => R s s') r s

section Keeps
variable {R : σ → σ → Prop}

theorem Keeps.pure [Std.Refl R] (a : α) : Keeps R (Pure.pure a : Fallible ρ σ α) :=
  fun _ s => Std.Refl.refl s

theorem Keeps.fail [Std.Refl R] : Keeps R (Fallible.fail : Fallible ρ σ α) :=
  fun _ s => Std.Refl.refl s

theorem Keeps.modify {f : σ → σ} (h : ∀ s, R s (f s)) :
    Keeps R (Fallible.modify f : Fallible ρ σ PUnit) :=
  fun _ s => h s

theorem Keeps.bind [IsTrans σ R] {m : Fallible ρ σ α} {f : α → Fallible ρ σ β}
    (hm : Keeps R m) (hf : ∀ a, Keeps R (f a)) : Keeps R (m >>= f) := by
  intro r s
  rw [wp_bind]
  refine wp_mono (hm r s) (fun a s' first => ?_) (fun _ first => first)
  exact wp_mono (hf a r s') (fun _ _ second => IsTrans.trans _ _ _ first second)
    (fun _ second => IsTrans.trans _ _ _ first second)

theorem Keeps.attempt {m : Fallible ρ σ α} (hm : Keeps R m) : Keeps R (attempt m) :=
  fun r s => (wp_attempt _ _ _ _ _).mpr (hm r s)

theorem Keeps.onFailure [IsTrans σ R] {m : Fallible ρ σ α} {handler : Fallible ρ σ β}
    (hm : Keeps R m) (hh : Keeps R handler) : Keeps R (onFailure m handler) := by
  intro r s
  rw [wp_onFailure]
  refine wp_mono (hm r s) (fun _ _ first => first) (fun s' first => ?_)
  exact wp_mono (hh r s') (fun _ _ second => IsTrans.trans _ _ _ first second)
    (fun _ second => IsTrans.trans _ _ _ first second)

theorem Keeps.ite {c : Prop} [Decidable c] {m n : Fallible ρ σ α}
    (hm : Keeps R m) (hn : Keeps R n) : Keeps R (if c then m else n) := by
  by_cases h : c <;> simpa [h]

/-- A property kept as a relation between the ends. -/
theorem Keeps.of_wp {P : σ → Prop} {m : Fallible ρ σ α}
    (h : ∀ r s, P s → wp m (fun _ => P) P r s) : Keeps (fun s s' => P s → P s') m := by
  intro r s
  rw [wp_iff]
  refine ⟨fun a s' run before => ?_, fun s' run before => ?_⟩
  · exact ((wp_iff _ _ _ _ _).mp (h r s before)).1 a s' run
  · exact ((wp_iff _ _ _ _ _).mp (h r s before)).2 s' run

end Keeps

end Fallible
