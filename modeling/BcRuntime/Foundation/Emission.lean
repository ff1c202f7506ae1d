import BcRuntime.Foundation.Fallible
import Mathlib.Data.List.Infix

/-!
Computations that add to an output and may stop before their end. One that is made
of parts has emitted, wherever it stops, what the parts before it emit and a first
part of what the next one would.
-/

universe u

namespace Fallible

variable {ρ σ α β γ δ : Type u}

/-- Ending normally, a computation has added all of the data to the output; when it
fails, a first part of them. -/
def Emits (out : σ → List γ) (r : ρ) (m : Fallible ρ σ α) (data : List γ) : Prop :=
  ∀ s, wp m (fun _ s' => out s' = out s ++ data)
    (fun s' => ∃ part, part <+: data ∧ out s' = out s ++ part) r s

variable {out : σ → List γ} {r : ρ} {data data' : List γ}

theorem Emits.pure (a : α) : Emits out r (Pure.pure a) [] := by
  intro s
  rw [wp_pure, List.append_nil]

/-- A computation that leaves the output alone, whichever way it ends. -/
theorem Emits.of_silent {m : Fallible ρ σ α} (silent : ∀ s, out (m r s).2 = out s) :
    Emits out r m [] := by
  intro s
  have same : wp m (fun _ s' => out s' = out s) (fun s' => out s' = out s) r s :=
    (wp_always_iff (fun s' => out s' = out s) r s m).mpr (silent s)
  apply wp_mono same
  · intro a s' kept
    rw [kept, List.append_nil]
  · intro s' kept
    exact ⟨[], List.prefix_rfl, by rw [kept, List.append_nil]⟩

theorem Emits.bind {m : Fallible ρ σ α} {f : α → Fallible ρ σ β} (first : Emits out r m data)
    (second : ∀ a, Emits out r (f a) data') : Emits out r (m >>= f) (data ++ data') := by
  intro s
  rw [wp_bind]
  apply wp_mono (first s)
  · intro a s₁ whole
    apply wp_mono (second a s₁)
    · intro b s₂ more
      rw [more, whole, List.append_assoc]
    · intro s₂ stopped
      obtain ⟨part, begins, more⟩ := stopped
      refine ⟨data ++ part, (List.prefix_append_right_inj data).mpr begins, ?_⟩
      rw [more, whole, List.append_assoc]
  · intro s₁ stopped
    obtain ⟨part, begins, emitted⟩ := stopped
    exact ⟨part, begins.trans (List.prefix_append data data'), emitted⟩

/-- What has been emitted by the end, when its failure is caught. -/
theorem Emits.always {m : Fallible ρ σ α} (emits : Emits out r m data) (s : σ) :
    ∃ part, part <+: data ∧ out (m r s).2 = out s ++ part := by
  apply (wp_always_iff (fun s' => ∃ part, part <+: data ∧ out s' = out s ++ part) r s m).mp
  apply wp_mono (emits s)
  · intro a s' whole
    exact ⟨data, List.prefix_rfl, whole⟩
  · intro s' stopped
    exact stopped

end Fallible

namespace List

variable {α β : Type*} {text : α → List β}

/-- A first part of joined texts is a number of whole texts and a proper first part
of the one after them. -/
theorem exists_whole_of_prefix_flatMap (items : List α) {part : List β}
    (begins : part <+: items.flatMap text) :
    ∃ n ≤ items.length, ∃ rest, part = (items.take n).flatMap text ++ rest ∧
      (∀ item ∈ items[n]?, rest <+: text item ∧ rest.length < (text item).length) ∧
      (n = items.length → rest = []) := by
  induction items generalizing part with
  | nil =>
      have empty : part = [] := prefix_nil.mp begins
      refine ⟨0, Nat.le_refl 0, [], empty, ?_, fun _ => rfl⟩
      intro item mem
      cases mem
  | cons first items ih =>
      rw [flatMap_cons] at begins
      by_cases short : part.length < (text first).length
      · have inside : part <+: text first :=
          prefix_of_prefix_length_le begins (prefix_append _ _) (Nat.le_of_lt short)
        refine ⟨0, Nat.zero_le _, part, rfl, ?_, fun none => absurd none (by simp)⟩
        intro item mem
        cases mem
        exact ⟨inside, short⟩
      · have whole : text first <+: part :=
          prefix_of_prefix_length_le (prefix_append _ _) begins (Nat.le_of_not_lt short)
        obtain ⟨later, rfl⟩ := whole
        have begins' := (prefix_append_right_inj (text first)).mp begins
        obtain ⟨n, inRange, rest, split, next, last⟩ := ih begins'
        refine ⟨n + 1, Nat.succ_le_succ inRange, rest, ?_, ?_, ?_⟩
        · rw [split, take_succ_cons, flatMap_cons, append_assoc]
        · intro item mem
          exact next item mem
        · intro all
          exact last (Nat.succ.inj all)

end List
