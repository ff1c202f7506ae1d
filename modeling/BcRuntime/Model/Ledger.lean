import BcRuntime.Model.Machine
import Mathlib.Data.List.Perm.Basic

/-!
What a computation holds of the resources it has acquired. A ledger is read off
the events since a machine the computation started from: each resource is
acquired at most once, released only after that and at most once, and held in
between. New acquisitions are new resources, since they carry the number of the
call that made them.
-/

namespace BcRuntime
open Fallible Run

/-- A well-ordered list of events, and what it leaves held. -/
structure Ledger (events : List Event) (held : List Resource) : Prop where
  acquired_once : ∀ r, events.count (.acquired r) ≤ 1
  balance : ∀ r, events.count (.released r) + held.count r = events.count (.acquired r)
  ordered : ∀ first, first <+: events → ∀ r, .released r ∈ first → .acquired r ∈ first

namespace Ledger

variable {events : List Event} {held held' : List Resource} {resource : Resource}

theorem nil : Ledger [] [] where
  acquired_once := fun _ => Nat.zero_le 1
  balance := fun _ => rfl
  ordered := by
    intro first first_nil r mem
    rw [List.prefix_nil.mp first_nil] at mem
    exact absurd mem List.not_mem_nil

theorem perm (h : Ledger events held) (same : held.Perm held') : Ledger events held' where
  acquired_once := h.acquired_once
  balance := fun r => same.count_eq r ▸ h.balance r
  ordered := h.ordered

/-- A prefix of a list with a new last element is a prefix without it, or everything. -/
theorem ordered_append {event : Event} (h : Ledger events held)
    (last : ∀ r, event = .released r → .acquired r ∈ events) :
    ∀ first, first <+: events ++ [event] → ∀ r, .released r ∈ first → .acquired r ∈ first := by
  intro first sub r mem
  rcases List.prefix_concat_iff.mp sub with rfl | sub
  · refine List.mem_append_left _ ?_
    cases List.mem_append.mp mem with
    | inl earlier => exact h.ordered events List.prefix_rfl r earlier
    | inr here => exact last r (List.mem_singleton.mp here).symm
  · exact h.ordered first sub r mem

theorem acquire (h : Ledger events held) (fresh : .acquired resource ∉ events) :
    Ledger (events ++ [.acquired resource]) (resource :: held) where
  acquired_once := by
    intro r
    by_cases same : resource = r
    · subst same
      simp [List.count_eq_zero.mpr fresh]
    · simpa [List.count_append, same] using h.acquired_once r
  balance := by
    intro r
    have before := h.balance r
    by_cases same : resource = r
    · subst same
      simp [List.count_append]
      omega
    · simpa [List.count_append, same] using before
  ordered := h.ordered_append fun r released => Event.noConfusion released

theorem release (h : Ledger events (resource :: held)) :
    Ledger (events ++ [.released resource]) held where
  acquired_once := by
    intro r
    simpa [List.count_append] using h.acquired_once r
  balance := by
    intro r
    have before := h.balance r
    by_cases same : resource = r
    · subst same
      simp [List.count_append] at before ⊢
      omega
    · simpa [List.count_append, same] using before
  ordered := by
    refine h.ordered_append fun r released => ?_
    obtain rfl := Event.released.inj released
    have here := h.balance resource
    rw [List.count_cons_self] at here
    exact List.count_pos_iff.mp (by omega)

end Ledger

/-- What is held of the resources acquired since the machine `start`. -/
def Holds (start : Machine) (held : List Resource) (m : Machine) : Prop :=
  ∃ events, m.trace = start.trace ++ events ∧ Ledger events held ∧
    ∀ r, .acquired r ∈ events → r.id < m.calls

namespace Holds

variable {start m m' : Machine} {held held' : List Resource} {resource : Resource}

theorem refl (m : Machine) : Holds m [] m :=
  ⟨[], (List.append_nil _).symm, .nil, fun _ mem => absurd mem List.not_mem_nil⟩

theorem perm (h : Holds start held m) (same : held.Perm held') : Holds start held' m := by
  obtain ⟨events, trace, ledger, old⟩ := h
  exact ⟨events, trace, ledger.perm same, old⟩

/-- Nothing but calls outside and the store has changed. -/
theorem of_trace_eq (h : Holds start held m) (trace : m'.trace = m.trace)
    (later : m.calls ≤ m'.calls) : Holds start held m' := by
  obtain ⟨events, before, ledger, old⟩ := h
  exact ⟨events, trace.trans before, ledger, fun r mem => Nat.lt_of_lt_of_le (old r mem) later⟩

theorem acquire (h : Holds start held m) (fresh : resource.id = m.calls)
    (trace : m'.trace = m.trace ++ [.acquired resource]) (later : m.calls < m'.calls) :
    Holds start (resource :: held) m' := by
  obtain ⟨events, before, ledger, old⟩ := h
  refine ⟨events ++ [.acquired resource], ?_, ledger.acquire ?_, fun r mem => ?_⟩
  · rw [trace, before, List.append_assoc]
  · exact fun mem => Nat.lt_irrefl _ (fresh ▸ old resource mem)
  · cases List.mem_append.mp mem with
    | inl earlier => exact Nat.lt_trans (old r earlier) later
    | inr here =>
        obtain rfl := Event.acquired.inj (List.mem_singleton.mp here)
        exact fresh ▸ later

theorem release (h : Holds start (resource :: held) m)
    (trace : m'.trace = m.trace ++ [.released resource]) (later : m.calls ≤ m'.calls) :
    Holds start held m' := by
  obtain ⟨events, before, ledger, old⟩ := h
  refine ⟨events ++ [.released resource], ?_, ledger.release, fun r mem => ?_⟩
  · rw [trace, before, List.append_assoc]
  · cases List.mem_append.mp mem with
    | inl earlier => exact Nat.lt_of_lt_of_le (old r earlier) later
    | inr here => exact Event.noConfusion (List.mem_singleton.mp here)

end Holds

section Rules
variable {host : Host} {start m : Machine} {held : List Resource}

theorem external_holds (call : ExternalCall) (h : Holds start held m) :
    wp (external call) (fun _ m' => m'.store = m.store ∧ Holds start held m')
      (fun m' => m'.store = m.store ∧ Holds start held m') host m := by
  have called : Holds start held { m with calls := m.calls + 1 } :=
    h.of_trace_eq rfl (Nat.le_succ _)
  exact (wp_external _ _).mpr ⟨fun _ => ⟨rfl, called⟩, fun _ => ⟨rfl, called⟩⟩

theorem acquire_holds (kind : ResourceKind) (call : ExternalCall) (h : Holds start held m) :
    wp (acquire kind call)
      (fun r m' => r.kind = kind ∧ m'.store = m.store ∧ Holds start (r :: held) m')
      (fun m' => m'.store = m.store ∧ Holds start held m') host m := by
  rw [Run.acquire, wp_bind, wp_external]
  refine ⟨fun _ => ?_, fun _ => ⟨rfl, h.of_trace_eq rfl (Nat.le_succ _)⟩⟩
  exact ⟨rfl, rfl, h.acquire rfl rfl (Nat.lt_succ_self _)⟩

theorem release_holds {resource : Resource} (h : Holds start (resource :: held) m)
    {E : Machine → Prop} :
    wp (release resource) (fun _ m' => m'.store = m.store ∧ Holds start held m') E host m :=
  (wp_release _ _).mpr ⟨rfl, h.release rfl (Nat.le_refl _)⟩

theorem poolReallocate_holds {block : Resource} (size : Nat)
    (h : Holds start (block :: held) m) :
    wp (poolReallocate block size)
      (fun r m' => m'.store = m.store ∧ Holds start (r :: held) m')
      (fun m' => m'.store = m.store ∧ Holds start (block :: held) m') host m := by
  rw [poolReallocate, wp_bind, wp_external]
  refine ⟨fun _ => ?_, fun _ => ⟨rfl, h.of_trace_eq rfl (Nat.le_succ _)⟩⟩
  have given_back : Holds start held { m with trace := m.trace ++ [.released block] } :=
    h.release rfl (Nat.le_refl _)
  exact ⟨rfl, given_back.acquire rfl rfl (Nat.lt_succ_self _)⟩

end Rules

end BcRuntime
