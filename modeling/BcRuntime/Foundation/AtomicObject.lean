import Mathlib.Data.List.Nodup
import Mathlib.Logic.Function.Basic

/-!
Objects that many threads use at once. A history of calls and answers is
linearizable when the calls can be put into one order, in which a sequential object
gives the same answers and no call comes before one that was answered before it was
made. The atomic object does each call in a single step of its own somewhere between
the call and the answer, so its histories are linearizable; and so are those of
every implementation that it simulates.
-/

namespace AtomicObject

variable {Thread Id Op Res σ S A : Type*}

/-- What the clients of an object see of it. -/
inductive ClientEvent (Thread Op Res : Type*)
  | invoke (t : Thread) (op : Op)
  | respond (t : Thread) (result : Res)

/-- The same with a name for each call. -/
inductive HistoryEvent (Id Op Res : Type*)
  | invoked (id : Id) (op : Op)
  | responded (id : Id) (result : Res)

structure Effect (Id Op Res : Type*) where
  id : Id
  op : Op
  result : Res

/-- The calls one after another on a sequential object. -/
inductive Legal (spec : σ → Op → Res → σ → Prop) (start : σ) : List (Effect Id Op Res) → σ → Prop
  | nil : Legal spec start [] start
  | concat {order : List (Effect Id Op Res)} {s s' : σ} {effect : Effect Id Op Res}
      (before : Legal spec start order s) (next : spec s effect.op effect.result s') :
      Legal spec start (order ++ [effect]) s'

def ids (order : List (Effect Id Op Res)) : List Id := order.map Effect.id

/-- The order explains the history. Every call that was answered is in it with its
answer, and a call not answered yet may be; a call comes after all those that had
been answered when it was made. -/
structure Linearizes (spec : σ → Op → Res → σ → Prop) (start : σ)
    (history : List (HistoryEvent Id Op Res)) (order : List (Effect Id Op Res)) (final : σ) :
    Prop where
  once : (ids order).Nodup
  made : ∀ effect ∈ order, .invoked effect.id effect.op ∈ history
  answered : ∀ id result, .responded id result ∈ history →
    ∃ effect ∈ order, effect.id = id ∧ effect.result = result
  legal : Legal spec start order final
  realTime : ∀ past id op, past ++ [.invoked id op] <+: history →
    ∀ first effect rest, order = first ++ effect :: rest → effect.id = id →
      ∀ earlier result, .responded earlier result ∈ past → earlier ∈ ids first

namespace Linearizes
variable {spec : σ → Op → Res → σ → Prop} {start final final' : σ}
  {history : List (HistoryEvent Id Op Res)} {order : List (Effect Id Op Res)} {id : Id} {op : Op}
  {result : Res}

theorem nil : Linearizes spec start ([] : List (HistoryEvent Id Op Res)) [] start where
  once := List.nodup_nil
  made := fun _ mem => absurd mem List.not_mem_nil
  answered := fun _ _ mem => absurd mem List.not_mem_nil
  legal := .nil
  realTime := by
    intro past id op sub
    simp at sub

theorem answered_mem (h : Linearizes spec start history order final)
    (mem : .responded id result ∈ history) : id ∈ ids order := by
  obtain ⟨effect, effect_mem, rfl, -⟩ := h.answered id result mem
  exact List.mem_map_of_mem effect_mem

theorem invoke (h : Linearizes spec start history order final)
    (fresh : ∀ op, .invoked id op ∉ history) :
    Linearizes spec start (history ++ [.invoked id op]) order final where
  once := h.once
  made := fun effect mem => List.mem_append_left _ (h.made effect mem)
  answered := fun other result mem => by
    cases List.mem_append.mp mem with
    | inl earlier => exact h.answered other result earlier
    | inr last => cases List.mem_singleton.mp last
  legal := h.legal
  realTime := by
    intro past other op' sub first effect rest split same earlier result mem
    rcases List.prefix_concat_iff.mp sub with whole | sub
    · obtain ⟨-, last⟩ := List.append_inj' whole rfl
      obtain ⟨rfl, -⟩ := HistoryEvent.invoked.inj (List.cons.inj last).1
      have effect_mem : effect ∈ order := split ▸ List.mem_append_right _ List.mem_cons_self
      exact absurd (same ▸ h.made effect effect_mem) (fresh effect.op)
    · exact h.realTime past other op' sub first effect rest split same earlier result mem

theorem takeEffect (h : Linearizes spec start history order final)
    (called : .invoked id op ∈ history) (pending : id ∉ ids order)
    (next : spec final op result final') :
    Linearizes spec start history (order ++ [⟨id, op, result⟩]) final' where
  once := by
    rw [ids, List.map_append]
    refine List.nodup_append.mpr ⟨h.once, List.nodup_singleton _, fun other mem last here => ?_⟩
    obtain rfl := List.mem_singleton.mp here
    exact fun same => pending (same ▸ mem)
  made := fun effect mem => by
    cases List.mem_append.mp mem with
    | inl earlier => exact h.made effect earlier
    | inr last =>
        obtain rfl := List.mem_singleton.mp last
        exact called
  answered := fun other answer mem => by
    obtain ⟨effect, effect_mem, same⟩ := h.answered other answer mem
    exact ⟨effect, List.mem_append_left _ effect_mem, same⟩
  legal := .concat h.legal next
  realTime := by
    intro past other op' sub first effect rest split same earlier answer mem
    cases List.eq_nil_or_concat rest with
    | inl none =>
        subst none
        obtain ⟨rfl, -⟩ := List.append_inj' split rfl
        exact h.answered_mem (sub.subset (List.mem_append_left _ mem))
    | inr some =>
        obtain ⟨rest', last, rfl⟩ := some
        rw [List.concat_eq_append, ← List.cons_append, ← List.append_assoc] at split
        obtain ⟨split', -⟩ := List.append_inj' split rfl
        exact h.realTime past other op' sub first effect rest' split' same earlier answer mem

theorem respond (h : Linearizes spec start history order final) {effect : Effect Id Op Res}
    (mem : effect ∈ order) :
    Linearizes spec start (history ++ [.responded effect.id effect.result]) order final where
  once := h.once
  made := fun other other_mem => List.mem_append_left _ (h.made other other_mem)
  answered := fun id result answered => by
    cases List.mem_append.mp answered with
    | inl earlier => exact h.answered id result earlier
    | inr last =>
        obtain ⟨rfl, rfl⟩ := HistoryEvent.responded.inj (List.mem_singleton.mp last)
        exact ⟨effect, mem, rfl, rfl⟩
  legal := h.legal
  realTime := by
    intro past id op sub first other rest split same earlier result answered
    rcases List.prefix_concat_iff.mp sub with whole | sub
    · obtain ⟨-, last⟩ := List.append_inj' whole rfl
      cases (List.cons.inj last).1
    · exact h.realTime past id op sub first other rest split same earlier result answered

end Linearizes

section Recording
variable [DecidableEq Thread]

/-- A history in the making, and how many calls each thread has made so far. A call
is named by its thread and its number there. -/
structure Recorder (Thread Op Res : Type*) where
  count : Thread → Nat
  history : List (HistoryEvent (Thread × Nat) Op Res)

namespace Recorder

def empty : Recorder Thread Op Res := ⟨fun _ => 0, []⟩

def last (recorder : Recorder Thread Op Res) (t : Thread) : Thread × Nat := (t, recorder.count t)

def record (recorder : Recorder Thread Op Res) : ClientEvent Thread Op Res → Recorder Thread Op Res
  | .invoke t op =>
      { count := Function.update recorder.count t (recorder.count t + 1)
        history := recorder.history ++ [.invoked (t, recorder.count t + 1) op] }
  | .respond t result =>
      { recorder with history := recorder.history ++ [.responded (recorder.last t) result] }

end Recorder

def historyOf (events : List (ClientEvent Thread Op Res)) :
    List (HistoryEvent (Thread × Nat) Op Res) :=
  (events.foldl Recorder.record .empty).history

end Recording

/-- What a thread is doing: nothing, a call without effect yet, or one that has an
answer to give. -/
inductive Status (Op Res : Type*)
  | ready
  | pending (op : Op)
  | done (op : Op) (result : Res)

/-- The atomic object: the state of the sequential one, and the threads. -/
structure Atomic (Thread Op Res σ : Type*) where
  state : σ
  status : Thread → Status Op Res

section Runs
variable [DecidableEq Thread] (spec : σ → Op → Res → σ → Prop)

/-- A run of the atomic object, with the events its clients see. -/
inductive Runs (start : Atomic Thread Op Res σ) :
    List (ClientEvent Thread Op Res) → Atomic Thread Op Res σ → Prop
  | here : Runs start [] start
  | invoke {events : List (ClientEvent Thread Op Res)} {o : Atomic Thread Op Res σ} {t : Thread}
      (run : Runs start events o) (op : Op) (ready : o.status t = .ready) :
      Runs start (events ++ [.invoke t op])
        { o with status := Function.update o.status t (.pending op) }
  | perform {events : List (ClientEvent Thread Op Res)} {o : Atomic Thread Op Res σ} {t : Thread}
      {op : Op} {result : Res} {s' : σ} (run : Runs start events o)
      (pending : o.status t = .pending op) (next : spec o.state op result s') :
      Runs start events
        { state := s', status := Function.update o.status t (.done op result) }
  | respond {events : List (ClientEvent Thread Op Res)} {o : Atomic Thread Op Res σ} {t : Thread}
      {op : Op} {result : Res} (run : Runs start events o) (done : o.status t = .done op result) :
      Runs start (events ++ [.respond t result])
        { o with status := Function.update o.status t .ready }

/-- What the thread of a call does agrees with the history and the order. -/
def Status.Agrees (history : List (HistoryEvent Id Op Res)) (order : List (Effect Id Op Res))
    (id : Id) : Status Op Res → Prop
  | .ready => True
  | .pending op => .invoked id op ∈ history ∧ id ∉ ids order
  | .done op result => ⟨id, op, result⟩ ∈ order

/-- The order explains what has been recorded, and what every thread does. -/
structure Explains (start : σ) (recorder : Recorder Thread Op Res)
    (order : List (Effect (Thread × Nat) Op Res)) (o : Atomic Thread Op Res σ) : Prop where
  linearizes : Linearizes spec start recorder.history order o.state
  agrees : ∀ t, (o.status t).Agrees recorder.history order (recorder.last t)
  fresh : ∀ t n op, recorder.count t < n → .invoked (t, n) op ∉ recorder.history

variable {spec} {start : σ} {recorder : Recorder Thread Op Res}
  {order : List (Effect (Thread × Nat) Op Res)} {o : Atomic Thread Op Res σ} {t : Thread} {op : Op}
  {result : Res}

omit [DecidableEq Thread] in
/-- More events and effects of other threads change nothing for a thread. -/
theorem Status.Agrees.later {history history' : List (HistoryEvent Id Op Res)}
    {order order' : List (Effect Id Op Res)} {id : Id} {status : Status Op Res}
    (h : status.Agrees history order id) (events : history ⊆ history') (effects : order ⊆ order')
    (others : id ∈ ids order' → id ∈ ids order) : status.Agrees history' order' id := by
  cases status with
  | ready => trivial
  | pending op => exact ⟨events h.1, fun mem => h.2 (others mem)⟩
  | done op result => exact effects h

theorem Explains.invoke (h : Explains spec start recorder order o) (op : Op) :
    Explains spec start (recorder.record (.invoke t op)) order
      { o with status := Function.update o.status t (.pending op) } where
  linearizes := h.linearizes.invoke fun other => h.fresh t _ other (Nat.lt_succ_self _)
  agrees := by
    intro u
    by_cases same : u = t
    · subst same
      simp only [Function.update_self, Recorder.record, Recorder.last]
      refine ⟨List.mem_append_right _ List.mem_cons_self, fun mem => ?_⟩
      obtain ⟨effect, effect_mem, id⟩ := List.mem_map.mp mem
      exact h.fresh u _ effect.op (Nat.lt_succ_self _) (id ▸ h.linearizes.made effect effect_mem)
    · simp only [Function.update_of_ne same, Recorder.record, Recorder.last]
      exact (h.agrees u).later (List.subset_append_left _ _) (List.Subset.refl _) fun mem => mem
  fresh := by
    intro u n other later mem
    rcases List.mem_append.mp mem with earlier | last
    · refine h.fresh u n other ?_ earlier
      by_cases same : u = t
      · subst same
        simp only [Recorder.record, Function.update_self] at later
        exact Nat.lt_of_succ_lt later
      · simpa only [Recorder.record, Function.update_of_ne same] using later
    · obtain ⟨id, -⟩ := HistoryEvent.invoked.inj (List.mem_singleton.mp last)
      obtain ⟨rfl, rfl⟩ := Prod.mk.inj id
      simp [Recorder.record] at later

theorem Explains.perform (h : Explains spec start recorder order o)
    (pending : o.status t = .pending op) {s' : σ} (next : spec o.state op result s') :
    Explains spec start recorder (order ++ [⟨recorder.last t, op, result⟩])
      { state := s', status := Function.update o.status t (.done op result) } where
  linearizes := by
    have called := h.agrees t
    rw [pending] at called
    exact h.linearizes.takeEffect called.1 called.2 next
  agrees := by
    intro u
    by_cases same : u = t
    · subst same
      simp only [Function.update_self]
      exact List.mem_append_right _ List.mem_cons_self
    · simp only [Function.update_of_ne same]
      refine (h.agrees u).later (List.Subset.refl _) (List.subset_append_left _ _) fun mem => ?_
      rw [ids, List.map_append] at mem
      refine (List.mem_append.mp mem).resolve_right fun last => same ?_
      exact (Prod.mk.inj (List.mem_singleton.mp last)).1
  fresh := h.fresh

theorem Explains.respond (h : Explains spec start recorder order o)
    (done : o.status t = .done op result) :
    Explains spec start (recorder.record (.respond t result)) order
      { o with status := Function.update o.status t .ready } where
  linearizes := by
    have effect := h.agrees t
    rw [done] at effect
    exact h.linearizes.respond effect
  agrees := by
    intro u
    by_cases same : u = t
    · subst same
      simp only [Function.update_self]
      trivial
    · simp only [Function.update_of_ne same]
      exact (h.agrees u).later (List.subset_append_left _ _) (List.Subset.refl _) fun mem => mem
  fresh := by
    intro u n other later mem
    rcases List.mem_append.mp mem with earlier | last
    · exact h.fresh u n other later earlier
    · cases List.mem_singleton.mp last

theorem Runs.explained {status : Thread → Status Op Res} (ready : ∀ t, status t = .ready)
    {events : List (ClientEvent Thread Op Res)} (run : Runs spec ⟨start, status⟩ events o) :
    ∃ order, Explains spec start (events.foldl Recorder.record .empty) order o := by
  induction run with
  | here =>
      refine ⟨[], .nil, fun t => ?_, fun _ _ _ _ => List.not_mem_nil⟩
      change (status t).Agrees _ _ _
      rw [ready t]
      trivial
  | invoke run op ready ih =>
      obtain ⟨order, explains⟩ := ih
      rw [List.foldl_append]
      exact ⟨order, explains.invoke op⟩
  | perform run pending next ih =>
      obtain ⟨order, explains⟩ := ih
      exact ⟨_, explains.perform pending next⟩
  | respond run done ih =>
      obtain ⟨order, explains⟩ := ih
      rw [List.foldl_append]
      exact ⟨order, explains.respond done⟩

/-- The order of the effects linearizes the history of every run. -/
theorem Runs.linearizable {status : Thread → Status Op Res} (ready : ∀ t, status t = .ready)
    {events : List (ClientEvent Thread Op Res)} (run : Runs spec ⟨start, status⟩ events o) :
    ∃ order, Linearizes spec start (historyOf events) order o.state := by
  obtain ⟨order, explains⟩ := run.explained ready
  exact ⟨order, explains.linearizes⟩

end Runs

section Simulation
variable [DecidableEq Thread] {spec : σ → Op → Res → σ → Prop} {step : S → A → S}
  {events : S → A → List (ClientEvent Thread Op Res)} {R : S → Atomic Thread Op Res σ → Prop}

def visible (step : S → A → S) (events : S → A → List (ClientEvent Thread Op Res)) :
    S → List A → List (ClientEvent Thread Op Res)
  | _, [] => []
  | s, a :: schedule => events s a ++ visible step events (step s a) schedule

theorem Runs.append {o o' o'' : Atomic Thread Op Res σ}
    {first second : List (ClientEvent Thread Op Res)} (run : Runs spec o first o')
    (more : Runs spec o' second o'') : Runs spec o (first ++ second) o'' := by
  induction more with
  | here => rwa [List.append_nil]
  | invoke more op ready ih =>
      rw [← List.append_assoc]
      exact ih.invoke op ready
  | perform more pending next ih => exact ih.perform pending next
  | respond more done ih =>
      rw [← List.append_assoc]
      exact ih.respond done

/-- Every step of the implementation is a run of the atomic object with the same events. -/
def Simulates (spec : σ → Op → Res → σ → Prop) (step : S → A → S)
    (events : S → A → List (ClientEvent Thread Op Res)) (R : S → Atomic Thread Op Res σ → Prop) :
    Prop :=
  ∀ s a o, R s o → ∃ o', Runs spec o (events s a) o' ∧ R (step s a) o'

theorem Simulates.run (simulates : Simulates spec step events R) (schedule : List A) {s : S}
    {o : Atomic Thread Op Res σ} (related : R s o) :
    ∃ o', Runs spec o (visible step events s schedule) o' ∧ R (schedule.foldl step s) o' := by
  induction schedule generalizing s o with
  | nil => exact ⟨o, .here, related⟩
  | cons a schedule ih =>
      obtain ⟨o₁, first, related₁⟩ := simulates s a o related
      obtain ⟨o₂, rest, related₂⟩ := ih related₁
      exact ⟨o₂, first.append rest, related₂⟩

theorem Simulates.linearizable (simulates : Simulates spec step events R) (schedule : List A)
    {s : S} {start : σ} {status : Thread → Status Op Res} (ready : ∀ t, status t = .ready)
    (related : R s ⟨start, status⟩) :
    ∃ order o, Linearizes spec start (historyOf (visible step events s schedule)) order o.state ∧
      R (schedule.foldl step s) o := by
  obtain ⟨o, run, related'⟩ := simulates.run schedule related
  obtain ⟨order, linearizes⟩ := run.linearizable ready
  exact ⟨order, o, linearizes, related'⟩

end Simulation

end AtomicObject
