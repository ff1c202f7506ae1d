import BcRuntime.App.ErrorCollector
import BcRuntime.Foundation.AtomicObject
import Mathlib.Data.Sum.Basic

/-!
What the threads that append to a collector and those that ask for its count can
tell of each other. An append takes effect at its `fetch_add` and a count at its
load, so the collector is an atomic object: every history has an order in which the
calls could have been made one after another.
-/

namespace BcRuntime
open AtomicObject

inductive CollectorOp (Stage : Type)
  | append (call : AppendCall Stage)
  | count

inductive CollectorAnswer
  | appended (pushOk : Bool)
  | counted (total : Nat)

/-- A collector used by one thread: it keeps the calls it does not refuse. -/
inductive CollectorSpec {Stage : Type} :
    List (AppendCall Stage) → CollectorOp Stage → CollectorAnswer → List (AppendCall Stage) → Prop
  | keep (kept : List (AppendCall Stage)) (call : AppendCall Stage) :
      CollectorSpec kept (.append call) (.appended true) (kept ++ [call])
  | refuse (kept : List (AppendCall Stage)) (call : AppendCall Stage) :
      CollectorSpec kept (.append call) (.appended false) kept
  | count (kept : List (AppendCall Stage)) :
      CollectorSpec kept .count (.counted kept.length) kept

/-- Where a thread is in `bc_runtime_error_collector_count`: before its load, or with
the value it has loaded. -/
inductive CountPlace
  | idle
  | loading
  | loaded (total : Nat)

/-- A collector with the threads that append, and with those that count. -/
structure SharedCollector (Stage Thread Reader : Type) where
  collector : ErrorCollector Stage Thread
  reading : Reader → CountPlace

inductive CollectorAction (Stage Thread Reader : Type)
  | append (turn : Thread × AppendAction Stage)
  | count (reader : Reader)

variable {Stage Thread Reader : Type}

/-- The calls and the returns of `bc_runtime_error_collector_append`. -/
def AppendPlace.events : AppendPlace Stage → AppendAction Stage → Thread →
    List (ClientEvent (Thread ⊕ Reader) (CollectorOp Stage) CollectorAnswer)
  | .idle, .call call, t => [.invoke (.inl t) (.append call)]
  | .measuring _, .proceed false, t => [.respond (.inl t) (.appended false)]
  | .unlocking _ pushOk, .proceed _, t => [.respond (.inl t) (.appended pushOk)]
  | _, _, _ => []

/-- What a call has come to: a successful append has its effect once it is counted. -/
def AppendPlace.status : AppendPlace Stage → Status (CollectorOp Stage) CollectorAnswer
  | .idle => .ready
  | .measuring call | .locking call | .reading call | .writing call _ | .publishing call _
  | .counting call | .unlocking call false => .pending (.append call)
  | .unlocking call true => .done (.append call) (.appended true)

namespace CountPlace

def step (total : Nat) : CountPlace → CountPlace
  | .idle => .loading
  | .loading => .loaded total
  | .loaded _ => .idle

def events : CountPlace → Reader →
    List (ClientEvent (Thread ⊕ Reader) (CollectorOp Stage) CollectorAnswer)
  | .idle, reader => [.invoke (.inr reader) .count]
  | .loading, _ => []
  | .loaded total, reader => [.respond (.inr reader) (.counted total)]

def status : CountPlace → Status (CollectorOp Stage) CollectorAnswer
  | .idle => .ready
  | .loading => .pending .count
  | .loaded total => .done .count (.counted total)

end CountPlace

namespace SharedCollector

def created (cells : Nat → ErrorRecord Stage) : SharedCollector Stage Thread Reader where
  collector := .created cells
  reading := fun _ => .idle

def status (shared : SharedCollector Stage Thread Reader) :
    Thread ⊕ Reader → Status (CollectorOp Stage) CollectorAnswer :=
  Sum.elim (AppendPlace.status ∘ shared.collector.place) (CountPlace.status ∘ shared.reading)

def events (shared : SharedCollector Stage Thread Reader) :
    CollectorAction Stage Thread Reader →
      List (ClientEvent (Thread ⊕ Reader) (CollectorOp Stage) CollectorAnswer)
  | .append (t, action) => (shared.collector.place t).events action t
  | .count reader => (shared.reading reader).events reader

variable [DecidableEq Thread] [DecidableEq Reader]

def step (shared : SharedCollector Stage Thread Reader) :
    CollectorAction Stage Thread Reader → SharedCollector Stage Thread Reader
  | .append turn => { shared with collector := shared.collector.step turn }
  | .count reader =>
      { shared with
        reading := Function.update shared.reading reader
          ((shared.reading reader).step shared.collector.count) }

/-- The atomic object has kept the records that are counted. -/
structure Represents (shared : SharedCollector Stage Thread Reader)
    (o : Atomic (Thread ⊕ Reader) (CollectorOp Stage) CollectorAnswer (List (AppendCall Stage))) :
    Prop where
  invariant : shared.collector.Invariant
  total : o.state.length = shared.collector.totalCount
  records : o.state.map AppendCall.record <+: shared.collector.records
  status : o.status = shared.status

omit [DecidableEq Reader] in
/-- The turn moves its thread to a place, and counts nothing. -/
def Moves (shared : SharedCollector Stage Thread Reader) (turn : Thread × AppendAction Stage)
    (next : AppendPlace Stage) : Prop :=
  (shared.collector.step turn).totalCount = shared.collector.totalCount ∧
    (shared.collector.step turn).place = Function.update shared.collector.place turn.1 next

section Simulation
variable {shared : SharedCollector Stage Thread Reader}
  {o : Atomic (Thread ⊕ Reader) (CollectorOp Stage) CollectorAnswer (List (AppendCall Stage))}
  {t : Thread} {action : AppendAction Stage} {next : AppendPlace Stage}

omit [DecidableEq Reader] in
theorem status_moved [DecidableEq (Thread ⊕ Reader)] (shared : SharedCollector Stage Thread Reader)
    {collector : ErrorCollector Stage Thread}
    (moved : collector.place = Function.update shared.collector.place t next) :
    SharedCollector.status { shared with collector := collector } =
      Function.update shared.status (.inl t) next.status := by
  rw [status, status, moved, Function.comp_update, Sum.update_elim_inl]

omit [DecidableEq Thread] [DecidableEq Reader] in
theorem Represents.status_at (h : shared.Represents o) {place : AppendPlace Stage}
    (here : shared.collector.place t = place) : o.status (.inl t) = place.status := by
  rw [h.status, ← here]
  rfl

theorem Represents.moved (h : shared.Represents o) (moves : shared.Moves (t, action) next) :
    (shared.step (.append (t, action))).Represents
      { o with status := Function.update o.status (.inl t) next.status } where
  invariant := h.invariant.step _
  total := h.total.trans moves.1.symm
  records := h.records.trans (h.invariant.step_records _)
  status := by
    rw [h.status]
    exact (status_moved shared moves.2).symm

/-- A step without an event or an effect: the thread moves on in its call. -/
theorem Represents.silent (h : shared.Represents o) (moves : shared.Moves (t, action) next)
    (events : shared.events (.append (t, action)) = [])
    (same : next.status = (shared.collector.place t).status) :
    ∃ o', Runs CollectorSpec o (shared.events (.append (t, action))) o' ∧
      (shared.step (.append (t, action))).Represents o' := by
  have represents := h.moved moves
  rw [same, ← h.status_at rfl, Function.update_eq_self] at represents
  exact ⟨o, events ▸ .here, represents⟩

/-- A refused append has its effect when it returns. -/
theorem Represents.refused (h : shared.Represents o) {call : AppendCall Stage}
    (pending : o.status (.inl t) = .pending (.append call))
    (moves : shared.Moves (t, action) .idle)
    (events : shared.events (.append (t, action)) = [.respond (.inl t) (.appended false)]) :
    ∃ o', Runs CollectorSpec o (shared.events (.append (t, action))) o' ∧
      (shared.step (.append (t, action))).Represents o' := by
  have performed := Runs.here.perform pending (CollectorSpec.refuse o.state call)
  have responded := performed.respond (Function.update_self ..)
  simp only [List.nil_append, Function.update_idem] at responded
  exact ⟨_, events ▸ responded, h.moved moves⟩

/-- The holder of the lock counts its record, which is the next one after those counted. -/
theorem Represents.counted (h : shared.Represents o) {call : AppendCall Stage}
    (here : shared.collector.place t = .counting call) (succeeds : Bool) :
    ∃ o', Runs CollectorSpec o (shared.events (.append (t, .proceed succeeds))) o' ∧
      (shared.step (.append (t, .proceed succeeds))).Represents o' := by
  have agrees := h.invariant.holds_at here rfl
  have events : shared.events (.append (t, .proceed succeeds)) = [] := by
    simp only [SharedCollector.events, here, AppendPlace.events]
  have stepped : shared.collector.step (t, .proceed succeeds) =
      { shared.collector with totalCount := shared.collector.totalCount + 1 }.goTo t
        (.unlocking call true) := by
    simp only [ErrorCollector.step, here]
  have performed := Runs.here.perform (h.status_at here) (CollectorSpec.keep o.state call)
  have kept : o.state.map AppendCall.record =
      shared.collector.collected.map AppendCall.record := by
    have records := h.records
    have length : o.state.length = shared.collector.collected.length := by
      have recorded := congrArg List.length agrees.records
      rw [ErrorCollector.length_records, agrees.length, List.length_map, List.length_append] at recorded
      rw [h.total]
      exact Nat.succ.inj recorded
    rw [agrees.records, List.map_append] at records
    have shorter := List.prefix_of_prefix_length_le records (List.prefix_append _ _)
      (by simp [length])
    exact shorter.eq_of_length (by simp [length])
  refine ⟨_, events ▸ performed, h.invariant.step _, ?_, ?_, ?_⟩
  · rw [List.length_append, h.total]
    exact (congrArg ErrorCollector.totalCount stepped).symm
  · have records : (shared.collector.step (t, .proceed succeeds)).records =
        shared.collector.records := (congrArg ErrorCollector.records stepped).trans rfl
    change _ <+: (shared.collector.step (t, .proceed succeeds)).records
    rw [records, agrees.records, List.map_append, kept, ← List.map_append]
    exact List.prefix_rfl
  · rw [h.status]
    exact (status_moved shared (congrArg ErrorCollector.place stepped)).symm

theorem Represents.append (h : shared.Represents o) (t : Thread) (action : AppendAction Stage) :
    ∃ o', Runs CollectorSpec o (shared.events (.append (t, action))) o' ∧
      (shared.step (.append (t, action))).Represents o' := by
  have stuck : ∀ {place : AppendPlace Stage}, shared.collector.place t = place →
      shared.collector.step (t, action) = shared.collector →
      shared.events (.append (t, action)) = [] →
      ∃ o', Runs CollectorSpec o (shared.events (.append (t, action))) o' ∧
        (shared.step (.append (t, action))).Represents o' := by
    intro place here same events
    have moves : shared.Moves (t, action) place := by
      refine ⟨by rw [same], ?_⟩
      rw [same, ← here, Function.update_eq_self]
    exact h.silent moves events (congrArg AppendPlace.status here.symm)
  cases action with
  | call call =>
      cases here : shared.collector.place t with
      | idle =>
          have moves : shared.Moves (t, .call call) (.measuring call) := by
            simp only [Moves, ErrorCollector.step, here]
            exact ⟨rfl, rfl⟩
          have invoked : Runs CollectorSpec o _ _ :=
            Runs.here.invoke (.append call) (h.status_at here)
          have events : shared.events (.append (t, .call call)) =
              [.invoke (.inl t) (.append call)] := by
            simp only [SharedCollector.events, here, AppendPlace.events]
          exact ⟨_, events ▸ invoked, h.moved moves⟩
      | _ =>
          refine stuck here ?_ ?_
          · simp only [ErrorCollector.step, here]
          · simp only [events, here, AppendPlace.events]
  | proceed succeeds =>
      cases here : shared.collector.place t with
      | idle =>
          refine stuck here ?_ ?_
          · simp only [ErrorCollector.step, here]
          · simp only [events, here, AppendPlace.events]
      | measuring call =>
          cases succeeds with
          | true =>
              have moves : shared.Moves (t, .proceed true) (.locking call) := by
                simp only [Moves, ErrorCollector.step, here, if_true]
                exact ⟨rfl, rfl⟩
              refine h.silent moves ?_ (congrArg AppendPlace.status here).symm
              simp only [events, here, AppendPlace.events]
          | false =>
              have moves : shared.Moves (t, .proceed false) .idle := by
                simp only [Moves, ErrorCollector.step, here, Bool.false_eq_true, if_false]
                exact ⟨rfl, rfl⟩
              refine h.refused (h.status_at here) moves ?_
              simp only [events, here, AppendPlace.events]
      | locking call =>
          cases lock : shared.collector.appendLock with
          | true =>
              refine stuck here ?_ ?_
              · simp only [ErrorCollector.step, here, lock, if_true]
              · simp only [events, here, AppendPlace.events]
          | false =>
              have moves : shared.Moves (t, .proceed succeeds) (.reading call) := by
                simp only [Moves, ErrorCollector.step, here, lock, Bool.false_eq_true, if_false]
                exact ⟨rfl, rfl⟩
              refine h.silent moves ?_ (congrArg AppendPlace.status here).symm
              simp only [events, here, AppendPlace.events]
      | reading call =>
          have moves : shared.Moves (t, .proceed succeeds)
              (.writing call shared.collector.length) := by
            simp only [Moves, ErrorCollector.step, here]
            exact ⟨rfl, rfl⟩
          refine h.silent moves ?_ (congrArg AppendPlace.status here).symm
          simp only [events, here, AppendPlace.events]
      | writing call index =>
          have moves : shared.Moves (t, .proceed succeeds)
              (if succeeds then .publishing call index else .unlocking call false) := by
            cases succeeds <;> simp only [Moves, ErrorCollector.step, here] <;> exact ⟨rfl, rfl⟩
          refine h.silent moves ?_ ?_
          · simp only [events, here, AppendPlace.events]
          · rw [here]
            cases succeeds <;> rfl
      | publishing call index =>
          have moves : shared.Moves (t, .proceed succeeds) (.counting call) := by
            simp only [Moves, ErrorCollector.step, here]
            exact ⟨rfl, rfl⟩
          refine h.silent moves ?_ (congrArg AppendPlace.status here).symm
          simp only [events, here, AppendPlace.events]
      | counting call => exact h.counted here succeeds
      | unlocking call pushOk =>
          have moves : shared.Moves (t, .proceed succeeds) .idle := by
            simp only [Moves, ErrorCollector.step, here]
            exact ⟨rfl, rfl⟩
          have events : shared.events (.append (t, .proceed succeeds)) =
              [.respond (.inl t) (.appended pushOk)] := by
            simp only [SharedCollector.events, here, AppendPlace.events]
          cases pushOk with
          | true =>
              have responded : Runs CollectorSpec o _ _ := Runs.here.respond (h.status_at here)
              exact ⟨_, events ▸ responded, h.moved moves⟩
          | false => exact h.refused (h.status_at here) moves events

/-- A count has its effect when it loads the total. -/
theorem Represents.count (h : shared.Represents o) (reader : Reader) :
    ∃ o', Runs CollectorSpec o (shared.events (.count reader)) o' ∧
      (shared.step (.count reader)).Represents o' := by
  have status_at : o.status (.inr reader) = (shared.reading reader).status := by
    rw [h.status]
    rfl
  have represents : (shared.step (.count reader)).Represents
      { o with
        status := Function.update o.status (.inr reader)
          ((shared.reading reader).step shared.collector.count).status } := by
    refine ⟨h.invariant, h.total, h.records, ?_⟩
    change Function.update o.status _ _ = Sum.elim _ (CountPlace.status ∘ Function.update _ _ _)
    rw [h.status, SharedCollector.status, Function.comp_update, Sum.update_elim_inr]
    rfl
  cases here : shared.reading reader with
  | idle =>
      rw [here] at status_at represents
      have invoked : Runs CollectorSpec o _ _ := Runs.here.invoke .count status_at
      refine ⟨_, ?_, represents⟩
      rw [events, here]
      exact invoked
  | loading =>
      rw [here] at status_at represents
      have performed := Runs.here.perform status_at (CollectorSpec.count o.state)
      rw [h.total] at performed
      refine ⟨_, ?_, represents⟩
      rw [events, here]
      exact performed
  | loaded total =>
      rw [here] at status_at represents
      have responded : Runs CollectorSpec o _ _ := Runs.here.respond status_at
      refine ⟨_, ?_, represents⟩
      rw [events, here]
      exact responded

theorem simulates : Simulates CollectorSpec step events
    (Represents : SharedCollector Stage Thread Reader → _ → Prop) := by
  intro shared action o h
  cases action with
  | append turn => exact h.append turn.1 turn.2
  | count reader => exact h.count reader

end Simulation

/-- In every schedule of any number of threads that append and count, the calls can be
put into one order that gives each of them its answer and never contradicts which call
had returned before which was made; the counted records are those of the appends that
are kept in this order, and when no append is under way there are no others. -/
theorem history_linearizable (cells : Nat → ErrorRecord Stage)
    (schedule : List (CollectorAction Stage Thread Reader)) :
    ∃ order kept,
      Linearizes CollectorSpec []
        (historyOf (visible step events (created cells) schedule)) order kept ∧
      kept.length = (schedule.foldl step (created cells)).collector.count ∧
      kept.map AppendCall.record <+: (schedule.foldl step (created cells)).collector.records ∧
      ((∀ t, (schedule.foldl step (created cells)).collector.place t = .idle) →
        (schedule.foldl step (created cells)).collector.records =
          kept.map AppendCall.record) := by
  have start : (created cells : SharedCollector Stage Thread Reader).Represents
      ⟨[], fun _ => .ready⟩ := by
    refine ⟨ErrorCollector.created_invariant cells, rfl, List.nil_prefix, funext fun who => ?_⟩
    cases who <;> rfl
  obtain ⟨order, o, linearizes, represents⟩ :=
    simulates.linearizable schedule (fun _ => rfl) start
  refine ⟨order, o.state, linearizes, represents.total, represents.records, fun idle => ?_⟩
  have settled := represents.invariant.settled idle
  refine (represents.records.eq_of_length ?_).symm
  rw [settled.1, List.length_map, List.length_map, represents.total]
  exact settled.2

end SharedCollector

end BcRuntime
