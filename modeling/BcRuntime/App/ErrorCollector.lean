import BcRuntime.Model.CString
import BcRuntime.Foundation.Guarded
import BcRuntime.Foundation.Runs

/-!
Collecting errors from any number of threads. A thread that appends goes from
place to place, each step one access to the shared collector; a schedule is any
order of such steps. Of the typed array only what a push does is modelled: it
reads the length, then writes the cell and publishes the new length, or fails
and changes nothing. `stage` is kept as the pointer it is.
-/

namespace BcRuntime

def errorCollectorPathCapacity : Nat := 512

/-- `bc_runtime_error_record_t`; `path` is the string in the zeroed array. -/
structure ErrorRecord (Stage : Type) where
  path : List UInt8
  stage : Stage
  errnoValue : Int

structure AppendCall (Stage : Type) where
  path : CString
  stage : Stage
  errnoValue : Int

/-- Where a thread is: before `bc_core_length`, at the test-and-set, in the push
before the length is read, before the cell is written and before the length is
published, before the `fetch_add`, and before the flag is cleared. -/
inductive AppendPlace (Stage : Type)
  | idle
  | measuring (call : AppendCall Stage)
  | locking (call : AppendCall Stage)
  | reading (call : AppendCall Stage)
  | writing (call : AppendCall Stage) (index : Nat)
  | publishing (call : AppendCall Stage) (index : Nat)
  | counting (call : AppendCall Stage)
  | unlocking (call : AppendCall Stage) (pushOk : Bool)

/-- `bc_runtime_error_collector_t`, the places of the threads, and every call that
has returned with its result. The cells from `length` on hold anything. -/
structure ErrorCollector (Stage Thread : Type) where
  cells : Nat → ErrorRecord Stage
  length : Nat
  totalCount : Nat
  appendLock : Bool
  place : Thread → AppendPlace Stage
  returned : List (AppendCall Stage × Bool)

/-- A thread makes a call, or goes on; `succeeds` is the outcome of the call
outside at the place where it is, if there is one. -/
inductive AppendAction (Stage : Type)
  | call (call : AppendCall Stage)
  | proceed (succeeds : Bool)

variable {Stage Thread : Type}

/-- The record on the stack, with the path cut to what its array has room for. -/
def AppendCall.record (call : AppendCall Stage) : ErrorRecord Stage :=
  let pathLength :=
    if call.path.length ≥ errorCollectorPathCapacity then errorCollectorPathCapacity - 1
    else call.path.length
  { path := call.path.bytes.take pathLength, stage := call.stage, errnoValue := call.errnoValue }

/-- Both branches keep the first bytes that leave room for a terminator. -/
theorem AppendCall.record_path (call : AppendCall Stage) :
    call.record.path = call.path.bytes.take 511 := by
  change call.path.bytes.take (if call.path.bytes.length ≥ 512 then 511
    else call.path.bytes.length) = _
  split
  · rfl
  · rw [List.take_length, List.take_of_length_le (by omega)]

/-- Between a successful test-and-set and the clear. -/
def AppendPlace.holdsLock : AppendPlace Stage → Bool
  | .reading _ | .writing _ _ | .publishing _ _ | .counting _ | .unlocking _ _ => true
  | _ => false

namespace ErrorCollector

/-- `bc_runtime_error_collector_create`, with threads that have made no call yet. -/
def created (cells : Nat → ErrorRecord Stage) : ErrorCollector Stage Thread where
  cells := cells
  length := 0
  totalCount := 0
  appendLock := false
  place := fun _ => .idle
  returned := []

def records (collector : ErrorCollector Stage Thread) : List (ErrorRecord Stage) :=
  (List.range collector.length).map collector.cells

/-- `bc_runtime_error_collector_count`. -/
def count (collector : ErrorCollector Stage Thread) : Nat := collector.totalCount

/-- The calls that have returned `true`, in the order of their returns. -/
def collected (collector : ErrorCollector Stage Thread) : List (AppendCall Stage) :=
  (collector.returned.filter Prod.snd).map Prod.fst

variable [DecidableEq Thread]

def goTo (collector : ErrorCollector Stage Thread) (t : Thread) (next : AppendPlace Stage) :
    ErrorCollector Stage Thread :=
  { collector with place := Function.update collector.place t next }

def returnTo (collector : ErrorCollector Stage Thread) (t : Thread) (call : AppendCall Stage)
    (result : Bool) : ErrorCollector Stage Thread :=
  { collector.goTo t .idle with returned := collector.returned ++ [(call, result)] }

/-- One step of one thread; a step that is not possible changes nothing. -/
def step (collector : ErrorCollector Stage Thread) :
    Thread × AppendAction Stage → ErrorCollector Stage Thread
  | (t, .call call) =>
      match collector.place t with
      | .idle => collector.goTo t (.measuring call)
      | _ => collector
  | (t, .proceed succeeds) =>
      match collector.place t with
      | .idle => collector
      | .measuring call =>
          if succeeds then collector.goTo t (.locking call) else collector.returnTo t call false
      | .locking call =>
          if collector.appendLock then collector
          else { collector with appendLock := true }.goTo t (.reading call)
      | .reading call => collector.goTo t (.writing call collector.length)
      | .writing call index =>
          if succeeds then
            { collector with cells := Function.update collector.cells index call.record }.goTo t
              (.publishing call index)
          else collector.goTo t (.unlocking call false)
      | .publishing call index => { collector with length := index + 1 }.goTo t (.counting call)
      | .counting call =>
          { collector with totalCount := collector.totalCount + 1 }.goTo t (.unlocking call true)
      | .unlocking call pushOk =>
          { collector with appendLock := false }.returnTo t call pushOk

end ErrorCollector

/-- The call whose record is in the array although it has not returned yet. -/
def AppendPlace.pushed : AppendPlace Stage → List (AppendCall Stage)
  | .counting call | .unlocking call true => [call]
  | _ => []

def AppendPlace.uncounted : AppendPlace Stage → Nat
  | .counting _ => 1
  | _ => 0

/-- What the push of a thread has left so far of the cells that are not published. -/
def AppendPlace.InPlace (cells : Nat → ErrorRecord Stage) (length : Nat) :
    AppendPlace Stage → Prop
  | .writing _ index => index = length
  | .publishing call index => index = length ∧ cells length = call.record
  | _ => True

namespace ErrorCollector

/-- What the shared state agrees to while the lock is held at a place. -/
structure Agrees (collector : ErrorCollector Stage Thread) (place : AppendPlace Stage) :
    Prop where
  records : collector.records = (collector.collected ++ place.pushed).map AppendCall.record
  length : collector.length = collector.totalCount + place.uncounted
  inPlace : place.InPlace collector.cells collector.length

def Invariant (collector : ErrorCollector Stage Thread) : Prop :=
  Guarded AppendPlace.holdsLock collector.appendLock collector.place collector.Agrees
    (collector.Agrees .idle)

theorem length_records (collector : ErrorCollector Stage Thread) :
    collector.records.length = collector.length := by
  rw [records, List.length_map, List.length_range]

theorem created_invariant (cells : Nat → ErrorRecord Stage) :
    (created cells : ErrorCollector Stage Thread).Invariant where
  flag_iff := ⟨fun set => Bool.noConfusion set, fun some => Bool.noConfusion some.choose_spec⟩
  alone := fun _ _ held => Bool.noConfusion held
  held := fun _ held => Bool.noConfusion held
  released := fun _ => ⟨rfl, rfl, trivial⟩

theorem records_of_write (collector : ErrorCollector Stage Thread) (record : ErrorRecord Stage)
    (place : Thread → AppendPlace Stage) :
    ErrorCollector.records { collector with
      cells := Function.update collector.cells collector.length record, place := place } =
      collector.records := by
  refine List.map_congr_left fun index mem => ?_
  exact Function.update_of_ne (Nat.ne_of_lt (List.mem_range.mp mem)) _ _

theorem records_of_publish {collector : ErrorCollector Stage Thread} {record : ErrorRecord Stage}
    (written : collector.cells collector.length = record) (place : Thread → AppendPlace Stage) :
    ErrorCollector.records { collector with length := collector.length + 1, place := place } =
      collector.records ++ [record] := by
  subst written
  rw [ErrorCollector.records, List.range_succ, List.map_append]
  rfl

theorem collected_append (returned : List (AppendCall Stage × Bool)) (call : AppendCall Stage)
    (result : Bool) :
    ((returned ++ [(call, result)]).filter Prod.snd).map Prod.fst =
      (returned.filter Prod.snd).map Prod.fst ++ if result then [call] else [] := by
  cases result <;> simp

section Step
variable [DecidableEq Thread] {collector : ErrorCollector Stage Thread} {t : Thread}

omit [DecidableEq Thread] in
theorem Invariant.holds_at (h : collector.Invariant) {place : AppendPlace Stage}
    (here : collector.place t = place) (holds : place.holdsLock = true) :
    collector.Agrees place := by
  subst here
  exact h.held t holds

theorem Agrees.returned {place : AppendPlace Stage} (h : collector.Agrees place)
    (call : AppendCall Stage) : (collector.returnTo t call false).Agrees place where
  records := by
    rw [collected, returnTo, collected_append, if_neg Bool.false_ne_true, List.append_nil]
    exact h.records
  length := h.length
  inPlace := h.inPlace

theorem Invariant.step (h : collector.Invariant) (turn : Thread × AppendAction Stage) :
    (collector.step turn).Invariant := by
  obtain ⟨t, action⟩ := turn
  cases action with
  | call call =>
      cases here : collector.place t with
      | idle =>
          simp only [ErrorCollector.step, here]
          refine h.elsewhere (by rw [here]; rfl) rfl (fun _ agrees => ?_) fun agrees => ?_
          · exact ⟨agrees.records, agrees.length, agrees.inPlace⟩
          · exact ⟨agrees.records, agrees.length, agrees.inPlace⟩
      | _ => simpa only [ErrorCollector.step, here] using h
  | proceed succeeds =>
      cases here : collector.place t with
      | idle => simpa only [ErrorCollector.step, here] using h
      | measuring call =>
          simp only [ErrorCollector.step, here]
          have outside : (collector.place t).holdsLock = false := by rw [here]; rfl
          cases succeeds with
          | true =>
              refine h.elsewhere outside rfl (fun _ agrees => ?_) fun agrees => ?_
              · exact ⟨agrees.records, agrees.length, agrees.inPlace⟩
              · exact ⟨agrees.records, agrees.length, agrees.inPlace⟩
          | false =>
              exact h.elsewhere outside rfl (fun _ agrees => agrees.returned call)
                fun agrees => agrees.returned call
      | locking call =>
          simp only [ErrorCollector.step, here]
          cases lock : collector.appendLock with
          | true => simpa using h
          | false =>
              have free := h.released lock
              rw [Invariant, lock] at h
              exact h.enter rfl ⟨free.records, free.length, trivial⟩
      | reading call =>
          have agrees := h.holds_at here rfl
          simp only [ErrorCollector.step, here]
          exact h.work (by rw [here]; rfl) rfl ⟨agrees.records, agrees.length, rfl⟩
      | writing call index =>
          have agrees := h.holds_at here rfl
          obtain rfl : index = collector.length := agrees.inPlace
          simp only [ErrorCollector.step, here]
          cases succeeds with
          | true =>
              refine h.work (by rw [here]; rfl) rfl ⟨?_, agrees.length, rfl, ?_⟩
              · exact (records_of_write collector _ _).trans agrees.records
              · exact Function.update_self ..
          | false =>
              exact h.work (by rw [here]; rfl) rfl ⟨agrees.records, agrees.length, trivial⟩
      | publishing call index =>
          have agrees := h.holds_at here rfl
          obtain ⟨rfl, written⟩ : index = collector.length ∧ collector.cells collector.length =
            call.record := agrees.inPlace
          simp only [ErrorCollector.step, here]
          refine h.work (by rw [here]; rfl) rfl ⟨?_, congrArg (· + 1) agrees.length, trivial⟩
          refine (records_of_publish written _).trans ?_
          rw [agrees.records]
          simp [AppendPlace.pushed, goTo, collected]
      | counting call =>
          have agrees := h.holds_at here rfl
          simp only [ErrorCollector.step, here]
          exact h.work (by rw [here]; rfl) rfl ⟨agrees.records, agrees.length, trivial⟩
      | unlocking call pushOk =>
          have agrees := h.holds_at here rfl
          simp only [ErrorCollector.step, here]
          refine h.leave (by rw [here]; rfl) rfl ⟨?_, agrees.length, trivial⟩
          rw [collected, returnTo, collected_append]
          refine agrees.records.trans ?_
          cases pushOk <;> simp [AppendPlace.pushed, collected]

def Grows (before after : ErrorCollector Stage Thread) : Prop := before.records <+: after.records

instance grows_refl :
    Std.Refl (Grows : ErrorCollector Stage Thread → ErrorCollector Stage Thread → Prop) :=
  ⟨fun _ => List.prefix_rfl⟩

instance grows_trans : IsTrans (ErrorCollector Stage Thread) Grows :=
  ⟨fun _ _ _ => List.IsPrefix.trans⟩

/-- Only publishing a length changes the records, and it adds one at their end. -/
theorem Invariant.step_records (h : collector.Invariant) (turn : Thread × AppendAction Stage) :
    collector.Grows (collector.step turn) := by
  obtain ⟨t, action⟩ := turn
  cases action with
  | call call =>
      cases here : collector.place t <;> simp only [ErrorCollector.step, here] <;>
        exact List.prefix_rfl
  | proceed succeeds =>
      cases here : collector.place t with
      | idle | reading _ | counting _ | unlocking _ _ =>
          simp only [ErrorCollector.step, here]
          exact List.prefix_rfl
      | measuring _ | locking _ =>
          simp only [ErrorCollector.step, here]
          split <;> exact List.prefix_rfl
      | writing call index =>
          obtain rfl : index = collector.length := (h.holds_at here rfl).inPlace
          simp only [ErrorCollector.step, here]
          cases succeeds with
          | true =>
              exact ⟨[], (List.append_nil _).trans (records_of_write collector _ _).symm⟩
          | false => exact List.prefix_rfl
      | publishing call index =>
          obtain ⟨rfl, written⟩ : index = collector.length ∧ collector.cells collector.length =
            call.record := (h.holds_at here rfl).inPlace
          simp only [ErrorCollector.step, here]
          exact ⟨[call.record], (records_of_publish written _).symm⟩

omit [DecidableEq Thread] in
theorem Invariant.length_of_uncounted (h : collector.Invariant) {place : AppendPlace Stage}
    (here : collector.place t = place) (holds : place.holdsLock = true) :
    collector.records.length = collector.count + place.uncounted := by
  rw [length_records]
  exact (h.holds_at here holds).length

end Step

/-- What a collector has collected, whatever its threads are doing. -/
structure LosesNothing [DecidableEq Thread] (collector : ErrorCollector Stage Thread) : Prop where
  exclusive : ∀ t u, (collector.place t).holdsLock = true → (collector.place u).holdsLock = true →
    t = u
  grows : ∀ schedule : List (Thread × AppendAction Stage),
    collector.Grows (schedule.foldl step collector)
  counting : ∀ t call, collector.place t = .counting call →
    collector.records.length = collector.count + 1
  counted : (∀ t call, collector.place t ≠ .counting call) →
    collector.records.length = collector.count
  settled : (∀ t, collector.place t = .idle) → collector.count = collector.collected.length ∧
    collector.records.map (fun record => (record.path, record.stage, record.errnoValue)) =
      collector.collected.map fun call => (call.path.bytes.take 511, call.stage, call.errnoValue)

theorem invariant_kept [DecidableEq Thread] :
    ∀ (collector : ErrorCollector Stage Thread) turn, collector.Invariant →
      (collector.step turn).Invariant := fun _ turn h => h.step turn

/-- When no call is under way, the records are those of the calls that returned true. -/
theorem Invariant.settled {collector : ErrorCollector Stage Thread} (h : collector.Invariant)
    (idle : ∀ t, collector.place t = .idle) :
    collector.records = collector.collected.map AppendCall.record ∧
      collector.count = collector.collected.length := by
  have free : collector.appendLock = false := by
    rw [← Bool.not_eq_true, h.flag_iff]
    rintro ⟨t, holds⟩
    rw [idle t] at holds
    exact Bool.noConfusion holds
  obtain ⟨records, length, -⟩ := h.released free
  have records : collector.records = collector.collected.map AppendCall.record := by
    simpa only [AppendPlace.pushed, List.append_nil] using records
  refine ⟨records, ?_⟩
  rw [← List.length_map AppendCall.record, ← records, length_records]
  exact length.symm

theorem Invariant.losesNothing [DecidableEq Thread] {collector : ErrorCollector Stage Thread}
    (h : collector.Invariant) : collector.LosesNothing where
  exclusive := h.alone
  grows := fun schedule =>
    Runs.foldl_relates invariant_kept (fun _ turn h => Invariant.step_records h turn) schedule h
  counting := fun t call here => h.length_of_uncounted here rfl
  counted := by
    intro none
    cases lock : collector.appendLock with
    | false =>
        rw [length_records]
        exact (h.released lock).length
    | true =>
        obtain ⟨t, holds⟩ := h.flag_iff.mp lock
        have length := h.length_of_uncounted (Eq.refl (collector.place t)) holds
        have uncounted : (collector.place t).uncounted = 0 := by
          cases here : collector.place t with
          | counting call => exact absurd here (none t call)
          | _ => rfl
        rwa [uncounted] at length
  settled := by
    intro idle
    obtain ⟨records, count⟩ := h.settled idle
    refine ⟨count, ?_⟩
    rw [records, List.map_map]
    refine List.map_congr_left fun call _ => ?_
    rw [Function.comp, AppendCall.record_path]
    rfl

/-- In every schedule of any number of threads. -/
theorem schedule_losesNothing [DecidableEq Thread] (cells : Nat → ErrorRecord Stage)
    (schedule : List (Thread × AppendAction Stage)) :
    (schedule.foldl step (created cells)).LosesNothing :=
  Invariant.losesNothing (Runs.foldl_keeps invariant_kept schedule (created_invariant cells))

/-- Two threads that both reach the test-and-set before either is through. -/
example :
    let call : AppendAction Unit := .call ⟨.lit "/path", (), 11⟩
    let turns : List (Bool × AppendAction Unit) :=
      [(true, call), (false, call), (true, .proceed true), (false, .proceed true)] ++
        (List.replicate 6 [(true, .proceed true), (false, .proceed true)]).flatten ++
        List.replicate 6 (false, .proceed true)
    let collector := turns.foldl step (created fun _ => ⟨[], (), 0⟩)
    collector.count = 2 ∧ collector.collected.length = 2 := by decide

end ErrorCollector

end BcRuntime
