import BcRuntime.App.Run

/-!
The history of an application. A call of `bc_runtime_run` that does not find the
state `CREATED` is refused without a trace; since the first call leaves that
state before any callback is entered, the callbacks can only add refused calls
to a history whose course is fixed.
-/

namespace BcRuntime
open Fallible

variable {UserData : Type}

def refusedCalls (calls : Nat) : List LifeEvent :=
  (List.replicate calls [.called, .finished false]).flatten

/-- What a callback adds to the history: its refused calls and its result, if it is present. -/
def callbackEvents (callback : CallbackName) : Option (Nat × Bool) → List LifeEvent
  | none => []
  | some (calls, result) => .invoked callback :: refusedCalls calls ++ [.returned callback result]

/-- An absent callback counts as one that succeeded. -/
def callbackResult : Option (Nat × Bool) → Bool
  | none => true
  | some (_, result) => result

/-- The history of the first call, from what its callbacks have done. -/
def lifeHistory (init run cleanup : Option (Nat × Bool)) : List LifeEvent :=
  [.called, .entered .initialized] ++ callbackEvents .init init ++
    (if callbackResult init = true then .entered .running :: callbackEvents .run run else []) ++
    [.entered .stopping] ++ callbackEvents .cleanup cleanup ++
    [.entered .stopped, .finished (callbackResult init && callbackResult run)]

section Runs
variable {m : LifeMachine UserData}

@[simp] theorem LifeMachine.happened_happened (first second : List LifeEvent) :
    (m.happened first).happened second = m.happened (first ++ second) := by
  simp [LifeMachine.happened]

@[simp] theorem LifeMachine.happened_application (events : List LifeEvent) :
    (m.happened events).application = m.application := rfl

@[simp] theorem LifeMachine.happened_inState (events : List LifeEvent) (state : RuntimeState) :
    (m.happened events).inState state = (m.inState state).happened events := rfl

@[simp] theorem LifeMachine.inState_inState (first second : RuntimeState) :
    (m.inState first).inState second = m.inState second := rfl

@[simp] theorem LifeMachine.inState_state (state : RuntimeState) :
    (m.inState state).application.state = state := rfl

theorem refusedCalls_succ (calls : Nat) :
    refusedCalls (calls + 1) = [.called, .finished false] ++ refusedCalls calls := by
  rw [refusedCalls, List.replicate_succ, List.flatten_cons]
  rfl

theorem runtimeRun_refused (depth : Nat) (h : m.application.state ≠ .created) :
    runtimeRun (depth + 1) () m = (some false, m.happened [.called, .finished false]) := by
  have entered : recordEvent .called () m = (some ⟨⟩, m.happened [.called]) := rfl
  have refused : (m.happened [.called]).application.state ≠ .created := h
  rw [runtimeRun, bind_run_of_some entered, bind_run_of_some (get_run _ _), if_pos refused]
  exact congrArg (Prod.mk _) (LifeMachine.happened_happened _ _)

theorem react_run (reaction : Reaction) (h : m.application.state ≠ .created) :
    ∃ calls result, ∀ depth, react (runtimeRun (depth + 1)) reaction () m =
      (some result, m.happened (refusedCalls calls)) := by
  induction reaction generalizing m with
  | finish result =>
      exact ⟨0, result, fun _ => by simp [react, LifeMachine.happened, refusedCalls]⟩
  | reenter next ih =>
      obtain ⟨calls, result, rest⟩ := ih _ (m := m.happened [.called, .finished false]) h
      refine ⟨calls + 1, result, fun depth => ?_⟩
      rw [react, bind_run_of_some (runtimeRun_refused depth h), bind_run_of_some (get_run _ _), rest,
        LifeMachine.happened_happened, refusedCalls_succ]

theorem invokeCallback_run (callback : CallbackName) (h : m.application.state ≠ .created) :
    ∃ outcome, (outcome = none ↔ m.application.callbacks.named callback = none) ∧
      ∀ depth, invokeCallback (runtimeRun (depth + 1)) callback () m =
        (some (callbackResult outcome), m.happened (callbackEvents callback outcome)) := by
  cases present : m.application.callbacks.named callback with
  | none =>
      refine ⟨none, by simp, fun depth => ?_⟩
      rw [invokeCallback, bind_run_of_some (get_run _ _)]
      simp [present, callbackEvents, callbackResult, LifeMachine.happened]
  | some reaction =>
      obtain ⟨calls, result, reacted⟩ := react_run (m := m.happened [.invoked callback])
        (reaction (m.happened [.invoked callback]).history) h
      refine ⟨some (calls, result), by simp, fun depth => ?_⟩
      have invoked : recordEvent (.invoked callback) () m =
        (some ⟨⟩, m.happened [.invoked callback]) := rfl
      rw [invokeCallback, bind_run_of_some (get_run _ _)]
      simp only [present]
      rw [bind_run_of_some invoked, bind_run_of_some (get_run _ _), bind_run_of_some (reacted depth)]
      change (some result, _) = _
      simp [callbackEvents, callbackResult]

theorem enterState_run (m : LifeMachine UserData) (state : RuntimeState) :
    enterState state () m = (some ⟨⟩, (m.inState state).happened [.entered state]) := rfl

theorem finishRun_run (m : LifeMachine UserData) (result : Bool) :
    finishRun result () m = (some result, m.happened [.finished result]) := rfl

/-- Both ways out of a call: the clean-up between the last two states. -/
theorem stop_run (m : LifeMachine UserData) (result : Bool) :
    ∃ outcome, (outcome = none ↔ m.application.callbacks.cleanup = none) ∧
      ∀ depth, (do
        enterState .stopping
        let _ ← invokeCallback (runtimeRun (depth + 1)) .cleanup
        enterState .stopped
        finishRun result : LifeRun UserData Bool) () m =
      (some result, (m.inState .stopped).happened ([.entered .stopping] ++
        callbackEvents .cleanup outcome ++ [.entered .stopped, .finished result])) := by
  obtain ⟨outcome, absent, cleaned⟩ := invokeCallback_run
    (m := (m.inState .stopping).happened [.entered .stopping]) .cleanup (by simp)
  refine ⟨outcome, absent, fun depth => ?_⟩
  rw [bind_run_of_some (enterState_run _ _), bind_run_of_some (cleaned depth),
    bind_run_of_some (enterState_run _ _), finishRun_run]
  simp

/-- The first call, and all that its callbacks make of it. -/
theorem runtimeRun_first (h : m.application.state = .created) :
    ∃ init run cleanup,
      (init = none ↔ m.application.callbacks.init = none) ∧
      (run = none ↔ m.application.callbacks.run = none) ∧
      (cleanup = none ↔ m.application.callbacks.cleanup = none) ∧
      ∀ depth, runtimeRun (depth + 2) () m = (some (callbackResult init && callbackResult run),
        (m.inState .stopped).happened (lifeHistory init run cleanup)) := by
  have entered : recordEvent .called () m = (some ⟨⟩, m.happened [.called]) := rfl
  have created : ¬ (m.happened [.called]).application.state ≠ .created := not_not.mpr h
  let m₁ := ((m.happened [.called]).inState .initialized).happened [.entered .initialized]
  obtain ⟨init, no_init, initialized⟩ := invokeCallback_run (m := m₁) .init (by simp [m₁])
  let m₂ := m₁.happened (callbackEvents .init init)
  let m₃ := (m₂.inState .running).happened [.entered .running]
  obtain ⟨run, no_run, ran⟩ := invokeCallback_run (m := m₃) .run (by simp [m₃])
  have started : ∀ depth, runtimeRun (depth + 2) () m = _ := fun depth => by
    rw [runtimeRun, bind_run_of_some entered, bind_run_of_some (get_run _ _), if_neg created,
      bind_run_of_some (enterState_run _ _), bind_run_of_some (initialized depth)]
  cases succeeded : callbackResult init with
  | false =>
      obtain ⟨cleanup, no_cleanup, stopped⟩ := stop_run m₂ false
      refine ⟨init, run, cleanup, no_init, no_run, no_cleanup, fun depth => ?_⟩
      rw [started, succeeded, if_pos rfl, stopped]
      simp [lifeHistory, succeeded, m₂, m₁]
  | true =>
      obtain ⟨cleanup, no_cleanup, stopped⟩ :=
        stop_run (m₃.happened (callbackEvents .run run)) (callbackResult run)
      refine ⟨init, run, cleanup, no_init, no_run, no_cleanup, fun depth => ?_⟩
      rw [started, succeeded, if_neg (Bool.noConfusion ·), bind_run_of_some (enterState_run _ _),
        bind_run_of_some (ran depth), stopped]
      simp [lifeHistory, succeeded, m₃, m₂, m₁]

theorem outsideCalls_refused (depth calls : Nat) (h : m.application.state ≠ .created) :
    outsideCalls (depth + 1) calls () m =
      (some (List.replicate calls false), m.happened (refusedCalls calls)) := by
  induction calls generalizing m with
  | zero => simp [outsideCalls, LifeMachine.happened, refusedCalls]
  | succ calls ih =>
      have rest := ih (m := m.happened [.called, .finished false]) h
      rw [outsideCalls, bind_run_of_some (runtimeRun_refused depth h), bind_run_of_some rest,
        LifeMachine.happened_happened, ← refusedCalls_succ]
      rfl

end Runs

def RuntimeState.rank : RuntimeState → Nat
  | .created => 0
  | .initialized => 1
  | .running => 2
  | .stopping => 3
  | .stopped => 4

def LifeEvent.enteredState : LifeEvent → Option RuntimeState
  | .entered state => some state
  | _ => none

/-- What the calls of `bc_runtime_run` from outside, with their results, have made
of an application that had just been created. -/
structure RunsOnce (callbacks : RuntimeCallbacks) (m : LifeMachine UserData)
    (results : List Bool) : Prop where
  forward : (RuntimeState.created :: m.history.filterMap LifeEvent.enteredState).Pairwise
    fun earlier later => earlier.rank < later.rank
  stopped : m.application.state = .stopped
  init_once : m.history.count (.invoked .init) ≤ 1
  run_once : m.history.count (.invoked .run) ≤ 1
  run_after_init : ∀ before after, m.history = before ++ .invoked .run :: after →
    callbacks.init = none ∨ .returned .init true ∈ before
  cleanup_once : callbacks.cleanup ≠ none → m.history.count (.invoked .cleanup) = 1
  cleanup_last : ∀ before after, m.history = before ++ .invoked .cleanup :: after →
    ∀ callback, .invoked callback ∉ after ∧
      (.invoked callback ∈ before → ∃ result, .returned callback result ∈ before)
  first_result : results.head? = some true ↔ .returned .init false ∉ m.history ∧
    (callbacks.run = none ∨ .returned .run true ∈ m.history)
  other_results : ∀ result ∈ results.tail, result = false
  other_calls : ∀ before after, m.history = before ++ .called :: after → before ≠ [] →
    ∃ rest, after = .finished false :: rest

section Properties

@[simp] theorem mem_refusedCalls {event : LifeEvent} {calls : Nat} :
    event ∈ refusedCalls calls ↔ calls ≠ 0 ∧ (event = .called ∨ event = .finished false) := by
  simp [refusedCalls]

theorem enteredState_refusedCalls (calls : Nat) :
    (refusedCalls calls).filterMap LifeEvent.enteredState = [] := by
  refine List.filterMap_eq_nil_iff.mpr fun event mem => ?_
  obtain ⟨-, rfl | rfl⟩ := mem_refusedCalls.mp mem <;> rfl

theorem count_refusedCalls (calls : Nat) (callback : CallbackName) :
    (refusedCalls calls).count (.invoked callback) = 0 := by
  simp [List.count_eq_zero]

theorem enteredState_callbackEvents (callback : CallbackName) (outcome : Option (Nat × Bool)) :
    (callbackEvents callback outcome).filterMap LifeEvent.enteredState = [] := by
  rcases outcome with _ | ⟨calls, result⟩
  · rfl
  · rw [callbackEvents, List.cons_append, List.filterMap_cons, List.filterMap_append,
      enteredState_refusedCalls]
    rfl

theorem count_callbackEvents (callback other : CallbackName) (outcome : Option (Nat × Bool)) :
    (callbackEvents other outcome).count (.invoked callback) =
      if outcome ≠ none ∧ other = callback then 1 else 0 := by
  rcases outcome with _ | ⟨calls, result⟩
  · rfl
  · simp [callbackEvents, List.count_cons, count_refusedCalls]

variable (init run cleanup : Option (Nat × Bool)) (calls : Nat)

theorem enteredState_lifeHistory :
    (lifeHistory init run cleanup ++ refusedCalls calls).filterMap LifeEvent.enteredState =
      [.initialized] ++ (if callbackResult init = true then [.running] else []) ++
        [.stopping, .stopped] := by
  cases succeeded : callbackResult init <;>
    simp only [lifeHistory, succeeded, List.filterMap_append, List.filterMap_cons,
      List.filterMap_nil, enteredState_callbackEvents, enteredState_refusedCalls,
      LifeEvent.enteredState, Bool.false_eq_true, if_true, if_false] <;> rfl

theorem lifeHistory_forward :
    (RuntimeState.created :: (lifeHistory init run cleanup ++ refusedCalls calls).filterMap
      LifeEvent.enteredState).Pairwise fun earlier later => earlier.rank < later.rank := by
  rw [enteredState_lifeHistory]
  split <;> decide

theorem count_lifeHistory :
    (lifeHistory init run cleanup ++ refusedCalls calls).count (.invoked .init) =
        (if init = none then 0 else 1) ∧
      (lifeHistory init run cleanup ++ refusedCalls calls).count (.invoked .run) =
        (if callbackResult init = false ∨ run = none then 0 else 1) ∧
      (lifeHistory init run cleanup ++ refusedCalls calls).count (.invoked .cleanup) =
        if cleanup = none then 0 else 1 := by
  cases succeeded : callbackResult init <;>
    simp [lifeHistory, succeeded, count_callbackEvents, count_refusedCalls]

theorem returned_mem_callbackEvents {callback : CallbackName} {outcome : Option (Nat × Bool)}
    (present : outcome ≠ none) :
    .returned callback (callbackResult outcome) ∈ callbackEvents callback outcome := by
  obtain ⟨⟨calls, result⟩, rfl⟩ := Option.ne_none_iff_exists'.mp present
  exact List.mem_append_right _ List.mem_cons_self

/-- An event that a first part does not have comes after that part. -/
theorem split_after {first rest before after : List LifeEvent} {event : LifeEvent}
    (h : first ++ rest = before ++ event :: after) (absent : event ∉ first) :
    first <+: before ∧ event :: after <:+ rest := by
  rcases List.append_eq_append_iff.mp h with ⟨more, rfl, tail⟩ | ⟨more, rfl, tail⟩
  · exact ⟨List.prefix_append first more, tail ▸ List.suffix_append more _⟩
  · cases more with
    | nil => exact ⟨by simp, tail ▸ List.suffix_rfl⟩
    | cons other more =>
        have same := (List.cons.inj tail).1
        exact absurd (List.mem_append_right before (same ▸ List.mem_cons_self)) absent

theorem run_after_init {before after : List LifeEvent}
    (h : lifeHistory init run cleanup ++ refusedCalls calls = before ++ .invoked .run :: after) :
    init = none ∨ .returned .init true ∈ before := by
  refine or_iff_not_imp_left.mpr fun present => ?_
  have invoked : .invoked .run ∈ lifeHistory init run cleanup ++ refusedCalls calls := by
    rw [h]
    exact List.mem_append_right _ List.mem_cons_self
  have succeeded : callbackResult init = true := by
    by_contra failed
    refine List.count_eq_zero.mp ((count_lifeHistory init run cleanup calls).2.1.trans ?_) invoked
    rw [if_pos (Or.inl (Bool.eq_false_iff.mpr failed))]
  have returned : .returned .init (callbackResult init) ∈ callbackEvents .init init :=
    returned_mem_callbackEvents present
  rw [succeeded] at returned
  have parts : lifeHistory init run cleanup ++ refusedCalls calls =
      ([.called, .entered .initialized] ++ callbackEvents .init init) ++
        (.entered .running :: callbackEvents .run run ++ [.entered .stopping] ++
          callbackEvents .cleanup cleanup ++ [.entered .stopped,
            .finished (callbackResult init && callbackResult run)] ++ refusedCalls calls) := by
    simp [lifeHistory, succeeded]
  have absent : .invoked .run ∉ [.called, .entered .initialized] ++ callbackEvents .init init := by
    rw [← List.count_eq_zero, List.count_append, count_callbackEvents]
    simp
  exact (split_after (parts.symm.trans h) absent).1.subset (List.mem_append_right _ returned)

theorem cleanup_last {before after : List LifeEvent}
    (h : lifeHistory init run cleanup ++ refusedCalls calls =
      before ++ .invoked .cleanup :: after) (callback : CallbackName) :
    .invoked callback ∉ after ∧
      (.invoked callback ∈ before → ∃ result, .returned callback result ∈ before) := by
  let course := [.called, .entered .initialized] ++ callbackEvents .init init ++
    (if callbackResult init = true then .entered .running :: callbackEvents .run run else []) ++
    [.entered .stopping]
  let rest := callbackEvents .cleanup cleanup ++ [.entered .stopped,
    .finished (callbackResult init && callbackResult run)] ++ refusedCalls calls
  have parts : lifeHistory init run cleanup ++ refusedCalls calls = course ++ rest := by
    simp [lifeHistory, course, rest]
  have absent : .invoked .cleanup ∉ course := by
    rw [← List.count_eq_zero]
    cases succeeded : callbackResult init <;>
      simp [course, succeeded, count_callbackEvents]
  obtain ⟨early, late⟩ := split_after (parts.symm.trans h) absent
  have once := (count_lifeHistory init run cleanup calls).2.2
  rw [h, List.count_append, List.count_cons_self] at once
  have at_most : (before.count (.invoked .cleanup) + (after.count (.invoked .cleanup) + 1)) ≤ 1 := by
    rw [once]
    split <;> omega
  have only : ∀ name, name ≠ .cleanup → .invoked name ∉ after := by
    intro name other mem
    have count : rest.count (.invoked name) = 0 := by
      simp [rest, count_callbackEvents, count_refusedCalls, Ne.symm other]
    exact List.count_eq_zero.mp count (late.subset (List.mem_cons_of_mem _ mem))
  have counted : .invoked callback ∈ before →
      (lifeHistory init run cleanup ++ refusedCalls calls).count (.invoked callback) ≠ 0 := by
    intro mem
    rw [h, ne_eq, List.count_eq_zero, not_not]
    exact List.mem_append_left _ mem
  cases callback with
  | init =>
      refine ⟨only .init (by decide), fun mem => ⟨callbackResult init, early.subset ?_⟩⟩
      have present : init ≠ none := by
        intro none
        exact counted mem (by rw [(count_lifeHistory init run cleanup calls).1, if_pos none])
      have returned : .returned .init (callbackResult init) ∈ callbackEvents .init init :=
        returned_mem_callbackEvents present
      simp only [course, List.mem_append]
      exact Or.inl (Or.inl (Or.inr returned))
  | run =>
      refine ⟨only .run (by decide), fun mem => ⟨callbackResult run, early.subset ?_⟩⟩
      have reached : ¬ (callbackResult init = false ∨ run = none) := by
        intro missed
        exact counted mem (by rw [(count_lifeHistory init run cleanup calls).2.1, if_pos missed])
      obtain ⟨succeeded, present⟩ := not_or.mp reached
      have returned : .returned .run (callbackResult run) ∈ callbackEvents .run run :=
        returned_mem_callbackEvents present
      rw [Bool.not_eq_false] at succeeded
      simp only [course, List.mem_append, if_pos succeeded]
      exact Or.inl (Or.inr (List.mem_cons_of_mem _ returned))
  | cleanup =>
      refine ⟨List.count_eq_zero.mp (by omega), fun mem => ?_⟩
      exact absurd mem (List.count_eq_zero.mp (by omega))

def AllRefused (events : List LifeEvent) : Prop :=
  ∀ before after, events = before ++ .called :: after → ∃ rest, after = .finished false :: rest

theorem AllRefused.append {first rest : List LifeEvent} (h : AllRefused first)
    (h' : AllRefused rest) : AllRefused (first ++ rest) := by
  intro before after whole
  rcases List.append_eq_append_iff.mp whole with ⟨more, rfl, tail⟩ | ⟨more, rfl, tail⟩
  · exact h' more after tail
  · cases more with
    | nil => exact h' [] after tail.symm
    | cons event more =>
        obtain ⟨rfl, rfl⟩ := List.cons.inj tail
        obtain ⟨finished, refused⟩ := h before more rfl
        exact ⟨finished ++ rest, congrArg (· ++ rest) refused⟩

theorem allRefused_of_notMem {events : List LifeEvent} (h : .called ∉ events) :
    AllRefused events := by
  rintro before after rfl
  exact absurd (List.mem_append_right before List.mem_cons_self) h

theorem AllRefused.call {rest : List LifeEvent} (h : AllRefused rest) :
    AllRefused (.called :: .finished false :: rest) := by
  intro before after whole
  cases before with
  | nil => exact ⟨rest, (List.cons.inj whole).2.symm⟩
  | cons event before =>
      cases before with
      | nil => exact LifeEvent.noConfusion (List.cons.inj (List.cons.inj whole).2).1
      | cons event' before =>
          exact h before after (List.cons.inj (List.cons.inj whole).2).2

theorem allRefused_refusedCalls (calls : Nat) : AllRefused (refusedCalls calls) := by
  induction calls with
  | zero => exact allRefused_of_notMem List.not_mem_nil
  | succ calls ih =>
      rw [refusedCalls_succ]
      exact ih.call

theorem allRefused_callbackEvents (callback : CallbackName) (outcome : Option (Nat × Bool)) :
    AllRefused (callbackEvents callback outcome) := by
  rcases outcome with _ | ⟨calls, result⟩
  · exact allRefused_of_notMem List.not_mem_nil
  · have invoked : AllRefused [.invoked callback] := allRefused_of_notMem (by simp)
    have returned : AllRefused [.returned callback result] := allRefused_of_notMem (by simp)
    exact (invoked.append (allRefused_refusedCalls calls)).append returned

theorem lifeHistory_other_calls {before after : List LifeEvent}
    (h : lifeHistory init run cleanup ++ refusedCalls calls = before ++ .called :: after)
    (some_before : before ≠ []) : ∃ rest, after = .finished false :: rest := by
  have started : AllRefused [.entered .initialized] := allRefused_of_notMem (by simp)
  have running : AllRefused (if callbackResult init = true then
      .entered .running :: callbackEvents .run run else []) := by
    split
    · have entered : AllRefused [.entered .running] := allRefused_of_notMem (by simp)
      exact entered.append (allRefused_callbackEvents .run run)
    · exact allRefused_of_notMem List.not_mem_nil
  have stopping : AllRefused [.entered .stopping] := allRefused_of_notMem (by simp)
  have stopped : AllRefused [.entered .stopped,
      .finished (callbackResult init && callbackResult run)] := allRefused_of_notMem (by simp)
  have refused := (((((started.append (allRefused_callbackEvents .init init)).append running).append
    stopping).append (allRefused_callbackEvents .cleanup cleanup)).append stopped).append
      (allRefused_refusedCalls calls)
  cases before with
  | nil => exact absurd rfl some_before
  | cons event before =>
      refine refused before after ?_
      have rest := (List.cons.inj h).2
      simpa [lifeHistory] using rest

theorem lifeHistory_result :
    (callbackResult init && callbackResult run) = true ↔
      .returned .init false ∉ lifeHistory init run cleanup ++ refusedCalls calls ∧
        (run = none ∨ .returned .run true ∈ lifeHistory init run cleanup ++ refusedCalls calls) := by
  have returned : ∀ name callback outcome result,
      .returned name result ∈ callbackEvents callback outcome ↔
        name = callback ∧ outcome ≠ none ∧ callbackResult outcome = result := by
    rintro name callback (_ | ⟨calls, result'⟩) result
    · simp [callbackEvents]
    · simp [callbackEvents, callbackResult, eq_comm]
  cases succeeded : callbackResult init with
  | false =>
      have present : init ≠ none := by
        rintro rfl
        exact Bool.noConfusion succeeded
      simp [lifeHistory, succeeded, returned, present]
  | true =>
      simp [lifeHistory, succeeded, returned]
      cases run <;> simp [callbackResult]

end Properties

/-- A created application runs its life cycle in the first call from outside, and once. -/
theorem outsideCalls_runsOnce (application : Runtime RuntimeCallbacks UserData) (calls : Nat) :
    ∃ results m, (∀ depth, outsideCalls (depth + 2) (calls + 1) () (.created application) =
      (some results, m)) ∧ results.length = calls + 1 ∧
      RunsOnce application.callbacks m results := by
  obtain ⟨init, run, cleanup, no_init, no_run, no_cleanup, first⟩ :=
    runtimeRun_first (m := .created application) rfl
  have absent_run : run = none ↔ application.callbacks.run = none := no_run
  let m := ((LifeMachine.created application).inState .stopped).happened
    (lifeHistory init run cleanup)
  have later := fun depth => outsideCalls_refused (m := m) (depth + 1) calls (by simp [m])
  refine ⟨(callbackResult init && callbackResult run) :: List.replicate calls false,
    m.happened (refusedCalls calls), fun depth => ?_, by simp, ?_⟩
  · rw [outsideCalls, bind_run_of_some (first depth), bind_run_of_some (later depth)]
    rfl
  · have history : (m.happened (refusedCalls calls)).history =
        lifeHistory init run cleanup ++ refusedCalls calls := rfl
    obtain ⟨inits, runs, cleanups⟩ := count_lifeHistory init run cleanup calls
    constructor
    · rw [history]
      exact lifeHistory_forward init run cleanup calls
    · rfl
    · rw [history, inits]
      split <;> omega
    · rw [history, runs]
      split <;> omega
    · intro before after h
      exact (run_after_init init run cleanup calls h).imp_left no_init.mp
    · intro present
      rw [history, cleanups, if_neg (mt no_cleanup.mp present)]
    · intro before after h
      exact cleanup_last init run cleanup calls h
    · rw [history, List.head?_cons, Option.some_inj, ← absent_run]
      exact lifeHistory_result init run cleanup calls
    · intro result mem
      exact List.eq_of_mem_replicate mem
    · intro before after h
      exact lifeHistory_other_calls init run cleanup calls h

end BcRuntime
