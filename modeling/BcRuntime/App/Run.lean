import BcRuntime.App.Lifecycle
import Mathlib.Data.List.Count

/-!
Running an application. Its callbacks are programs of the user: what they do is
any function of everything that has happened so far, and they may call
`bc_runtime_run` again on the application they are called for. A function cannot
call itself without a bound here, so the depth of nested calls is bounded by an
argument, and a run that would go deeper fails; none does.
-/

namespace BcRuntime
open Fallible

inductive CallbackName
  | init
  | run
  | cleanup
deriving DecidableEq

/-- What an observer of the application sees: calls of `bc_runtime_run` and their
results, assignments to the state, and calls of the callbacks and their results. -/
inductive LifeEvent
  | called
  | entered (state : RuntimeState)
  | invoked (callback : CallbackName)
  | returned (callback : CallbackName) (result : Bool)
  | finished (result : Bool)
deriving DecidableEq

/-- What a callback still does: return, or call `bc_runtime_run` and go on with
what has happened by then. -/
inductive Reaction
  | finish (result : Bool)
  | reenter (next : List LifeEvent → Reaction)

/-- `bc_runtime_callbacks_t`; an absent callback is a NULL pointer. What `cleanup`
returns is not used. -/
structure RuntimeCallbacks where
  init : Option (List LifeEvent → Reaction)
  cleanup : Option (List LifeEvent → Reaction)
  run : Option (List LifeEvent → Reaction)

def RuntimeCallbacks.named (callbacks : RuntimeCallbacks) :
    CallbackName → Option (List LifeEvent → Reaction)
  | .init => callbacks.init
  | .run => callbacks.run
  | .cleanup => callbacks.cleanup

structure LifeMachine (UserData : Type) where
  application : Runtime RuntimeCallbacks UserData
  history : List LifeEvent

variable {UserData : Type}

abbrev LifeRun (UserData : Type) := Fallible Unit (LifeMachine UserData)

namespace LifeMachine

def happened (m : LifeMachine UserData) (events : List LifeEvent) : LifeMachine UserData :=
  { m with history := m.history ++ events }

def inState (m : LifeMachine UserData) (state : RuntimeState) : LifeMachine UserData :=
  { m with application := { m.application with state := state } }

/-- An application as `bc_runtime_create` hands it out. -/
def created (application : Runtime RuntimeCallbacks UserData) : LifeMachine UserData where
  application := { application with state := .created }
  history := []

end LifeMachine

def recordEvent (event : LifeEvent) : LifeRun UserData PUnit := modify fun m => m.happened [event]

def enterState (state : RuntimeState) : LifeRun UserData PUnit :=
  modify fun m => (m.inState state).happened [.entered state]

def finishRun (result : Bool) : LifeRun UserData Bool := do
  recordEvent (.finished result)
  pure result

/-- A callback at work; `again` is `bc_runtime_run`. -/
def react (again : LifeRun UserData Bool) : Reaction → LifeRun UserData Bool
  | .finish result => pure result
  | .reenter next => do
      let _ ← again
      let m ← get
      react again (next m.history)

/-- Call a callback if there is one; without one the source goes on as after `true`. -/
def invokeCallback (again : LifeRun UserData Bool) (callback : CallbackName) :
    LifeRun UserData Bool := do
  let m ← get
  match m.application.callbacks.named callback with
  | none => pure true
  | some reaction => do
      recordEvent (.invoked callback)
      let m ← get
      let result ← react again (reaction m.history)
      recordEvent (.returned callback result)
      pure result

/-- `bc_runtime_run`, with nested calls up to a depth. -/
def runtimeRun : Nat → LifeRun UserData Bool
  | 0 => fail
  | depth + 1 => do
      recordEvent .called
      let m ← get
      if m.application.state ≠ .created then finishRun false
      else do
        enterState .initialized
        let initSucceeded ← invokeCallback (runtimeRun depth) .init
        if initSucceeded = false then do
          enterState .stopping
          let _ ← invokeCallback (runtimeRun depth) .cleanup
          enterState .stopped
          finishRun false
        else do
          enterState .running
          let runSucceeded ← invokeCallback (runtimeRun depth) .run
          enterState .stopping
          let _ ← invokeCallback (runtimeRun depth) .cleanup
          enterState .stopped
          finishRun runSucceeded

def outsideCalls (depth : Nat) : Nat → LifeRun UserData (List Bool)
  | 0 => pure []
  | calls + 1 => do
      let result ← runtimeRun depth
      let results ← outsideCalls depth calls
      pure (result :: results)

end BcRuntime
