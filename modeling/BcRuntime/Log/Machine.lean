import BcRuntime.App.Lifecycle

/-!
The state the log functions act on and the calls they make outside. As for the
store, a call is numbered and the host decides its outcome, and with it what the
clock delivers. Counters are unbounded naturals: no run logs as many messages as
a `size_t` counts.
-/

namespace BcRuntime

inductive LogCall
  | clockGettime
  | localtime
  | coreLength (text : CString)
  | coreCopy (count : Nat)
  | writerInit
  | writerWrite (data : List UInt8)
  | writerDestroy
deriving DecidableEq

/-- `struct tm`, as far as a time stamp shows it: years from 1900 and months from 0. -/
structure LocalTime where
  year : Int
  month : Int
  day : Int
  hour : Int
  minute : Int
  second : Int
deriving DecidableEq

/-- The outcome of each numbered call, and what the `n`-th call delivers when it
reads the clock or converts its reading. -/
structure LogHost where
  succeeds : Nat → LogCall → Bool
  nanoseconds : Nat → Int
  localTime : Nat → LocalTime

/-- `bc_runtime_log_buffer_t`. The last field is not in the source and nothing
reads it: the records copied to `data` since the buffer was last reset. -/
structure LogBuffer where
  data : List UInt8
  capacity : Nat
  writePosition : Nat
  entryCount : Nat
  overflowCount : Nat
  logLevel : LogLevel
  records : List (List UInt8)

/-- The data of a writer session on `stderr`, and the log records among them. -/
structure Written where
  bytes : List UInt8
  records : List (List UInt8)

/-- The level and the counter of the application, the log buffers in use and the writer
sessions on `stderr` of which every call has succeeded. What a session leaves there whose
write or end fails is up to `bc_core_writer` and nothing here tells of it. -/
structure LogMachine where
  calls : Nat
  logLevel : LogLevel
  logMessagesWritten : Nat
  buffers : Nat → LogBuffer
  sessions : List Written

abbrev LogRun := Fallible LogHost LogMachine

/-- `(int)level`. -/
def LogLevel.rank : LogLevel → Nat
  | .error => 0
  | .warn => 1
  | .info => 2
  | .debug => 3

def LogMachine.delivered (m : LogMachine) : List (List UInt8) := m.sessions.flatMap Written.records

def LogMachine.setBuffer (m : LogMachine) (id : Nat) (buffer : LogBuffer) : LogMachine :=
  { m with buffers := Function.update m.buffers id buffer }

namespace LogRun
open Fallible

/-- Make a call outside; the result is the call's number. -/
def external (call : LogCall) : LogRun Nat := fun host m =>
  (if host.succeeds m.calls call then some m.calls else none, { m with calls := m.calls + 1 })

section Rules
variable {host : LogHost} {m : LogMachine} {E : LogMachine → Prop}

@[simp] theorem wp_external (call : LogCall) (Q : Nat → LogMachine → Prop) :
    wp (external call) Q E host m ↔
      (host.succeeds m.calls call = true → Q m.calls { m with calls := m.calls + 1 }) ∧
        (host.succeeds m.calls call = false → E { m with calls := m.calls + 1 }) := by
  cases h : host.succeeds m.calls call <;> simp [wp, external, h]

end Rules

end LogRun

end BcRuntime
