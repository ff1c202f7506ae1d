import BcRuntime.Log.Record
import BcRuntime.Foundation.Splice

/-!
Logging to `stderr` and to a buffer, and draining buffers. A drain goes on after
a failure and reports it at the end, so its result is a boolean it computes.
-/

namespace BcRuntime
open Fallible LogRun

/-- A writer for `stderr`, one write and its end; a session is one that succeeds in all three. -/
def writeToStderr (data : List UInt8) (records : List (List UInt8)) : LogRun Unit := do
  let _ ← external .writerInit
  let ok ← attempt (external (.writerWrite data))
  let destroyed ← attempt (external .writerDestroy)
  match destroyed, ok with
  | some _, some _ => modify fun m => { m with sessions := m.sessions ++ [⟨data, records⟩] }
  | _, _ => fail

/-- `bc_runtime_log`. -/
def log (level : LogLevel) (message : CString) : LogRun Unit := do
  let m ← get
  if level.rank > m.logLevel.rank then pure ()
  else do
    let record ← formatRecordIntoBuffer level message logStackSize
    writeToStderr record [record]
    modify fun m => { m with logMessagesWritten := m.logMessagesWritten + 1 }

def logSetLevel (level : LogLevel) : LogRun Unit := modify fun m => { m with logLevel := level }

/-- `bc_runtime_log_buffer_create`, once its two blocks are allocated; what the
data block holds then is not known. -/
def LogBuffer.created (data : List UInt8) (level : LogLevel) : LogBuffer where
  data := data
  capacity := data.length
  writePosition := 0
  entryCount := 0
  overflowCount := 0
  logLevel := level
  records := []

namespace LogBuffer

def overflow (buffer : LogBuffer) : LogBuffer :=
  { buffer with overflowCount := buffer.overflowCount + 1 }

def store (buffer : LogBuffer) (record : List UInt8) : LogBuffer :=
  { buffer with
    data := Splice.splice buffer.data buffer.writePosition record
    writePosition := buffer.writePosition + record.length
    entryCount := buffer.entryCount + 1
    records := buffer.records ++ [record] }

def reset (buffer : LogBuffer) : LogBuffer :=
  { buffer with writePosition := 0, entryCount := 0, overflowCount := 0, records := [] }

end LogBuffer

def logToBuffer (id : Nat) (level : LogLevel) (message : CString) : LogRun Unit := do
  let m ← get
  let buffer := m.buffers id
  if level.rank > buffer.logLevel.rank then pure ()
  else do
    let record ← formatRecordIntoBuffer level message logStackSize
    if buffer.writePosition + record.length > buffer.capacity then
      modify fun m => m.setBuffer id buffer.overflow
    else do
      let _ ← external (.coreCopy record.length)
      modify fun m => m.setBuffer id (buffer.store record)

/-- Write the pieces one after another, up to the first that fails. -/
def writePieces : List (List UInt8) → LogRun Unit
  | [] => pure ()
  | piece :: pieces => do
      let _ ← external (.writerWrite piece)
      writePieces pieces

def drainWriteOverflowWarning (overflowCount : Nat) : LogRun Unit := do
  let _ ← external .writerInit
  let timestamp ← logFormatTimestamp 32
  let pieces := [timestamp, [32], levelPrefix .warn, [32],
    (CString.lit (toString overflowCount)).bytes,
    (CString.lit " log messages lost (buffer full)\n").bytes]
  writePieces pieces
  let _ ← external .writerDestroy
  modify fun m => { m with sessions := m.sessions ++ [⟨pieces.flatten, []⟩] }

def drainDumpBuffer (buffer : LogBuffer) : LogRun Unit :=
  writeToStderr (buffer.data.take buffer.writePosition) buffer.records

/-- The first half of the loop body: tell of the messages that did not fit. -/
def drainOverflow (id : Nat) : LogRun Bool := do
  let m ← get
  if (m.buffers id).overflowCount > 0 then do
    let warned ← attempt (drainWriteOverflowWarning (m.buffers id).overflowCount)
    pure warned.isSome
  else pure true

/-- The second half: dump the data, count its entries either way, and reset. -/
def drainEntries (id : Nat) : LogRun Bool := do
  let m ← get
  let buffer := m.buffers id
  let dumped ←
    if buffer.writePosition > 0 then do
      let dumped ← attempt (drainDumpBuffer buffer)
      modify fun m => { m with logMessagesWritten := m.logMessagesWritten + buffer.entryCount }
      pure dumped.isSome
    else pure true
  modify fun m => m.setBuffer id buffer.reset
  pure dumped

/-- The loop of `bc_runtime_log_drain`, with `all_succeeded`. -/
def logDrain : List Nat → Bool → LogRun Bool
  | [], allSucceeded => pure allSucceeded
  | id :: ids, allSucceeded => do
      let warned ← drainOverflow id
      let dumped ← drainEntries id
      logDrain ids (allSucceeded && warned && dumped)

end BcRuntime
