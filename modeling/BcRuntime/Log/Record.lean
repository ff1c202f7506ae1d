import BcRuntime.Log.Machine

/-!
The text of a log record: the time stamp, the level, the message cut to the room
there is, and a newline.
-/

namespace BcRuntime
open Fallible LogRun

def logStackSize : Nat := 4096
def levelPrefixLength : Nat := 7

/-- `LEVEL_PREFIXES`. -/
def levelPrefix : LogLevel → List UInt8
  | .error => (CString.lit "[ERROR]").bytes
  | .warn => (CString.lit "[WARN ]").bytes
  | .info => (CString.lit "[INFO ]").bytes
  | .debug => (CString.lit "[DEBUG]").bytes

/-- `(char)('0' + n)`. -/
def digitByte (n : Int) : UInt8 := UInt8.ofInt (48 + n)

/-- The bytes the time stamp is made of; `/` and `%` of C truncate. -/
def timestampBytes (time : LocalTime) (nanoseconds : Int) : List UInt8 :=
  let year := time.year + 1900
  let month := time.month + 1
  let microseconds := nanoseconds.tdiv 1000
  [ 91,
    digitByte (year.tdiv 1000), digitByte ((year.tdiv 100).tmod 10),
    digitByte ((year.tdiv 10).tmod 10), digitByte (year.tmod 10), 45,
    digitByte (month.tdiv 10), digitByte (month.tmod 10), 45,
    digitByte (time.day.tdiv 10), digitByte (time.day.tmod 10), 84,
    digitByte (time.hour.tdiv 10), digitByte (time.hour.tmod 10), 58,
    digitByte (time.minute.tdiv 10), digitByte (time.minute.tmod 10), 58,
    digitByte (time.second.tdiv 10), digitByte (time.second.tmod 10), 46,
    digitByte ((microseconds.tdiv 100000).tmod 10), digitByte ((microseconds.tdiv 10000).tmod 10),
    digitByte ((microseconds.tdiv 1000).tmod 10), digitByte ((microseconds.tdiv 100).tmod 10),
    digitByte ((microseconds.tdiv 10).tmod 10), digitByte (microseconds.tmod 10), 93 ]

def logFormatTimestamp (bufferSize : Nat) : LogRun (List UInt8) :=
  if bufferSize < 29 then fail
  else do
    let reading ← external .clockGettime
    let converted ← external .localtime
    let host ← ask
    pure (timestampBytes (host.localTime converted) (host.nanoseconds reading))

def formatRecordIntoBuffer (level : LogLevel) (message : CString) (capacity : Nat) :
    LogRun (List UInt8) := do
  let timestamp ← logFormatTimestamp capacity
  if timestamp.length + 1 + levelPrefixLength + 1 + 1 > capacity then fail
  else do
    let _ ← external (.coreCopy levelPrefixLength)
    let header := timestamp ++ [32] ++ levelPrefix level ++ [32]
    let _ ← external (.coreLength message)
    let maxMessage := capacity - header.length - 1
    let messageLength := if message.length > maxMessage then maxMessage else message.length
    let _ ← external (.coreCopy messageLength)
    pure (header ++ message.bytes.take messageLength ++ [newline])

theorem messageLength_eq_min (message : CString) (room : Nat) :
    (if message.length > room then room else message.length) = min message.length room := by
  rw [Nat.min_def]
  by_cases short : message.length ≤ room
  · rw [if_pos short, if_neg (not_lt.mpr short)]
  · rw [if_neg short, if_pos (not_le.mp short)]

/-- The comparison of the lengths cuts the message to the room there is. -/
theorem take_messageLength (message : CString) (room : Nat) :
    message.bytes.take (if message.length > room then room else message.length) =
      message.bytes.take room := by
  split
  · rfl
  · rename_i short
    rw [List.take_of_length_le (not_lt.mp short)]
    exact List.take_length

end BcRuntime
