import BcRuntime.Config.Store

/-!
Loading a configuration file: the line parser with its index-moving loops, the
accumulator that cuts the buffer into lines, and the reading of the file. The
loops over indices take the number of iterations they have left, which is what
bounds them in the source.
-/

namespace BcRuntime
open Fallible Run

/-- `BC_RUNTIME_LOG_BUFFER_STACK_SIZE`, the size of every line and key buffer. -/
def bufferStackSize : Nat := 4096

def isBlank (b : UInt8) : Bool := b = 32 || b = 9

/-- `while (i < stop && blank(text[i])) i++`, with `stop - i` steps left. -/
def skipBlanks (text : List UInt8) : Nat → Nat → Nat
  | 0, i => i
  | steps + 1, i => if isBlank (text.getD i 0) then skipBlanks text steps (i + 1) else i

/-- `while (stop > start && blank(text[stop - 1])) stop--`. -/
def trimBlanks (text : List UInt8) (start : Nat) : Nat → Nat
  | 0 => 0
  | stop + 1 =>
      if start < stop + 1 ∧ isBlank (text.getD stop 0) = true then trimBlanks text start stop
      else stop + 1

variable [BcCore]

def parseConfigLine (line : List UInt8) : Run Unit :=
  let start := skipBlanks line line.length 0
  if start = line.length then pure ()
  else if line.getD start 0 = hash then pure ()
  else
    let remaining := line.drop start
    match BcCore.findByte remaining equalsSign with
    | none => pure ()
    | some equalsOffset =>
        let keyEnd := trimBlanks remaining 0 equalsOffset
        if keyEnd = 0 then pure ()
        else
          let valueStart :=
            skipBlanks remaining (remaining.length - (equalsOffset + 1)) (equalsOffset + 1)
          let valueEnd := trimBlanks remaining valueStart remaining.length
          let keyBuffer := remaining.take keyEnd
          let valueBuffer := (remaining.drop valueStart).take (valueEnd - valueStart)
          do
            -- the result of the set is dropped
            let _ ← attempt (configStoreSet (.ofBuffer keyBuffer) (.ofBuffer valueBuffer))
            pure ()

/-- At a newline and at the end of the data a line with a byte is parsed. -/
def endLine (line : List UInt8) : Run Unit :=
  if 0 < line.length then parseConfigLine line else pure ()

/-- The loop over the data, with what the line buffer holds. -/
def loadLines : List UInt8 → List UInt8 → Run Unit
  | [], line => endLine line
  | byte :: data, line =>
      if byte = newline then do
        endLine line
        loadLines data []
      else if line.length < bufferStackSize - 1 then loadLines data (line ++ [byte])
      else loadLines data line

def loadFromBuffer (data : List UInt8) : Run Unit := loadLines data []

/-- One `fread` of at most `requested` bytes of what is left of a file. -/
def fileRead (unread : List UInt8) (requested : Nat) : Run (List UInt8) := fun host m =>
  (some (unread.take (min requested (host.readCount m.calls))), { m with calls := m.calls + 1 })

/-- Double the file buffer when it is full. -/
def growFileBuffer (file block : Resource) (totalSize capacity : Nat) : Run (Resource × Nat) :=
  if totalSize = capacity then do
    let newBlock ← onFailure (poolReallocate block (capacity * 2)) do
      release block
      release file
    pure (newBlock, capacity * 2)
  else pure (block, capacity)

/-- The reading loop of `load_file`: the bytes of the file buffer and its block.
An iteration delivers a byte or ends the loop, so one more than the bytes of the
file are enough of them. -/
def readLoop (file : Resource) :
    Nat → List UInt8 → List UInt8 → Nat → Resource → Run (List UInt8 × Resource)
  | 0, _, fileBuffer, _, block => pure (fileBuffer, block)
  | n + 1, unread, fileBuffer, capacity, block => do
      let (block, capacity) ← growFileBuffer file block fileBuffer.length capacity
      let read ← fileRead unread (capacity - fileBuffer.length)
      if read.length = 0 then pure (fileBuffer, block)
      else readLoop file n (unread.drop read.length) (fileBuffer ++ read) capacity block

def loadFile (filePath : CString) : Run Unit := do
  let host ← ask
  let file ← acquire .file (.fileOpen filePath)
  let block ← onFailure (poolAllocate configStoreArenaCapacity) (release file)
  let content := host.fileContent filePath
  let (fileBuffer, block) ←
    readLoop file (content.length + 1) content [] configStoreArenaCapacity block
  release file
  if 0 < fileBuffer.length then loadFromBuffer fileBuffer
  release block

end BcRuntime
