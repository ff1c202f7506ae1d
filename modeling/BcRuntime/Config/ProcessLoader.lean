import BcRuntime.Config.FileLoader

/-!
The two sources of the configuration that come with the process: its environment
and its arguments. What does not have the form of a setting is passed over, and
so is a string whose length cannot be had; a set that fails ends the loading.
-/

namespace BcRuntime
open Fallible Run

def environmentPrefix : List UInt8 := (CString.lit "BC_APP_").bytes
def optionPrefix : List UInt8 := (CString.lit "--").bytes

/-- A key buffer leaves room for the terminator. -/
def truncateKey (keyLength : Nat) : Nat :=
  if keyLength ≥ bufferStackSize then bufferStackSize - 1 else keyLength

/-- `_` becomes `.`, a capital letter gets the bit of its small letter. -/
def environmentKeyByte (character : UInt8) : UInt8 :=
  if character = 95 then 46
  else if character ≥ 65 ∧ character ≤ 90 then character ||| 0x20
  else character

variable [BcCore]

/-- One iteration of the loop over `environ`. -/
def loadEnvironmentEntry (entry : CString) : Run Unit := do
  match ← attempt (coreLength entry) with
  | none => pure ()
  | some entryLength =>
      if entryLength.val < 8 then pure ()
      else if entry.bytes.take 7 ≠ environmentPrefix then pure ()
      else
        match BcCore.findByte entry.bytes equalsSign with
        | none => pure ()
        | some equalsOffset =>
            let keyStart := 7
            let keyLength := equalsOffset - keyStart
            if keyLength = 0 then pure ()
            else
              let keyBuffer :=
                ((entry.bytes.drop keyStart).take (truncateKey keyLength)).map environmentKeyByte
              configStoreSet (.ofBuffer keyBuffer) (entry.drop (equalsOffset + 1))

def loadEnvironmentEntries : List CString → Run Unit
  | [] => pure ()
  | entry :: entries => do
      loadEnvironmentEntry entry
      loadEnvironmentEntries entries

def loadEnvironment : Run Unit := do
  let host ← ask
  loadEnvironmentEntries host.environ

/-- One iteration of the loop over the arguments. -/
def loadArgument (argument : CString) : Run Unit := do
  match ← attempt (coreLength argument) with
  | none => pure ()
  | some _ =>
      if BcCore.startsWith argument.bytes optionPrefix = false then pure ()
      else
        let afterPrefix := argument.drop 2
        match BcCore.findByte afterPrefix.bytes equalsSign with
        | none => pure ()
        | some equalsOffset =>
            if equalsOffset = 0 then pure ()
            else
              let keyBuffer := afterPrefix.bytes.take (truncateKey equalsOffset)
              configStoreSet (.ofBuffer keyBuffer) (afterPrefix.drop (equalsOffset + 1))

def loadArgumentsFrom : List CString → Run Unit
  | [] => pure ()
  | argument :: arguments => do
      loadArgument argument
      loadArgumentsFrom arguments

/-- The arguments from the second on; the first is the program. -/
def loadArguments (argumentValues : List CString) : Run Unit :=
  loadArgumentsFrom (argumentValues.drop 1)

end BcRuntime
