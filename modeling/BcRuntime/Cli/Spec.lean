import BcRuntime.Model.CString

/-!
The tables a program describes its command line with. An absent string or array
is a NULL pointer, and a table is the list of its first `count` rows.
-/

namespace BcRuntime

inductive OptionType
  | string
  | integer
  | boolean
  | enum
  | flag
  | list
deriving DecidableEq

/-- `bc_runtime_cli_option_spec_t`. The placeholder and the summary are for help. -/
structure OptionSpec where
  longName : CString
  type : OptionType
  allowedValues : Option (List CString)
  defaultValue : Option CString
  required : Bool
  valuePlaceholder : Option CString
  helpSummary : Option CString
deriving DecidableEq

structure CommandSpec where
  name : CString
  summary : Option CString
  options : List OptionSpec
  positionalUsage : Option CString
  positionalMin : Nat
  positionalMax : Nat
deriving DecidableEq

structure ProgramSpec where
  programName : CString
  version : Option CString
  summary : Option CString
  globalOptions : List OptionSpec
  commands : List CommandSpec
deriving DecidableEq

inductive ParseStatus
  | ok
  | helpGlobal
  | helpCommand
  | version
  | error
deriving DecidableEq

/-- `bc_runtime_cli_parsed_t`; no positional values are a NULL pointer. -/
structure Parsed where
  command : Option CommandSpec
  positionalValues : List CString
deriving DecidableEq

def Parsed.empty : Parsed := ⟨none, []⟩

end BcRuntime
