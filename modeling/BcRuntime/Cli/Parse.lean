import BcRuntime.Cli.Spec
import BcRuntime.Config.Store
import BcRuntime.Model.IntegerText

/-!
The command-line parser. Every rejection reports one message and fails; the
caller turns the failure into `PARSE_ERROR`. Each byte written into a key or
prefix buffer is recorded by its index, also past the end of the array, where
the source has no defined behaviour and the model goes on as if there were room.
-/

namespace BcRuntime
open Fallible Run

def cliKeyBufferSize : Nat := 256
def cliOutputBufferSize : Nat := 4096
def cliTableSize : Nat := 64
def cliGlobalPrefix : CString := .lit "global."
def listSeparator : UInt8 := 10

def cliStringEqual : List UInt8 → List UInt8 → Bool
  | left :: lefts, right :: rights =>
      if left ≠ right then false else cliStringEqual lefts rights
  | [], [] => true
  | _, _ => false

def cliStringEqualN (left right : List UInt8) (length : Nat) : Bool :=
  (List.range length).all fun index => left.getD index 0 = right.getD index 0

/-- The first option with the name, and its index in the table. -/
def cliFindOption (name : List UInt8) : List OptionSpec → Nat → Option (Nat × OptionSpec)
  | [], _ => none
  | option :: options, index =>
      if option.longName.length ≠ name.length then cliFindOption name options (index + 1)
      else if cliStringEqualN option.longName.bytes name name.length then some (index, option)
      else cliFindOption name options (index + 1)

def cliFindCommand (name : CString) : List CommandSpec → Option CommandSpec
  | [] => none
  | command :: commands =>
      if cliStringEqual command.name.bytes name.bytes then some command
      else cliFindCommand name commands

def cliValueIsAllowed (option : OptionSpec) (value : CString) : Bool :=
  match option.allowedValues with
  | none => true
  | some allowedValues => allowedValues.any fun allowed => cliStringEqual allowed.bytes value.bytes

def cliValueIsInteger (value : CString) : Bool :=
  let start := if isSign (value.bytes.getD 0 0) then 1 else 0
  if value.bytes.getD start 0 = 0 then false else (value.bytes.drop start).all isDigit

def cliValueIsBoolean (value : CString) : Bool :=
  ["true", "false", "1", "0", "yes", "no"].any fun literal =>
    cliStringEqual value.bytes (CString.lit literal).bytes

def cliValidateValue (option : OptionSpec) (value : CString) : Bool :=
  match option.type with
  | .string => true
  | .enum => cliValueIsAllowed option value
  | .integer => cliValueIsInteger value
  | .boolean => cliValueIsBoolean value
  | .list => true
  | .flag => false

/-- Bytes written to these indices of a key or prefix buffer. -/
def writeBuffer (indices : List Nat) : Run Unit :=
  modify fun m => { m with bufferWrites := m.bufferWrites ++ indices }

def cliBuildKey (keyPrefix name : CString) : Run CString :=
  if keyPrefix.length + name.length + 1 > cliKeyBufferSize then fail
  else do
    writeBuffer (List.range (keyPrefix.length + name.length + 1))
    pure (keyPrefix.append name)

/-- The program and the error stream a diagnostic is for. -/
structure ParseContext where
  spec : ProgramSpec
  /-- Whether `error_stream` is not NULL. -/
  errorStream : Bool

variable [BcCore]

/-- What the buffer of a writer holds goes to the stream in one piece. -/
def cliDrainWriterToStream (errorStream : Bool) (pieces : List (List UInt8)) : Run Unit := do
  match ← attempt (external .writerBufferData) with
  | none => pure ()
  | some _ =>
      let data := BcCore.writerData cliOutputBufferSize pieces
      if 0 < data.length ∧ errorStream = true then
        modify fun m => { m with errorOutput := m.errorOutput ++ [data] }
      else pure ()

/-- A diagnostic: the program name, then the given pieces. -/
def cliReport (context : ParseContext) (pieces : List (List UInt8)) : Run Unit := do
  match ← attempt (external .writerInitBufferOnly) with
  | none => pure ()
  | some _ =>
      cliDrainWriterToStream context.errorStream (context.spec.programName.bytes :: pieces)

def cliReject {α : Type} (context : ParseContext) (pieces : List (List UInt8)) : Run α := do
  cliReport context pieces
  fail

def optionMessage (text : String) (name : List UInt8) : List (List UInt8) :=
  [(CString.lit text).bytes, name, (CString.lit "\n").bytes]

def quotedMessage (before : String) (quoted : CString) (after : String) : List (List UInt8) :=
  [(CString.lit before).bytes, quoted.bytes, (CString.lit after).bytes]

/-- Build the key of an option, with the diagnostic for one that does not fit. -/
def cliOptionKey (context : ParseContext) (keyPrefix : CString) (option : OptionSpec) :
    Run CString :=
  onFailure (cliBuildKey keyPrefix option.longName)
    (cliReport context (optionMessage ": option name too long: " option.longName.bytes))

def cliApplyDefaults (context : ParseContext) (keyPrefix : CString) (seen : List Bool) :
    List OptionSpec → Nat → Run Unit
  | [], _ => pure ()
  | option :: options, index =>
      if seen.getD index false then cliApplyDefaults context keyPrefix seen options (index + 1)
      else if option.required then
        cliReject context (optionMessage ": missing required option --" option.longName.bytes)
      else
        match option.defaultValue with
        | none => cliApplyDefaults context keyPrefix seen options (index + 1)
        | some defaultValue => do
            let key ← cliOptionKey context keyPrefix option
            onFailure (configStoreSet key defaultValue)
              (cliReport context
                (optionMessage ": failed to store default for --" option.longName.bytes))
            cliApplyDefaults context keyPrefix seen options (index + 1)

/-- The name and the value of an option token; no value without an `=`. -/
def cliParseAssignment (argument : CString) : Option (List UInt8 × Option CString) :=
  if argument.length < 3 ∨ argument.bytes.getD 0 0 ≠ dash ∨ argument.bytes.getD 1 0 ≠ dash then
    none
  else
    let afterPrefix := argument.drop 2
    match afterPrefix.bytes.idxOf? equalsSign with
    | some equalsOffset =>
        some (afterPrefix.bytes.take equalsOffset, some (afterPrefix.drop (equalsOffset + 1)))
    | none => some (afterPrefix.bytes, none)

def cliStoreOption (context : ParseContext) (keyPrefix : CString) (option : OptionSpec)
    (store : CString → Run Unit) : Run Unit := do
  let key ← cliOptionKey context keyPrefix option
  onFailure (store key)
    (cliReport context (optionMessage ": failed to store --" option.longName.bytes))

/-- The seen flags of the table after one more option token. -/
def cliHandleAssignment (context : ParseContext) (options : List OptionSpec) (seen : List Bool)
    (keyPrefix : CString) (name : List UInt8) (value : Option CString) : Run (List Bool) :=
  match cliFindOption name options 0 with
  | none => cliReject context (optionMessage ": unknown option --" name)
  | some (optionIndex, option) =>
      if option.type = .flag then
        match value with
        | some _ =>
            cliReject context
              (quotedMessage ": option --" option.longName " does not take a value\n")
        | none => do
            cliStoreOption context keyPrefix option fun key => configStoreSet key (.lit "true")
            pure (seen.set optionIndex true)
      else
        match value with
        | none =>
            cliReject context (quotedMessage ": option --" option.longName " requires a value\n")
        | some value =>
            if cliValidateValue option value = false then
              cliReject context
                (quotedMessage ": invalid value for --" option.longName ": '" ++
                  [value.bytes, (CString.lit "'\n").bytes])
            else do
              cliStoreOption context keyPrefix option fun key =>
                if option.type = .list then configStoreAppend key value listSeparator
                else configStoreSet key value
              pure (seen.set optionIndex true)

def cliCheckBuiltin (name : List UInt8) (literal : CString) : Bool :=
  if literal.length ≠ name.length then false
  else cliStringEqualN literal.bytes name name.length

/-- `name`, a dot and the terminator, into a prefix buffer. -/
def cliCommandPrefix (command : CommandSpec) : Run CString := do
  writeBuffer (List.range (command.name.length + 2))
  pure (command.name.append (.lit "."))

/-- What the loop over the arguments has found so far. -/
structure ScanState where
  command : Option CommandSpec
  globalSeen : List Bool
  commandSeen : List Bool

def ScanState.initial : ScanState :=
  ⟨none, List.replicate cliTableSize false, List.replicate cliTableSize false⟩

/-- How the loop ends: at `--help` or `--version`, or with the positional
arguments still to check. -/
inductive ScanResult
  | help (command : Option CommandSpec)
  | version
  | ended (state : ScanState) (positionalValues : List CString)

def cliHandleOption (context : ParseContext) (state : ScanState) (name : List UInt8)
    (value : Option CString) : Run ScanState :=
  match state.command with
  | none => do
      let globalSeen ← cliHandleAssignment context context.spec.globalOptions state.globalSeen
        cliGlobalPrefix name value
      pure { state with globalSeen := globalSeen }
  | some command =>
      if command.name.length + 2 > cliKeyBufferSize then
        cliReject context [(CString.lit ": command name too long\n").bytes]
      else do
        let commandPrefix ← cliCommandPrefix command
        let commandSeen ← cliHandleAssignment context command.options state.commandSeen
          commandPrefix name value
        pure { state with commandSeen := commandSeen }

def startsWithDashes (argument : CString) : Bool :=
  2 ≤ argument.length && argument.bytes.getD 0 0 = dash && argument.bytes.getD 1 0 = dash

def cliScan (context : ParseContext) : List CString → ScanState → Run ScanResult
  | [], state => pure (.ended state [])
  | current :: rest, state =>
      if startsWithDashes current = true ∧ current.length = 2 then pure (.ended state rest)
      else if startsWithDashes current then
        match cliParseAssignment current with
        | none => cliReject context (quotedMessage ": malformed option '" current "'\n")
        | some (name, value) =>
            if cliCheckBuiltin name (.lit "help") then pure (.help state.command)
            else if cliCheckBuiltin name (.lit "version") then pure .version
            else do
              let state ← cliHandleOption context state name value
              cliScan context rest state
      else
        match state.command with
        | none =>
            match cliFindCommand current context.spec.commands with
            | none => cliReject context (quotedMessage ": unknown command '" current "'\n")
            | some command => cliScan context rest { state with command := some command }
        | some _ => pure (.ended state (current :: rest))

/-- No table has more rows than there are seen flags. -/
def cliCheckTables (context : ParseContext) : Run Unit := do
  match context.spec.commands.find? fun command => command.options.length > cliTableSize with
  | some command =>
      cliReject context
        (quotedMessage ": internal error: too many options in command '" command.name "'\n")
  | none =>
      if context.spec.globalOptions.length > cliTableSize then
        cliReject context [(CString.lit ": internal error: too many global options\n").bytes]
      else pure ()

def boundMessage (command : CommandSpec) (text : String) (bound : Nat) : List (List UInt8) :=
  quotedMessage ": command '" command.name text ++
    [(CString.lit (toString bound)).bytes, (CString.lit " positional argument(s)\n").bytes]

def cliCheckPositionals (context : ParseContext) (command : CommandSpec) (count : Nat) :
    Run Unit :=
  if count < command.positionalMin then
    cliReject context (boundMessage command "' requires at least " command.positionalMin)
  else if command.positionalMax > 0 ∧ count > command.positionalMax then
    cliReject context (boundMessage command "' accepts at most " command.positionalMax)
  else pure ()

/-- What follows the loop: defaults, positional bounds and the sort. -/
def cliFinish (context : ParseContext) (state : ScanState) (positionalValues : List CString) :
    Run (ParseStatus × Parsed) :=
  match state.command with
  | none => cliReject context [(CString.lit ": missing command\n").bytes]
  | some command => do
      cliApplyDefaults context cliGlobalPrefix state.globalSeen context.spec.globalOptions 0
      -- the length of the name is not checked here
      let commandPrefix ← cliCommandPrefix command
      cliApplyDefaults context commandPrefix state.commandSeen command.options 0
      cliCheckPositionals context command positionalValues.length
      onFailure configStoreSort
        (cliReport context [(CString.lit ": failed to sort config store\n").bytes])
      pure (.ok, ⟨some command, positionalValues⟩)

def cliParseArguments (context : ParseContext) (argumentValues : List CString) :
    Run (ParseStatus × Parsed) := do
  cliCheckTables context
  match ← cliScan context (argumentValues.drop 1) .initial with
  | .help none => pure (.helpGlobal, .empty)
  | .help (some command) => pure (.helpCommand, ⟨some command, []⟩)
  | .version => pure (.version, .empty)
  | .ended state positionalValues => cliFinish context state positionalValues

/-- `bc_runtime_cli_parse`: the status and `*out_parsed`. -/
def cliParse (spec : ProgramSpec) (argumentValues : List CString) (errorStream : Bool) :
    Run (ParseStatus × Parsed) := do
  match ← attempt (cliParseArguments ⟨spec, errorStream⟩ argumentValues) with
  | some result => pure result
  | none => pure (.error, .empty)

end BcRuntime
