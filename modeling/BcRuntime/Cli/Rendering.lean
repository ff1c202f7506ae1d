import BcRuntime.Cli.Overlay

/-!
Writing a command line for the parser to read back. A request says what a user wants from
a program: a command, options with their values, and positional arguments of any bytes.
Every request a spec permits has a command line that grants it and nothing else, and every
command line the parser accepts is the spelling of a permitted request.
-/

namespace BcRuntime
open Fallible Run

/-- The option takes the value, and a token can say so. -/
structure Expressible (option : OptionSpec) (value : Option CString) : Prop where
  accepts : AcceptsValue option value
  noEquals : equalsSign ∉ option.longName.bytes
  notHelp : option.longName.bytes ≠ helpName
  notVersion : option.longName.bytes ≠ versionName
  visible : option.longName.bytes ≠ [] ∨ value.isSome = true

/-- An option and the value it is to have; a flag has none. -/
structure Choice where
  option : OptionSpec
  value : Option CString
  expressible : Expressible option value

namespace Choice

/-- What stands behind the name. -/
def valueBytes : Option CString → List UInt8
  | none => []
  | some value => equalsSign :: value.bytes

def token (choice : Choice) : CString where
  bytes := dashes ++ (choice.option.longName.bytes ++ valueBytes choice.value)
  noNul := by
    have opening : (0 : UInt8) ∉ dashes := by decide
    have name := choice.option.longName.noNul
    cases choice.value with
    | none => simp [opening, name, valueBytes]
    | some value => simp [opening, name, valueBytes, value.noNul, equalsSign]

theorem token_drop (choice : Choice) :
    choice.token.bytes.drop 2 = choice.option.longName.bytes ++ valueBytes choice.value := by
  have opening : dashes.length = 2 := rfl
  rw [← opening]
  exact List.drop_left

theorem tokenParts_token (choice : Choice) :
    tokenParts choice.token = (choice.option.longName.bytes, choice.value) := by
  have absent := choice.expressible.noEquals
  rw [tokenParts, token_drop, List.splitFirst_append absent]
  cases choice.value with
  | none => simp [valueBytes, List.splitFirst]
  | some value => simp [valueBytes, List.splitFirst, CString.ofBuffer_self]

@[simp] theorem tokenName_token (choice : Choice) :
    tokenName choice.token = choice.option.longName.bytes :=
  congrArg Prod.fst choice.tokenParts_token

@[simp] theorem tokenValue_token (choice : Choice) : tokenValue choice.token = choice.value :=
  congrArg Prod.snd choice.tokenParts_token

theorem token_isOption (choice : Choice) : OptionToken choice.token := by
  refine ⟨⟨_, rfl⟩, ?_⟩
  have size : choice.token.length =
      2 + (choice.option.longName.bytes.length + (valueBytes choice.value).length) := by
    rw [CString.length, token, List.length_append, List.length_append]
    rfl
  have more : 0 < choice.option.longName.bytes.length + (valueBytes choice.value).length := by
    cases choice.expressible.visible with
    | inl named => exact Nat.add_pos_left (List.length_pos_iff.mpr named) _
    | inr given =>
        obtain ⟨value, hvalue⟩ := Option.isSome_iff_exists.mp given
        rw [hvalue]
        exact Nat.add_pos_right _ (Nat.succ_pos _)
  omega

theorem token_valid {table : List OptionSpec} (choice : Choice) (mem : choice.option ∈ table) :
    ValidToken table choice.token where
  option := choice.token_isOption
  notHelp := by rw [tokenName_token]; exact choice.expressible.notHelp
  notVersion := by rw [tokenName_token]; exact choice.expressible.notVersion
  named := ⟨choice.option, mem, choice.tokenName_token.symm, by
    rw [tokenValue_token]; exact choice.expressible.accepts⟩

end Choice

section Reading
variable {table : List OptionSpec} {token : CString}

theorem OptionToken.bytes_eq (h : OptionToken token) :
    token.bytes = dashes ++ (tokenName token ++ Choice.valueBytes (tokenValue token)) ∧
      equalsSign ∉ tokenName token := by
  obtain ⟨text, whole⟩ := h.1
  have opening : dashes.length = 2 := rfl
  have after : token.bytes.drop 2 = text := by
    rw [← whole, ← opening]
    exact List.drop_left
  have noNul : 0 ∉ text := fun nul => token.noNul (whole ▸ List.mem_append_right _ nul)
  rw [tokenName, tokenValue, tokenParts, after]
  cases split : text.splitFirst equalsSign with
  | none =>
      exact ⟨by simp [← whole, Choice.valueBytes], List.splitFirst_eq_none_iff.mp split⟩
  | some parts =>
      obtain ⟨name, value⟩ := parts
      obtain ⟨joined, absent⟩ := List.splitFirst_eq_some_iff.mp split
      have valueNul : 0 ∉ value := fun nul =>
        noNul (joined ▸ List.mem_append_right _ (List.mem_cons_of_mem _ nul))
      refine ⟨?_, absent⟩
      rw [← whole, joined, Choice.valueBytes, CString.ofBuffer_bytes valueNul]

/-- Every token a table accepts spells a choice. -/
theorem ValidToken.choice (h : ValidToken table token) :
    ∃ choice : Choice, choice.option ∈ table ∧ choice.token = token := by
  obtain ⟨option, mem, name, accepts⟩ := h.named
  obtain ⟨bytes, noEquals⟩ := h.option.bytes_eq
  have expressible : Expressible option (tokenValue token) := by
    refine ⟨accepts, ?_, ?_, ?_, ?_⟩
    · rwa [name]
    · rw [name]
      exact h.notHelp
    · rw [name]
      exact h.notVersion
    · by_contra neither
      simp only [not_or, ne_eq, not_not, Bool.not_eq_true, Option.isSome_eq_false_iff,
        Option.isNone_iff_eq_none] at neither
      rw [← name, neither.1, neither.2] at bytes
      exact h.option.ne_terminator bytes
  exact ⟨⟨option, tokenValue token, expressible⟩, mem, CString.ext (by rw [bytes, ← name]; rfl)⟩

end Reading

section Table
variable {keyPrefix : CString} {table : List OptionSpec} {option : OptionSpec}
  {choices : List Choice}

def spelled (choices : List Choice) : List CString := choices.map Choice.token

def Chosen (option : OptionSpec) (choices : List Choice) : Prop :=
  ∃ choice ∈ choices, choice.option = option

instance (option : OptionSpec) (choices : List Choice) : Decidable (Chosen option choices) :=
  inferInstanceAs (Decidable (∃ choice ∈ choices, _))

def chosenValues (option : OptionSpec) (choices : List Choice) : List CString :=
  (choices.filter fun choice => choice.option = option).filterMap Choice.value

/-- What a request makes of the setting of an option. -/
def grantedSetting (option : OptionSpec) (choices : List Choice) (old : Option CString) :
    Option CString :=
  if Chosen option choices then
    match option.type with
    | .flag => some (.lit "true")
    | .list => some (.joinLines (old.toList ++ chosenValues option choices))
    | .string | .integer | .boolean | .enum => (chosenValues option choices).getLast?
  else option.defaultValue.or old

/-- The choices are among the rows of a table, nothing required is missing, and the keys
that are stored fit. -/
structure PermittedChoices (keyPrefix : CString) (table : List OptionSpec)
    (choices : List Choice) : Prop where
  rows : ∀ choice ∈ choices, choice.option ∈ table
  required : ∀ option ∈ table, option.required = true → Chosen option choices
  fits : ∀ option ∈ table, Chosen option choices ∨ option.defaultValue.isSome = true →
    KeyFits keyPrefix option

/-- With distinct names a choice and its token name the same row. -/
theorem choice_named_iff (distinct : DistinctNames table) (mem : option ∈ table)
    {choice : Choice} (row : choice.option ∈ table) :
    tokenName choice.token = option.longName.bytes ↔ choice.option = option := by
  rw [Choice.tokenName_token]
  constructor
  · exact distinct.eq_of_name row mem
  · intro same
    rw [same]

theorem occurs_spelled (distinct : DistinctNames table) (mem : option ∈ table)
    (rows : ∀ choice ∈ choices, choice.option ∈ table) :
    Occurs option (spelled choices) ↔ Chosen option choices := by
  rw [Occurs, spelled, List.map_map]
  constructor
  · intro occurs
    obtain ⟨choice, choice_mem, named⟩ := List.mem_map.mp occurs
    exact ⟨choice, choice_mem, (choice_named_iff distinct mem (rows choice choice_mem)).mp named⟩
  · intro chosen
    obtain ⟨choice, choice_mem, same⟩ := chosen
    exact List.mem_map.mpr
      ⟨choice, choice_mem, (choice_named_iff distinct mem (rows choice choice_mem)).mpr same⟩

theorem suppliedValues_spelled (distinct : DistinctNames table) (mem : option ∈ table)
    (rows : ∀ choice ∈ choices, choice.option ∈ table) :
    suppliedValues option (spelled choices) = chosenValues option choices := by
  have named : choices.filter (fun choice => tokenName choice.token = option.longName.bytes) =
      choices.filter fun choice => choice.option = option := by
    refine List.filter_congr fun choice choice_mem => ?_
    exact decide_eq_decide.mpr (choice_named_iff distinct mem (rows choice choice_mem))
  have values : ∀ choices : List Choice,
      (choices.map Choice.token).filterMap tokenValue = choices.filterMap Choice.value := by
    intro choices
    rw [List.filterMap_map]
    exact List.filterMap_congr fun choice _ => choice.tokenValue_token
  rw [suppliedValues, spelled, List.filter_map, values, chosenValues, ← named]
  rfl

/-- The tokens of the choices make of a row what the request asks for. -/
theorem rowOver_spelled (distinct : DistinctNames table) (mem : option ∈ table)
    (rows : ∀ choice ∈ choices, choice.option ∈ table) (old : Option CString) :
    rowOver option (spelled choices) old = grantedSetting option choices old := by
  rw [rowOver, grantedSetting, suppliedOver, suppliedValues_spelled distinct mem rows]
  refine if_congr (occurs_spelled distinct mem rows) ?_ rfl
  cases option.type <;> rfl

theorem tableComplete_spelled (distinct : DistinctNames table)
    (rows : ∀ choice ∈ choices, choice.option ∈ table) :
    TableComplete keyPrefix table (spelled choices) ↔ PermittedChoices keyPrefix table choices := by
  have occurs : ∀ option ∈ table, (Occurs option (spelled choices) ↔ Chosen option choices) :=
    fun option mem => occurs_spelled distinct mem rows
  constructor
  · intro complete
    refine ⟨rows, fun option mem required => ?_, fun option mem stored => ?_⟩
    · exact (occurs option mem).mp (complete.required option mem required)
    · exact complete.fits option mem (stored.imp_left (occurs option mem).mpr)
  · intro permitted
    refine ⟨fun option mem required => ?_, fun option mem stored => ?_⟩
    · exact (occurs option mem).mpr (permitted.required option mem required)
    · exact permitted.fits option mem (stored.imp_left (occurs option mem).mp)

theorem spelled_valid (rows : ∀ choice ∈ choices, choice.option ∈ table) :
    ∀ token ∈ spelled choices, ValidToken table token := by
  intro token mem
  obtain ⟨choice, choice_mem, same⟩ := List.mem_map.mp mem
  rw [← same]
  exact choice.token_valid (rows choice choice_mem)

theorem exists_spelled {tokens : List CString} (valid : ∀ token ∈ tokens, ValidToken table token) :
    ∃ choices : List Choice, (∀ choice ∈ choices, choice.option ∈ table) ∧
      spelled choices = tokens := by
  induction tokens with
  | nil => exact ⟨[], by simp, rfl⟩
  | cons token tokens ih =>
      obtain ⟨choice, row, spells⟩ := (valid token List.mem_cons_self).choice
      obtain ⟨choices, rows, same⟩ := ih fun other mem => valid other (List.mem_cons_of_mem _ mem)
      refine ⟨choice :: choices, fun other mem => ?_, congrArg₂ List.cons spells same⟩
      cases List.mem_cons.mp mem with
      | inl first => exact first ▸ row
      | inr tail => exact rows other tail

end Table

/-- What a user wants from a program. -/
structure Request where
  program : CString
  globals : List Choice
  command : CommandSpec
  options : List Choice
  values : List CString

def terminator : CString := .lit "--"

namespace Request
variable {spec : ProgramSpec} {request : Request}

/-- The command line of a request. The terminator keeps its values from being read as options. -/
def argumentValues (request : Request) : List CString :=
  request.program :: (spelled request.globals ++
    request.command.name :: (spelled request.options ++ terminator :: request.values))

structure Permitted (spec : ProgramSpec) (request : Request) : Prop where
  globals : PermittedChoices cliGlobalPrefix spec.globalOptions request.globals
  names : (spec.commands.find? fun command => command.name = request.command.name) =
    some request.command
  isWord : ¬ dashes <+: request.command.name.bytes
  options : PermittedChoices (commandPrefix request.command) request.command.options
    request.options
  count : PositionalsFit request.command request.values.length

/-- What the request makes of a store: it is granted and nothing else is changed. -/
structure Granted (spec : ProgramSpec) (request : Request) (before after : ConfigStore) :
    Prop where
  globals : ∀ option ∈ spec.globalOptions,
    after.content (optionKey cliGlobalPrefix option) =
      grantedSetting option request.globals (before.content (optionKey cliGlobalPrefix option))
  options : ∀ option ∈ request.command.options,
    after.content (optionKey (commandPrefix request.command) option) =
      grantedSetting option request.options
        (before.content (optionKey (commandPrefix request.command) option))
  others : ∀ key, (∀ option ∈ spec.globalOptions, optionKey cliGlobalPrefix option ≠ key) →
    (∀ option ∈ request.command.options,
      optionKey (commandPrefix request.command) option ≠ key) →
        after.content key = before.content key

theorem Permitted.command_mem (h : request.Permitted spec) : request.command ∈ spec.commands :=
  List.mem_of_find?_eq_some h.names

/-- A permitted request is spelled by sentences, with any spelling of its values. -/
theorem Permitted.sentence (h : request.Permitted spec) (distinct : DistinctTables spec)
    {rest : List CString} (ends : EndsOptions rest) (values : positionals rest = request.values) :
    Sentence spec (spelled request.globals) request.command.name request.command
      (spelled request.options) rest where
  globalTokens := spelled_valid h.globals.rows
  isWord := h.isWord
  names := h.names
  commandTokens := spelled_valid h.options.rows
  ends := ends
  globalsComplete :=
    (tableComplete_spelled distinct.globalsDistinct h.globals.rows).mpr h.globals
  commandComplete := (tableComplete_spelled
    (distinct.commandsDistinct _ h.command_mem) h.options.rows).mpr h.options
  positionalCount := by rw [values]; exact h.count

/-- And every sentence spells one. -/
theorem permitted_of_sentence {globals options rest : List CString} {word : CString}
    {command : CommandSpec} (sentence : Sentence spec globals word command options rest)
    (distinct : DistinctTables spec) (program : CString) :
    ∃ request : Request, request.Permitted spec ∧ request.program = program ∧
      spelled request.globals = globals ∧ request.command = command ∧ word = command.name ∧
      spelled request.options = options ∧ positionals rest = request.values := by
  obtain ⟨globalChoices, globalRows, hglobals⟩ := exists_spelled sentence.globalTokens
  obtain ⟨optionChoices, optionRows, hoptions⟩ := exists_spelled sentence.commandTokens
  have mem : command ∈ spec.commands := List.mem_of_find?_eq_some sentence.names
  have word_eq : word = command.name :=
    (of_decide_eq_true (List.find?_eq_some_iff_append.mp sentence.names).1).symm
  have globalsComplete := sentence.globalsComplete
  have commandComplete := sentence.commandComplete
  rw [← hglobals, tableComplete_spelled distinct.globalsDistinct globalRows] at globalsComplete
  rw [← hoptions, tableComplete_spelled (distinct.commandsDistinct command mem) optionRows]
    at commandComplete
  refine ⟨⟨program, globalChoices, command, optionChoices, positionals rest⟩, ?_, rfl, hglobals,
    rfl, word_eq, hoptions, rfl⟩
  have names := sentence.names
  have isWord := sentence.isWord
  rw [word_eq] at names isWord
  exact ⟨globalsComplete, names, isWord, commandComplete, sentence.positionalCount⟩

theorem Permitted.granted (h : request.Permitted spec) (distinct : DistinctTables spec)
    {before after : ConfigStore}
    (overlaid : Overlaid spec (spelled request.globals) request.command (spelled request.options)
      before after) : request.Granted spec before after where
  globals := fun option mem => by
    rw [overlaid.globalRows option mem,
      rowOver_spelled distinct.globalsDistinct mem h.globals.rows]
  options := fun option mem => by
    rw [overlaid.commandRows option mem,
      rowOver_spelled (distinct.commandsDistinct _ h.command_mem) mem h.options.rows]
  others := overlaid.otherKeys

end Request

section Parse
variable [BcCore] {spec : ProgramSpec} {host : Host} {m m' : Machine}

omit [BcCore] in
theorem positionals_terminated (values : List CString) :
    EndsOptions (terminator :: values) ∧ positionals (terminator :: values) = values := by
  have same : terminator.bytes = dashes := rfl
  exact ⟨.inl same, by rw [positionals, if_pos same]⟩

theorem performed_of_plan {argumentValues : List CString} {errorStream : Bool}
    {calls : List StoreCall} {parsed : Parsed}
    (planned : planParse spec argumentValues = some (calls, (.ok, parsed)))
    (run : cliParse spec argumentValues errorStream host m = (some (.ok, parsed), m')) :
    Performed calls m m' := by
  have followed : FollowsPlan host m _ _ :=
    cliParseArguments_follows m ⟨spec, errorStream⟩ argumentValues
  obtain ⟨calls', planned', performed⟩ := wp_some followed (cliParse_ok_iff.mp run)
  obtain ⟨same, _⟩ := Prod.mk.inj (Option.some.inj (planned'.symm.trans planned))
  rwa [← same]

/-- Every permitted request can be asked for on a command line, whatever bytes its values are
made of, and every command line that is accepted asks for a permitted request: the parser
grants it, over any store, and changes nothing else. -/
theorem cliParse_requests (wellFormed : WellFormedSpec spec)
    (apart : ∀ command ∈ spec.commands, ApartFromGlobal command)
    (short : ∀ command ∈ spec.commands, command.name.length ≤ 254)
    (succeed : host.StoreCallsSucceed) (valid : m.store.Valid) (errorStream : Bool) :
    (∀ request : Request, request.Permitted spec →
      ∃ m', cliParse spec request.argumentValues errorStream host m =
          (some (.ok, ⟨some request.command, request.values⟩), m') ∧
        request.Granted spec m.store m'.store) ∧
    ∀ argumentValues parsed m',
      cliParse spec argumentValues errorStream host m = (some (.ok, parsed), m') →
        ∃ request : Request, request.Permitted spec ∧
          parsed = ⟨some request.command, request.values⟩ ∧
          request.Granted spec m.store m'.store ∧
          ∃ rest, argumentValues.drop 1 = spelled request.globals ++
              request.command.name :: (spelled request.options ++ rest) ∧
            positionals rest = request.values := by
  have distinct : DistinctTables spec := wellFormed.toDistinctTables
  constructor
  · intro request permitted
    obtain ⟨ends, values⟩ := positionals_terminated request.values
    have sentence := permitted.sentence distinct ends values
    have fits : request.command.name.length + 2 ≤ cliKeyBufferSize :=
      Nat.add_le_add_right (short _ permitted.command_mem) 2
    have split : request.argumentValues.drop 1 = spelled request.globals ++
        request.command.name :: (spelled request.options ++ terminator :: request.values) := rfl
    have planned := plan_of_sentence wellFormed split fits sentence
    have run := cliParse_run_of_result (cliParse_of_plan succeed m errorStream planned)
    have performed := performed_of_plan planned run
    rw [values] at run
    exact ⟨_, run, permitted.granted distinct (performed.overlaid sentence distinct apart valid)⟩
  · intro argumentValues parsed m' run
    obtain ⟨globals, word, command, options, rest, split, sentence, hparsed, performed⟩ :=
      sentence_of_cliParse distinct run
    obtain ⟨request, permitted, _, hglobals, hcommand, hword, hoptions, values⟩ :=
      Request.permitted_of_sentence sentence distinct (argumentValues.headD terminator)
    have overlaid := performed.overlaid sentence distinct apart valid
    subst hglobals hcommand hoptions
    refine ⟨request, permitted, by rw [hparsed, values], permitted.granted distinct overlaid,
      rest, by rw [split, hword], values⟩

omit [BcCore] in
theorem pathExpressible (value : CString) : Expressible pathOption (some value) where
  accepts := ⟨by decide, trivial⟩
  noEquals := by decide
  notHelp := by decide
  notVersion := by decide
  visible := .inr rfl

/-- A path with an equals sign, an empty one, and values that look like options. -/
def awkwardRequest : Request where
  program := .lit "copy"
  globals := []
  command := runCommand
  options := [⟨pathOption, some (.lit "a=b"), pathExpressible _⟩,
    ⟨pathOption, some (.lit ""), pathExpressible _⟩]
  values := [.lit "--path=c", .lit "--"]

omit [BcCore] in
theorem awkwardRequest_permitted : awkwardRequest.Permitted copySpec where
  globals := ⟨by simp [awkwardRequest], by decide, by decide⟩
  names := by decide
  isWord := by decide
  options := ⟨by decide, by decide, by decide⟩
  count := by decide

omit [BcCore] in
theorem cliParse_requests_awkward :
    ∃ m', @cliParse .reference copySpec awkwardRequest.argumentValues true (.obliging [] [])
        .initial = (some (.ok, ⟨some runCommand, [.lit "--path=c", .lit "--"]⟩), m') ∧
      m'.store.content (.lit "run.path") = some (.lit "a=b\n") ∧
      m'.store.content (.lit "run.jobs") = some (.lit "4") := by
  have valid : Machine.initial.store.Valid := ⟨by decide, fun sorted => nomatch sorted⟩
  obtain ⟨m', run, granted⟩ := (@cliParse_requests .reference copySpec (.obliging [] []) .initial
    copySpec_wellFormed (by decide) (by decide) (Host.obliging_storeCallsSucceed [] []) valid
    true).1 awkwardRequest awkwardRequest_permitted
  exact ⟨m', run, granted.options pathOption (by decide), granted.options jobsOption (by decide)⟩

end Parse

end BcRuntime
