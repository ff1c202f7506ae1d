import BcRuntime.Cli.Help
import BcRuntime.Cli.OptionRuns
import BcRuntime.Cli.Rejection
import BcRuntime.Foundation.Lines

/-!
The help and the parser agree. A help text is read line by line: a line that starts
with two blanks and two dashes is about an option and shows its name and whether a
value goes with it. What is read in this way from the help of the place where a token
stands decides whether the parser takes the form of the token, and which message it
gives when it does not.
-/

namespace BcRuntime
open Fallible Run

/-- An option as a help text shows it. -/
structure ShownOption where
  name : List UInt8
  takesValue : Bool
deriving DecidableEq

def OptionSpec.shown (option : OptionSpec) : ShownOption :=
  ⟨option.longName.bytes, decide (option.type ≠ .flag)⟩

def optionIndent : List UInt8 := (CString.lit "  --").bytes

def readOptionLine (line : List UInt8) : Option ShownOption :=
  if optionIndent <+: line then
    match (line.drop 4).splitFirst equalsSign with
    | some (name, _) => some ⟨name, true⟩
    | none => some ⟨line.drop 4, false⟩
  else none

def readShown (text : List UInt8) : List ShownOption :=
  (text.splitOn newline).filterMap readOptionLine

/-- The message for an option token whose form is not what the help shows. -/
def formMessage (shown : List ShownOption) (token : CString) : Option (List (List UInt8)) :=
  match shown.find? fun option => option.name = tokenName token, tokenValue token with
  | none, _ => some (optionMessage ": unknown option --" (tokenName token))
  | some ⟨name, false⟩, some _ =>
      some [(CString.lit ": option --").bytes, name,
        (CString.lit " does not take a value\n").bytes]
  | some ⟨name, true⟩, none =>
      some [(CString.lit ": option --").bytes, name, (CString.lit " requires a value\n").bytes]
  | some _, _ => none

section Texts

def OneLine (text : CString) : Prop := newline ∉ text.bytes

instance (text : CString) : Decidable (OneLine text) := inferInstanceAs (Decidable (_ ∉ _))

/-- A name that no line starts with as a line about an option does. -/
structure PlainWord (word : CString) : Prop where
  oneLine : OneLine word
  starts : ∃ first ∈ word.bytes.head?, first ≠ 32 ∧ first ≠ dash

/-- The texts of an option stay on their lines, and its name can be given in a token. -/
structure PlainOption (option : OptionSpec) : Prop where
  name : OneLine option.longName
  assignable : equalsSign ∉ option.longName.bytes
  placeholder : ∀ text ∈ option.valuePlaceholder, OneLine text
  summary : ∀ text ∈ option.helpSummary, OneLine text
  values : ∀ texts ∈ option.allowedValues, ∀ text ∈ texts, OneLine text
  fallback : ∀ text ∈ option.defaultValue, OneLine text

structure PlainCommand (command : CommandSpec) : Prop where
  word : PlainWord command.name
  summary : ∀ text ∈ command.summary, OneLine text
  usage : ∀ text ∈ command.positionalUsage, OneLine text
  options : ∀ option ∈ command.options, PlainOption option

/-- A program whose help can be read line by line. -/
structure PlainSpec (spec : ProgramSpec) : Prop where
  program : PlainWord spec.programName
  summary : ∀ text ∈ spec.summary, OneLine text
  globals : ∀ option ∈ spec.globalOptions, PlainOption option
  commands : ∀ command ∈ spec.commands, PlainCommand command

end Texts

section Lines
variable {pieces more : List (List UInt8)} {body : List UInt8} {shown later : List ShownOption}

/-- The pieces are whole lines and show these options. -/
def Shows (pieces : List (List UInt8)) (shown : List ShownOption) : Prop :=
  ∀ rest, readShown (pieces.flatten ++ rest) = shown ++ readShown rest

theorem Shows.nil : Shows [] [] := fun _ => rfl

theorem Shows.append (first : Shows pieces shown) (second : Shows more later) :
    Shows (pieces ++ more) (shown ++ later) := by
  intro rest
  rw [List.flatten_append, List.append_assoc, first, second, List.append_assoc]

theorem Shows.of_flatten (lines : Shows more shown) (same : pieces.flatten = more.flatten) :
    Shows pieces shown := by
  intro rest
  rw [same]
  exact lines rest

theorem Shows.append_other (first : Shows pieces shown) (other : Shows more []) :
    Shows (pieces ++ more) shown := by
  have both := first.append other
  rwa [List.append_nil] at both

theorem Shows.other_append (other : Shows pieces []) (second : Shows more later) :
    Shows (pieces ++ more) later := other.append second

theorem Shows.flatMap {α : Type} {items : List α} {print : α → List (List UInt8)}
    {show_ : α → List ShownOption} (each : ∀ item ∈ items, Shows (print item) (show_ item)) :
    Shows (items.flatMap print) (items.flatMap show_) := by
  induction items with
  | nil => exact .nil
  | cons item items ih =>
      rw [List.flatMap_cons, List.flatMap_cons]
      have first := each item List.mem_cons_self
      exact first.append (ih fun later mem => each later (List.mem_cons_of_mem item mem))

/-- A text that ends its last line shows what is read from it. -/
theorem Shows.block {front : List UInt8} (whole : pieces.flatten = front ++ [newline]) :
    Shows pieces (readShown front) := by
  intro rest
  rw [whole, List.append_assoc, List.singleton_append, readShown, List.splitOn_append_cons_self,
    List.filterMap_append]
  rfl

/-- The same for a text of the printer itself. -/
theorem Shows.literal (front : List UInt8) (reads : readShown front = shown)
    (whole : pieces.flatten = front ++ [newline]) : Shows pieces shown :=
  reads ▸ Shows.block whole

theorem readShown_line (plain : newline ∉ body) :
    readShown body = (readOptionLine body).toList := by
  rw [readShown, List.splitOn_eq_singleton plain]
  cases read : readOptionLine body with
  | none => exact List.filterMap_cons_none read
  | some option => exact List.filterMap_cons_some read

theorem Shows.line (plain : newline ∉ body) (whole : pieces.flatten = body ++ [newline]) :
    Shows pieces (readOptionLine body).toList :=
  readShown_line plain ▸ Shows.block whole

theorem Shows.other (plain : newline ∉ body) (unlike : ¬ optionIndent <+: body)
    (whole : pieces.flatten = body ++ [newline]) : Shows pieces [] := by
  have line := Shows.line plain whole
  rwa [readOptionLine, if_neg unlike] at line

end Lines

section Options
variable {option : OptionSpec}

/-- The first line about an option. -/
def optionForm (option : OptionSpec) : List UInt8 :=
  option.longName.bytes ++
    if option.type ≠ .flag then
      equalsSign :: (option.valuePlaceholder.getD (.lit "VALUE")).bytes
    else []

theorem optionIndent_eq : optionIndent = [32, 32, dash, dash] := by decide

theorem readOptionLine_form (assignable : equalsSign ∉ option.longName.bytes) :
    readOptionLine (optionIndent ++ optionForm option) = some option.shown := by
  have after : (optionIndent ++ optionForm option).drop 4 = optionForm option :=
    List.drop_left' (by decide)
  rw [readOptionLine, if_pos (List.prefix_append _ _), after, optionForm, OptionSpec.shown,
    List.splitFirst_append assignable]
  by_cases isFlag : option.type = .flag
  · simp [isFlag, List.splitFirst]
  · simp [isFlag, List.splitFirst]

/-- A line that is indented further is about no option. -/
theorem indented_unlike (tail : List UInt8) :
    ¬ optionIndent <+: (CString.lit "      ").bytes ++ tail := by
  have indent : (CString.lit "      ").bytes = [32, 32, 32, 32, 32, 32] := by decide
  rw [optionIndent_eq, indent]
  simp [dash]

theorem shows_indented (tail : List UInt8) {pieces : List (List UInt8)} (plain : newline ∉ tail)
    (whole : pieces.flatten = (CString.lit "      ").bytes ++ tail ++ [newline]) :
    Shows pieces [] := by
  refine Shows.other ?_ (indented_unlike tail) whole
  rw [List.mem_append, not_or]
  exact ⟨by decide, plain⟩

theorem oneLine_allowedValues {values : List CString} (plain : ∀ text ∈ values, OneLine text) :
    newline ∉ (allowedValuePieces values).flatten := by
  induction values using allowedValuePieces.induct with
  | case1 => exact List.not_mem_nil
  | case2 value =>
      have only := plain value List.mem_cons_self
      simpa [allowedValuePieces, newline, OneLine] using only
  | case3 value next values ih =>
      have first := plain value List.mem_cons_self
      have later := ih fun text mem => plain text (List.mem_cons_of_mem value mem)
      rw [allowedValuePieces, List.flatten_append, List.mem_append, not_or]
      exact ⟨by simpa [newline, OneLine] using first, later⟩

theorem oneLine_form (plain : PlainOption option) :
    newline ∉ optionIndent ++ optionForm option := by
  have placeholder : newline ∉ (option.valuePlaceholder.getD (.lit "VALUE")).bytes := by
    cases given : option.valuePlaceholder with
    | none => decide
    | some text => exact plain.placeholder text given
  rw [optionForm, List.mem_append, List.mem_append, not_or, not_or]
  refine ⟨by decide, plain.name, ?_⟩
  by_cases isFlag : option.type ≠ .flag
  · rw [if_pos isFlag, List.mem_cons, not_or]
    exact ⟨by decide, placeholder⟩
  · rw [if_neg isFlag]
    exact List.not_mem_nil

/-- The first line about an option shows it. -/
theorem shows_form (plain : PlainOption option) :
    Shows ([(CString.lit "  --").bytes, option.longName.bytes] ++
      (if option.type ≠ .flag then
        [[equalsSign], (option.valuePlaceholder.getD (.lit "VALUE")).bytes]
      else []) ++ [[newline]]) [option.shown] := by
  have line : Shows [optionIndent ++ optionForm option ++ [newline]] _ :=
    Shows.line (oneLine_form plain) List.flatten_singleton
  rw [readOptionLine_form plain.assignable] at line
  refine line.of_flatten ?_
  by_cases isFlag : option.type = .flag <;> simp [isFlag, optionForm, optionIndent]

theorem shows_option (plain : PlainOption option) :
    Shows (cliPrintOptionLine option) [option.shown] := by
  rw [cliPrintOptionLine]
  refine ((((shows_form plain).append_other ?_).append_other ?_).append_other ?_).append_other ?_
  · cases summary : option.helpSummary with
    | none => exact .nil
    | some text => exact shows_indented text.bytes (plain.summary text summary) (by simp)
  · cases values : option.allowedValues with
    | none => exact .nil
    | some texts =>
        have listed := oneLine_allowedValues (plain.values texts values)
        refine shows_indented ((CString.lit "values:").bytes ++
          (allowedValuePieces texts).flatten) ?_ ?_
        · rw [List.mem_append, not_or]
          exact ⟨by decide, listed⟩
        · simp
          rfl
  · by_cases required : option.required = true
    · rw [if_pos required]
      exact shows_indented (CString.lit "(required)").bytes (by decide) (by decide)
    · rw [if_neg required]
      cases fallback : option.defaultValue with
      | none => exact .nil
      | some text =>
          have value := plain.fallback text fallback
          refine shows_indented ((CString.lit "(default: ").bytes ++ (text.bytes ++
            (CString.lit ")").bytes)) ?_ ?_
          · rw [List.mem_append, List.mem_append, not_or, not_or]
            exact ⟨by decide, value, by decide⟩
          · simp
            rfl
  · by_cases repeatable : option.type = .list
    · rw [if_pos repeatable]
      exact shows_indented (CString.lit "(repeatable)").bytes (by decide) (by decide)
    · rw [if_neg repeatable]
      exact .nil

end Options

section Pages
variable {word : CString} {pieces : List (List UInt8)} {shown : List ShownOption}

theorem shows_blank : Shows [[newline]] [] := by
  have whole : [[newline]].flatten = [] ++ [newline] := rfl
  exact Shows.block whole

theorem PlainWord.shows_line (plain : PlainWord word) (tail : List UInt8)
    (inLine : newline ∉ tail) : Shows [word.bytes ++ tail ++ [newline]] [] := by
  refine Shows.other ?_ ?_ List.flatten_singleton
  · rw [List.mem_append, not_or]
    exact ⟨plain.oneLine, inLine⟩
  · obtain ⟨first, head, notBlank, _⟩ := plain.starts
    obtain ⟨rest, same⟩ := List.head?_eq_some_iff.mp head
    rw [optionIndent_eq, same, List.cons_append, List.cons_prefix_cons]
    exact fun starts => notBlank starts.1.symm

theorem PlainWord.shows_indented (plain : PlainWord word) (tail : List UInt8)
    (inLine : newline ∉ tail) :
    Shows [(CString.lit "  ").bytes ++ (word.bytes ++ tail) ++ [newline]] [] := by
  refine Shows.other ?_ ?_ List.flatten_singleton
  · rw [List.mem_append, List.mem_append, not_or, not_or]
    exact ⟨by decide, plain.oneLine, inLine⟩
  · obtain ⟨first, head, _, notDash⟩ := plain.starts
    obtain ⟨rest, same⟩ := List.head?_eq_some_iff.mp head
    have indent : (CString.lit "  ").bytes = [32, 32] := by decide
    rw [optionIndent_eq, indent, same]
    simp only [List.cons_append, List.nil_append, List.cons_prefix_cons, true_and, not_and]
    exact fun starts => absurd starts.symm notDash

/-- The last line of a help, with the name in quotes. -/
theorem PlainWord.shows_quoted (plain : PlainWord word) (tail : List UInt8)
    (inLine : newline ∉ tail) :
    Shows [(CString.lit "Run '").bytes ++ (word.bytes ++ tail) ++ [newline]] [] := by
  refine Shows.other ?_ ?_ List.flatten_singleton
  · rw [List.mem_append, List.mem_append, not_or, not_or]
    exact ⟨by decide, plain.oneLine, inLine⟩
  · have start : (CString.lit "Run '").bytes = 82 :: (CString.lit "un '").bytes := by decide
    rw [optionIndent_eq, start, List.cons_append, List.cons_prefix_cons]
    exact fun starts => absurd starts.1 (by decide)

theorem shows_usage : Shows [(CString.lit "USAGE\n").bytes] [] :=
  .literal (CString.lit "USAGE").bytes (by decide) (by decide)

theorem oneLine_summary {summary : Option CString} (plain : ∀ text ∈ summary, OneLine text) :
    newline ∉ (summaryPieces summary).flatten := by
  cases summary with
  | none => exact List.not_mem_nil
  | some text =>
      rw [summaryPieces, List.flatten_cons, List.flatten_singleton, List.mem_append, not_or]
      exact ⟨by decide, plain text rfl⟩

theorem shows_commandLine {command : CommandSpec} (plain : PlainCommand command) :
    Shows (commandLinePieces command) [] := by
  refine (plain.word.shows_indented _ (oneLine_summary plain.summary)).of_flatten ?_
  simp [commandLinePieces]

theorem shows_options {options : List OptionSpec} (plain : ∀ option ∈ options, PlainOption option) :
    Shows (options.flatMap cliPrintOptionLine) (options.map OptionSpec.shown) := by
  rw [List.map_eq_flatMap]
  exact Shows.flatMap fun option mem => shows_option (plain option mem)

/-- A table under its heading, before the options that are always there; both printers
write heading and these at once when the table is empty. -/
theorem shows_table {options : List OptionSpec} (plain : ∀ option ∈ options, PlainOption option)
    {heading always : List (List UInt8)} (title : Shows heading [])
    (builtins : Shows always shown) (bare : List (List UInt8))
    (same : bare.flatten = (heading ++ always).flatten) :
    Shows (if 0 < options.length then
        heading ++ options.flatMap cliPrintOptionLine ++ always
      else bare) (options.map OptionSpec.shown ++ shown) := by
  by_cases some_option : 0 < options.length
  · rw [if_pos some_option]
    exact (title.other_append (shows_options plain)).append builtins
  · have nothing := List.length_eq_zero_iff.mp (Nat.eq_zero_of_not_pos some_option)
    rw [if_neg some_option, nothing]
    exact (title.other_append builtins).of_flatten same

theorem shows_commands {commands : List CommandSpec}
    (plain : ∀ command ∈ commands, PlainCommand command) :
    Shows (commands.flatMap commandLinePieces) [] := by
  have nothing : commands.flatMap (fun _ => ([] : List ShownOption)) = [] :=
    List.flatMap_eq_nil_iff.mpr fun _ _ => rfl
  rw [← nothing]
  exact Shows.flatMap fun command mem => shows_commandLine (plain command mem)

/-- The options of the program and the two that every program has. -/
def shownGlobally (spec : ProgramSpec) : List ShownOption :=
  spec.globalOptions.map OptionSpec.shown ++ [⟨helpName, false⟩, ⟨versionName, false⟩]

/-- The help of a command is silent about the version. -/
def shownFor (command : CommandSpec) : List ShownOption :=
  command.options.map OptionSpec.shown ++ [⟨helpName, false⟩]

theorem shows_helpGlobal {spec : ProgramSpec} (plain : PlainSpec spec) :
    Shows (helpGlobalPieces spec) (shownGlobally spec) := by
  have title : Shows ([spec.programName.bytes] ++ summaryPieces spec.summary ++
      [(CString.lit "\n\n").bytes]) [] := by
    have first := plain.program.shows_line _ (oneLine_summary plain.summary)
    refine (first.append_other shows_blank).of_flatten ?_
    simp
    rfl
  have usage : Shows [(CString.lit "USAGE\n").bytes, (CString.lit "  ").bytes,
      spec.programName.bytes, (CString.lit
        " [global options] <command> [command options] [arguments...]\n\n").bytes] [] := by
    have second := plain.program.shows_indented (CString.lit
      " [global options] <command> [command options] [arguments...]").bytes (by decide)
    refine ((shows_usage.append_other second).append_other shows_blank).of_flatten ?_
    simp
    rfl
  have heading : Shows [(CString.lit "GLOBAL OPTIONS\n").bytes] [] :=
    .literal (CString.lit "GLOBAL OPTIONS").bytes (by decide) (by decide)
  have builtins : Shows [(CString.lit "  --help\n      print this help\n").bytes,
      (CString.lit "  --version\n      print version and exit\n").bytes, [newline]]
      [⟨helpName, false⟩, ⟨versionName, false⟩] :=
    .literal (CString.lit ("  --help\n      print this help\n" ++
      "  --version\n      print version and exit\n")).bytes (by decide) (by decide)
  have options := shows_table plain.globals heading builtins
    [(CString.lit "GLOBAL OPTIONS\n").bytes,
      (CString.lit "  --help\n      print this help\n").bytes,
      (CString.lit "  --version\n      print version and exit\n\n").bytes] (by decide)
  have commands : Shows [(CString.lit "COMMANDS\n").bytes] [] :=
    .literal (CString.lit "COMMANDS").bytes (by decide) (by decide)
  have details : Shows [(CString.lit "\nRun '").bytes, spec.programName.bytes,
      (CString.lit " <command> --help' for details on a command.\n").bytes] [] := by
    have line := plain.program.shows_quoted (CString.lit
      " <command> --help' for details on a command.").bytes (by decide)
    refine (shows_blank.append_other line).of_flatten ?_
    simp
    rfl
  exact ((((title.append_other usage).other_append options).append_other commands).append_other
    (shows_commands plain.commands)).append_other details

theorem shows_helpCommand {spec : ProgramSpec} {command : CommandSpec}
    (program : PlainWord spec.programName) (plain : PlainCommand command) :
    Shows (helpCommandPieces spec command) (shownFor command) := by
  have title : Shows ([spec.programName.bytes, [32], command.name.bytes] ++
      summaryPieces command.summary ++ [(CString.lit "\n\n").bytes]) [] := by
    have inLine : newline ∉
        32 :: (command.name.bytes ++ (summaryPieces command.summary).flatten) := by
      rw [List.mem_cons, List.mem_append, not_or, not_or]
      exact ⟨by decide, plain.word.oneLine, oneLine_summary plain.summary⟩
    refine ((program.shows_line _ inLine).append_other shows_blank).of_flatten ?_
    simp
    rfl
  have usage : ∀ positionals : List (List UInt8), newline ∉ positionals.flatten →
      Shows ([(CString.lit "USAGE\n").bytes, (CString.lit "  ").bytes, spec.programName.bytes,
        (CString.lit " [global options] ").bytes, command.name.bytes,
        (CString.lit " [options]").bytes] ++ (positionals ++ [(CString.lit "\n\n").bytes])) [] := by
    intro positionals plain_positionals
    have second := program.shows_indented ((CString.lit " [global options] ").bytes ++
        (command.name.bytes ++ ((CString.lit " [options]").bytes ++ positionals.flatten))) (by
      rw [List.mem_append, List.mem_append, List.mem_append, not_or, not_or, not_or]
      exact ⟨by decide, plain.word.oneLine, by decide, plain_positionals⟩)
    refine ((shows_usage.append_other second).append_other shows_blank).of_flatten ?_
    simp
    rfl
  have heading : Shows [(CString.lit "OPTIONS\n").bytes] [] :=
    .literal (CString.lit "OPTIONS").bytes (by decide) (by decide)
  have builtin : Shows [(CString.lit "  --help\n      print this help\n\n").bytes]
      [⟨helpName, false⟩] :=
    .literal (CString.lit "  --help\n      print this help\n").bytes (by decide) (by decide)
  have options := shows_table plain.options heading builtin
    [(CString.lit "OPTIONS\n  --help\n      print this help\n\n").bytes] (by decide)
  have globals : Shows [(CString.lit "Run '").bytes, spec.programName.bytes,
      (CString.lit " --help' for global options.\n").bytes] [] := by
    have line := program.shows_quoted (CString.lit " --help' for global options.").bytes (by decide)
    refine line.of_flatten ?_
    simp
    rfl
  have lines := fun positionals plain_positionals =>
    ((title.append_other (usage positionals plain_positionals)).other_append options).append_other
      globals
  rw [helpCommandPieces, shownFor]
  cases given : command.positionalUsage with
  | none => simpa only [List.append_assoc] using lines [] List.not_mem_nil
  | some text =>
      have inLine : newline ∉ [[32], text.bytes].flatten := by
        rw [List.flatten_cons, List.flatten_singleton, List.mem_append, not_or]
        exact ⟨by decide, plain.usage text given⟩
      simpa only [List.append_assoc] using lines [[32], text.bytes] inLine

structure HelpFits (spec : ProgramSpec) : Prop where
  globally : helpGlobalSize spec ≤ cliOutputBufferSize
  commands : ∀ command ∈ spec.commands, helpCommandSize spec command ≤ cliOutputBufferSize

/-- The help for a place in a command line: before its command or after it. -/
def cliPrintHelpAt [BcCore] (spec : ProgramSpec) (stream : Bool) :
    Option CommandSpec → Run Unit
  | none => cliPrintHelpGlobal spec stream
  | some command => cliPrintHelpCommand spec command stream

def shownAt (spec : ProgramSpec) : Option CommandSpec → List ShownOption
  | none => shownGlobally spec
  | some command => shownFor command

theorem Shows.read (lines : Shows pieces shown) : readShown pieces.flatten = shown := by
  have whole := lines []
  rwa [List.append_nil, show readShown [] = [] from rfl, List.append_nil] at whole

theorem help_reads [BcCore] {spec : ProgramSpec} (plain : PlainSpec spec) (fits : HelpFits spec)
    {reader : Host} (writer : reader.WriterSucceeds) {place : Option CommandSpec}
    (listed : ∀ command ∈ place, command ∈ spec.commands) :
    readShown (cliPrintHelpAt spec true place reader .initial).2.errorOutput.flatten =
      shownAt spec place := by
  have arrives : ∀ {pieces : List (List UInt8)} {shown : List ShownOption}, Shows pieces shown →
      0 < pieces.flatten.length → pieces.flatten.length ≤ cliOutputBufferSize →
      readShown (cliPrint true pieces reader .initial).2.errorOutput.flatten = shown := by
    intro pieces shown lines some_byte room
    rw [cliPrint_received writer, drained_of_fits (List.length_pos_iff.mp some_byte) room]
    exact (congrArg readShown List.flatten_singleton).trans lines.read
  cases place with
  | none =>
      refine arrives (shows_helpGlobal plain) ?_ ?_
      · rw [length_helpGlobalPieces, helpGlobalSize]
        omega
      · rw [length_helpGlobalPieces]
        exact fits.globally
  | some command =>
      have mem := listed command rfl
      refine arrives (shows_helpCommand plain.program (plain.commands command mem)) ?_ ?_
      · rw [length_helpCommandPieces, helpCommandSize]
        omega
      · rw [length_helpCommandPieces]
        exact fits.commands command mem

end Pages

section Forms
variable {options : List OptionSpec} {builtins : List ShownOption} {token : CString}

/-- The first line with a name is about the row that the parser finds. -/
theorem find_shown (name : List UInt8) (options : List OptionSpec) (i : Nat) :
    (options.map OptionSpec.shown).find? (fun option => option.name = name) =
      (cliFindOption name options i).map fun row => row.2.shown := by
  induction options generalizing i with
  | nil => rfl
  | cons option options ih =>
      rw [List.map_cons, List.find?_cons, cliFindOption_cons, ih (i + 1)]
      by_cases same : option.longName.bytes = name
      · simp [OptionSpec.shown, same]
      · simp [OptionSpec.shown, same]

theorem find_shown_lookedUp (lookedUp : LookedUp token)
    (own : ∀ option ∈ builtins, option.name = helpName ∨ option.name = versionName) :
    (options.map OptionSpec.shown ++ builtins).find? (fun option => option.name = tokenName token) =
      (cliFindOption (tokenName token) options 0).map fun row => row.2.shown := by
  have absent : builtins.find? (fun option => option.name = tokenName token) = none := by
    refine List.find?_eq_none.mpr fun option mem same => ?_
    have named := of_decide_eq_true same
    cases own option mem with
    | inl help => exact lookedUp.notHelp (named.symm.trans help)
    | inr version => exact lookedUp.notVersion (named.symm.trans version)
  rw [List.find?_append, absent, Option.or_none, find_shown _ _ 0]

theorem shownAt_builtins (spec : ProgramSpec) (state : ScanState) :
    ∃ builtins, shownAt spec state.command =
        (state.options spec).map OptionSpec.shown ++ builtins ∧
      ∀ option ∈ builtins, option.name = helpName ∨ option.name = versionName := by
  rw [ScanState.options]
  cases state.command with
  | none =>
      refine ⟨_, rfl, ?_⟩
      intro option mem
      cases List.mem_cons.mp mem with
      | inl help => exact .inl (congrArg ShownOption.name help)
      | inr later => exact .inr (congrArg ShownOption.name (List.mem_singleton.mp later))
  | some command =>
      refine ⟨_, rfl, ?_⟩
      intro option mem
      exact .inl (congrArg ShownOption.name (List.mem_singleton.mp mem))

variable {shown : List ShownOption}
  (reads : (shown.find? fun option => option.name = tokenName token) =
    (cliFindOption (tokenName token) options 0).map fun row => row.2.shown)
include reads

/-- A form that the help does not show is refused with its message. -/
theorem cliHandleAssignment_form [BcCore] {message : List (List UInt8)}
    (refuses : formMessage shown token = some message) (context : ParseContext) (seen : List Bool)
    (keyPrefix : CString) :
    cliHandleAssignment context options seen keyPrefix (tokenName token) (tokenValue token) =
      cliReject context message := by
  rw [formMessage, reads] at refuses
  rw [cliHandleAssignment]
  cases found : cliFindOption (tokenName token) options 0 with
  | none =>
      rw [found] at refuses
      cases refuses
      rfl
  | some row =>
      rw [found] at refuses
      by_cases isFlag : row.2.type = .flag
      · cases value : tokenValue token with
        | none => simp [OptionSpec.shown, isFlag, value] at refuses
        | some text =>
            simp [OptionSpec.shown, isFlag, value] at refuses
            subst refuses
            simp only [isFlag, if_true]
            rfl
      · cases value : tokenValue token with
        | none =>
            simp [OptionSpec.shown, isFlag, value] at refuses
            subst refuses
            simp only [isFlag, if_false]
            rfl
        | some text => simp [OptionSpec.shown, isFlag, value] at refuses

theorem row_of_form (allows : formMessage shown token = none) :
    ∃ index option, cliFindOption (tokenName token) options 0 = some (index, option) ∧
      (option.type = .flag ↔ tokenValue token = none) := by
  rw [formMessage, reads] at allows
  cases found : cliFindOption (tokenName token) options 0 with
  | none =>
      rw [found] at allows
      cases allows
  | some row =>
      rw [found] at allows
      refine ⟨row.1, row.2, rfl, ?_⟩
      by_cases isFlag : row.2.type = .flag
      · cases value : tokenValue token with
        | none => simp [isFlag]
        | some text => simp [OptionSpec.shown, isFlag, value] at allows
      · cases value : tokenValue token with
        | none => simp [OptionSpec.shown, isFlag, value] at allows
        | some text => simp [isFlag]

end Forms

section Parser
variable [BcCore] {spec : ProgramSpec} {errorStream : Bool} {host : Host} {m m' : Machine}
  {state state' : ScanState} {token : CString}

theorem cliConsumeAll_silent {context : ParseContext} {consumed : List CString}
    (run : cliConsumeAll context consumed state host m = (some state', m')) :
    m'.errorOutput = m.errorOutput := by
  induction consumed generalizing state m with
  | nil =>
      cases run
      rfl
  | cons token consumed ih =>
      rw [cliConsumeAll, bind_run_eq_some_iff] at run
      obtain ⟨next, m₁, step, run⟩ := run
      rw [ih run]
      cases (cliConsume_cases step).2 with
      | inl option =>
          have followed : FollowsPlan host m _ _ :=
            cliHandleOption_follows m context state (tokenName token) (tokenValue token)
          obtain ⟨calls, _, performed⟩ := wp_some followed option.2.2
          exact performed.errors
      | inr word => rw [word.2.2.1]

theorem cliConsumeAll_listed {consumed : List CString}
    (run : cliConsumeAll ⟨spec, errorStream⟩ consumed .initial host m = (some state, m')) :
    ∀ command ∈ state.command, command ∈ spec.commands := by
  intro command selected
  cases cliConsumeAll_command run with
  | inl kept =>
      rw [kept.2] at selected
      cases selected
  | inr word =>
      obtain ⟨_, _, other, _, found, same⟩ := word
      rw [same] at selected
      cases selected
      exact cliFindCommand_listed found

theorem cliReject_said {α : Type} (message : List (List UInt8)) (m : Machine) :
    wp (cliReject ⟨spec, errorStream⟩ message : Run α) (fun _ _ => False)
      (fun m' => host.WriterSucceeds → errorStream = true → Said spec message m m') host m := by
  refine (wp_iff _ _ _ _ _).mpr ⟨?_, ?_⟩
  · intro a m' run
    exact wp_some (cliReject_fails (fun _ _ => False) message) run
  · intro m' run writer stream
    have said : wp (cliReject ⟨spec, errorStream⟩ message : Run α) (fun _ _ => False)
        (fun m' => Said spec message m m') host m := by
      rw [cliReject, wp_bind]
      exact wp_mono (cliReport_said writer stream message m) (fun _ _ said => said)
        fun _ unreachable => unreachable.elim
    exact wp_none said run

theorem cliHandleOption_form {message : List (List UInt8)} (fits : state.PrefixFits)
    (refuses : ∀ seen keyPrefix, cliHandleAssignment ⟨spec, errorStream⟩ (state.options spec) seen
      keyPrefix (tokenName token) (tokenValue token) = cliReject ⟨spec, errorStream⟩ message)
    (m : Machine) :
    wp (cliHandleOption ⟨spec, errorStream⟩ state (tokenName token) (tokenValue token))
      (fun _ _ => False)
      (fun m' => host.WriterSucceeds → errorStream = true → Said spec message m m') host m := by
  rw [cliHandleOption]
  simp only [ScanState.options] at refuses
  cases selected : state.command with
  | none =>
      simp only [selected] at refuses
      rw [refuses, wp_bind]
      exact wp_mono (cliReject_said message m) (fun _ _ unreachable => unreachable.elim)
        fun _ said => said
  | some command =>
      simp only [selected] at refuses
      have room : ¬ command.name.length + 2 > cliKeyBufferSize := not_lt.mpr (fits command selected)
      simp only [if_neg room]
      rw [wp_bind]
      refine wp_mono (cliCommandPrefix_silent m command) ?_ fun _ unreachable => unreachable.elim
      intro written m₁ silent
      rw [refuses, wp_bind]
      refine wp_mono (cliReject_said message m₁) (fun _ _ unreachable => unreachable.elim) ?_
      intro m₂ said writer stream
      have from_here := said writer stream
      rwa [Said, silent.2.2] at from_here

/-- A token that is looked up is handled as an option where it is consumed at all. -/
theorem cliConsume_lookedUp (context : ParseContext) (lookedUp : LookedUp token) :
    cliConsume context state token =
      cliHandleOption context state (tokenName token) (tokenValue token) := by
  have stops : ¬ (token.bytes = dashes ∨ BuiltinToken token) := by
    refine not_or.mpr ⟨lookedUp.isOption.ne_terminator, ?_⟩
    intro builtin
    exact builtin.2.elim lookedUp.notHelp lookedUp.notVersion
  rw [cliConsume, if_neg stops, if_pos lookedUp.isOption]

theorem cliParse_of_refused (tables : TablesFit spec) {consumed : List CString} {m₁ : Machine}
    (reached : cliConsumeAll ⟨spec, errorStream⟩ consumed .initial host m = (some state, m'))
    (lookedUp : LookedUp token)
    (refused : cliHandleOption ⟨spec, errorStream⟩ state (tokenName token) (tokenValue token) host
      m' = (none, m₁)) {argumentValues : List CString}
    (begins : consumed ++ [token] <+: argumentValues.drop 1) :
    cliParse spec argumentValues errorStream host m = (some (.error, .empty), m₁) := by
  obtain ⟨rest, whole⟩ := begins
  apply cliParse_of_fails
  rw [cliParseArguments, cliCheckTables_eq tables, pure_bind, ← whole, List.append_assoc]
  apply bind_run_of_none
  rw [cliScan_of_consumeAll _ reached]
  apply cliScan_refused
  rw [cliScan_cons, if_neg lookedUp.isOption.ne_terminator, if_pos lookedUp.isOption,
    if_neg lookedUp.notHelp, if_neg lookedUp.notVersion]
  exact bind_run_of_none refused _

/-- Of a form that its option has only the value decides. -/
theorem cliConsume_iff_valid {index : Nat} {option : OptionSpec} (prefixFits : state.PrefixFits)
    (lookedUp : LookedUp token)
    (found : cliFindOption (tokenName token) (state.options spec) 0 = some (index, option))
    (form : option.type = .flag ↔ tokenValue token = none) (succeed : host.StoreCallsSucceed)
    (keyFits : KeyFits state.keyPrefix option) :
    (∃ state' m₁, cliConsume ⟨spec, errorStream⟩ state token host m = (some state', m₁)) ↔
      ∀ value ∈ tokenValue token, ValidValue option value := by
  rw [cliConsume_lookedUp ⟨spec, errorStream⟩ lookedUp]
  have followed : FollowsPlan host m _ _ :=
    cliHandleOption_follows m ⟨spec, errorStream⟩ state (tokenName token) (tokenValue token)
  constructor
  · rintro ⟨next, m₁, run⟩ value given
    obtain ⟨calls, planned, _⟩ := wp_some followed run
    obtain ⟨_, _, other, row, _⟩ := planToken_eq_some_iff.mp planned
    have same := found.symm.trans row.found
    cases same
    have accepts := row.accepts
    rw [Option.mem_def.mp given] at accepts
    exact accepts.2
  · intro valid
    have accepts : AcceptsValue option (tokenValue token) := by
      cases given : tokenValue token with
      | none => exact form.mpr given
      | some value =>
          refine ⟨?_, valid value given⟩
          intro isFlag
          rw [form.mp isFlag] at given
          cases given
    have planned := planToken_eq_some_iff.mpr
      ⟨prefixFits, index, option, ⟨found, accepts, keyFits⟩, rfl, rfl⟩
    rw [planned] at followed
    obtain ⟨next, m₁, run, _⟩ := exists_run_of_wp (followed.succeeds succeed)
    exact ⟨next, m₁, run⟩

/-- The help of the place where a token stands tells whether the parser takes its form.
A form that it does not show is refused with the message for it, whatever follows, and
of a form that it shows only the value can be at fault. -/
theorem cliParse_follows_help (plain : PlainSpec spec) (fits : HelpFits spec)
    (tables : TablesFit spec) (short : ∀ command ∈ spec.commands, command.name.length ≤ 254)
    {reader : Host} (writer : reader.WriterSucceeds) {consumed : List CString}
    (reached : cliConsumeAll ⟨spec, errorStream⟩ consumed .initial host m = (some state, m'))
    (lookedUp : LookedUp token) :
    let shown :=
      readShown (cliPrintHelpAt spec true state.command reader .initial).2.errorOutput.flatten
    (∀ message, formMessage shown token = some message →
      ∀ argumentValues : List CString, consumed ++ [token] <+: argumentValues.drop 1 →
        ∃ m₁, cliParse spec argumentValues errorStream host m = (some (.error, .empty), m₁) ∧
          (host.WriterSucceeds → errorStream = true → Said spec message m m₁)) ∧
    (formMessage shown token = none →
      ∃ option ∈ state.options spec, option.longName.bytes = tokenName token ∧
        (option.type = .flag ↔ tokenValue token = none) ∧
        (host.StoreCallsSucceed → KeyFits state.keyPrefix option →
          ((∃ state' m₁, cliConsume ⟨spec, errorStream⟩ state token host m' = (some state', m₁)) ↔
            ∀ value ∈ tokenValue token, ValidValue option value))) := by
  intro shown
  have listed := cliConsumeAll_listed reached
  have prefixFits : state.PrefixFits := by
    intro command selected
    exact Nat.add_le_add_right (short command (listed command selected)) 2
  obtain ⟨builtins, split, own⟩ := shownAt_builtins spec state
  have reads : ((state.options spec).map OptionSpec.shown ++ builtins).find? _ = _ :=
    find_shown_lookedUp lookedUp own
  rw [← split, ← help_reads plain fits writer listed] at reads
  constructor
  · intro message refuses argumentValues begins
    have refused : wp (cliHandleOption ⟨spec, errorStream⟩ state (tokenName token)
        (tokenValue token)) _ _ host m' :=
      cliHandleOption_form prefixFits
        (cliHandleAssignment_form reads refuses ⟨spec, errorStream⟩) m'
    obtain ⟨m₁, run, said⟩ := (wp_cases refused).resolve_left fun passed =>
      passed.elim fun _ passed => passed.elim fun _ passed => passed.2
    refine ⟨m₁, cliParse_of_refused tables reached lookedUp run begins, ?_⟩
    intro writes stream
    have from_token := said writes stream
    rwa [Said, cliConsumeAll_silent reached] at from_token
  · intro allows
    obtain ⟨index, option, found, form⟩ := row_of_form reads allows
    obtain ⟨name, _, cell⟩ := cliFindOption_row found
    refine ⟨option, List.mem_of_getElem? cell, name, form, ?_⟩
    intro succeed keyFits
    exact cliConsume_iff_valid prefixFits lookedUp found form succeed keyFits

omit [BcCore] in
theorem copySpec_plain : PlainSpec copySpec where
  program := ⟨by decide, 99, by decide, by decide, by decide⟩
  summary := by decide
  globals := by
    intro option mem
    cases List.mem_singleton.mp mem
    exact ⟨by decide, by decide, by decide, by decide, by decide, by decide⟩
  commands := by
    intro command mem
    cases List.mem_singleton.mp mem
    refine ⟨⟨by decide, 114, by decide, by decide, by decide⟩, by decide, by decide, ?_⟩
    intro option mem
    cases List.mem_cons.mp mem with
    | inl jobs =>
        cases jobs
        exact ⟨by decide, by decide, by decide, by decide, by decide, by decide⟩
    | inr path =>
        cases List.mem_singleton.mp path
        exact ⟨by decide, by decide, by decide, by decide, by decide, by decide⟩

omit [BcCore] in
theorem copySpec_helpFits : HelpFits copySpec where
  globally := by decide
  commands := by decide

omit [BcCore] in
/-- `--jobs` is shown with a value and given without one. -/
theorem cliParse_follows_help_jobs :
    let state := { ScanState.initial with command := some runCommand }
    let shown := readShown (@cliPrintHelpAt .reference copySpec true state.command
      (.obliging [] []) .initial).2.errorOutput.flatten
    (∀ message, formMessage shown (.lit "--jobs") = some message →
      ∀ argumentValues : List CString, [.lit "run"] ++ [.lit "--jobs"] <+: argumentValues.drop 1 →
        ∃ m₁, @cliParse .reference copySpec argumentValues true (.obliging [] []) .initial =
            (some (.error, .empty), m₁) ∧
          ((Host.obliging [] []).WriterSucceeds → true = true →
            @Said .reference copySpec message .initial m₁)) ∧
    (formMessage shown (.lit "--jobs") = none →
      ∃ option ∈ state.options copySpec,
        option.longName.bytes = tokenName (.lit "--jobs") ∧
        (option.type = .flag ↔ tokenValue (.lit "--jobs") = none) ∧
        ((Host.obliging [] []).StoreCallsSucceed → KeyFits state.keyPrefix option →
          ((∃ state' m₁, @cliConsume .reference ⟨copySpec, true⟩ state (.lit "--jobs")
              (.obliging [] []) .initial = (some state', m₁)) ↔
            ∀ value ∈ tokenValue (.lit "--jobs"), ValidValue option value))) := by
  have reached : @cliConsumeAll .reference ⟨copySpec, true⟩ [.lit "run"] .initial
      (.obliging [] []) .initial =
      (some { ScanState.initial with command := some runCommand }, .initial) := rfl
  exact @cliParse_follows_help .reference _ _ _ _ _ _ _ copySpec_plain copySpec_helpFits
    copySpec_wellFormed.tables (by decide) _ (fun _ => ⟨rfl, rfl⟩) _ reached (by decide)

end Parser

end BcRuntime
