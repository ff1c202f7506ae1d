import BcRuntime.Cli.Diagnostics
import Mathlib.Data.List.Infix

/-!
The help printers. A text is put together in the buffer of a writer, whatever its
size, and goes to the stream at the end; how large it is follows from the lengths
of the strings of the program's tables, and all of it arrives when that is not
more than the buffer holds.
-/

namespace BcRuntime
open Fallible Run

/-- The loop over the allowed values; a comma stands behind each but the last. -/
def allowedValuePieces : List CString → List (List UInt8)
  | [] => []
  | [value] => [[32], value.bytes]
  | value :: next :: values => [[32], value.bytes, [44]] ++ allowedValuePieces (next :: values)

/-- `bc_runtime_cli_print_option_line`, as the pieces it writes. -/
def cliPrintOptionLine (option : OptionSpec) : List (List UInt8) :=
  [(CString.lit "  --").bytes, option.longName.bytes] ++
  (if option.type ≠ .flag then
    [[equalsSign], (option.valuePlaceholder.getD (.lit "VALUE")).bytes]
  else []) ++
  [[newline]] ++
  (match option.helpSummary with
    | some helpSummary => [(CString.lit "      ").bytes, helpSummary.bytes, [newline]]
    | none => []) ++
  (match option.allowedValues with
    | some allowedValues =>
        [(CString.lit "      values:").bytes] ++ allowedValuePieces allowedValues ++ [[newline]]
    | none => []) ++
  (if option.required then [(CString.lit "      (required)\n").bytes]
  else
    match option.defaultValue with
    | some defaultValue =>
        [(CString.lit "      (default: ").bytes, defaultValue.bytes, (CString.lit ")\n").bytes]
    | none => []) ++
  (if option.type = .list then [(CString.lit "      (repeatable)\n").bytes] else [])

/-- ` - ` and a summary, where there is one. -/
def summaryPieces : Option CString → List (List UInt8)
  | some summary => [(CString.lit " - ").bytes, summary.bytes]
  | none => []

def commandLinePieces (command : CommandSpec) : List (List UInt8) :=
  [(CString.lit "  ").bytes, command.name.bytes] ++ summaryPieces command.summary ++ [[newline]]

/-- What `bc_runtime_cli_print_help_global` writes. -/
def helpGlobalPieces (spec : ProgramSpec) : List (List UInt8) :=
  [spec.programName.bytes] ++ summaryPieces spec.summary ++ [(CString.lit "\n\n").bytes] ++
  [(CString.lit "USAGE\n").bytes, (CString.lit "  ").bytes, spec.programName.bytes,
    (CString.lit " [global options] <command> [command options] [arguments...]\n\n").bytes] ++
  (if 0 < spec.globalOptions.length then
    [(CString.lit "GLOBAL OPTIONS\n").bytes] ++ spec.globalOptions.flatMap cliPrintOptionLine ++
    [(CString.lit "  --help\n      print this help\n").bytes,
      (CString.lit "  --version\n      print version and exit\n").bytes, [newline]]
  else
    [(CString.lit "GLOBAL OPTIONS\n").bytes,
      (CString.lit "  --help\n      print this help\n").bytes,
      (CString.lit "  --version\n      print version and exit\n\n").bytes]) ++
  [(CString.lit "COMMANDS\n").bytes] ++ spec.commands.flatMap commandLinePieces ++
  [(CString.lit "\nRun '").bytes, spec.programName.bytes,
    (CString.lit " <command> --help' for details on a command.\n").bytes]

/-- What `bc_runtime_cli_print_help_command` writes. -/
def helpCommandPieces (spec : ProgramSpec) (command : CommandSpec) : List (List UInt8) :=
  [spec.programName.bytes, [32], command.name.bytes] ++ summaryPieces command.summary ++
  [(CString.lit "\n\n").bytes] ++
  [(CString.lit "USAGE\n").bytes, (CString.lit "  ").bytes, spec.programName.bytes,
    (CString.lit " [global options] ").bytes, command.name.bytes,
    (CString.lit " [options]").bytes] ++
  (match command.positionalUsage with
    | some positionalUsage => [[32], positionalUsage.bytes]
    | none => []) ++
  [(CString.lit "\n\n").bytes] ++
  (if 0 < command.options.length then
    [(CString.lit "OPTIONS\n").bytes] ++ command.options.flatMap cliPrintOptionLine ++
    [(CString.lit "  --help\n      print this help\n\n").bytes]
  else [(CString.lit "OPTIONS\n  --help\n      print this help\n\n").bytes]) ++
  [(CString.lit "Run '").bytes, spec.programName.bytes,
    (CString.lit " --help' for global options.\n").bytes]

/-- What `bc_runtime_cli_print_version` writes. -/
def versionPieces (spec : ProgramSpec) : List (List UInt8) :=
  [spec.programName.bytes, [32], (spec.version.getD (.lit "unknown")).bytes, [newline]]

section Printers
variable [BcCore]

/-- Set up a writer, write the pieces whatever becomes of them, and hand over its
buffer; `errorOutput` is what the stream of the printer has received. -/
def cliPrint (stream : Bool) (pieces : List (List UInt8)) : Run Unit := do
  match ← attempt (external .writerInitBufferOnly) with
  | none => pure ()
  | some _ => cliDrainWriterToStream stream pieces

def cliPrintHelpGlobal (spec : ProgramSpec) (stream : Bool) : Run Unit :=
  cliPrint stream (helpGlobalPieces spec)

def cliPrintHelpCommand (spec : ProgramSpec) (command : CommandSpec) (stream : Bool) : Run Unit :=
  cliPrint stream (helpCommandPieces spec command)

def cliPrintVersion (spec : ProgramSpec) (stream : Bool) : Run Unit :=
  cliPrint stream (versionPieces spec)

end Printers

section Sizes

/-- The size of an optional text and of the `fixed` bytes around it. -/
def optionalSize (fixed : Nat) (text : Option CString) : Nat :=
  text.elim 0 fun text => fixed + text.length

def allowedValuesSize : List CString → Nat
  | [] => 0
  | [value] => 1 + value.length
  | value :: next :: values => 2 + value.length + allowedValuesSize (next :: values)

def optionLineSize (option : OptionSpec) : Nat :=
  5 + option.longName.length +
  (if option.type = .flag then 0 else 1 + (option.valuePlaceholder.elim 5 CString.length)) +
  optionalSize 7 option.helpSummary +
  (option.allowedValues.elim 0 fun values => 14 + allowedValuesSize values) +
  (if option.required then 17 else optionalSize 18 option.defaultValue) +
  (if option.type = .list then 19 else 0)

def helpGlobalSize (spec : ProgramSpec) : Nat :=
  220 + 3 * spec.programName.length + optionalSize 3 spec.summary +
  (spec.globalOptions.map optionLineSize).sum +
  (spec.commands.map fun command => 3 + command.name.length + optionalSize 3 command.summary).sum

def helpCommandSize (spec : ProgramSpec) (command : CommandSpec) : Nat :=
  115 + 3 * spec.programName.length + 2 * command.name.length + optionalSize 3 command.summary +
  optionalSize 1 command.positionalUsage + (command.options.map optionLineSize).sum

theorem length_flatten_flatMap {α : Type} (items : List α) (pieces : α → List (List UInt8))
    {size : α → Nat} (sizes : ∀ item, (pieces item).flatten.length = size item) :
    (items.flatMap pieces).flatten.length = (items.map size).sum := by
  induction items with
  | nil => rfl
  | cons item items ih =>
      rw [List.flatMap_cons, List.flatten_append, List.length_append, sizes, ih, List.map_cons,
        List.sum_cons]

theorem length_allowedValuePieces (values : List CString) :
    (allowedValuePieces values).flatten.length = allowedValuesSize values := by
  induction values using allowedValuePieces.induct with
  | case1 => rfl
  | case2 value =>
      simp [allowedValuePieces, allowedValuesSize, CString.length]
      omega
  | case3 value next values ih =>
      rw [allowedValuePieces, allowedValuesSize, List.flatten_append, List.length_append, ih]
      simp [CString.length]
      omega

/-- An optional text is printed with a fixed number of bytes around it, or not at all. -/
theorem length_optionalPieces {fixed : Nat} {pieces : CString → List (List UInt8)}
    (sizes : ∀ text, (pieces text).flatten.length = fixed + text.length) (text : Option CString) :
    (match text with
      | some text => pieces text
      | none => []).flatten.length = optionalSize fixed text := by
  cases text with
  | none => rfl
  | some text => exact sizes text

theorem length_summaryPieces (summary : Option CString) :
    (summaryPieces summary).flatten.length = optionalSize 3 summary := by
  have dash : (CString.lit " - ").bytes.length = 3 := rfl
  exact length_optionalPieces (fun text => by simp [CString.length, dash]) summary

theorem length_cliPrintOptionLine (option : OptionSpec) :
    (cliPrintOptionLine option).flatten.length = optionLineSize option := by
  have name : (CString.lit "  --").bytes.length = 4 := rfl
  have placeholder : (option.valuePlaceholder.getD (.lit "VALUE")).bytes.length =
      option.valuePlaceholder.elim 5 CString.length := by
    cases option.valuePlaceholder <;> rfl
  have indent : (CString.lit "      ").bytes.length = 6 := rfl
  have values : (CString.lit "      values:").bytes.length = 13 := rfl
  have required : (CString.lit "      (required)\n").bytes.length = 17 := rfl
  have defaultStart : (CString.lit "      (default: ").bytes.length = 16 := rfl
  have defaultEnd : (CString.lit ")\n").bytes.length = 2 := rfl
  have repeatable : (CString.lit "      (repeatable)\n").bytes.length = 19 := rfl
  have line : ∀ text : Option CString, (match text with
      | some helpSummary => [(CString.lit "      ").bytes, helpSummary.bytes, [newline]]
      | none => []).flatten.length = optionalSize 7 text :=
    length_optionalPieces fun text => by
      simp [CString.length, indent]
      omega
  have list : ∀ texts : Option (List CString), (match texts with
      | some allowedValues =>
          [(CString.lit "      values:").bytes] ++ allowedValuePieces allowedValues ++ [[newline]]
      | none => []).flatten.length = texts.elim 0 fun values => 14 + allowedValuesSize values := by
    intro texts
    cases texts with
    | none => rfl
    | some texts =>
        simp only [List.flatten_append, List.length_append, length_allowedValuePieces,
          List.flatten_singleton, values, List.length_singleton, Option.elim_some]
        omega
  have fallback : ∀ text : Option CString, (match text with
      | some defaultValue =>
          [(CString.lit "      (default: ").bytes, defaultValue.bytes, (CString.lit ")\n").bytes]
      | none => []).flatten.length = optionalSize 18 text :=
    length_optionalPieces fun text => by
      simp [CString.length, defaultStart, defaultEnd]
      omega
  simp only [cliPrintOptionLine, optionLineSize, List.flatten_append, List.length_append, line,
    list, apply_ite List.flatten, apply_ite List.length, fallback, List.flatten_cons,
    List.flatten_nil, List.length_nil, name, placeholder, required, repeatable, List.append_nil,
    List.length_singleton, CString.length, ne_eq, ite_not]
  omega

theorem length_commandLinePieces (command : CommandSpec) :
    (commandLinePieces command).flatten.length =
      3 + command.name.length + optionalSize 3 command.summary := by
  have indent : (CString.lit "  ").bytes.length = 2 := rfl
  simp only [commandLinePieces, List.flatten_append, List.length_append, length_summaryPieces,
    List.flatten_cons, List.flatten_nil, indent, List.length_singleton, List.append_nil,
    CString.length]
  omega

theorem length_helpGlobalPieces (spec : ProgramSpec) :
    (helpGlobalPieces spec).flatten.length = helpGlobalSize spec := by
  have blank : (CString.lit "\n\n").bytes.length = 2 := rfl
  have usage : (CString.lit "USAGE\n").bytes.length = 6 := rfl
  have indent : (CString.lit "  ").bytes.length = 2 := rfl
  have form : (CString.lit
    " [global options] <command> [command options] [arguments...]\n\n").bytes.length = 62 := rfl
  have title : (CString.lit "GLOBAL OPTIONS\n").bytes.length = 15 := rfl
  have help : (CString.lit "  --help\n      print this help\n").bytes.length = 31 := rfl
  have version :
    (CString.lit "  --version\n      print version and exit\n").bytes.length = 41 := rfl
  have last :
    (CString.lit "  --version\n      print version and exit\n\n").bytes.length = 42 := rfl
  have commands : (CString.lit "COMMANDS\n").bytes.length = 9 := rfl
  have run : (CString.lit "\nRun '").bytes.length = 6 := rfl
  have details :
    (CString.lit " <command> --help' for details on a command.\n").bytes.length = 45 := rfl
  have options := length_flatten_flatMap spec.globalOptions cliPrintOptionLine
    length_cliPrintOptionLine
  have lines := length_flatten_flatMap spec.commands commandLinePieces length_commandLinePieces
  simp only [helpGlobalPieces, helpGlobalSize, List.flatten_append, List.length_append,
    apply_ite List.flatten, apply_ite List.length, length_summaryPieces, options, lines,
    List.flatten_cons, List.flatten_nil, List.append_nil, List.length_singleton, blank, usage,
    indent, form, title, help, version, last, commands, run, details, CString.length]
  cases spec.globalOptions with
  | nil => simp; omega
  | cons option options => simp; omega

theorem length_helpCommandPieces (spec : ProgramSpec) (command : CommandSpec) :
    (helpCommandPieces spec command).flatten.length = helpCommandSize spec command := by
  have blank : (CString.lit "\n\n").bytes.length = 2 := rfl
  have usage : (CString.lit "USAGE\n").bytes.length = 6 := rfl
  have indent : (CString.lit "  ").bytes.length = 2 := rfl
  have globals : (CString.lit " [global options] ").bytes.length = 18 := rfl
  have form : (CString.lit " [options]").bytes.length = 10 := rfl
  have title : (CString.lit "OPTIONS\n").bytes.length = 8 := rfl
  have help : (CString.lit "  --help\n      print this help\n\n").bytes.length = 32 := rfl
  have only : (CString.lit "OPTIONS\n  --help\n      print this help\n\n").bytes.length = 40 := rfl
  have run : (CString.lit "Run '").bytes.length = 5 := rfl
  have details : (CString.lit " --help' for global options.\n").bytes.length = 29 := rfl
  have options := length_flatten_flatMap command.options cliPrintOptionLine
    length_cliPrintOptionLine
  have positionals : ∀ text : Option CString, (match text with
      | some positionalUsage => [[32], positionalUsage.bytes]
      | none => ([] : List (List UInt8))).flatten.length = optionalSize 1 text :=
    length_optionalPieces fun text => by
      simp [CString.length]
      omega
  simp only [helpCommandPieces, helpCommandSize, List.flatten_append, List.length_append,
    apply_ite List.flatten, apply_ite List.length, length_summaryPieces, options, positionals,
    List.flatten_cons, List.flatten_nil, List.append_nil, List.length_singleton, blank, usage,
    indent, globals, form, title, help, only, run, details, CString.length]
  cases command.options with
  | nil => simp; omega
  | cons option options => simp; omega

end Sizes

section Contents

def TellsGlobal (spec : ProgramSpec) (text : List UInt8) : Prop :=
  (∀ option ∈ spec.globalOptions, dashes ++ option.longName.bytes <:+: text) ∧
    ∀ command ∈ spec.commands, command.name.bytes <:+: text

def TellsCommand (command : CommandSpec) (text : List UInt8) : Prop :=
  ∀ option ∈ command.options, dashes ++ option.longName.bytes <:+: text ∧
    ∀ values ∈ option.allowedValues, ∀ value ∈ values, value.bytes <:+: text

theorem infix_flatMap {α : Type} {items : List α} {item : α} (mem : item ∈ items)
    (pieces : α → List (List UInt8)) : pieces item <:+: items.flatMap pieces := by
  rw [List.flatMap_def]
  exact List.infix_of_mem_flatten (List.mem_map_of_mem mem)

theorem name_infix_optionLine (option : OptionSpec) :
    dashes ++ option.longName.bytes <:+: (cliPrintOptionLine option).flatten := by
  have line : dashes ++ option.longName.bytes <:+:
      [(CString.lit "  --").bytes, option.longName.bytes].flatten := ⟨[32, 32], [], by simp; rfl⟩
  have first : [(CString.lit "  --").bytes, option.longName.bytes] <+:
      cliPrintOptionLine option := by
    simp only [cliPrintOptionLine, List.append_assoc]
    exact List.prefix_append _ _
  exact line.trans first.isInfix.flatten

theorem mem_allowedValuePieces {value : CString} {values : List CString} (mem : value ∈ values) :
    value.bytes ∈ allowedValuePieces values := by
  induction values using allowedValuePieces.induct with
  | case1 => cases mem
  | case2 only => simp_all [allowedValuePieces]
  | case3 first next values ih =>
      rw [allowedValuePieces]
      cases List.mem_cons.mp mem with
      | inl same => simp [same]
      | inr later => exact List.mem_append_right _ (ih later)

theorem value_infix_optionLine {option : OptionSpec} {values : List CString} {value : CString}
    (listed : values ∈ option.allowedValues) (mem : value ∈ values) :
    value.bytes <:+: (cliPrintOptionLine option).flatten := by
  refine List.infix_of_mem_flatten ?_
  have piece := mem_allowedValuePieces mem
  have same : option.allowedValues = some values := listed
  simp [cliPrintOptionLine, same, piece]

theorem helpGlobal_tells (spec : ProgramSpec) :
    TellsGlobal spec (helpGlobalPieces spec).flatten := by
  constructor
  · intro option mem
    have some_option : 0 < spec.globalOptions.length := List.length_pos_of_mem mem
    have lines : spec.globalOptions.flatMap cliPrintOptionLine <:+: helpGlobalPieces spec := by
      rw [helpGlobalPieces, if_pos some_option]
      refine .trans ?_ (List.infix_append_left.trans
        (List.infix_append_left.trans List.infix_append_left))
      exact List.infix_append_of_infix_right (List.infix_append _ _ _)
    exact (name_infix_optionLine option).trans
      ((infix_flatMap mem cliPrintOptionLine).trans lines).flatten
  · intro command mem
    have lines : spec.commands.flatMap commandLinePieces <:+: helpGlobalPieces spec :=
      List.infix_append_of_infix_left List.infix_append_right
    have name : command.name.bytes ∈ commandLinePieces command := by simp [commandLinePieces]
    exact (List.infix_of_mem_flatten name).trans
      ((infix_flatMap mem commandLinePieces).trans lines).flatten

theorem helpCommand_tells (spec : ProgramSpec) (command : CommandSpec) :
    TellsCommand command (helpCommandPieces spec command).flatten := by
  intro option mem
  have some_option : 0 < command.options.length := List.length_pos_of_mem mem
  have lines : command.options.flatMap cliPrintOptionLine <:+: helpCommandPieces spec command := by
    rw [helpCommandPieces, if_pos some_option]
    refine List.infix_append_of_infix_left (List.infix_append_of_infix_right ?_)
    exact List.infix_append _ _ _
  have line := ((infix_flatMap mem cliPrintOptionLine).trans lines).flatten
  exact ⟨(name_infix_optionLine option).trans line,
    fun values listed value named => (value_infix_optionLine listed named).trans line⟩

end Contents

/-- A lawful writer that keeps nothing of a text it cannot hold. -/
@[reducible] def BcCore.discarding : BcCore where
  __ := BcCore.reference
  writerData capacity pieces := if pieces.flatten.length ≤ capacity then pieces.flatten else []
  writerData_sublist capacity pieces := by
    split
    · exact .refl _
    · exact List.nil_sublist _
  writerData_length capacity pieces := by
    split
    · assumption
    · exact Nat.zero_le _
  writerData_fits _ _ fits := if_pos fits

/-- With every lawful writer that can be set up, the stream receives a text that tells
what it should. -/
def AlwaysTells (print : BcCore → Run Unit) (tells : List UInt8 → Prop) : Prop :=
  ∀ (core : BcCore) (host : Host) (m : Machine), host.WriterSucceeds →
    ∃ received, (print core host m).2.errorOutput = m.errorOutput ++ received ∧
      tells received.flatten

section Arrival

theorem cliPrint_received [BcCore] {host : Host} (writer : host.WriterSucceeds)
    (pieces : List (List UInt8)) (m : Machine) :
    (cliPrint true pieces host m).2.errorOutput = m.errorOutput ++ drained pieces := by
  refine (wp_always_iff (fun m' => m'.errorOutput = m.errorOutput ++ drained pieces) host m _).mp ?_
  exact wp_mono (writer_drained writer pieces m) (fun _ _ received => received)
    fun _ unreachable => unreachable.elim

/-- The version arrives as one line, if program and version are not too long together. -/
theorem cliPrintVersion_received [BcCore] {host : Host} (writer : host.WriterSucceeds)
    {spec : ProgramSpec} (m : Machine)
    (fits : spec.programName.length + (spec.version.getD (.lit "unknown")).length + 2 ≤
      cliOutputBufferSize) :
    (cliPrintVersion spec true host m).2.errorOutput = m.errorOutput ++
      [spec.programName.bytes ++ 32 :: (spec.version.getD (.lit "unknown")).bytes ++
        [newline]] := by
  have text : (versionPieces spec).flatten = spec.programName.bytes ++
      32 :: (spec.version.getD (.lit "unknown")).bytes ++ [newline] := by
    simp [versionPieces]
  have size : (versionPieces spec).flatten.length ≤ cliOutputBufferSize := by
    simp only [text, List.length_append, List.length_cons, List.length_nil]
    rw [CString.length, CString.length] at fits
    omega
  have some_byte : (versionPieces spec).flatten ≠ [] := by
    rw [text]
    exact List.append_ne_nil_of_right_ne_nil _ (List.cons_ne_nil _ _)
  rw [cliPrintVersion, cliPrint_received writer, drained_of_fits some_byte size, text]

/-- A text is told by every writer when its buffer holds it, or when there is nothing
to be told: a lawful writer may give up a text that is too long altogether. -/
theorem alwaysTells_iff {pieces : List (List UInt8)} {tells : List UInt8 → Prop}
    (told : tells pieces.flatten) (trivially : tells [] → ∀ text, tells text) :
    AlwaysTells (fun core => @cliPrint core true pieces) tells ↔
      pieces.flatten.length ≤ cliOutputBufferSize ∨ tells [] := by
  constructor
  · intro always
    by_cases fits : pieces.flatten.length ≤ cliOutputBufferSize
    · exact .inl fits
    · obtain ⟨received, output, tells_received⟩ := always .discarding (.obliging [] []) .initial
        fun _ => ⟨rfl, rfl⟩
      rw [@cliPrint_received .discarding _ (fun _ => ⟨rfl, rfl⟩),
        List.append_cancel_left_eq] at output
      have kept : @BcCore.writerData .discarding cliOutputBufferSize pieces = [] := if_neg fits
      have lost : @drained .discarding pieces = [] := by
        simp only [drained, kept, List.length_nil, lt_irrefl, if_false]
      rw [← output, lost] at tells_received
      exact .inr tells_received
  · intro either core host m writer
    refine ⟨@drained core pieces, cliPrint_received writer pieces m, ?_⟩
    cases either with
    | inl fits =>
        have arrived : (@drained core pieces).flatten = pieces.flatten := by
          by_cases nothing : pieces.flatten = []
          · simp [drained, BcCore.writerData_fits _ _ fits, nothing]
          · rw [drained_of_fits nothing fits, List.flatten_singleton]
        rw [arrived]
        exact told
    | inr nothing => exact trivially nothing _

theorem not_option_infix_nil (name : List UInt8) : ¬ dashes ++ name <:+: [] := by
  rw [List.infix_nil, List.append_eq_nil_iff]
  exact fun empty => absurd empty.1 (by decide)

theorem tellsGlobal_nil_iff (spec : ProgramSpec) :
    TellsGlobal spec [] ↔
      spec.globalOptions = [] ∧ ∀ command ∈ spec.commands, command.name.bytes = [] := by
  refine and_congr ?_ (forall₂_congr fun command _ => List.infix_nil)
  rw [List.eq_nil_iff_forall_not_mem]
  exact forall₂_congr fun option _ => iff_of_false (not_option_infix_nil _) id

theorem tellsCommand_nil_iff (command : CommandSpec) :
    TellsCommand command [] ↔ command.options = [] := by
  rw [List.eq_nil_iff_forall_not_mem]
  exact forall₂_congr fun option _ => iff_of_false (fun told => not_option_infix_nil _ told.1) id

/-- The help is complete, whatever lawful writer it is put together with, exactly when
its size is not more than the 4096 bytes of the buffer, or when it has nothing to tell. -/
theorem help_complete_iff (spec : ProgramSpec) :
    (AlwaysTells (fun core => @cliPrintHelpGlobal core spec true) (TellsGlobal spec) ↔
      helpGlobalSize spec ≤ cliOutputBufferSize ∨
        (spec.globalOptions = [] ∧ ∀ command ∈ spec.commands, command.name.bytes = [])) ∧
    ∀ command,
      (AlwaysTells (fun core => @cliPrintHelpCommand core spec command true)
          (TellsCommand command) ↔
        helpCommandSize spec command ≤ cliOutputBufferSize ∨ command.options = []) := by
  refine ⟨?_, fun command => ?_⟩
  · rw [← length_helpGlobalPieces, ← tellsGlobal_nil_iff]
    refine alwaysTells_iff (helpGlobal_tells spec) fun nothing text => ⟨?_, ?_⟩
    · exact fun option mem => absurd (nothing.1 option mem) (not_option_infix_nil _)
    · exact fun command mem => (nothing.2 command mem).trans (List.nil_infix)
  · rw [← length_helpCommandPieces, ← tellsCommand_nil_iff]
    refine alwaysTells_iff (helpCommand_tells spec command) fun nothing text option mem => ?_
    exact absurd (nothing option mem).1 (not_option_infix_nil _)

/-- An option whose name, with its dashes, is one byte longer than the buffer. -/
def longOptionSpec : ProgramSpec :=
  { copySpec with globalOptions :=
      [⟨.ofBuffer (List.replicate 4095 97), .flag, none, none, false, none, none⟩] }

/-- No lawful writer brings the name of this option to the stream. -/
theorem longOptionSpec_untold :
    ¬ ∃ core : BcCore, TellsGlobal longOptionSpec
      (@cliPrintHelpGlobal core longOptionSpec true (.obliging [] [])
        .initial).2.errorOutput.flatten := by
  rintro ⟨core, told⟩
  have writer : (Host.obliging [] []).WriterSucceeds := fun _ => ⟨rfl, rfl⟩
  have size : ∀ n, (dashes ++ (CString.ofBuffer (List.replicate n 97)).bytes).length = 2 + n := by
    intro n
    have noNul : (0 : UInt8) ∉ List.replicate n 97 :=
      fun nul => absurd (List.eq_of_mem_replicate nul) (by decide)
    rw [List.length_append, CString.ofBuffer_bytes noNul, List.length_replicate]
    rfl
  rw [cliPrintHelpGlobal, cliPrint_received writer] at told
  have inside := (told.1 _ List.mem_cons_self).length_le
  have bounded := length_drained_le (helpGlobalPieces longOptionSpec)
  have whole : 2 + 4095 ≤ (drained (helpGlobalPieces longOptionSpec)).flatten.length :=
    (size 4095).symm.le.trans inside
  exact absurd (whole.trans bounded) (by decide)

end Arrival

end BcRuntime
