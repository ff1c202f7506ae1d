import BcRuntime.Cli.Content
import BcRuntime.Foundation.Lines

/-!
What the joined value of a LIST option tells of its occurrences: the lines of their
values. A newline inside a value, or a default that reads like a joined value, is
where two command lines can no longer be told apart.
-/

namespace BcRuntime
open Fallible Run

section Lines

/-- The lines of the texts, in their order; a newline separates two lines. -/
def linesOf (texts : List CString) : List (List UInt8) :=
  (texts.map CString.bytes).flatMap (List.splitOn listSeparator)

variable {texts texts' : List CString}

theorem linesOf_joinLines (nonempty : texts ≠ []) :
    linesOf [.joinLines texts] = linesOf texts := by
  rw [linesOf, List.map_singleton, List.flatMap_singleton, joinLines_bytes]
  exact List.splitOn_intercalate_flatMap listSeparator (by simpa using nonempty)

/-- A joined value stands for the lines of its parts, and for nothing more. -/
theorem joinLines_eq_iff (nonempty : texts ≠ []) (nonempty' : texts' ≠ []) :
    CString.joinLines texts = .joinLines texts' ↔ linesOf texts = linesOf texts' := by
  rw [linesOf, linesOf, ← List.intercalate_eq_iff listSeparator (by simpa using nonempty)
    (by simpa using nonempty'), ← joinLines_bytes, ← joinLines_bytes]
  exact ⟨congrArg CString.bytes, CString.ext⟩

theorem linesOf_of_plain (plain : ∀ text ∈ texts, listSeparator ∉ text.bytes) :
    linesOf texts = texts.map CString.bytes := by
  refine List.flatMap_splitOn_of_notMem fun line mem => ?_
  obtain ⟨text, text_mem, rfl⟩ := List.mem_map.mp mem
  exact plain text text_mem

theorem eq_of_linesOf_eq (plain : ∀ text ∈ texts ++ texts', listSeparator ∉ text.bytes)
    (same : linesOf texts = linesOf texts') : texts = texts' := by
  rw [linesOf_of_plain fun text mem => plain text (List.mem_append_left _ mem),
    linesOf_of_plain fun text mem => plain text (List.mem_append_right _ mem)] at same
  exact List.map_injective_iff.mpr (fun _ _ => CString.ext) same

end Lines

section Joined

/-- What may be stored for a LIST option with these values: all of them, joined, or
without any its default, if at all. -/
def JoinedFrom (option : OptionSpec) (values : List CString) (stored : Option CString) : Prop :=
  (values ≠ [] ∧ stored = some (.joinLines values)) ∨
    values = [] ∧ ∀ value, stored = some value → option.defaultValue = some value

theorem joinedFrom_configured {options : List OptionSpec} {option : OptionSpec}
    {tokens : List CString} (distinct : DistinctNames options)
    (valid : ∀ token ∈ tokens, ValidToken options token) (mem : option ∈ options)
    (isList : option.type = .list) :
    JoinedFrom option (suppliedValues option tokens) (configuredValue option tokens) := by
  rw [configuredValue]
  by_cases occurs : Occurs option tokens
  · rw [if_pos occurs]
    refine .inl ⟨suppliedValues_ne_nil distinct valid mem (by simp [isList]) occurs, ?_⟩
    simp only [suppliedValue, isList]
  · rw [if_neg occurs]
    exact .inr ⟨suppliedValues_of_not_occurs occurs, fun _ given => given⟩

/-- The default of an option reads like one of two sequences of values, and the
other is empty. -/
def DefaultReadsAs (option : OptionSpec) (values values' : List CString) : Prop :=
  ∃ defaultValue, option.defaultValue = some defaultValue ∧
    ((values = [] ∧ linesOf values' = linesOf [defaultValue]) ∨
      values' = [] ∧ linesOf values = linesOf [defaultValue])

theorem alike_of_joinedFrom {option : OptionSpec} {values values' : List CString}
    {stored : Option CString} (first : JoinedFrom option values stored)
    (second : JoinedFrom option values' stored) :
    linesOf values = linesOf values' ∨ DefaultReadsAs option values values' := by
  cases first with
  | inl first =>
      obtain ⟨nonempty, joined⟩ := first
      cases second with
      | inl second =>
          have same := Option.some.inj (joined.symm.trans second.2)
          exact .inl ((joinLines_eq_iff nonempty second.1).mp same)
      | inr second =>
          exact .inr ⟨_, second.2 _ joined, .inr ⟨second.1, (linesOf_joinLines nonempty).symm⟩⟩
  | inr first =>
      cases second with
      | inl second =>
          obtain ⟨nonempty, joined⟩ := second
          exact .inr ⟨_, first.2 _ joined, .inl ⟨first.1, (linesOf_joinLines nonempty).symm⟩⟩
      | inr second => exact .inl (by rw [first.1, second.1])

end Joined

section Parse

/-- The tokens among which a parse reads an option whose key no other row in play has:
none for an option of a command that is not selected. -/
inductive OptionRead (spec : ProgramSpec) (argumentValues : List CString) (option : OptionSpec) :
    CString → List CString → Prop
  | global {command : CommandSpec}
      (selected : selectedCommand spec argumentValues = some command)
      (mem : option ∈ spec.globalOptions)
      (unshared : ∀ other ∈ command.options,
        optionKey (commandPrefix command) other ≠ optionKey cliGlobalPrefix option) :
      OptionRead spec argumentValues option cliGlobalPrefix (globalTokens argumentValues)
  | command {command : CommandSpec}
      (selected : selectedCommand spec argumentValues = some command)
      (mem : option ∈ command.options)
      (unshared : ∀ other ∈ spec.globalOptions,
        optionKey cliGlobalPrefix other ≠ optionKey (commandPrefix command) option) :
      OptionRead spec argumentValues option (commandPrefix command) (commandTokens argumentValues)
  | unselected {command : CommandSpec} {keyPrefix : CString}
      (selected : selectedCommand spec argumentValues = some command)
      (notGlobal : ∀ other ∈ spec.globalOptions,
        optionKey cliGlobalPrefix other ≠ optionKey keyPrefix option)
      (notCommand : ∀ other ∈ command.options,
        optionKey (commandPrefix command) other ≠ optionKey keyPrefix option) :
      OptionRead spec argumentValues option keyPrefix []

variable [BcCore] {spec : ProgramSpec} {argumentValues argumentValues' : List CString}
  {errorStream errorStream' : Bool} {host host' : Host} {m m' n n' : Machine}
  {parsed parsed' : Parsed} {option : OptionSpec} {keyPrefix : CString}
  {tokens tokens' : List CString}

theorem OptionRead.joinedFrom (read : OptionRead spec argumentValues option keyPrefix tokens)
    (distinct : DistinctTables spec) (isList : option.type = .list)
    (empty : m.store.entries = [])
    (run : cliParse spec argumentValues errorStream host m = (some (.ok, parsed), m')) :
    JoinedFrom option (suppliedValues option tokens)
      (m'.store.content (optionKey keyPrefix option)) := by
  obtain ⟨globals, word, chosen, options, rest, split, sentence, _, performed⟩ :=
    sentence_of_cliParse distinct run
  obtain ⟨_, _, content⟩ := performed.sentence empty
  obtain ⟨hglobals, hoptions, hselected⟩ := segments_of_sentence sentence split
  rw [content]
  cases read with
  | @global command selected mem unshared =>
      obtain rfl : chosen = command := Option.some.inj (hselected.symm.trans selected)
      have rows : DistinctNames spec.globalOptions := distinct.globalsDistinct
      rw [hglobals, valueAfter_sentence_global rows sentence.globalTokens mem unshared]
      exact joinedFrom_configured rows sentence.globalTokens mem isList
  | @command command selected mem unshared =>
      obtain rfl : chosen = command := Option.some.inj (hselected.symm.trans selected)
      have rows : DistinctNames chosen.options :=
        distinct.commandsDistinct chosen (List.mem_of_find?_eq_some sentence.names)
      rw [hoptions, valueAfter_sentence_command rows sentence.commandTokens mem unshared]
      exact joinedFrom_configured rows sentence.commandTokens mem isList
  | @unselected command _ selected notGlobal notCommand =>
      obtain rfl : chosen = command := Option.some.inj (hselected.symm.trans selected)
      rw [valueAfter_sentence_other notGlobal notCommand]
      exact .inr ⟨rfl, fun stored found => by cases found⟩

/-- Two command lines that leave the same value for a LIST option gave it the same
lines, up to its default; without newlines inside the values, the same values. -/
theorem listValues_recoverable (distinct : DistinctTables spec) (isList : option.type = .list)
    (empty : m.store.entries = []) (empty' : n.store.entries = [])
    (run : cliParse spec argumentValues errorStream host m = (some (.ok, parsed), m'))
    (run' : cliParse spec argumentValues' errorStream' host' n = (some (.ok, parsed'), n'))
    (read : OptionRead spec argumentValues option keyPrefix tokens)
    (read' : OptionRead spec argumentValues' option keyPrefix tokens')
    (same : m'.store.content (optionKey keyPrefix option) =
      n'.store.content (optionKey keyPrefix option)) :
    (linesOf (suppliedValues option tokens) = linesOf (suppliedValues option tokens') ∨
        DefaultReadsAs option (suppliedValues option tokens) (suppliedValues option tokens')) ∧
      ((∀ value ∈ suppliedValues option tokens ++ suppliedValues option tokens',
          listSeparator ∉ value.bytes) →
        suppliedValues option tokens = suppliedValues option tokens' ∨
          DefaultReadsAs option (suppliedValues option tokens)
            (suppliedValues option tokens')) := by
  have first := read.joinedFrom distinct isList empty run
  have second := read'.joinedFrom distinct isList empty' run'
  rw [← same] at second
  have alike := alike_of_joinedFrom first second
  exact ⟨alike, fun plain => alike.imp_left (eq_of_linesOf_eq plain)⟩

/-- A LIST option for all commands; one command has it too and is named like the
prefix of its key. -/
def tagOption (defaultValue : Option CString) : OptionSpec :=
  ⟨.lit "tag", .list, none, defaultValue, false, none, none⟩

def tagCommand (name : CString) (options : List OptionSpec) : CommandSpec where
  name := name
  summary := none
  options := options
  positionalUsage := none
  positionalMin := 0
  positionalMax := 0

def tagSpec (globalOptions : List OptionSpec) : ProgramSpec where
  programName := .lit "tool"
  version := none
  summary := none
  globalOptions := globalOptions
  commands := [tagCommand (.lit "run") [], tagCommand (.lit "global") [tagOption none]]

/-- Two command lines are accepted and leave the same value under the global key of
the option, yet give it different values. -/
def Confused (spec : ProgramSpec) (argumentValues argumentValues' : List CString) : Prop :=
  let parse := fun words => @cliParse .reference spec words true (.obliging [] []) .initial
  (parse argumentValues).1.map Prod.fst = some .ok ∧
    (parse argumentValues').1.map Prod.fst = some .ok ∧
    (parse argumentValues).2.store.content (.lit "global.tag") =
      (parse argumentValues').2.store.content (.lit "global.tag") ∧
    suppliedValues (tagOption none) (globalTokens argumentValues) ≠
      suppliedValues (tagOption none) (globalTokens argumentValues')

instance (spec : ProgramSpec) (argumentValues argumentValues' : List CString) :
    Decidable (Confused spec argumentValues argumentValues') :=
  inferInstanceAs (Decidable (_ ∧ _ ∧ _ ∧ _))

def toolLine (words : List CString) : List CString := .lit "tool" :: words

omit [BcCore] in
theorem listValues_recoverable_newline :
    linesOf (suppliedValues (tagOption none)
        (globalTokens (toolLine [.lit "--tag=a\nb", .lit "run"]))) =
      linesOf (suppliedValues (tagOption none)
        (globalTokens (toolLine [.lit "--tag=a", .lit "--tag=b", .lit "run"]))) := by
  have accepted : ∀ words ∈ [toolLine [.lit "--tag=a\nb", .lit "run"],
      toolLine [.lit "--tag=a", .lit "--tag=b", .lit "run"]],
      (@cliParse .reference (tagSpec [tagOption none]) words true (.obliging [] []) .initial).1 =
        some (.ok, ⟨some (tagCommand (.lit "run") []), []⟩) := by decide +kernel
  have unshared : ∀ other ∈ (tagCommand (.lit "run") []).options,
      optionKey (commandPrefix (tagCommand (.lit "run") [])) other ≠
        optionKey cliGlobalPrefix (tagOption none) := fun _ mem => absurd mem List.not_mem_nil
  have alike := (@listValues_recoverable .reference (tagSpec [tagOption none])
    _ _ true true (.obliging [] []) (.obliging [] []) .initial _ .initial _ _ _ (tagOption none)
    _ _ _ ⟨by decide, by decide⟩ rfl rfl rfl
    (@cliParse_run_of_result .reference _ _ _ _ _ _ (accepted _ List.mem_cons_self))
    (@cliParse_run_of_result .reference _ _ _ _ _ _
      (accepted _ (List.mem_cons_of_mem _ List.mem_cons_self)))
    (.global (by decide) List.mem_cons_self unshared)
    (.global (by decide) List.mem_cons_self unshared) (by decide +kernel)).1
  refine alike.resolve_right fun ⟨_, given, _⟩ => ?_
  cases given

omit [BcCore] in
/-- By a newline inside a value, by a default, by a key two rows share, and by a
name two rows of one table share. -/
theorem tagSpec_confused :
    Confused (tagSpec [tagOption none]) (toolLine [.lit "--tag=a\nb", .lit "run"])
        (toolLine [.lit "--tag=a", .lit "--tag=b", .lit "run"]) ∧
      Confused (tagSpec [tagOption (some (.lit "a"))]) (toolLine [.lit "run"])
        (toolLine [.lit "--tag=a", .lit "run"]) ∧
      Confused (tagSpec [tagOption none]) (toolLine [.lit "--tag=a", .lit "global", .lit "--tag=b"])
        (toolLine [.lit "--tag=a", .lit "--tag=b", .lit "global"]) ∧
      Confused (tagSpec [tagOption none, tagOption (some (.lit "c"))])
        (toolLine [.lit "--tag=a", .lit "run"]) (toolLine [.lit "--tag=b", .lit "run"]) := by
  decide +kernel

end Parse

end BcRuntime
