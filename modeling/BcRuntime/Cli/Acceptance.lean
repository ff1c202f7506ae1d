import BcRuntime.Cli.Sentences

/-!
What `bc_runtime_cli_parse` accepts. A parse that returns `PARSE_OK` has read a
sentence and made its calls; when the store refuses nothing, every sentence is
accepted.
-/

namespace BcRuntime
open Fallible Run

variable [BcCore] {spec : ProgramSpec} {argumentValues : List CString} {errorStream : Bool}
  {host : Host} {m m' : Machine} {parsed : Parsed}

theorem cliParse_run (spec : ProgramSpec) (argumentValues : List CString) (errorStream : Bool)
    (host : Host) (m : Machine) :
    cliParse spec argumentValues errorStream host m =
      (some ((cliParseArguments ⟨spec, errorStream⟩ argumentValues host m).1.getD
          (.error, .empty)),
        (cliParseArguments ⟨spec, errorStream⟩ argumentValues host m).2) := by
  rw [cliParse, bind_run, attempt]
  cases (cliParseArguments ⟨spec, errorStream⟩ argumentValues host m).1 with
  | none => rfl
  | some result => rfl

theorem cliParse_run_of_result {result : ParseStatus × Parsed}
    (h : (cliParse spec argumentValues errorStream host m).1 = some result) :
    cliParse spec argumentValues errorStream host m =
      (some result, (cliParse spec argumentValues errorStream host m).2) := by
  rw [← h]

/-- Only a normal end can carry the status `PARSE_OK`. -/
theorem cliParse_ok_iff :
    cliParse spec argumentValues errorStream host m = (some (.ok, parsed), m') ↔
      cliParseArguments ⟨spec, errorStream⟩ argumentValues host m = (some (.ok, parsed), m') := by
  rw [cliParse_run]
  obtain ⟨result, m₁⟩ := cliParseArguments ⟨spec, errorStream⟩ argumentValues host m
  cases result with
  | none => simp
  | some result => simp

/-- What a parse that returns `PARSE_OK` has read and done. -/
theorem sentence_of_cliParse (distinct : DistinctTables spec)
    (run : cliParse spec argumentValues errorStream host m = (some (.ok, parsed), m')) :
    ∃ globals word command options rest,
      argumentValues.drop 1 = globals ++ word :: (options ++ rest) ∧
      Sentence spec globals word command options rest ∧
      parsed = ⟨some command, positionals rest⟩ ∧
      Performed (sentenceCalls spec globals command options) m m' := by
  have followed : FollowsPlan host m _ _ :=
    cliParseArguments_follows m ⟨spec, errorStream⟩ argumentValues
  obtain ⟨calls, planned, performed⟩ := wp_some followed (cliParse_ok_iff.mp run)
  obtain ⟨globals, word, command, options, rest, split, sentence, hcalls, hparsed⟩ :=
    sentence_of_plan distinct planned
  exact ⟨globals, word, command, options, rest, split, sentence, hparsed, hcalls ▸ performed⟩

omit [BcCore] in
/-- With a store that refuses nothing a computation ends as its plan does. -/
theorem FollowsPlan.succeeds {α : Type} {calls : List StoreCall} {a : α} {c : Run α}
    (followed : FollowsPlan host m (some (calls, a)) c) (succeed : host.StoreCallsSucceed) :
    wp c (fun b _ => b = a) (fun _ => False) host m := by
  refine wp_mono followed ?_ fun _ failed => failed.elim (by simp) (absurd succeed)
  rintro b m' ⟨calls', same, _⟩
  exact (Prod.mk.inj (Option.some.inj same)).2.symm

theorem cliParse_of_plan (succeed : host.StoreCallsSucceed) (m : Machine) (errorStream : Bool)
    {calls : List StoreCall} {result : ParseStatus × Parsed}
    (planned : planParse spec argumentValues = some (calls, result)) :
    (cliParse spec argumentValues errorStream host m).1 = some result := by
  have followed : FollowsPlan host m _ _ :=
    cliParseArguments_follows m ⟨spec, errorStream⟩ argumentValues
  rw [planned] at followed
  obtain ⟨result', m', run, same⟩ := exists_run_of_wp (followed.succeeds succeed)
  rw [cliParse_run, run, same]
  rfl

/-- The parser accepts exactly the sentences of its grammar. -/
theorem cliParse_accepts_iff (wellFormed : WellFormedSpec spec)
    (short : ∀ command ∈ spec.commands, command.name.length ≤ 254)
    (succeed : host.StoreCallsSucceed) (m : Machine) (argumentValues : List CString)
    (errorStream : Bool) :
    (∃ parsed, (cliParse spec argumentValues errorStream host m).1 = some (.ok, parsed)) ↔
      ∃ globals word command options rest,
        argumentValues.drop 1 = globals ++ [word] ++ options ++ rest ∧
        Sentence spec globals word command options rest := by
  have shape : ∀ (globals options rest : List CString) (word : CString),
      globals ++ [word] ++ options ++ rest = globals ++ word :: (options ++ rest) := by
    intro globals options rest word
    simp only [List.append_assoc, List.cons_append, List.nil_append]
  simp only [shape]
  constructor
  · rintro ⟨parsed, accepted⟩
    obtain ⟨globals, word, command, options, rest, split, sentence, _⟩ :=
      sentence_of_cliParse wellFormed.toDistinctTables (cliParse_run_of_result accepted)
    exact ⟨globals, word, command, options, rest, split, sentence⟩
  · rintro ⟨globals, word, command, options, rest, split, sentence⟩
    have size := short command (List.mem_of_find?_eq_some sentence.names)
    have fits : command.name.length + 2 ≤ cliKeyBufferSize := Nat.add_le_add_right size 2
    exact ⟨_, cliParse_of_plan succeed m errorStream
      (plan_of_sentence wellFormed split fits sentence)⟩

def jobsOption : OptionSpec := ⟨.lit "jobs", .integer, none, some (.lit "4"), false, none, none⟩
def pathOption : OptionSpec := ⟨.lit "path", .list, none, none, true, none, none⟩

def runCommand : CommandSpec where
  name := .lit "run"
  summary := none
  options := [jobsOption, pathOption]
  positionalUsage := none
  positionalMin := 1
  positionalMax := 0

/-- A program with a flag for all commands and two options of its one command. -/
def copySpec : ProgramSpec where
  programName := .lit "copy"
  version := none
  summary := none
  globalOptions := [⟨.lit "quiet", .flag, none, none, false, none, none⟩]
  commands := [runCommand]

def copyArguments : List CString :=
  [.lit "copy", .lit "--quiet", .lit "run", .lit "--path=a", .lit "--path=b", .lit "x"]

omit [BcCore] in
theorem copySpec_wellFormed : WellFormedSpec copySpec where
  globalsDistinct := by decide
  commandsDistinct := by decide
  tables := by decide

omit [BcCore] in
theorem copySpec_accepts :
    (@cliParse .reference copySpec copyArguments true (.obliging [] []) .initial).1 =
      some (.ok, ⟨some runCommand, [.lit "x"]⟩) := by decide +kernel

omit [BcCore] in
theorem cliParse_accepts_iff_copy :
    ∃ globals word command options rest,
      copyArguments.drop 1 = globals ++ [word] ++ options ++ rest ∧
      Sentence copySpec globals word command options rest :=
  (@cliParse_accepts_iff .reference copySpec _ copySpec_wellFormed (by decide)
    (Host.obliging_storeCallsSucceed [] []) .initial copyArguments true).mp ⟨_, copySpec_accepts⟩

end BcRuntime
