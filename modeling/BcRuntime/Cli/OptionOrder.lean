import BcRuntime.Cli.Overlay

/-!
The order of the options. Two command lines that differ only in how the tokens of
different options stand among each other, before the command and after it, are accepted
alike and leave the same settings: only the order of the tokens of one option matters.
-/

namespace BcRuntime
open Fallible Run

/-- The tokens of each option are the same, in the same order. -/
def SameByName (tokens tokens' : List CString) : Prop :=
  ∀ name, tokens.filter (fun token => tokenName token = name) =
    tokens'.filter fun token => tokenName token = name

section Tokens
variable {tokens tokens' : List CString} {keyPrefix : CString} {options : List OptionSpec}

theorem SameByName.symm (same : SameByName tokens tokens') : SameByName tokens' tokens :=
  fun name => (same name).symm

theorem SameByName.swap {first second : CString} (differ : tokenName first ≠ tokenName second)
    (before after : List CString) :
    SameByName (before ++ first :: second :: after) (before ++ second :: first :: after) := by
  intro name
  rw [List.filter_append, List.filter_append]
  by_cases named : tokenName first = name
  · have other : ¬ tokenName second = name := fun same => differ (named.trans same.symm)
    simp [named, other]
  · simp [List.filter_cons, named]

theorem SameByName.mem (same : SameByName tokens tokens') {token : CString}
    (mem : token ∈ tokens) : token ∈ tokens' := by
  have kept : token ∈ tokens.filter fun other => tokenName other = tokenName token :=
    List.mem_filter.mpr ⟨mem, decide_eq_true rfl⟩
  rw [same] at kept
  exact (List.mem_filter.mp kept).1

theorem SameByName.occurs (same : SameByName tokens tokens') (option : OptionSpec) :
    Occurs option tokens ↔ Occurs option tokens' := by
  have there : ∀ {tokens tokens' : List CString}, SameByName tokens tokens' →
      Occurs option tokens → Occurs option tokens' := by
    intro tokens tokens' same occurs
    obtain ⟨token, mem, named⟩ := List.mem_map.mp occurs
    exact List.mem_map.mpr ⟨token, same.mem mem, named⟩
  exact ⟨there same, there same.symm⟩

theorem tokenCall_key? {token : CString} {call : StoreCall}
    (called : tokenCall keyPrefix options token = some call) (key : CString) :
    call.key? = some key ↔ keyPrefix.bytes ++ tokenName token = key.bytes := by
  obtain ⟨⟨index, option⟩, found, hcall⟩ := Option.map_eq_some_iff.mp called
  obtain ⟨name, _, _⟩ := cliFindOption_row found
  rw [← hcall, occurrenceCall_key?, Option.some.injEq, ← name]
  exact ⟨congrArg CString.bytes, fun same => CString.ext same⟩

/-- The calls of the tokens about one key are those of the tokens with one name. -/
theorem SameByName.calls_about (same : SameByName tokens tokens') (key : CString) :
    (tokens.filterMap (tokenCall keyPrefix options)).filter (fun call => call.key? = some key) =
      (tokens'.filterMap (tokenCall keyPrefix options)).filter
        fun call => call.key? = some key := by
  have named : ∀ tokens : List CString,
      (tokens.filterMap (tokenCall keyPrefix options)).filter (fun call => call.key? = some key) =
        (tokens.filter fun token => keyPrefix.bytes ++ tokenName token = key.bytes).filterMap
          (tokenCall keyPrefix options) := by
    intro tokens
    rw [List.filter_filterMap, List.filterMap_filter]
    refine List.filterMap_congr fun token _ => ?_
    cases called : tokenCall keyPrefix options token with
    | none => split <;> rfl
    | some call =>
        have about := tokenCall_key? called key
        by_cases here : call.key? = some key
        · rw [if_pos (decide_eq_true (about.mp here))]
          exact Option.filter_some_pos (decide_eq_true here)
        · rw [if_neg (by simpa using mt about.mpr here)]
          exact Option.filter_some_neg (by simpa using here)
  rw [named, named]
  by_cases below : keyPrefix.bytes <+: key.bytes
  · obtain ⟨name, whole⟩ := below
    have byName : ∀ token : CString,
        decide (keyPrefix.bytes ++ tokenName token = key.bytes) = decide (tokenName token = name) :=
      fun token => decide_eq_decide.mpr (by rw [← whole, List.append_cancel_left_eq])
    simp only [byName, same name]
  · have nothing : ∀ tokens : List CString,
        (tokens.filter fun token => keyPrefix.bytes ++ tokenName token = key.bytes) = [] := by
      intro tokens
      refine List.filter_eq_nil_iff.mpr fun token _ about => below ⟨tokenName token, ?_⟩
      exact of_decide_eq_true about
    rw [nothing, nothing]

theorem SameByName.defaultCalls (same : SameByName tokens tokens') :
    defaultCalls keyPrefix options tokens = defaultCalls keyPrefix options tokens' := by
  refine List.filterMap_congr fun option _ => ?_
  rw [defaultCall, defaultCall]
  simp only [same.occurs option]

end Tokens

section History
variable {key : CString}

/-- Only the calls about a key change its value. -/
theorem valueAfter_about (calls : List StoreCall) (old : Option CString) :
    valueAfter calls key old =
      valueAfter (calls.filter fun call => call.key? = some key) key old := by
  induction calls generalizing old with
  | nil => rfl
  | cons call calls ih =>
      by_cases about : call.key? = some key
      · have kept : ((call :: calls).filter fun call => call.key? = some key) =
            call :: calls.filter fun call => call.key? = some key :=
          List.filter_cons_of_pos (decide_eq_true about)
        rw [kept]
        exact ih _
      · have passed : ((call :: calls).filter fun call => call.key? = some key) =
            calls.filter fun call => call.key? = some key :=
          List.filter_cons_of_neg (by simpa using about)
        have unchanged := StoreCall.update_of_key?_ne about old
        rw [passed, ← ih old, valueAfter, List.foldl_cons, unchanged]
        rfl

end History

section Sentences
variable {spec : ProgramSpec} {globals globals' options options' rest : List CString}
  {word : CString} {command : CommandSpec} {keyPrefix : CString} {table : List OptionSpec}

theorem TableComplete.sameByName (h : TableComplete keyPrefix table globals)
    (same : SameByName globals globals') : TableComplete keyPrefix table globals' where
  required := fun option mem required => (same.occurs option).mp (h.required option mem required)
  fits := fun option mem stored =>
    h.fits option mem (stored.imp_left fun occurs => (same.occurs option).mpr occurs)

theorem Sentence.sameByName (h : Sentence spec globals word command options rest)
    (sameGlobals : SameByName globals globals') (sameOptions : SameByName options options') :
    Sentence spec globals' word command options' rest where
  globalTokens := fun token mem => h.globalTokens token (sameGlobals.symm.mem mem)
  isWord := h.isWord
  names := h.names
  commandTokens := fun token mem => h.commandTokens token (sameOptions.symm.mem mem)
  ends := h.ends
  globalsComplete := h.globalsComplete.sameByName sameGlobals
  commandComplete := h.commandComplete.sameByName sameOptions
  positionalCount := h.positionalCount

theorem valueAfter_sentence_sameByName (sameGlobals : SameByName globals globals')
    (sameOptions : SameByName options options') (key : CString) (old : Option CString) :
    valueAfter (sentenceCalls spec globals command options) key old =
      valueAfter (sentenceCalls spec globals' command options') key old := by
  simp only [sentenceCalls, valueAfter_append, sameGlobals.defaultCalls, sameOptions.defaultCalls]
  rw [valueAfter_about (globals.filterMap _), sameGlobals.calls_about, ← valueAfter_about,
    valueAfter_about (options.filterMap _), sameOptions.calls_about, ← valueAfter_about]

end Sentences

structure CommandLine where
  program : CString
  globals : List CString
  word : CString
  options : List CString
  rest : List CString
  globalTokens : ∀ token ∈ globals, OptionToken token
  isWord : ¬ dashes <+: word.bytes
  commandTokens : ∀ token ∈ options, OptionToken token
  ends : EndsOptions rest

namespace CommandLine

def argumentValues (line : CommandLine) : List CString :=
  line.program :: (line.globals ++ line.word :: (line.options ++ line.rest))

/-- The option tokens stand in another order. -/
structure Reordered (line line' : CommandLine) : Prop where
  globals : SameByName line.globals line'.globals
  word : line.word = line'.word
  options : SameByName line.options line'.options
  rest : line.rest = line'.rest

theorem Reordered.symm {line line' : CommandLine} (h : line.Reordered line') :
    line'.Reordered line := ⟨h.globals.symm, h.word.symm, h.options.symm, h.rest.symm⟩

variable {spec : ProgramSpec} {line line' : CommandLine}

theorem parts_of_sentence {globals options rest : List CString} {word : CString}
    {command : CommandSpec} (sentence : Sentence spec globals word command options rest)
    (split : line.argumentValues.drop 1 = globals ++ word :: (options ++ rest)) :
    globals = line.globals ∧ word = line.word ∧ options = line.options ∧ rest = line.rest := by
  obtain ⟨hglobals, hoptions, _⟩ := segments_of_sentence sentence split
  have before := List.span_append (p := fun token => decide (OptionToken token))
    (fun token mem => decide_eq_true (line.globalTokens token mem))
    (show ∀ token ∈ (line.word :: (line.options ++ line.rest)).head?,
        decide (OptionToken token) = false by
      intro token first
      obtain rfl : line.word = token := Option.some.inj first
      exact decide_eq_false fun isOption => line.isWord isOption.1)
  have after := List.span_append (p := fun token => decide (OptionToken token))
    (fun token mem => decide_eq_true (line.commandTokens token mem))
    (show ∀ token ∈ line.rest.head?, decide (OptionToken token) = false by
      intro token first
      have ends := line.ends
      cases parts : line.rest with
      | nil => simp [parts] at first
      | cons head tail =>
          rw [parts] at first ends
          obtain rfl : head = token := Option.some.inj first
          refine decide_eq_false fun isOption => ?_
          cases ends with
          | inl terminator => exact isOption.ne_terminator terminator
          | inr isWord => exact isWord isOption.1)
  have shape : line.argumentValues.drop 1 =
      line.globals ++ line.word :: (line.options ++ line.rest) := rfl
  rw [BcRuntime.globalTokens, shape, before.1] at hglobals
  rw [BcRuntime.commandTokens, shape, before.2, List.drop_one, List.tail_cons, after.1] at hoptions
  rw [shape, hglobals, hoptions] at split
  obtain ⟨hword, hrest⟩ := List.cons.inj (List.append_cancel_left split)
  exact ⟨hglobals.symm, hword.symm, hoptions.symm, (List.append_cancel_left hrest).symm⟩

end CommandLine

section Parse
variable [BcCore] {spec : ProgramSpec} {host : Host} {m : Machine}

theorem cliParse_of_reordered (wellFormed : WellFormedSpec spec)
    (short : ∀ command ∈ spec.commands, command.name.length ≤ 254)
    (succeed : host.StoreCallsSucceed) (errorStream : Bool) {line line' : CommandLine}
    (reordered : line.Reordered line') {parsed : Parsed}
    (accepted : (cliParse spec line.argumentValues errorStream host m).1 = some (.ok, parsed)) :
    (cliParse spec line'.argumentValues errorStream host m).1 = some (.ok, parsed) := by
  obtain ⟨globals, word, command, options, rest, split, sentence, hparsed, _⟩ :=
    sentence_of_cliParse wellFormed.toDistinctTables (cliParse_run_of_result accepted)
  obtain ⟨rfl, rfl, rfl, rfl⟩ := CommandLine.parts_of_sentence sentence split
  have size := short command (List.mem_of_find?_eq_some sentence.names)
  have fits : command.name.length + 2 ≤ cliKeyBufferSize := Nat.add_le_add_right size 2
  have other := sentence.sameByName reordered.globals reordered.options
  rw [reordered.word, reordered.rest] at other
  rw [hparsed, reordered.rest]
  have split' : line'.argumentValues.drop 1 =
      line'.globals ++ line'.word :: (line'.options ++ line'.rest) := rfl
  exact cliParse_of_plan succeed m errorStream (plan_of_sentence wellFormed split' fits other)

/-- The order in which different options are given does not matter: the same command lines
are accepted with the same result, and they leave the same settings in any store. -/
theorem cliParse_optionOrder (wellFormed : WellFormedSpec spec)
    (short : ∀ command ∈ spec.commands, command.name.length ≤ 254)
    (succeed : host.StoreCallsSucceed) (valid : m.store.Valid) (errorStream : Bool)
    {line line' : CommandLine} (reordered : line.Reordered line') (parsed : Parsed) :
    ((cliParse spec line.argumentValues errorStream host m).1 = some (.ok, parsed) ↔
      (cliParse spec line'.argumentValues errorStream host m).1 = some (.ok, parsed)) ∧
    ((cliParse spec line.argumentValues errorStream host m).1 = some (.ok, parsed) → ∀ key,
      (cliParse spec line.argumentValues errorStream host m).2.store.content key =
        (cliParse spec line'.argumentValues errorStream host m).2.store.content key) := by
  have there : (cliParse spec line.argumentValues errorStream host m).1 = some (.ok, parsed) →
      (cliParse spec line'.argumentValues errorStream host m).1 = some (.ok, parsed) :=
    cliParse_of_reordered wellFormed short succeed errorStream reordered
  refine ⟨⟨there, cliParse_of_reordered wellFormed short succeed errorStream reordered.symm⟩,
    fun accepted key => ?_⟩
  have stored : ∀ {line : CommandLine},
      (cliParse spec line.argumentValues errorStream host m).1 = some (.ok, parsed) →
      ∃ command, parsed.command = some command ∧
        (cliParse spec line.argumentValues errorStream host m).2.store.content key =
          valueAfter (sentenceCalls spec line.globals command line.options) key
            (m.store.content key) := by
    intro line accepted
    obtain ⟨globals, word, command, options, rest, split, sentence, hparsed, performed⟩ :=
      sentence_of_cliParse wellFormed.toDistinctTables (cliParse_run_of_result accepted)
    obtain ⟨rfl, rfl, rfl, rfl⟩ := CommandLine.parts_of_sentence sentence split
    exact ⟨command, by rw [hparsed], (performed.from_store valid).2.2 key⟩
  obtain ⟨command, selected, content⟩ := stored accepted
  obtain ⟨command', selected', content'⟩ := stored (there accepted)
  obtain rfl : command = command' := Option.some.inj (selected.symm.trans selected')
  rw [content, content']
  exact valueAfter_sentence_sameByName reordered.globals reordered.options key _

/-- Two paths around the number of jobs, and after each other. -/
def jobsBetween : CommandLine where
  program := .lit "copy"
  globals := [.lit "--quiet"]
  word := .lit "run"
  options := [.lit "--path=a", .lit "--jobs=2", .lit "--path=b"]
  rest := [.lit "x"]
  globalTokens := by decide
  isWord := by decide
  commandTokens := by decide
  ends := .inr (by decide)

def jobsLast : CommandLine where
  program := .lit "copy"
  globals := [.lit "--quiet"]
  word := .lit "run"
  options := [.lit "--path=a", .lit "--path=b", .lit "--jobs=2"]
  rest := [.lit "x"]
  globalTokens := by decide
  isWord := by decide
  commandTokens := by decide
  ends := .inr (by decide)

omit [BcCore] in
theorem jobsBetween_reordered : jobsBetween.Reordered jobsLast where
  globals := fun _ => rfl
  word := rfl
  options := SameByName.swap (by decide) [.lit "--path=a"] []
  rest := rfl

omit [BcCore] in
theorem cliParse_optionOrder_jobs :
    (@cliParse .reference copySpec jobsBetween.argumentValues true (.obliging [] [])
        .initial).2.store.content =
      (@cliParse .reference copySpec jobsLast.argumentValues true (.obliging [] [])
        .initial).2.store.content := by
  have accepted : (@cliParse .reference copySpec jobsBetween.argumentValues true
      (.obliging [] []) .initial).1 = some (.ok, ⟨some runCommand, [.lit "x"]⟩) := by
    decide +kernel
  have valid : Machine.initial.store.Valid := ⟨by decide, fun sorted => nomatch sorted⟩
  funext key
  exact (@cliParse_optionOrder .reference copySpec _ .initial copySpec_wellFormed (by decide)
    (Host.obliging_storeCallsSucceed [] []) valid true _ _ jobsBetween_reordered _).2 accepted key

end Parse

end BcRuntime
