import BcRuntime.Cli.Acceptance
import BcRuntime.Config.ValueHistory
import Mathlib.Data.List.Induction

/-!
What an accepted command line leaves in the store. Under the key of an option
there is what its occurrences supply, or its default when it does not occur; the
keys of the two tables are apart as long as no command can be read as `global`.
-/

namespace BcRuntime
open Fallible Run

section Values

def CString.joinLines (texts : List CString) : CString :=
  .ofBuffer ([listSeparator].intercalate (texts.map CString.bytes))

def suppliedValues (option : OptionSpec) (tokens : List CString) : List CString :=
  (tokens.filter fun token => tokenName token = option.longName.bytes).filterMap tokenValue

def suppliedValue (option : OptionSpec) (tokens : List CString) : Option CString :=
  match option.type with
  | .flag => some (.lit "true")
  | .list => some (.joinLines (suppliedValues option tokens))
  | .string | .integer | .boolean | .enum => (suppliedValues option tokens).getLast?

/-- What an option that occurs makes of the value that was under its key. -/
def suppliedOver (option : OptionSpec) (tokens : List CString) (old : Option CString) :
    Option CString :=
  match option.type with
  | .flag => some (.lit "true")
  | .list => some (.joinLines (old.toList ++ suppliedValues option tokens))
  | .string | .integer | .boolean | .enum => (suppliedValues option tokens).getLast?

def configuredValue (option : OptionSpec) (tokens : List CString) : Option CString :=
  if Occurs option tokens then suppliedValue option tokens else option.defaultValue

def globalTokens (argumentValues : List CString) : List CString :=
  (argumentValues.drop 1).takeWhile fun token => OptionToken token

/-- The tokens between the command and the first positional argument or `--`. -/
def commandTokens (argumentValues : List CString) : List CString :=
  (((argumentValues.drop 1).dropWhile fun token => OptionToken token).drop 1).takeWhile
    fun token => OptionToken token

def selectedCommand (spec : ProgramSpec) (argumentValues : List CString) : Option CommandSpec :=
  ((argumentValues.drop 1).dropWhile fun token => OptionToken token).head?.bind fun word =>
    spec.commands.find? fun command => command.name = word

/-- The command is neither `global` nor does its name start with `global.`. -/
def ApartFromGlobal (command : CommandSpec) : Prop :=
  command.name ≠ .lit "global" ∧ ¬ cliGlobalPrefix.bytes <+: command.name.bytes

instance (command : CommandSpec) : Decidable (ApartFromGlobal command) :=
  inferInstanceAs (Decidable (_ ∧ _))

end Values

section Segments

variable {spec : ProgramSpec} {globals options rest argumentValues : List CString}
  {word : CString} {command : CommandSpec}

/-- The parts of a sentence are where the option tokens of the arguments are. -/
theorem segments_of_sentence (sentence : Sentence spec globals word command options rest)
    (split : argumentValues.drop 1 = globals ++ word :: (options ++ rest)) :
    globalTokens argumentValues = globals ∧ commandTokens argumentValues = options ∧
      selectedCommand spec argumentValues = some command := by
  have before := List.span_append (p := fun token => decide (OptionToken token))
    (fun token mem => decide_eq_true (sentence.globalTokens token mem).option)
    (show ∀ token ∈ (word :: (options ++ rest)).head?, decide (OptionToken token) = false by
      intro token first
      obtain rfl : word = token := Option.some.inj first
      exact decide_eq_false fun isOption => sentence.isWord isOption.1)
  have after := List.span_append (p := fun token => decide (OptionToken token))
    (fun token mem => decide_eq_true (sentence.commandTokens token mem).option)
    (show ∀ token ∈ rest.head?, decide (OptionToken token) = false by
      intro token first
      have ends := sentence.ends
      cases rest with
      | nil => simp at first
      | cons head tail =>
          obtain rfl : head = token := Option.some.inj first
          refine decide_eq_false fun isOption => ?_
          cases ends with
          | inl terminator => exact isOption.ne_terminator terminator
          | inr isWord => exact isWord isOption.1)
  simp only [globalTokens, commandTokens, selectedCommand]
  rw [split, before.1, before.2, List.drop_one, List.tail_cons, after.1]
  exact ⟨rfl, rfl, sentence.names⟩

end Segments

section Joining

theorem joinLines_bytes (texts : List CString) :
    (CString.joinLines texts).bytes = [listSeparator].intercalate (texts.map CString.bytes) := by
  apply CString.ofBuffer_bytes
  induction texts with
  | nil => exact List.not_mem_nil
  | cons text texts ih =>
      cases texts with
      | nil => simpa using text.noNul
      | cons next texts =>
          simp only [List.map_cons, List.intercalate_cons_cons, List.mem_append, not_or]
          exact ⟨⟨text.noNul, by decide⟩, ih⟩

theorem joinLines_singleton (text : CString) : CString.joinLines [text] = text :=
  CString.ext (by rw [joinLines_bytes, List.map_singleton, List.intercalate_singleton])

/-- One string more is joined to the others as an append joins it. -/
theorem joinLines_concat (texts : List CString) (text : CString) :
    CString.joinLines (texts ++ [text]) =
      if texts = [] then text
      else (CString.joinLines texts).join text listSeparator (by decide) := by
  apply CString.ext
  induction texts with
  | nil => simp [joinLines_bytes]
  | cons first texts ih =>
      rw [joinLines_bytes] at ih
      cases texts with
      | nil => simp [joinLines_bytes, CString.join]
      | cons next texts =>
          simp only [List.cons_append, if_neg (List.cons_ne_nil _ _), CString.join,
            joinLines_bytes, List.map_cons, List.intercalate_cons_cons] at ih ⊢
          rw [ih]
          simp

example : CString.joinLines [.lit "a", .lit "b"] = .lit "a\nb" := by decide

end Joining

section Occurrences
variable {option : OptionSpec} {tokens : List CString} {token : CString}

theorem occurs_concat : Occurs option (tokens ++ [token]) ↔
    Occurs option tokens ∨ option.longName.bytes = tokenName token := by
  simp [Occurs]

theorem suppliedValues_concat_of_ne (h : option.longName.bytes ≠ tokenName token) :
    suppliedValues option (tokens ++ [token]) = suppliedValues option tokens := by
  simp [suppliedValues, List.filter_append, h.symm]

theorem suppliedValues_concat (h : option.longName.bytes = tokenName token) :
    suppliedValues option (tokens ++ [token]) =
      suppliedValues option tokens ++ (tokenValue token).toList := by
  cases value : tokenValue token <;> simp [suppliedValues, List.filter_append, h, value]

theorem suppliedValues_of_not_occurs (absent : ¬ Occurs option tokens) :
    suppliedValues option tokens = [] := by
  have none_named : (tokens.filter fun token => tokenName token = option.longName.bytes) = [] := by
    simp only [List.filter_eq_nil_iff, decide_eq_true_eq]
    exact fun token mem named => absent (List.mem_map.mpr ⟨token, mem, named⟩)
  rw [suppliedValues, none_named, List.filterMap_nil]

end Occurrences

section Supplied
variable {option : OptionSpec} {tokens : List CString} {old : Option CString}

/-- Only a LIST option depends on what was under its key. -/
theorem suppliedOver_of_not_list (notList : option.type ≠ .list) :
    suppliedOver option tokens old = suppliedValue option tokens := by
  rw [suppliedOver, suppliedValue]
  cases type : option.type with
  | list => exact absurd type notList
  | string | integer | boolean | enum | flag => rfl

theorem suppliedValue_of_single (notList : option.type ≠ .list) (notFlag : option.type ≠ .flag) :
    suppliedValue option tokens = (suppliedValues option tokens).getLast? := by
  rw [suppliedValue]
  cases type : option.type with
  | list => exact absurd type notList
  | flag => exact absurd type notFlag
  | string | integer | boolean | enum => rfl

end Supplied

section Table
variable {keyPrefix : CString} {options : List OptionSpec} {option other : OptionSpec}
  {tokens : List CString} {token : CString}

theorem tokenCall_of_named (distinct : DistinctNames options) (mem : option ∈ options)
    (named : option.longName.bytes = tokenName token) :
    tokenCall keyPrefix options token =
      some (occurrenceCall keyPrefix option (tokenValue token)) := by
  obtain ⟨n, cell⟩ := List.mem_iff_getElem?.mp mem
  rw [tokenCall, ← named, cliFindOption_of_row distinct cell 0]
  rfl

theorem occurrenceCall_key? (value : Option CString) :
    (occurrenceCall keyPrefix option value).key? = some (optionKey keyPrefix option) := by
  cases value with
  | none => rfl
  | some value =>
      by_cases isList : option.type = .list
      · simp only [occurrenceCall, isList, if_true, StoreCall.key?]
      · simp only [occurrenceCall, isList, if_false, StoreCall.key?]

theorem optionKey_ne (distinct : DistinctNames options) (mem : option ∈ options)
    (other_mem : other ∈ options) (differ : other ≠ option) :
    optionKey keyPrefix other ≠ optionKey keyPrefix option := by
  intro same
  have names := congrArg CString.bytes (CString.append_left_cancel same)
  exact differ (distinct.eq_of_name other_mem mem names)

theorem suppliedValues_ne_nil (distinct : DistinctNames options)
    (valid : ∀ token ∈ tokens, ValidToken options token) (mem : option ∈ options)
    (notFlag : option.type ≠ .flag) (occurs : Occurs option tokens) :
    suppliedValues option tokens ≠ [] := by
  obtain ⟨token, token_mem, named⟩ := List.mem_map.mp occurs
  obtain ⟨other, other_mem, other_named, accepts⟩ := (valid token token_mem).named
  obtain rfl := distinct.eq_of_name mem other_mem (named.symm.trans other_named.symm)
  cases hvalue : tokenValue token with
  | none =>
      rw [hvalue] at accepts
      exact absurd accepts notFlag
  | some value =>
      exact List.ne_nil_of_mem (List.mem_filterMap.mpr
        ⟨token, List.mem_filter.mpr ⟨token_mem, decide_eq_true named⟩, hvalue⟩)

/-- What one more occurrence makes of the value under the key of its option. -/
theorem update_occurrence (distinct : DistinctNames options)
    (valid : ∀ token ∈ tokens, ValidToken options token) (mem : option ∈ options)
    (named : option.longName.bytes = tokenName token)
    (accepts : AcceptsValue option (tokenValue token)) (old : Option CString) :
    (occurrenceCall keyPrefix option (tokenValue token)).update (optionKey keyPrefix option)
        (if Occurs option tokens then suppliedOver option tokens old else old) =
      suppliedOver option (tokens ++ [token]) old := by
  have values : suppliedValues option (tokens ++ [token]) = _ := suppliedValues_concat named
  cases hvalue : tokenValue token with
  | none =>
      rw [hvalue] at accepts
      have isFlag : option.type = .flag := accepts
      simp only [occurrenceCall, StoreCall.update, if_true, suppliedOver, isFlag]
  | some value =>
      rw [hvalue] at accepts values
      obtain ⟨notFlag, _⟩ := accepts
      by_cases isList : option.type = .list
      · have nonempty := suppliedValues_ne_nil distinct valid mem notFlag
        simp only [occurrenceCall, isList, if_true, StoreCall.update, suppliedOver, values,
          Option.toList_some, ← List.append_assoc, joinLines_concat]
        by_cases occurs : Occurs option tokens
        · simp only [occurs, if_true, List.append_eq_nil_iff, nonempty occurs, and_false, if_false]
        · simp only [occurs, if_false, suppliedValues_of_not_occurs occurs, List.append_nil]
          cases old with
          | none => rfl
          | some old =>
              simp only [Option.toList_some, List.cons_ne_nil, if_false, joinLines_singleton]
      · have last : suppliedOver option (tokens ++ [token]) old = some value := by
          rw [suppliedOver_of_not_list isList, suppliedValue_of_single isList notFlag, values]
          exact List.getLast?_concat
        simp only [occurrenceCall, isList, if_false, StoreCall.update, if_true, last]

/-- The occurrences of an option leave its supplied value under its key. -/
theorem valueAfter_tokens (distinct : DistinctNames options)
    (valid : ∀ token ∈ tokens, ValidToken options token) (mem : option ∈ options)
    (old : Option CString) :
    valueAfter (tokens.filterMap (tokenCall keyPrefix options)) (optionKey keyPrefix option)
        old =
      if Occurs option tokens then suppliedOver option tokens old else old := by
  induction tokens using List.reverseRecOn with
  | nil => rfl
  | append_singleton tokens token ih =>
      have before : ∀ earlier ∈ tokens, ValidToken options earlier := fun earlier earlier_mem =>
        valid earlier (List.mem_append_left _ earlier_mem)
      obtain ⟨other, other_mem, named, accepts⟩ :=
        (valid token (List.mem_append_right _ List.mem_cons_self)).named
      have call : tokenCall keyPrefix options token = _ :=
        tokenCall_of_named distinct other_mem named
      rw [List.filterMap_append, valueAfter_append, ih before]
      simp only [List.filterMap_cons, call, List.filterMap_nil, valueAfter, List.foldl_cons,
        List.foldl_nil]
      by_cases same : other = option
      · subst same
        rw [if_pos (occurs_concat.mpr (.inr named))]
        exact update_occurrence distinct before mem named accepts old
      · have otherName : option.longName.bytes ≠ tokenName token := fun own =>
          same (distinct.eq_of_name other_mem mem (named.trans own.symm))
        have otherKey : (occurrenceCall keyPrefix other (tokenValue token)).key? ≠
            some (optionKey keyPrefix option) := by
          rw [occurrenceCall_key?, ne_eq, Option.some.injEq]
          exact optionKey_ne distinct mem other_mem same
        have supplied : suppliedOver option (tokens ++ [token]) old =
            suppliedOver option tokens old := by
          rw [suppliedOver, suppliedOver, suppliedValues_concat_of_ne otherName]
        simp only [StoreCall.update_of_key?_ne otherKey, supplied, occurs_concat, otherName,
          or_false]

theorem tokenCalls_key? {call : StoreCall}
    (mem : call ∈ tokens.filterMap (tokenCall keyPrefix options)) :
    ∃ option ∈ options, call.key? = some (optionKey keyPrefix option) := by
  obtain ⟨token, _, called⟩ := List.mem_filterMap.mp mem
  obtain ⟨⟨index, option⟩, found, hcall⟩ := Option.map_eq_some_iff.mp called
  obtain ⟨_, _, cell⟩ := cliFindOption_row found
  exact ⟨option, List.mem_of_getElem? cell, hcall ▸ occurrenceCall_key? _⟩

theorem defaultCall_key? {call : StoreCall}
    (called : defaultCall keyPrefix tokens option = some call) :
    call.key? = some (optionKey keyPrefix option) := by
  by_cases occurs : Occurs option tokens
  · simp [defaultCall, occurs] at called
  · rw [defaultCall, if_neg occurs] at called
    obtain ⟨defaultValue, _, hcall⟩ := Option.map_eq_some_iff.mp called
    rw [← hcall]
    rfl

theorem defaultCalls_key? {call : StoreCall}
    (mem : call ∈ defaultCalls keyPrefix options tokens) :
    ∃ option ∈ options, call.key? = some (optionKey keyPrefix option) := by
  obtain ⟨option, option_mem, called⟩ := List.mem_filterMap.mp mem
  exact ⟨option, option_mem, defaultCall_key? called⟩

/-- The default of an option that does not occur is stored under its key. -/
theorem valueAfter_defaults (distinct : DistinctNames options) (mem : option ∈ options)
    (old : Option CString) :
    valueAfter (defaultCalls keyPrefix options tokens) (optionKey keyPrefix option) old =
      if Occurs option tokens then old else option.defaultValue.or old := by
  induction options with
  | nil => exact absurd mem List.not_mem_nil
  | cons first options ih =>
      have calls : defaultCalls keyPrefix (first :: options) tokens =
          (defaultCall keyPrefix tokens first).toList ++ defaultCalls keyPrefix options tokens := by
        rw [defaultCalls, List.filterMap_cons]
        cases defaultCall keyPrefix tokens first <;> rfl
      rw [calls, valueAfter_append]
      have apart : ∀ other ∈ options, first ≠ other := by
        intro other other_mem same
        exact (List.nodup_cons.mp distinct).1 (same ▸ List.mem_map_of_mem other_mem)
      cases List.mem_cons.mp mem with
      | inl same =>
          subst same
          have foreign : ∀ call ∈ defaultCalls keyPrefix options tokens,
              call.key? ≠ some (optionKey keyPrefix option) := by
            intro call call_mem about
            obtain ⟨other, other_mem, key⟩ := defaultCalls_key? call_mem
            have keys := Option.some.inj (key.symm.trans about)
            exact optionKey_ne distinct mem (List.mem_cons_of_mem _ other_mem)
              (apart other other_mem).symm keys
          rw [valueAfter_of_foreign foreign, defaultCall]
          by_cases occurs : Occurs option tokens
          · simp only [occurs, if_true, Option.toList_none, valueAfter, List.foldl_nil]
          · cases option.defaultValue <;>
              simp [occurs, valueAfter, StoreCall.update]
      | inr tail =>
          have foreign : ∀ call ∈ (defaultCall keyPrefix tokens first).toList,
              call.key? ≠ some (optionKey keyPrefix option) := by
            intro call call_mem about
            have key := defaultCall_key? (Option.mem_toList.mp call_mem)
            have keys := Option.some.inj (key.symm.trans about)
            exact optionKey_ne distinct mem List.mem_cons_self (apart option tail) keys
          rw [valueAfter_of_foreign foreign]
          exact ih (List.nodup_cons.mp distinct).2 tail

/-- What the occurrences and then the defaults make of the value under a key. -/
theorem valueAfter_row (distinct : DistinctNames options)
    (valid : ∀ token ∈ tokens, ValidToken options token) (mem : option ∈ options)
    (old : Option CString) :
    valueAfter (defaultCalls keyPrefix options tokens) (optionKey keyPrefix option)
        (valueAfter (tokens.filterMap (tokenCall keyPrefix options)) (optionKey keyPrefix option)
          old) =
      if Occurs option tokens then suppliedOver option tokens old
      else option.defaultValue.or old := by
  rw [valueAfter_tokens distinct valid mem, valueAfter_defaults distinct mem]
  by_cases occurs : Occurs option tokens
  · simp only [occurs, if_true]
  · simp only [occurs, if_false]

/-- Where nothing was before they leave the configured value. -/
theorem valueAfter_table (distinct : DistinctNames options)
    (valid : ∀ token ∈ tokens, ValidToken options token) (mem : option ∈ options) :
    valueAfter (defaultCalls keyPrefix options tokens) (optionKey keyPrefix option)
        (valueAfter (tokens.filterMap (tokenCall keyPrefix options)) (optionKey keyPrefix option)
          none) =
      configuredValue option tokens := by
  rw [valueAfter_row distinct valid mem, Option.or_none]
  rfl

end Table

section Prefixes

/-- A dot ends the first part of a key, so two prefixes meet only when a command
is named `global` or like a key below it. -/
theorem prefixes_apart {command : CommandSpec} (apart : ApartFromGlobal command)
    (globalOption option : OptionSpec) :
    optionKey (commandPrefix command) option ≠ optionKey cliGlobalPrefix globalOption := by
  intro same
  have globalBytes : cliGlobalPrefix.bytes = (CString.lit "global").bytes ++ [46] := by decide
  have commandBytes : (commandPrefix command).bytes = command.name.bytes ++ [46] := rfl
  have bytes : command.name.bytes ++ [46] ++ option.longName.bytes =
      cliGlobalPrefix.bytes ++ globalOption.longName.bytes := congrArg CString.bytes same
  have starts : command.name.bytes ++ [46] <+:
      cliGlobalPrefix.bytes ++ globalOption.longName.bytes := ⟨_, bytes⟩
  -- the shorter of the two prefixes starts the longer one
  cases List.prefix_or_prefix_of_prefix starts (List.prefix_append _ _) with
  | inl shorter =>
      rw [globalBytes, List.prefix_concat_iff] at shorter
      cases shorter with
      | inl equal => exact apart.1 (CString.ext (List.append_cancel_right equal))
      | inr inside =>
          have dot : (46 : UInt8) ∈ (CString.lit "global").bytes :=
            inside.subset (List.mem_append_right _ List.mem_cons_self)
          exact absurd dot (by decide)
  | inr longer =>
      rw [List.prefix_concat_iff] at longer
      cases longer with
      | inl equal =>
          rw [globalBytes] at equal
          exact apart.1 (CString.ext (List.append_cancel_right equal.symm))
      | inr inside => exact apart.2 inside

variable {spec : ProgramSpec} {globals options : List CString} {command : CommandSpec}
  {option : OptionSpec}

theorem foreign_of_keys {calls : List StoreCall} {keyPrefix : CString}
    {rows : List OptionSpec} {key : CString}
    (about : ∀ call ∈ calls, ∃ option ∈ rows, call.key? = some (optionKey keyPrefix option))
    (apart : ∀ option ∈ rows, optionKey keyPrefix option ≠ key) :
    ∀ call ∈ calls, call.key? ≠ some key := by
  intro call mem same
  obtain ⟨option, option_mem, key⟩ := about call mem
  exact apart option option_mem (Option.some.inj (key.symm.trans same))

theorem valueAfter_sentence_global (distinct : DistinctNames spec.globalOptions)
    (valid : ∀ token ∈ globals, ValidToken spec.globalOptions token)
    (mem : option ∈ spec.globalOptions)
    (unshared : ∀ other ∈ command.options,
      optionKey (commandPrefix command) other ≠ optionKey cliGlobalPrefix option) :
    valueAfter (sentenceCalls spec globals command options) (optionKey cliGlobalPrefix option)
        none =
      configuredValue option globals := by
  simp only [sentenceCalls, valueAfter_append]
  rw [valueAfter_of_foreign (foreign_of_keys (fun _ => tokenCalls_key?) unshared),
    valueAfter_table distinct valid mem,
    valueAfter_of_foreign (foreign_of_keys (fun _ => defaultCalls_key?) unshared)]
  rfl

theorem valueAfter_sentence_command (distinct : DistinctNames command.options)
    (valid : ∀ token ∈ options, ValidToken command.options token)
    (mem : option ∈ command.options)
    (unshared : ∀ other ∈ spec.globalOptions,
      optionKey cliGlobalPrefix other ≠ optionKey (commandPrefix command) option) :
    valueAfter (sentenceCalls spec globals command options)
        (optionKey (commandPrefix command) option) none =
      configuredValue option options := by
  simp only [sentenceCalls, valueAfter_append]
  rw [valueAfter_of_foreign (foreign_of_keys (fun _ => tokenCalls_key?) unshared),
    valueAfter_of_foreign (foreign_of_keys (fun _ => defaultCalls_key?) unshared),
    valueAfter_table distinct valid mem]
  rfl

/-- The calls are about the keys of the two tables and no others. -/
theorem valueAfter_sentence_other {key : CString}
    (notGlobal : ∀ option ∈ spec.globalOptions, optionKey cliGlobalPrefix option ≠ key)
    (notCommand : ∀ option ∈ command.options, optionKey (commandPrefix command) option ≠ key) :
    valueAfter (sentenceCalls spec globals command options) key none = none := by
  simp only [sentenceCalls, valueAfter_append]
  rw [valueAfter_of_foreign (foreign_of_keys (fun _ => tokenCalls_key?) notGlobal),
    valueAfter_of_foreign (foreign_of_keys (fun _ => tokenCalls_key?) notCommand),
    valueAfter_of_foreign (foreign_of_keys (fun _ => defaultCalls_key?) notGlobal),
    valueAfter_of_foreign (foreign_of_keys (fun _ => defaultCalls_key?) notCommand)]
  rfl

end Prefixes

section Parse

/-- An empty store, once the calls are performed, holds their values, sorted. -/
theorem Performed.from_empty {calls : List StoreCall} {m m' : Machine}
    (h : Performed (calls ++ [.sort]) m m') (empty : m.store.entries = []) :
    m'.store.Valid ∧ m'.store.sorted = true ∧
      ∀ key, m'.store.content key = valueAfter (calls ++ [.sort]) key none := by
  have start : Refines ⟨fun _ => none, m.store.sorted⟩ m := by
    refine ⟨⟨?_, fun _ => ?_⟩, fun key => ?_, rfl⟩
    · rw [ConfigStore.keys, empty]
      exact List.nodup_nil
    · rw [empty]
      exact List.Pairwise.nil
    · rw [ConfigStore.content, empty]
      rfl
  have followed := h.refines _ start
  refine ⟨followed.valid, ?_, fun key => ?_⟩
  · rw [followed.sorted, List.foldl_append]
    rfl
  · rw [followed.content, foldl_reflect_map]

theorem Performed.sentence {spec : ProgramSpec} {globals options : List CString}
    {command : CommandSpec} {m m' : Machine}
    (h : Performed (sentenceCalls spec globals command options) m m')
    (empty : m.store.entries = []) :
    m'.store.Valid ∧ m'.store.sorted = true ∧ ∀ key, m'.store.content key =
      valueAfter (sentenceCalls spec globals command options) key none :=
  h.from_empty empty

variable [BcCore] {spec : ProgramSpec} {argumentValues : List CString} {errorStream : Bool}
  {host : Host} {m m' : Machine} {parsed : Parsed}

/-- What an accepted command line puts into an empty store, and nothing else. -/
theorem cliParse_content (distinct : DistinctTables spec)
    (apart : ∀ command ∈ spec.commands, ApartFromGlobal command)
    (empty : m.store.entries = [])
    (run : cliParse spec argumentValues errorStream host m = (some (.ok, parsed), m')) :
    m'.store.sorted = true ∧ m'.store.keys.Nodup ∧
      ∃ command ∈ spec.commands, parsed.command = some command ∧
        (∀ option ∈ spec.globalOptions,
          m'.store.content (optionKey cliGlobalPrefix option) =
            configuredValue option (globalTokens argumentValues)) ∧
        (∀ option ∈ command.options,
          m'.store.content (optionKey (commandPrefix command) option) =
            configuredValue option (commandTokens argumentValues)) ∧
        ∀ key ∈ m'.store.keys,
          (∃ option ∈ spec.globalOptions, optionKey cliGlobalPrefix option = key) ∨
            ∃ option ∈ command.options, optionKey (commandPrefix command) option = key := by
  obtain ⟨globals, word, command, options, rest, split, sentence, hparsed, performed⟩ :=
    sentence_of_cliParse distinct run
  obtain ⟨valid, sorted, content⟩ := performed.sentence empty
  obtain ⟨hglobals, hoptions, _⟩ := segments_of_sentence sentence split
  have mem : command ∈ spec.commands := List.mem_of_find?_eq_some sentence.names
  refine ⟨sorted, valid.distinct, command, mem, by rw [hparsed], ?_, ?_, ?_⟩
  · intro option option_mem
    rw [hglobals, content]
    exact valueAfter_sentence_global distinct.globalsDistinct sentence.globalTokens option_mem
      fun other _ => prefixes_apart (apart command mem) option other
  · intro option option_mem
    rw [hoptions, content]
    exact valueAfter_sentence_command (distinct.commandsDistinct command mem)
      sentence.commandTokens option_mem
      fun other _ => (prefixes_apart (apart command mem) other option).symm
  · intro key key_mem
    by_contra other
    simp only [not_or, not_exists, not_and] at other
    have nothing : valueAfter (sentenceCalls spec globals command options) key none = none :=
      valueAfter_sentence_other other.1 other.2
    have absent : m'.store.content key = none := (content key).trans nothing
    rw [mem_keys_iff_content, absent] at key_mem
    exact Bool.false_ne_true key_mem

omit [BcCore] in
theorem cliParse_content_copy :
    ∃ m', @cliParse .reference copySpec copyArguments true (.obliging [] []) .initial =
        (some (.ok, ⟨some runCommand, [.lit "x"]⟩), m') ∧
      m'.store.sorted = true ∧ ∃ command ∈ copySpec.commands, ∀ option ∈ command.options,
        m'.store.content (optionKey (commandPrefix command) option) =
          configuredValue option (commandTokens copyArguments) := by
  have run := @cliParse_run_of_result .reference _ _ _ _ _ _ copySpec_accepts
  obtain ⟨sorted, _, command, mem, _, _, content, _⟩ :=
    @cliParse_content .reference copySpec copyArguments true (.obliging [] []) .initial _ _
      copySpec_wellFormed.toDistinctTables (by decide) rfl run
  exact ⟨_, run, sorted, command, mem, content⟩

end Parse

end BcRuntime
