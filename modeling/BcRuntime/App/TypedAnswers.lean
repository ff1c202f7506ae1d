import BcRuntime.App.Precedence
import BcRuntime.Config.Getters

/-!
What an application answers to typed reads of its configuration. Each read looks at
the value of the layer that wins for its key and at nothing else: a value that is no
text of the type hides the layers below it. Reads change nothing, and under failing
calls a read gives its answer or none.
-/

namespace BcRuntime
open Fallible Run

section Model
variable [BcCore]

def configGetBoolean (key : CString) : Run Bool := do
  let value ← configGetString key
  let _ ← coreLength value
  if ← equalsAny value trueWords then pure true
  else if ← equalsAny value falseWords then pure false
  else fail

def configStoreGetString (key : CString) : Run CString := configStoreLookup key

end Model

inductive GetterFamily
  | application
  | store
deriving DecidableEq

/-- A call of a getter, with what `*out_value` holds before it. -/
inductive ConfigRequest
  | string (family : GetterFamily) (key : CString) (outValue : CString)
  | integer (family : GetterFamily) (key : CString) (outValue : Int)
  | boolean (family : GetterFamily) (key : CString) (outValue : Bool)

/-- What the getter returns, and what `*out_value` holds then. -/
inductive ConfigAnswer
  | string (returned : Bool) (outValue : CString)
  | integer (returned : Bool) (outValue : Int)
  | boolean (returned : Bool) (outValue : Bool)
deriving DecidableEq

def isIntegerText (text : List UInt8) : Bool :=
  let digits := text.drop (signLength text)
  !digits.isEmpty && digits.all isDigit

theorem isIntegerText_iff (text : List UInt8) : isIntegerText text = true ↔ IntegerText text := by
  rw [integerText_iff, isIntegerText, Bool.and_eq_true, List.all_eq_true, Bool.not_eq_true',
    List.isEmpty_eq_false_iff]

instance (text : List UInt8) : Decidable (IntegerText text) :=
  decidable_of_iff (isIntegerText text = true) (isIntegerText_iff text)

/-- The word stands in the list, in any case. -/
def IsWord (words : List CString) (value : CString) : Prop :=
  ∃ word ∈ words, value.bytes.map asciiLower = word.bytes.map asciiLower

instance (words : List CString) (value : CString) : Decidable (IsWord words value) :=
  inferInstanceAs (Decidable (∃ word ∈ words, _))

def integerMeaning (value : CString) : Option Int :=
  if IntegerText value.bytes ∧ InLongRange (integerValue value.bytes) then
    some (integerValue value.bytes)
  else none

def booleanMeaning (value : CString) : Option Bool :=
  if IsWord trueWords value then some true
  else if IsWord falseWords value then some false
  else none

namespace ConfigRequest

def refusal : ConfigRequest → ConfigAnswer
  | .string _ _ outValue => .string false outValue
  | .integer _ _ outValue => .integer false outValue
  | .boolean _ _ outValue => .boolean false outValue

def expected (values : CString → Option CString) : ConfigRequest → ConfigAnswer
  | .string _ key outValue => .string (values key).isSome ((values key).getD outValue)
  | .integer _ key outValue =>
      let meaning := (values key).bind integerMeaning
      .integer meaning.isSome (meaning.getD outValue)
  | .boolean _ key outValue =>
      let meaning := (values key).bind booleanMeaning
      .boolean meaning.isSome (meaning.getD outValue)

variable [BcCore]

def perform : ConfigRequest → Run ConfigAnswer
  | .string .application key outValue => do
      let (returned, outValue) ← returning (configGetString key) outValue
      pure (.string returned outValue)
  | .string .store key outValue => do
      let (returned, outValue) ← returning (configStoreGetString key) outValue
      pure (.string returned outValue)
  | .integer .application key outValue => do
      let (returned, outValue) ← returning (configGetInteger key) outValue
      pure (.integer returned outValue)
  | .integer .store key outValue => do
      let (returned, outValue) ← returning (configStoreGetInteger key) outValue
      pure (.integer returned outValue)
  | .boolean .application key outValue => do
      let (returned, outValue) ← returning (configGetBoolean key) outValue
      pure (.boolean returned outValue)
  | .boolean .store key outValue => do
      let (returned, outValue) ← returning (configStoreGetBoolean key) outValue
      pure (.boolean returned outValue)

def performAll : List ConfigRequest → Run (List ConfigAnswer)
  | [] => pure []
  | request :: requests => do
      let answer ← request.perform
      let answers ← performAll requests
      pure (answer :: answers)

end ConfigRequest

/-- A computation on a value leaves the store alone; it ends normally with the meaning
of the value only, and fails when there is none or a call has failed. -/
def Interprets [BcCore] {α : Type} (reader : Host) (interpret : CString → Run α)
    (meaning : CString → Option α) : Prop :=
  ∀ value m, wp (interpret value) (fun a m' => Quiet m m' ∧ meaning value = some a)
    (fun m' => Quiet m m' ∧ (reader.ReadingCallsSucceed → meaning value = none)) reader m

section Reading
variable [BcCore] {reader : Host} {m : Machine}

theorem configStoreLookup_answers (valid : m.store.Valid) (key : CString) :
    wp (configStoreLookup key) (fun value m' => Quiet m m' ∧ readable m key = some value)
      (fun m' => Quiet m m' ∧ (reader.ReadingCallsSucceed → readable m key = none)) reader m := by
  simp only [configStoreLookup, wp_bind, wp_get, readable]
  cases sorted : m.store.sorted with
  | false => exact ⟨.refl m, fun _ => rfl⟩
  | true =>
      simp only [Bool.true_eq_false, if_false, if_true, wp_bind]
      refine wp_mono (coreLength_spec reader m key) ?_ ?_
      · intro keyLength m₁ quiet
        obtain ⟨keyLength, same⟩ := keyLength
        subst same
        have content := lookup_finds_content valid sorted key
        cases found : (lookupIndex m.store.entries key key.length).bind (m.store.entries[·]?) with
        | some entry =>
            rw [found] at content
            exact ⟨quiet, content.symm⟩
        | none =>
            rw [found] at content
            exact ⟨quiet, fun _ => content.symm⟩
      · intro m₁ failed
        exact ⟨failed.1, fun reading => absurd reading.1 failed.2⟩

theorem coreLength_quiet (value : CString) (m : Machine) :
    wp (coreLength value) (fun _ m' => Quiet m m')
      (fun m' => Quiet m m' ∧ ¬ reader.ReadingCallsSucceed) reader m := by
  refine wp_mono (coreLength_spec reader m value) (fun _ _ quiet => quiet) ?_
  intro m' failed
  exact ⟨failed.1, fun reading => failed.2 reading.1⟩

theorem equalsAny_answers (value : CString) (words : List CString) (m : Machine) :
    wp (equalsAny value words) (fun equals m' => Quiet m m' ∧ (equals = true ↔ IsWord words value))
      (fun m' => Quiet m m' ∧ ¬ reader.ReadingCallsSucceed) reader m := by
  induction words generalizing m with
  | nil => exact ⟨.refl m, iff_of_false Bool.false_ne_true (by simp [IsWord])⟩
  | cons word words ih =>
      simp only [equalsAny, coreEqualCaseInsensitiveAscii, wp_bind, wp_external, wp_pure]
      have asked : Quiet m { m with calls := m.calls + 1 } := ⟨⟨rfl, rfl⟩, rfl⟩
      constructor
      · intro _
        refine wp_mono (ih _) ?_ ?_
        · intro others m' compared
          refine ⟨asked.trans compared.1, ?_⟩
          rw [Bool.or_eq_true, BcCore.equalCaseInsensitiveAscii_iff, compared.2]
          simp [IsWord]
        · intro m' failed
          exact ⟨asked.trans failed.1, failed.2⟩
      · intro failed
        refine ⟨asked, fun reading => ?_⟩
        rw [reading.2 m.calls] at failed
        cases failed

theorem pure_interprets : Interprets reader (fun value => (pure value : Run CString)) some :=
  fun _ m => ⟨.refl m, rfl⟩

/-- `readLong` once the length is at hand. -/
theorem long_interprets : Interprets reader (fun value => do
    let _ ← coreLength value
    match readLong value with
    | some n => pure n
    | none => fail) integerMeaning := by
  intro value m
  have meaning : integerMeaning value = readLong value := by
    rw [integerMeaning]
    by_cases text : IntegerText value.bytes ∧ InLongRange (integerValue value.bytes)
    · rw [if_pos text]
      exact (readLong_eq_some_iff.mpr ⟨text.1, text.2, rfl⟩).symm
    · rw [if_neg text]
      cases read : readLong value with
      | none => rfl
      | some n =>
          obtain ⟨isText, inRange, _⟩ := readLong_eq_some_iff.mp read
          exact absurd ⟨isText, inRange⟩ text
  rw [wp_bind]
  refine wp_mono (coreLength_quiet value m) ?_ ?_
  · intro _ m₁ quiet
    rw [meaning]
    cases readLong value with
    | some n => exact ⟨quiet, rfl⟩
    | none => exact ⟨quiet, fun _ => rfl⟩
  · intro m₁ failed
    exact ⟨failed.1, fun reading => absurd reading failed.2⟩

/-- The three words for true are asked for first. -/
theorem words_interprets : Interprets reader (fun value => do
    let _ ← coreLength value
    if ← equalsAny value trueWords then pure true
    else if ← equalsAny value falseWords then pure false
    else fail) booleanMeaning := by
  intro value m
  simp only [wp_bind]
  refine wp_mono (coreLength_quiet value m) ?_ ?_
  · intro _ m₁ quiet₁
    refine wp_mono (equalsAny_answers value trueWords m₁) ?_ ?_
    · intro isTrue m₂ compared
      have quiet₂ := quiet₁.trans compared.1
      cases isTrue with
      | true =>
          have word : IsWord trueWords value := compared.2.mp rfl
          exact ⟨quiet₂, if_pos word⟩
      | false =>
          have notTrue : ¬ IsWord trueWords value := fun word => Bool.false_ne_true (compared.2.mpr word)
          simp only [Bool.false_eq_true, if_false, wp_bind]
          refine wp_mono (equalsAny_answers value falseWords m₂) ?_ ?_
          · intro isFalse m₃ compared'
            have quiet₃ := quiet₂.trans compared'.1
            rw [booleanMeaning, if_neg notTrue]
            cases isFalse with
            | true =>
                have word : IsWord falseWords value := compared'.2.mp rfl
                exact ⟨quiet₃, if_pos word⟩
            | false =>
                have notFalse : ¬ IsWord falseWords value :=
                  fun word => Bool.false_ne_true (compared'.2.mpr word)
                exact ⟨quiet₃, fun _ => if_neg notFalse⟩
          · intro m₃ failed
            exact ⟨quiet₂.trans failed.1, fun reading => absurd reading failed.2⟩
    · intro m₂ failed
      exact ⟨quiet₁.trans failed.1, fun reading => absurd reading failed.2⟩
  · intro m₁ failed
    exact ⟨failed.1, fun reading => absurd reading failed.2⟩

/-- A getter is a lookup and the interpretation of what it has found; its caller sees
what the value means, or a refusal. -/
theorem returning_answers {α : Type} {interpret : CString → Run α} {meaning : CString → Option α}
    (interprets : Interprets reader interpret meaning) (valid : m.store.Valid) (key : CString)
    (outValue : α) :
    ∃ answer m', returning (configStoreLookup key >>= interpret) outValue reader m =
        (some answer, m') ∧ m'.store = m.store ∧
      (answer = (((readable m key).bind meaning).isSome,
          ((readable m key).bind meaning).getD outValue) ∨
        answer = (false, outValue) ∧ ¬ reader.ReadingCallsSucceed) := by
  have spec : wp (configStoreLookup key >>= interpret)
      (fun a m' => Quiet m m' ∧ (readable m key).bind meaning = some a)
      (fun m' => Quiet m m' ∧
        (reader.ReadingCallsSucceed → (readable m key).bind meaning = none)) reader m := by
    rw [wp_bind]
    refine wp_mono (configStoreLookup_answers valid key) ?_ ?_
    · intro value m₁ found
      rw [found.2, Option.bind_some]
      refine wp_mono (interprets value m₁) ?_ ?_
      · intro a m₂ interpreted
        exact ⟨found.1.trans interpreted.1, interpreted.2⟩
      · intro m₂ failed
        exact ⟨found.1.trans failed.1, failed.2⟩
    · intro m₁ failed
      exact ⟨failed.1, fun reading => by rw [failed.2 reading, Option.bind_none]⟩
  cases wp_cases spec with
  | inl ended =>
      obtain ⟨a, m', run, quiet, means⟩ := ended
      refine ⟨(true, a), m', ?_, quiet.store, .inl ?_⟩
      · rw [returning, bind_run_of_some (attempt_run_of_some run)]
        rfl
      · rw [means]
        rfl
  | inr failed =>
      obtain ⟨m', run, quiet, means⟩ := failed
      refine ⟨(false, outValue), m', ?_, quiet.store, ?_⟩
      · rw [returning, bind_run_of_some (attempt_run_of_none run)]
        rfl
      · by_cases reading : reader.ReadingCallsSucceed
        · rw [means reading]
          exact .inl rfl
        · exact .inr ⟨rfl, reading⟩

/-- The answer to a request is the expected one, or a refusal because a call has failed. -/
def Answered (reader : Host) (values : CString → Option CString) (request : ConfigRequest)
    (answer : ConfigAnswer) : Prop :=
  answer = request.expected values ∨ answer = request.refusal ∧ ¬ reader.ReadingCallsSucceed

theorem answered_of_lookup {α : Type} {interpret : CString → Run α} {meaning : CString → Option α}
    (interprets : Interprets reader interpret meaning) (valid : m.store.Valid) (key : CString)
    (outValue : α) {request : ConfigRequest} {answer : Bool → α → ConfigAnswer}
    (performs : request.perform = do
      let written ← returning (configStoreLookup key >>= interpret) outValue
      pure (answer written.1 written.2))
    (expected : request.expected (readable m) = answer ((readable m key).bind meaning).isSome
      (((readable m key).bind meaning).getD outValue))
    (refusal : request.refusal = answer false outValue) :
    ∃ given m', request.perform reader m = (some given, m') ∧ m'.store = m.store ∧
      Answered reader (readable m) request given := by
  obtain ⟨written, m', run, store, means⟩ := returning_answers interprets valid key outValue
  refine ⟨answer written.1 written.2, m', ?_, store, ?_⟩
  · rw [performs]
    exact bind_run_of_some run _
  · cases means with
    | inl means =>
        left
        rw [means, expected]
    | inr refused =>
        right
        rw [refused.1, refusal]
        exact ⟨rfl, refused.2⟩

theorem perform_answers (valid : m.store.Valid) (request : ConfigRequest) :
    ∃ answer m', request.perform reader m = (some answer, m') ∧ m'.store = m.store ∧
      Answered reader (readable m) request answer := by
  cases request with
  | string family key outValue =>
      have same : (readable m key).bind some = readable m key := by
        cases readable m key <;> rfl
      apply @answered_of_lookup _ reader m _ _ _ pure_interprets valid key outValue _
        ConfigAnswer.string
      · rw [bind_pure]
        cases family <;> rfl
      · rw [same]
        rfl
      · rfl
  | integer family key outValue =>
      apply @answered_of_lookup _ reader m _ _ _ long_interprets valid key outValue _
        ConfigAnswer.integer
      · cases family <;> rfl
      · rfl
      · rfl
  | boolean family key outValue =>
      apply @answered_of_lookup _ reader m _ _ _ words_interprets valid key outValue _
        ConfigAnswer.boolean
      · cases family <;> rfl
      · rfl
      · rfl

/-- Any number of reads, each answered as if it were the only one. -/
theorem performAll_answers (valid : m.store.Valid) (requests : List ConfigRequest) :
    ∃ answers m', ConfigRequest.performAll requests reader m = (some answers, m') ∧
      m'.store = m.store ∧ List.Forall₂ (Answered reader (readable m)) requests answers := by
  induction requests generalizing m with
  | nil => exact ⟨[], m, rfl, rfl, .nil⟩
  | cons request requests ih =>
      obtain ⟨answer, m₁, run, store, answered⟩ := @perform_answers _ reader m valid request
      have valid₁ : m₁.store.Valid := by rw [store]; exact valid
      obtain ⟨answers, m₂, rest, store', others⟩ := ih valid₁
      have same : readable m₁ = readable m := by
        funext key
        rw [readable, readable, store]
      rw [same] at others
      refine ⟨answer :: answers, m₂, ?_, store'.trans store, .cons answered others⟩
      rw [ConfigRequest.performAll, bind_run_of_some run, bind_run_of_some rest]
      rfl

end Reading

def winningValue (host : Host) (config : RuntimeConfig) (key : CString) : Option CString :=
  (lastValue key (argumentBindings (config.argumentValues.getD []))).or
    ((lastValue key (environmentBindings host.environ)).or
      (lastValue key (configFileBindings host config.configFilePath)))

section Application
variable [BcCore] {host : Host}

/-- The typed answers of a created application come from the winning layers alone, in
any sequence of reads; a read that fails has left its variable as it was. -/
theorem runtimeCreate_answers {Callbacks UserData : Type} (calls : host.AllCallsSucceed)
    (reads : host.ReadsDeliver) (config : RuntimeConfig) (callbacks : Callbacks)
    (userData : UserData) (m : Machine) :
    ∃ application m', runtimeCreate config callbacks userData host m = (some application, m') ∧
      ∀ (reader : Host) (requests : List ConfigRequest), ∃ answers m'',
        ConfigRequest.performAll requests reader m' = (some answers, m'') ∧
        m''.store = m'.store ∧
        List.Forall₂ (Answered reader (winningValue host config)) requests answers ∧
        (reader.ReadingCallsSucceed →
          answers = requests.map (ConfigRequest.expected (winningValue host config))) := by
  obtain ⟨application, m', run, valid, sorted, content⟩ :=
    exists_run_of_wp (runtimeCreate_spec calls reads config callbacks userData m)
  have values : readable m' = winningValue host config := by
    funext key
    rw [readable, if_pos sorted, content, sourceBindings, lastValue_append, lastValue_append]
    rfl
  refine ⟨application, m', run, ?_⟩
  intro reader requests
  obtain ⟨answers, m'', performed, store, answered⟩ :=
    @performAll_answers _ reader m' valid requests
  rw [values] at answered
  refine ⟨answers, m'', performed, store, answered, ?_⟩
  intro reading
  clear performed
  induction answered with
  | nil => rfl
  | cons first _ ih =>
      cases first with
      | inl expected => rw [expected, ih, List.map_cons]
      | inr refused => exact absurd reading refused.2

/-- The environment hides a number of the file with a word, and a refusal with a yes. -/
def typedHost : Host :=
  .obliging [.lit "BC_APP_JOBS=many", .lit "BC_APP_VERBOSE=Yes"]
    (CString.lit "jobs = 4\nverbose = no\n").bytes

def typedConfig : RuntimeConfig :=
  { layeredConfig with argumentValues := some [.lit "app", .lit "--depth=-12"] }

def typedRequests : List ConfigRequest :=
  [.integer .application (.lit "jobs") 7, .boolean .store (.lit "verbose") false,
    .integer .store (.lit "depth") 0, .string .application (.lit "jobs") (.lit "")]

omit [BcCore] in
theorem runtimeCreate_answers_typed :
    ∃ application m', @runtimeCreate .reference _ _ typedConfig () () typedHost .initial =
        (some application, m') ∧
      ∃ m'', @ConfigRequest.performAll .reference typedRequests typedHost m' =
        (some [.integer false 7, .boolean true true, .integer true (-12),
          .string true (.lit "many")], m'') := by
  obtain ⟨application, m', created, answer⟩ := @runtimeCreate_answers .reference typedHost _ _
    (fun _ _ => rfl) (fun _ => Nat.one_pos) typedConfig () () .initial
  obtain ⟨answers, m'', performed, -, -, expected⟩ := answer typedHost typedRequests
  have answers_eq := expected ⟨fun _ => ⟨fun _ => rfl, fun _ => rfl⟩, fun _ => rfl⟩
  have values : typedRequests.map (ConfigRequest.expected (winningValue typedHost typedConfig)) =
      [.integer false 7, .boolean true true, .integer true (-12), .string true (.lit "many")] := by
    decide +kernel
  rw [answers_eq, values] at performed
  exact ⟨application, m', created, m'', performed⟩

end Application

end BcRuntime
