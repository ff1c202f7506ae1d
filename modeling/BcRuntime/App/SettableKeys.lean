import BcRuntime.App.Precedence

/-!
Which settings of an application its environment and its arguments can change. An argument
can name every key that fits a key buffer; an entry of the environment only those without
the bytes that its translation replaces, so a key of the file with a capital letter or an
underscore is out of its reach.
-/

namespace BcRuntime
open Fallible Run

/-- A key that a key buffer can hold of a name before an `=`. -/
structure NameKey (key : CString) : Prop where
  nonempty : key.bytes ≠ []
  noEquals : equalsSign ∉ key.bytes
  fits : key.bytes.length ≤ bufferStackSize - 1

/-- A byte that the translation of the environment leaves alone. -/
def KeptByte (b : UInt8) : Prop := b ≠ 95 ∧ ¬ (b ≥ 65 ∧ b ≤ 90)

instance (b : UInt8) : Decidable (KeptByte b) := inferInstanceAs (Decidable (_ ∧ _))

structure EnvironmentKey (key : CString) : Prop extends NameKey key where
  kept : ∀ b ∈ key.bytes, KeptByte b

/-- `--` key `=` value. -/
def argumentFor (key value : CString) : CString where
  bytes := optionPrefix ++ (key.bytes ++ equalsSign :: value.bytes)
  noNul := by simp [optionPrefix, CString.noNul, equalsSign]

/-- `BC_APP_` key `=` value. -/
def entryFor (key value : CString) : CString where
  bytes := environmentPrefix ++ (key.bytes ++ equalsSign :: value.bytes)
  noNul := by simp [environmentPrefix, CString.noNul, equalsSign]

section Bytes

theorem environmentKeyByte_facts (b : UInt8) :
    (environmentKeyByte b = 0 → b = 0) ∧ (environmentKeyByte b = equalsSign → b = equalsSign) ∧
      KeptByte (environmentKeyByte b) ∧ (KeptByte b → environmentKeyByte b = b) := by
  have all : ∀ n < 256, (environmentKeyByte (.ofNat n) = 0 → UInt8.ofNat n = 0) ∧
      (environmentKeyByte (.ofNat n) = equalsSign → UInt8.ofNat n = equalsSign) ∧
        KeptByte (environmentKeyByte (.ofNat n)) ∧
          (KeptByte (.ofNat n) → environmentKeyByte (.ofNat n) = .ofNat n) := by decide +kernel
  have byte := all b.toNat b.toNat_lt
  rwa [UInt8.ofNat_toNat] at byte

theorem map_environmentKeyByte {name : List UInt8} (kept : ∀ b ∈ name, KeptByte b) :
    name.map environmentKeyByte = name :=
  (List.map_congr_left fun b mem => (environmentKeyByte_facts b).2.2.2 (kept b mem)).trans
    (List.map_id name)

theorem keyOfName_eq {name : List UInt8} (fits : name.length ≤ bufferStackSize - 1) :
    keyOfName name = name := List.take_of_length_le fits

theorem ofBuffer_keyOfName {name : List UInt8} (noNul : 0 ∉ name) :
    (CString.ofBuffer (keyOfName name)).bytes = keyOfName name :=
  CString.ofBuffer_bytes fun mem => noNul (List.mem_of_mem_take mem)

/-- What the key buffer holds of a name without NUL is a key. -/
theorem nameKey_ofBuffer {name : List UInt8} (nonempty : name ≠ []) (noEquals : equalsSign ∉ name)
    (noNul : 0 ∉ name) : NameKey (.ofBuffer (keyOfName name)) := by
  have bytes := ofBuffer_keyOfName noNul
  constructor
  · rw [bytes, keyOfName, ne_eq, List.take_eq_nil_iff]
    exact fun none => none.elim (by decide) nonempty
  · rw [bytes]
    exact fun mem => noEquals (List.mem_of_mem_take mem)
  · rw [bytes]
    exact List.length_take_le _ _

end Bytes

section Names
variable {key : CString}

theorem splitFirst_binding (h : NameKey key) (value : CString) :
    (key.bytes ++ equalsSign :: value.bytes).splitFirst equalsSign =
      some (key.bytes, value.bytes) := List.splitFirst_eq_some_iff.mpr ⟨rfl, h.noEquals⟩

theorem argumentBinding_argumentFor (h : NameKey key) (value : CString) :
    argumentBinding (argumentFor key value) = some (key, value) := by
  have start : optionPrefix.isPrefixOf (argumentFor key value).bytes = true :=
    List.isPrefixOf_iff_prefix.mpr (List.prefix_append _ _)
  have rest : (argumentFor key value).bytes.drop optionPrefix.length =
      key.bytes ++ equalsSign :: value.bytes := List.drop_left
  rw [argumentBinding, if_pos start, rest, splitFirst_binding h]
  simp only [if_neg h.nonempty, keyOfName_eq h.fits, CString.ofBuffer_self]

theorem environmentBinding_entryFor (h : EnvironmentKey key) (value : CString) :
    environmentBinding (entryFor key value) = some (key, value) := by
  have start : environmentPrefix.isPrefixOf (entryFor key value).bytes = true :=
    List.isPrefixOf_iff_prefix.mpr (List.prefix_append _ _)
  have rest : (entryFor key value).bytes.drop environmentPrefix.length =
      key.bytes ++ equalsSign :: value.bytes := List.drop_left
  rw [environmentBinding, if_pos start, rest, splitFirst_binding h.toNameKey]
  simp only [if_neg h.nonempty, keyOfName_eq h.fits, map_environmentKeyByte h.kept,
    CString.ofBuffer_self]

theorem nameKey_of_argumentBinding {argument value : CString}
    (h : argumentBinding argument = some (key, value)) : NameKey key := by
  rw [argumentBinding] at h
  split at h
  · cases split : (argument.bytes.drop optionPrefix.length).splitFirst equalsSign with
    | none => simp [split] at h
    | some parts =>
        obtain ⟨name, rest⟩ := parts
        obtain ⟨whole, absent⟩ := List.splitFirst_eq_some_iff.mp split
        have noNul : 0 ∉ name := fun mem => argument.noNul <| List.mem_of_mem_drop
          (i := optionPrefix.length) (whole ▸ List.mem_append_left _ mem)
        by_cases anonymous : name = []
        · simp [split, anonymous] at h
        · simp only [split, if_neg anonymous, Option.some.injEq, Prod.mk.injEq] at h
          exact h.1 ▸ nameKey_ofBuffer anonymous absent noNul
  · cases h

theorem environmentKey_of_environmentBinding {entry value : CString}
    (h : environmentBinding entry = some (key, value)) : EnvironmentKey key := by
  rw [environmentBinding] at h
  split at h
  · cases split : (entry.bytes.drop environmentPrefix.length).splitFirst equalsSign with
    | none => simp [split] at h
    | some parts =>
        obtain ⟨name, rest⟩ := parts
        obtain ⟨whole, absent⟩ := List.splitFirst_eq_some_iff.mp split
        have noNul : 0 ∉ name.map environmentKeyByte := by
          intro mem
          obtain ⟨b, inside, zero⟩ := List.mem_map.mp mem
          rw [(environmentKeyByte_facts b).1 zero] at inside
          exact entry.noNul (List.mem_of_mem_drop
            (i := environmentPrefix.length) (whole ▸ List.mem_append_left _ inside))
        have noEquals : equalsSign ∉ name.map environmentKeyByte := by
          intro mem
          obtain ⟨b, inside, same⟩ := List.mem_map.mp mem
          rw [(environmentKeyByte_facts b).2.1 same] at inside
          exact absent inside
        by_cases anonymous : name = []
        · simp [split, anonymous] at h
        · simp only [split, if_neg anonymous, Option.some.injEq, Prod.mk.injEq] at h
          have named : name.map environmentKeyByte ≠ [] := fun none =>
            anonymous (List.map_eq_nil_iff.mp none)
          have taken : (keyOfName name).map environmentKeyByte =
              keyOfName (name.map environmentKeyByte) := List.map_take
          rw [taken] at h
          refine ⟨h.1 ▸ nameKey_ofBuffer named noEquals noNul, fun b mem => ?_⟩
          rw [← h.1, ofBuffer_keyOfName noNul] at mem
          obtain ⟨other, _, same⟩ := List.mem_map.mp (List.mem_of_mem_take mem)
          exact same ▸ (environmentKeyByte_facts other).2.2.1
  · cases h

end Names

section Applications
variable [BcCore] {Callbacks UserData : Type}

def Answers (callbacks : Callbacks) (userData : UserData) (m : Machine) (host : Host)
    (config : RuntimeConfig) (answer : CString → Option CString) : Prop :=
  ∃ application m', runtimeCreate config callbacks userData host m = (some application, m') ∧
    ∀ key, (configStoreLookup key host m').1 = answer key

variable {host : Host} (calls : host.AllCallsSucceed) (reads : host.ReadsDeliver)
  (callbacks : Callbacks) (userData : UserData) (m : Machine)
include calls reads

theorem answers_sources (config : RuntimeConfig) :
    Answers callbacks userData m host config fun key =>
      lastValue key (sourceBindings host config) := by
  obtain ⟨application, m', run, valid, sorted, content⟩ :=
    exists_run_of_wp (runtimeCreate_spec calls reads config callbacks userData m)
  refine ⟨application, m', run, fun key => ?_⟩
  obtain ⟨_, found, -⟩ := configStoreLookup_run calls.store.core valid key
  rw [found, if_pos sorted, content]

end Applications

section Sources
variable {host : Host} {config : RuntimeConfig} {key : CString}

theorem lastValue_eq_none_iff {bindings : List Binding} :
    lastValue key bindings = none ↔ key ∉ bindings.map Prod.fst := by
  rw [← lastValue_isSome_iff, Bool.not_eq_true, Option.isSome_eq_false_iff, Option.isNone_iff_eq_none]

theorem lastValue_append_singleton (bindings : List Binding) (value k : CString) :
    lastValue k (bindings ++ [(key, value)]) =
      Function.update (fun k => lastValue k bindings) key (some value) k := by
  rw [lastValue_append, lastValue_singleton]
  by_cases same : k = key
  · subst same
    rw [if_pos rfl, Function.update_self]
    rfl
  · rw [if_neg (Ne.symm same), Function.update_of_ne same]
    rfl

theorem sourceBindings_argument (h : NameKey key) (value program : CString)
    {arguments : List CString} (given : config.argumentValues = some (program :: arguments)) :
    sourceBindings host { config with
      argumentValues := some (program :: arguments ++ [argumentFor key value]) } =
      sourceBindings host config ++ [(key, value)] := by
  have more : argumentBindings (program :: arguments ++ [argumentFor key value]) =
      argumentBindings (program :: arguments) ++ [(key, value)] := by
    have one : [argumentFor key value].filterMap argumentBinding = [(key, value)] := by
      simp [argumentBinding_argumentFor h value]
    rw [argumentBindings, argumentBindings, List.cons_append, List.drop_one, List.drop_one,
      List.tail_cons, List.tail_cons, List.filterMap_append, one]
  simp only [sourceBindings, given, Option.getD_some, more, List.append_assoc]

/-- One more entry of the environment for a key that no argument names. -/
theorem lastValue_sourceBindings_entry (h : EnvironmentKey key) (value k : CString)
    (free : key ∉ (argumentBindings (config.argumentValues.getD [])).map Prod.fst) :
    lastValue k (sourceBindings { host with environ := host.environ ++ [entryFor key value] }
      config) =
      Function.update (fun k => lastValue k (sourceBindings host config)) key (some value) k := by
  have one : [entryFor key value].filterMap environmentBinding = [(key, value)] := by
    simp [environmentBinding_entryFor h value]
  have file : configFileBindings { host with environ := host.environ ++ [entryFor key value] }
      config.configFilePath = configFileBindings host config.configFilePath := by
    cases config.configFilePath <;> rfl
  rw [sourceBindings, environmentBindings, List.filterMap_append, one, file, lastValue_append,
    ← List.append_assoc, lastValue_append_singleton]
  by_cases same : k = key
  · subst same
    rw [lastValue_eq_none_iff.mpr free, Function.update_self, Function.update_self]
    rfl
  · rw [Function.update_of_ne same, Function.update_of_ne same, sourceBindings, lastValue_append,
      lastValue_append, lastValue_append, environmentBindings]

end Sources

section Settable
variable [BcCore] {Callbacks UserData : Type} {host : Host}

/-- What one more argument, or one more entry of the environment, changes: for a key that
it can name just the answer for this key, and no answer for any other key, whatever the
arguments or the environment are. -/
theorem settable_keys (calls : host.AllCallsSucceed) (reads : host.ReadsDeliver)
    (config : RuntimeConfig) {program : CString} {arguments : List CString}
    (given : config.argumentValues = some (program :: arguments)) (callbacks : Callbacks)
    (userData : UserData) (m : Machine) :
    ∃ answer, Answers callbacks userData m host config answer ∧
      (∀ key, NameKey key → ∀ value, Answers callbacks userData m host
        { config with argumentValues := some (program :: arguments ++ [argumentFor key value]) }
        (Function.update answer key (some value))) ∧
      (∀ key, EnvironmentKey key → key ∉ (argumentBindings (program :: arguments)).map Prod.fst →
        ∀ value, Answers callbacks userData m
          { host with environ := host.environ ++ [entryFor key value] } config
          (Function.update answer key (some value))) ∧
      (∀ others, ∃ answer', Answers callbacks userData m host
        { config with argumentValues := some others } answer' ∧
          ∀ key, ¬ NameKey key → answer' key = answer key) ∧
      ∀ environ, ∃ answer', Answers callbacks userData m { host with environ := environ } config
        answer' ∧ ∀ key, ¬ EnvironmentKey key → answer' key = answer key := by
  have succeed : ∀ environ, Host.AllCallsSucceed { host with environ := environ } :=
    fun _ => calls
  have deliver : ∀ environ, Host.ReadsDeliver { host with environ := environ } := fun _ => reads
  have unnamed : ∀ key, ¬ NameKey key → ∀ arguments,
      lastValue key (argumentBindings arguments) = none := by
    intro key other arguments
    refine lastValue_eq_none_iff.mpr fun mem => ?_
    obtain ⟨⟨_, value⟩, inside, rfl⟩ := List.mem_map.mp mem
    obtain ⟨argument, _, binding⟩ := List.mem_filterMap.mp inside
    exact other (nameKey_of_argumentBinding binding)
  have unreached : ∀ key, ¬ EnvironmentKey key → ∀ environ,
      lastValue key (environmentBindings environ) = none := by
    intro key other environ
    refine lastValue_eq_none_iff.mpr fun mem => ?_
    obtain ⟨⟨_, value⟩, inside, rfl⟩ := List.mem_map.mp mem
    obtain ⟨entry, _, binding⟩ := List.mem_filterMap.mp inside
    exact other (environmentKey_of_environmentBinding binding)
  refine ⟨_, answers_sources calls reads callbacks userData m config, ?_, ?_, ?_, ?_⟩
  · intro key named value
    have answers := answers_sources calls reads callbacks userData m
      { config with argumentValues := some (program :: arguments ++ [argumentFor key value]) }
    simp only [sourceBindings_argument named value program given,
      lastValue_append_singleton] at answers
    exact answers
  · intro key named free value
    have answers := answers_sources (succeed _) (deliver (host.environ ++ [entryFor key value]))
      callbacks userData m config
    have free : key ∉ (argumentBindings (config.argumentValues.getD [])).map Prod.fst := by
      rw [given]
      exact free
    simp only [lastValue_sourceBindings_entry named value _ free] at answers
    exact answers
  · intro others
    refine ⟨_, answers_sources calls reads callbacks userData m _, fun key other => ?_⟩
    simp only [sourceBindings, lastValue_append, unnamed key other]
  · intro environ
    refine ⟨_, answers_sources (succeed environ) (deliver environ) callbacks userData m config,
      fun key other => ?_⟩
    simp only [sourceBindings, lastValue_append, unreached key other]
    cases config.configFilePath <;> rfl

omit [BcCore] in
theorem settable_keys_layers :
    ∃ answer, @Answers .reference Unit Unit () () .initial layeredHost layeredConfig answer ∧
      @Answers .reference Unit Unit () () .initial layeredHost
        { layeredConfig with
          argumentValues := some [.lit "app", .lit "--log.level=debug", .lit "--verbose",
            argumentFor (.lit "log.file") (.lit "out")] }
        (Function.update answer (.lit "log.file") (some (.lit "out"))) := by
  obtain ⟨answer, before, named, -⟩ := @settable_keys .reference Unit Unit layeredHost
    (fun _ _ => rfl) (fun _ => Nat.one_pos) layeredConfig _ _ rfl () () .initial
  exact ⟨answer, before, named _ ⟨by decide, by decide, by decide⟩ _⟩

end Settable

end BcRuntime
