import BcRuntime.Config.ProcessLoader
import BcRuntime.Config.LineGrammar

/-!
The bindings of the environment and of the arguments, stated over the text of an
entry, and the loaders' agreement with them.
-/

namespace BcRuntime
open Fallible Run

/-- What a key buffer holds of a name. -/
def keyOfName (name : List UInt8) : List UInt8 := name.take (bufferStackSize - 1)

/-- `BC_APP_` NAME `=` value, with a name. -/
def environmentBinding (entry : CString) : Option Binding :=
  if environmentPrefix.isPrefixOf entry.bytes then
    match (entry.bytes.drop environmentPrefix.length).splitFirst equalsSign with
    | none => none
    | some (name, value) =>
        if name = [] then none
        else some (.ofBuffer ((keyOfName name).map environmentKeyByte), .ofBuffer value)
  else none

/-- `--` name `=` value, with a name. -/
def argumentBinding (argument : CString) : Option Binding :=
  if optionPrefix.isPrefixOf argument.bytes then
    match (argument.bytes.drop optionPrefix.length).splitFirst equalsSign with
    | none => none
    | some (name, value) =>
        if name = [] then none else some (.ofBuffer (keyOfName name), .ofBuffer value)
  else none

def environmentBindings (environ : List CString) : List Binding :=
  environ.filterMap environmentBinding

def argumentBindings (argumentValues : List CString) : List Binding :=
  (argumentValues.drop 1).filterMap argumentBinding

theorem truncateKey_take (name rest : List UInt8) :
    (name ++ rest).take (truncateKey name.length) = keyOfName name := by
  simp only [truncateKey, keyOfName]
  by_cases long : name.length ≥ bufferStackSize
  · rw [if_pos long, List.take_append_of_le_length (by omega)]
  · rw [if_neg long, List.take_left, List.take_of_length_le (by omega)]

section Loaders
variable [BcCore] {host : Host}

def setOption : Option Binding → Run Unit
  | none => pure ()
  | some binding => configStoreSet binding.1 binding.2

/-- The body of an iteration, once the length is at hand. -/
theorem environmentEntry_eq (entry : CString) :
    (if entry.length < 8 then pure ()
      else if entry.bytes.take 7 ≠ environmentPrefix then pure ()
      else
        match BcCore.findByte entry.bytes equalsSign with
        | none => pure ()
        | some equalsOffset =>
            if equalsOffset - 7 = 0 then pure ()
            else configStoreSet
              (.ofBuffer
                (((entry.bytes.drop 7).take (truncateKey (equalsOffset - 7))).map
                  environmentKeyByte))
              (entry.drop (equalsOffset + 1))) =
      setOption (environmentBinding entry) := by
  simp only [environmentBinding]
  by_cases starts : environmentPrefix <+: entry.bytes
  · obtain ⟨rest, whole⟩ := starts
    have size : environmentPrefix.length = 7 := by decide
    have absent : equalsSign ∉ environmentPrefix := by decide
    have dropped : entry.bytes.drop 7 = rest := by rw [← whole, ← size, List.drop_left]
    have taken : entry.bytes.take 7 = environmentPrefix := by
      rw [← whole, ← size, List.take_left]
    have start : environmentPrefix.isPrefixOf entry.bytes = true :=
      List.isPrefixOf_iff_prefix.mpr ⟨rest, whole⟩
    rw [if_pos start, findByte_eq_splitFirst, size, dropped, taken]
    rw [← whole, List.splitFirst_append absent]
    cases split : rest.splitFirst equalsSign with
    | none => simp [setOption]
    | some parts =>
        obtain ⟨name, value⟩ := parts
        obtain ⟨hrest, _⟩ := List.splitFirst_eq_some_iff.mp split
        have long : ¬ entry.length < 8 := by
          rw [CString.length, ← whole, hrest]
          simp [size]
          omega
        have offset : (environmentPrefix ++ name).length = 7 + name.length := by simp [size]
        simp only [if_neg long, Option.map_some, ne_eq, not_true, if_false, offset,
          Nat.add_sub_cancel_left, List.length_eq_zero_iff]
        by_cases anonymous : name = []
        · simp [anonymous, setOption]
        · have tail : entry.bytes.drop (7 + name.length + 1) = value := by
            rw [← whole, hrest, ← List.drop_drop, ← List.drop_drop, ← size, List.drop_left,
              List.drop_left]
            rfl
          rw [if_neg anonymous, if_neg anonymous, hrest, truncateKey_take,
            CString.drop_eq_ofBuffer tail]
          rfl
  · have differs : entry.bytes.take 7 ≠ environmentPrefix :=
      fun same => starts (same ▸ List.take_prefix 7 entry.bytes)
    have start : environmentPrefix.isPrefixOf entry.bytes = false := by
      rwa [Bool.eq_false_iff, ne_eq, List.isPrefixOf_iff_prefix]
    rw [if_pos differs, ite_self, start]
    rfl

theorem argument_eq (argument : CString) :
    (if BcCore.startsWith argument.bytes optionPrefix = false then pure ()
      else
        match BcCore.findByte (argument.drop 2).bytes equalsSign with
        | none => pure ()
        | some equalsOffset =>
            if equalsOffset = 0 then pure ()
            else configStoreSet
              (.ofBuffer ((argument.drop 2).bytes.take (truncateKey equalsOffset)))
              ((argument.drop 2).drop (equalsOffset + 1))) =
      setOption (argumentBinding argument) := by
  simp only [argumentBinding]
  rw [BcCore.startsWith_eq]
  cases optionPrefix.isPrefixOf argument.bytes with
  | false => rfl
  | true =>
      rw [if_neg (by decide), if_pos rfl, findByte_eq_splitFirst]
      have dropped : (argument.drop 2).bytes = argument.bytes.drop optionPrefix.length := rfl
      rw [dropped]
      cases split : (argument.bytes.drop optionPrefix.length).splitFirst equalsSign with
      | none => rfl
      | some parts =>
          obtain ⟨name, value⟩ := parts
          obtain ⟨whole, _⟩ := List.splitFirst_eq_some_iff.mp split
          simp only [Option.map_some, List.length_eq_zero_iff]
          by_cases anonymous : name = []
          · simp [anonymous, setOption]
          · have tail : (argument.drop 2).bytes.drop (name.length + 1) = value := by
              rw [dropped, whole, ← List.drop_drop, List.drop_left]
              rfl
            rw [if_neg anonymous, if_neg anonymous, whole, truncateKey_take,
              CString.drop_eq_ofBuffer tail]
            rfl

section Succeeding
variable (store : host.StoreCallsSucceed) (m : Machine)
include store

theorem setOption_spec (binding : Option Binding) :
    wp (setOption binding) (fun _ m' => Loaded binding.toList m m') (fun _ => False) host m := by
  cases binding with
  | none => exact (Untouched.refl m).loaded
  | some binding =>
      exact wp_mono (configStoreSet_spec host m binding.1 binding.2)
        (fun _ _ stored => stored.loaded) fun _ refused => refused.failure store

/-- Where a length is had, the iteration is the set its string asks for. -/
theorem afterLength_spec (text : CString) (binding : Option Binding)
    {body : Option { count : Nat // count = text.length } → Run Unit}
    (same : body (some ⟨text.length, rfl⟩) = setOption binding) :
    wp (attempt (coreLength text) >>= body) (fun _ m' => Loaded binding.toList m m')
      (fun _ => False) host m := by
  rw [wp_bind, wp_attempt]
  refine wp_mono (coreLength_spec host m text) ?_ fun _ failed => absurd store.core failed.2
  rintro ⟨count, hcount⟩ m₁ quiet
  subst hcount
  rw [same]
  exact wp_mono (setOption_spec store m₁ binding)
    (fun _ _ loaded => quiet.untouched.loaded.append loaded) fun _ h => h

theorem loadEnvironmentEntry_spec (entry : CString) :
    wp (loadEnvironmentEntry entry)
      (fun _ m' => Loaded (environmentBinding entry).toList m m') (fun _ => False) host m :=
  afterLength_spec store m entry _ (environmentEntry_eq entry)

theorem loadArgument_spec (argument : CString) :
    wp (loadArgument argument)
      (fun _ m' => Loaded (argumentBinding argument).toList m m') (fun _ => False) host m :=
  afterLength_spec store m argument _ (argument_eq argument)

theorem loadEnvironment_spec :
    wp loadEnvironment (fun _ m' => Loaded (environmentBindings host.environ) m m')
      (fun _ => False) host m :=
  loaded_of_each rfl (fun _ _ => rfl) (fun entry m => loadEnvironmentEntry_spec store m entry)
    host.environ m

theorem loadArguments_spec (argumentValues : List CString) :
    wp (loadArguments argumentValues)
      (fun _ m' => Loaded (argumentBindings argumentValues) m m') (fun _ => False) host m :=
  loaded_of_each rfl (fun _ _ => rfl) (fun argument m => loadArgument_spec store m argument)
    (argumentValues.drop 1) m

end Succeeding

end Loaders

end BcRuntime
