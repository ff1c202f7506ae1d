import BcRuntime.Config.LineGrammar
import BcRuntime.Config.ProcessBindings

/-!
The loads make their changes through sets alone. The environment and the
arguments are loaded by one loop, which differs only in what it takes for a
binding; and what the calls outside and a set keep, whichever way they end, every
load keeps. An operation of the store keeps what its calls and its updates keep.
-/

namespace BcRuntime
open Fallible Run

variable [BcCore]

/-- A text that cannot be measured or is not a binding is passed over. -/
def loadText (binding : CString → Option Binding) (text : CString) : Run Unit := do
  match ← attempt (coreLength text) with
  | none => pure ()
  | some _ => setOption (binding text)

def loadTexts (binding : CString → Option Binding) : List CString → Run Unit
  | [] => pure ()
  | text :: texts => do
      loadText binding text
      loadTexts binding texts

theorem loadEnvironmentEntry_eq (entry : CString) :
    loadEnvironmentEntry entry = loadText environmentBinding entry := by
  funext host m
  rw [loadEnvironmentEntry, loadText, bind_run, bind_run]
  cases attempt (coreLength entry) host m with
  | mk result m' =>
      rcases result with _ | _ | ⟨entryLength, same⟩
      · rfl
      · rfl
      · subst same
        exact congrFun (congrFun (environmentEntry_eq entry) host) m'

theorem loadEnvironmentEntries_eq (entries : List CString) :
    loadEnvironmentEntries entries = loadTexts environmentBinding entries := by
  induction entries with
  | nil => rfl
  | cons entry entries ih =>
      rw [loadEnvironmentEntries, loadTexts, loadEnvironmentEntry_eq, ih]

theorem loadArgument_eq (argument : CString) :
    loadArgument argument = loadText argumentBinding argument := by
  refine bind_congr fun measured => ?_
  cases measured with
  | none => rfl
  | some _ => exact argument_eq argument

theorem loadArgumentsFrom_eq (arguments : List CString) :
    loadArgumentsFrom arguments = loadTexts argumentBinding arguments := by
  induction arguments with
  | nil => rfl
  | cons argument arguments ih => rw [loadArgumentsFrom, loadTexts, loadArgument_eq, ih]

section Keeping
variable {R : Machine → Machine → Prop} [Std.Refl R] [IsTrans Machine R]

section Calls
variable (call : ∀ call, Keeps R (external call))
include call

omit [BcCore] in
theorem arenaCopyString_keeps (text : CString) : Keeps R (arenaCopyString text) :=
  (call _).bind fun _ => .pure _

omit [BcCore] in
theorem poolAllocate_keeps (noted : ∀ event, Keeps R (record event)) (size : Nat) :
    Keeps R (poolAllocate size) :=
  (call _).bind fun _ => (noted _).bind fun _ => .pure _

theorem coreLength_keeps (text : CString) : Keeps R (coreLength text) :=
  (call _).bind fun _ => .pure _

theorem scanEntries_keeps (key : CString) (keyLength : Nat) (entries : List ConfigEntry)
    (i : Nat) : Keeps R (scanEntries key keyLength entries i) := by
  induction entries generalizing i with
  | nil => exact .pure _
  | cons entry entries ih =>
      refine .ite (ih _) (Keeps.bind ((call _).bind fun _ => .pure _) fun equal => ?_)
      exact .ite (.pure _) (ih _)

section Operations
variable (assign : ∀ i value, Keeps R (assignValue i value))
include assign

theorem configStoreSet_keeps (grow : Keeps R growEntries)
    (add : ∀ entry, Keeps R (modifyStore fun store =>
      { store with entries := store.entries ++ [entry], sorted := false }))
    (key value : CString) : Keeps R (configStoreSet key value) := by
  refine (coreLength_keeps call key).bind fun keyLength => ?_
  refine Keeps.bind (fun _ m => Std.Refl.refl m) fun m => ?_
  refine (scanEntries_keeps call _ _ _ _).bind fun found => ?_
  cases found with
  | some place => exact (arenaCopyString_keeps call _).bind fun _ => assign _ _
  | none =>
      refine grow.bind fun _ => ?_
      refine (arenaCopyString_keeps call _).bind fun _ => ?_
      exact (arenaCopyString_keeps call _).bind fun _ => add _

variable (noted : ∀ event, Keeps R (record event))
include noted

theorem configStoreAppend_keeps (set : ∀ key value, Keeps R (configStoreSet key value))
    (key value : CString) (separator : UInt8) :
    Keeps R (configStoreAppend key value separator) := by
  refine (coreLength_keeps call key).bind fun keyLength => ?_
  refine (coreLength_keeps call value).bind fun valueLength => ?_
  refine Keeps.bind (fun _ m => Std.Refl.refl m) fun m => ?_
  refine (scanEntries_keeps call _ _ _ _).bind fun found => ?_
  cases found with
  | some place =>
      refine (coreLength_keeps call _).bind fun existingLength => ?_
      refine (poolAllocate_keeps call noted _).bind fun combinedBlock => ?_
      refine Keeps.bind ?_ fun copiedValue => (noted _).bind fun _ => assign _ _
      exact (arenaCopyString_keeps call _).onFailure (noted _)
  | none => exact set key value

omit assign in
theorem configStoreSort_keeps
    (sort : Keeps R (modifyStore fun store =>
      { store with entries := sortPasses store.entries.length 1 store.entries }))
    (finish : Keeps R (modifyStore fun store => { store with sorted := true })) :
    Keeps R configStoreSort := by
  refine Keeps.bind (fun _ m => Std.Refl.refl m) fun m => .ite finish ?_
  refine (poolAllocate_keeps call noted _).bind fun tempBlock => ?_
  exact sort.bind fun _ => (noted _).bind fun _ => finish

end Operations

end Calls

section Loading
variable (set : ∀ key value, Keeps R (configStoreSet key value))
include set

theorem loadFromBuffer_keeps (data : List UInt8) : Keeps R (loadFromBuffer data) := by
  rw [loadFromBuffer_eq]
  induction storedBindings data with
  | nil => exact .pure _
  | cons binding bindings ih =>
      exact Keeps.bind ((set binding.1 binding.2).attempt.bind fun _ => .pure _) fun _ => ih

variable (call : ∀ call, Keeps R (external call))
include call

theorem loadTexts_keeps (binding : CString → Option Binding) (texts : List CString) :
    Keeps R (loadTexts binding texts) := by
  induction texts with
  | nil => exact .pure _
  | cons text texts ih =>
      refine Keeps.bind ((coreLength_keeps call text).attempt.bind fun measured => ?_) fun _ => ih
      cases measured with
      | none => exact .pure _
      | some _ =>
          cases binding text with
          | none => exact .pure _
          | some pair => exact set pair.1 pair.2

theorem loadEnvironment_keeps : Keeps R loadEnvironment := by
  intro host m
  have entries := loadTexts_keeps set call environmentBinding host.environ host m
  rw [← loadEnvironmentEntries_eq] at entries
  exact entries

theorem loadArguments_keeps (argumentValues : List CString) :
    Keeps R (loadArguments argumentValues) := by
  rw [loadArguments, loadArgumentsFrom_eq]
  exact loadTexts_keeps set call argumentBinding _

end Loading

end Keeping

end BcRuntime
