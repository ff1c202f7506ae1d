import BcRuntime.Config.LineGrammar
import BcRuntime.Config.StoreCalls

/-!
What the file loader makes of a set that fails. The line parser drops the result
of the set, so the loader reports success whatever happened; it tells the truth
exactly where every call its bindings need is granted.
-/

namespace BcRuntime
open Fallible Run

variable [BcCore]

def SomeSetFails (host : Host) : List Binding → Machine → Prop
  | [], _ => False
  | binding :: bindings, m =>
      (configStoreSet binding.1 binding.2 host m).1 = none ∨
        SomeSetFails host bindings (configStoreSet binding.1 binding.2 host m).2

/-- Success means that every key has the value of its last line, and a set that
fails is reported. -/
structure HonestLoad (data : List UInt8) (host : Host) (m : Machine) : Prop where
  complete : (loadFromBuffer data host m).1 = some () →
    ∀ key value, lastValue key (storedBindings data) = some value →
      (loadFromBuffer data host m).2.store.content key = some value
  reported : SomeSetFails host (storedBindings data) m → (loadFromBuffer data host m).1 = none

theorem setEach_returns_true (host : Host) (m : Machine) (bindings : List Binding) :
    (setEach bindings host m).1 = some () := by
  induction bindings generalizing m with
  | nil => rfl
  | cons binding bindings ih => exact ih (configStoreSet binding.1 binding.2 host m).2

theorem someSetFails_iff (host : Host) (m : Machine) (bindings : List Binding) :
    SomeSetFails host bindings m ↔ (setAll bindings host m).1 = none := by
  induction bindings generalizing m with
  | nil => simp [SomeSetFails, setAll]
  | cons binding bindings ih =>
      rw [SomeSetFails, setAll, bind_run]
      cases first : configStoreSet binding.1 binding.2 host m with
      | mk result m₁ =>
          cases result with
          | none => simp
          | some _ => simp [ih]

/-- A load is honest exactly on the hosts that grant every comparison, copy and
reallocation that storing the bindings of the buffer in order needs. -/
theorem honestLoad_iff_granted (data : List UInt8) (host : Host) (m : Machine) :
    HonestLoad data host m ↔
      Granted host m.calls
        (bindingCalls m.store.entries m.store.entryCapacity (storedBindings data)) := by
  rw [← setAll_succeeds_iff]
  constructor
  · intro honest
    cases run : (setAll (storedBindings data) host m).1 with
    | some _ => rfl
    | none =>
        have denied := honest.reported ((someSetFails_iff host m _).mpr run)
        rw [loadFromBuffer_eq, setEach_returns_true] at denied
        simp at denied
  · intro stored
    cases run : setAll (storedBindings data) host m with
    | mk result m' =>
        rw [run] at stored
        obtain rfl : result = some () := stored
        have loaded := wp_some (setAll_spec host m (storedBindings data)) run
        have same : loadFromBuffer data host m = (some (), m') := by
          rw [loadFromBuffer_eq]
          exact setEach_run run
        refine ⟨fun _ key value last => ?_, fun fails => ?_⟩
        · rw [same, loaded.content, last]
          rfl
        · simp [someSetFails_iff, run] at fails

/-- A host whose arena is full: no string can be copied into it. -/
def fullArenaHost : Host where
  succeeds _ call :=
    match call with
    | .arenaCopyString _ => false
    | _ => true
  environ := []
  fileContent _ := []
  readCount _ := 1

omit [BcCore] in
/-- `a=1` is not stored, and the loader returns true. -/
theorem load_a_dishonest :
    ¬ @HonestLoad .reference (CString.lit "a=1").bytes fullArenaHost
      (configStoreCreate fullArenaHost .initial).2 := by
  intro honest
  have denied := @HonestLoad.reported .reference _ _ _ honest (.inl (by decide))
  exact absurd denied (by decide)

end BcRuntime
