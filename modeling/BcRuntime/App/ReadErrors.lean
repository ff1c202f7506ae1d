import BcRuntime.App.Lifecycle
import BcRuntime.Config.ReadCalls

/-!
Read errors while a configuration file is loaded. The reading loop stops at the
first `fread` that delivers nothing and never asks whether that was the end of
the file, so a load whose reading ends in an error returns true.
-/

namespace BcRuntime
open Fallible Run

/-- A read that delivers nothing because of an error: bytes of the file are left,
or the host has an error in place of the end of the file. -/
def ReadCall.Fails (errorAtEnd : Nat → Bool) (read : ReadCall) : Prop :=
  read.read = [] ∧ (read.unread ≠ [] ∨ errorAtEnd read.call = true)

instance (errorAtEnd : Nat → Bool) (read : ReadCall) : Decidable (read.Fails errorAtEnd) :=
  inferInstanceAs (Decidable (_ ∧ _))

/-- The file is opened, the allocations of the load succeed, and then a read fails. -/
def ReadingFails (host : Host) (errorAtEnd : Nat → Bool) (filePath : CString) (first : Nat) :
    Prop :=
  ∃ reads, loadReads host filePath first = some reads ∧
    ∃ read ∈ reads, read.Fails errorAtEnd

variable [BcCore]

/-- A load that returns true has read to the end of the file and parsed all of it,
and one whose reading ends in an error returns false. -/
structure ReportsReadErrors (host : Host) (errorAtEnd : Nat → Bool) (filePath : CString)
    (m : Machine) : Prop where
  complete : (loadFile filePath host m).1 = some () →
    ∃ load m', observedLoadFile filePath host m = (some load, m') ∧
      (∀ read ∈ load.reads, ¬ read.Fails errorAtEnd) ∧ load.given = host.fileContent filePath
  reported : ReadingFails host errorAtEnd filePath m.calls →
    (loadFile filePath host m).1 = none

section Reporting
variable {host : Host} {errorAtEnd : Nat → Bool} {filePath : CString} {m : Machine}

theorem reportsReadErrors_iff :
    ReportsReadErrors host errorAtEnd filePath m ↔
      ¬ ReadingFails host errorAtEnd filePath m.calls := by
  constructor
  · intro reports fails
    obtain ⟨reads, answers, _⟩ := id fails
    have returned := (loadFile_returns_true_iff filePath m).mpr ⟨reads, answers⟩
    cases returned.symm.trans (reports.reported fails)
  · intro succeeds
    refine ⟨fun returned => ?_, fun fails => absurd fails succeeds⟩
    obtain ⟨reads, answers⟩ := (loadFile_returns_true_iff filePath m).mp returned
    obtain ⟨m', run, _⟩ := observedLoadFile_run answers
    have none_fails : ∀ read ∈ reads, ¬ read.Fails errorAtEnd :=
      fun read mem fails => succeeds ⟨reads, answers, read, mem, fails⟩
    refine ⟨_, m', run, none_fails, ?_⟩
    obtain ⟨earlier, last, rfl, reading⟩ := loadReads_reading answers
    refine reading.delivered_eq ?_
    have fine := none_fails last (List.mem_append_right earlier List.mem_cons_self)
    exact not_not.mp fun left => fine ⟨reading.stops, .inl left⟩

end Reporting

section Creating
variable {host : Host} {m : Machine}

omit [BcCore] in
theorem external_counts (call : ExternalCall) :
    wp (external call) (fun _ m' => m'.calls = m.calls + 1) (fun _ => True) host m := by
  rw [wp_external]
  exact ⟨fun _ => rfl, fun _ => trivial⟩

omit [BcCore] in
theorem acquire_counts (kind : ResourceKind) (call : ExternalCall) :
    wp (acquire kind call) (fun _ m' => m'.calls = m.calls + 1) (fun _ => True) host m := by
  rw [acquire, wp_bind]
  exact external_counts call

omit [BcCore] in
theorem configStoreCreate_counts :
    wp configStoreCreate (fun _ m' => m'.calls = m.calls + 3) (fun _ => True) host m := by
  rw [configStoreCreate, wp_bind]
  refine wp_mono (acquire_counts _ _) (fun block m₁ one => ?_) fun _ _ => trivial
  rw [wp_bind]
  refine wp_mono (wp_onFailure_normal (acquire_counts _ _)) (fun arena m₂ two => ?_)
    fun _ _ => trivial
  rw [wp_bind]
  refine wp_mono (wp_onFailure_normal (acquire_counts _ _)) (fun entries m₃ three => ?_)
    fun _ _ => trivial
  rw [wp_modifyStore, three, two, one]

theorem runtimeCreate_loads {Callbacks UserData : Type} (config : RuntimeConfig)
    (callbacks : Callbacks) (userData : UserData) :
    wp (runtimeCreate config callbacks userData)
      (fun _ _ => ∃ m', m'.calls = m.calls + 8 ∧
        (loadConfigFile config.configFilePath host m').1 = some ())
      (fun _ => True) host m := by
  rw [runtimeCreate, wp_bind]
  refine wp_mono (acquire_counts _ _) (fun memoryContext m₁ one => ?_) fun _ _ => trivial
  apply wp_onFailure_normal
  rw [wp_bind]
  refine wp_mono (acquire_counts _ _) (fun application m₂ two => ?_) fun _ _ => trivial
  apply wp_onFailure_normal
  rw [wp_bind]
  refine wp_mono (acquire_counts _ _) (fun signalHandler m₃ three => ?_) fun _ _ => trivial
  apply wp_onFailure_normal
  rw [wp_bind]
  refine wp_mono (external_counts _) (fun _ m₄ four => ?_) fun _ _ => trivial
  rw [wp_bind]
  refine wp_mono (external_counts _) (fun _ m₅ five => ?_) fun _ _ => trivial
  rw [wp_bind]
  refine wp_mono configStoreCreate_counts (fun _ m₆ eight => ?_) fun _ _ => trivial
  apply wp_onFailure_normal
  rw [wp_bind, wp_iff]
  refine ⟨fun _ m₇ loaded => ?_, fun _ _ => trivial⟩
  have counted : m₆.calls = m.calls + 8 := by omega
  exact wp_mono (wp_true host m₇ _) (fun _ _ _ => ⟨m₆, counted, by rw [loaded]⟩)
    fun _ _ => trivial

end Creating

/-- A load reports its read errors exactly when none occurs, and what a load does
not report the creation does not report either. -/
theorem loadFile_readErrors (host : Host) (errorAtEnd : Nat → Bool) (filePath : CString)
    (m : Machine) :
    (ReportsReadErrors host errorAtEnd filePath m ↔
        ¬ ReadingFails host errorAtEnd filePath m.calls) ∧
      ∀ {Callbacks UserData : Type} (config : RuntimeConfig) (callbacks : Callbacks)
        (userData : UserData), config.configFilePath = some filePath →
          (runtimeCreate config callbacks userData host m).1 ≠ none →
            ∃ m', m'.calls = m.calls + 8 ∧ (loadFile filePath host m').1 = some () := by
  refine ⟨reportsReadErrors_iff, fun config callbacks userData path created => ?_⟩
  cases wp_cases (runtimeCreate_loads config callbacks userData) with
  | inl loads =>
      obtain ⟨_, _, _, m', counted, loaded⟩ := loads
      rw [path] at loaded
      exact ⟨m', counted, loaded⟩
  | inr failed =>
      obtain ⟨m', run, _⟩ := failed
      exact absurd (congrArg Prod.fst run) created

/-- A host with a file of two lines that fails after the first. -/
def truncatingHost : Host where
  succeeds _ _ := true
  environ := []
  fileContent _ := (CString.lit "a=b\nc=d\n").bytes
  readCount call := if call % 2 = 0 then 4 else 0

def truncatedConfig : RuntimeConfig where
  maxPoolMemory := 0
  memoryTrackingEnabled := false
  logLevel := .info
  configFilePath := some (.lit "f")
  argumentValues := none

omit [BcCore] in
theorem truncatingHost_fails : ReadingFails truncatingHost (fun _ => false) (.lit "f") 0 := by
  have answers : ∃ first second, loadReads truncatingHost (.lit "f") 0 = some [first, second] ∧
      second.Fails fun _ => false := by
    refine ⟨⟨2, 0, configStoreArenaCapacity, (CString.lit "a=b\nc=d\n").bytes,
        (CString.lit "a=b\n").bytes⟩,
      ⟨3, 4, configStoreArenaCapacity, (CString.lit "c=d\n").bytes, []⟩, ?_, ?_⟩
    · decide +kernel
    · decide
  obtain ⟨first, second, answers, fails⟩ := answers
  exact ⟨_, answers, second, List.mem_cons_of_mem first List.mem_cons_self, fails⟩

omit [BcCore] in
/-- The load and the creation succeed with the first line alone in the store. -/
theorem truncatingHost_unreported :
    ¬ @ReportsReadErrors .reference truncatingHost (fun _ => false) (.lit "f")
        .initial ∧
      (@loadFile .reference (.lit "f") truncatingHost .initial).1 = some () ∧
      (@runtimeCreate .reference Unit Unit truncatedConfig () () truncatingHost
        .initial).1.isSome = true ∧
      (@runtimeCreate .reference Unit Unit truncatedConfig () () truncatingHost
        .initial).2.store.keys = [.lit "a"] := by
  refine ⟨?_, by decide +kernel, by decide +kernel, by decide +kernel⟩
  rw [@reportsReadErrors_iff .reference, not_not]
  exact truncatingHost_fails

end BcRuntime
