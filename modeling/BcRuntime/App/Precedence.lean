import BcRuntime.App.Lifecycle
import BcRuntime.Config.Chunking
import BcRuntime.Config.ProcessBindings

/-!
The precedence of the layers. The three loaders store the bindings of their
sources one after another, so the store an application starts with answers from
the arguments, then from the environment, then from the file.
-/

namespace BcRuntime
open Fallible Run

def configFileBindings (host : Host) : Option CString → List Binding
  | none => []
  | some path => storedBindings (host.fileContent path)

/-- The bindings of all sources, in the order they are loaded. -/
def sourceBindings (host : Host) (config : RuntimeConfig) : List Binding :=
  configFileBindings host config.configFilePath ++ environmentBindings host.environ ++
    argumentBindings (config.argumentValues.getD [])

variable [BcCore] {host : Host}

section Succeeding
variable (calls : host.AllCallsSucceed) (reads : host.ReadsDeliver)
include calls

omit [BcCore] in
theorem configStoreCreate_spec (m : Machine) :
    wp configStoreCreate (fun _ m' => m'.store.Valid ∧ ∀ key, m'.store.content key = none)
      (fun _ => False) host m := by
  simp only [configStoreCreate, wp_bind, wp_onFailure]
  refine wp_mono (poolAllocate_spec host m _) (fun block m₁ _ => ?_)
    fun _ refused => refused.failure calls.store
  refine wp_mono (acquire_spec calls m₁ _ _) (fun arena m₂ _ => ?_) fun _ h => h.elim
  refine wp_mono (poolAllocate_spec host m₂ _) (fun entries m₃ _ => ?_)
    fun _ refused => absurd calls.store refused.failure
  exact ⟨⟨List.nodup_nil, fun sorted => absurd sorted Bool.false_ne_true⟩, fun _ => rfl⟩

include reads

theorem loadConfigFile_spec (configFilePath : Option CString) (m : Machine) :
    wp (loadConfigFile configFilePath)
      (fun _ m' => Loaded (configFileBindings host configFilePath) m m')
      (fun _ => False) host m := by
  cases configFilePath with
  | none => exact (Untouched.refl m).loaded
  | some path => exact loadFile_spec calls reads path m

omit reads in
theorem loadArgumentValues_spec (argumentValues : Option (List CString)) (m : Machine) :
    wp (loadArgumentValues argumentValues)
      (fun _ m' => Loaded (argumentBindings (argumentValues.getD [])) m m')
      (fun _ => False) host m := by
  cases argumentValues with
  | none => exact (Untouched.refl m).loaded
  | some argumentValues =>
      cases argumentValues with
      | nil => exact (Untouched.refl m).loaded
      | cons program arguments => exact loadArguments_spec calls.store m (program :: arguments)

theorem runtimeCreate_spec {Callbacks UserData : Type} (config : RuntimeConfig)
    (callbacks : Callbacks) (userData : UserData) (m : Machine) :
    wp (runtimeCreate config callbacks userData)
      (fun _ m' => m'.store.Valid ∧ m'.store.sorted = true ∧
        ∀ key, m'.store.content key = lastValue key (sourceBindings host config))
      (fun _ => False) host m := by
  simp only [runtimeCreate, wp_bind, wp_onFailure]
  refine wp_mono (acquire_spec calls m _ _) (fun memoryContext m₁ _ => ?_) fun _ h => h
  refine wp_mono (poolAllocate_spec host m₁ _) (fun application m₂ _ => ?_)
    fun _ refused => absurd calls.store refused.failure
  refine wp_mono (acquire_spec calls m₂ _ _) (fun signalHandler m₃ _ => ?_) fun _ h => h.elim
  rw [wp_external]
  refine ⟨fun _ => ?_, fun denied => absurd ((calls _ _).symm.trans denied) (by decide)⟩
  rw [wp_external]
  refine ⟨fun _ => ?_, fun denied => absurd ((calls _ _).symm.trans denied) (by decide)⟩
  refine wp_mono (configStoreCreate_spec calls _) ?_ fun _ h => h.elim
  rintro _ m₄ ⟨valid, empty⟩
  refine wp_mono (loadConfigFile_spec calls reads config.configFilePath m₄) (fun _ m₅ file => ?_)
    fun _ h => h.elim
  refine wp_mono (loadEnvironment_spec calls.store m₅) (fun _ m₆ environment => ?_)
    fun _ h => h.elim
  refine wp_mono (loadArgumentValues_spec calls config.argumentValues m₆)
    (fun _ m₇ arguments => ?_) fun _ h => h.elim
  have loaded := (file.append environment).append arguments
  refine wp_mono (configStoreSort_spec host m₇) (fun _ m₈ sorted => ?_)
    fun _ refused => absurd calls.store refused.failure
  refine wp_mono (acquire_spec calls m₈ _ _) (fun parallelContext m₉ quiet => ?_)
    fun _ h => h.elim
  have distinct := (loaded.valid valid).distinct
  simp only [wp_pure, quiet.store]
  refine ⟨sorted.valid distinct, sorted.sorted, fun key => ?_⟩
  rw [sorted.content distinct, loaded.content, empty, Option.or_none]
  rfl

end Succeeding

/-- Layered precedence: an application answers from its last argument binding of
a key, else from the last one of the environment, else from the last one of the
configuration file. -/
theorem runtimeCreate_precedence {Callbacks UserData : Type} (calls : host.AllCallsSucceed)
    (reads : host.ReadsDeliver) (config : RuntimeConfig) (callbacks : Callbacks)
    (userData : UserData) (m : Machine) :
    ∃ application m', runtimeCreate config callbacks userData host m = (some application, m') ∧
      ∀ key, (configStoreLookup key host m').1 =
        (lastValue key (argumentBindings (config.argumentValues.getD []))).or
          ((lastValue key (environmentBindings host.environ)).or
            (lastValue key (configFileBindings host config.configFilePath))) := by
  obtain ⟨application, m', run, valid, sorted, content⟩ :=
    exists_run_of_wp (runtimeCreate_spec calls reads config callbacks userData m)
  refine ⟨application, m', run, fun key => ?_⟩
  obtain ⟨_, found, -⟩ := configStoreLookup_run calls.store.core valid key
  rw [found, if_pos sorted, content, sourceBindings, lastValue_append, lastValue_append]

/-- One key in three sources, under three spellings. -/
def layeredHost : Host :=
  .obliging [.lit "BC_APP_LOG_LEVEL=warn", .lit "HOME=/"] (CString.lit "log.level = info\n").bytes

def layeredConfig : RuntimeConfig where
  maxPoolMemory := 0
  memoryTrackingEnabled := false
  logLevel := .info
  configFilePath := some (.lit "app.conf")
  argumentValues := some [.lit "app", .lit "--log.level=debug", .lit "--verbose"]

omit [BcCore] in
theorem runtimeCreate_precedence_layers :
    ∃ application m', @runtimeCreate .reference _ _ layeredConfig () () layeredHost .initial =
        (some application, m') ∧
      ∀ key, (@configStoreLookup .reference key layeredHost m').1 =
        (lastValue key (argumentBindings (layeredConfig.argumentValues.getD []))).or
          ((lastValue key (environmentBindings layeredHost.environ)).or
            (lastValue key (configFileBindings layeredHost layeredConfig.configFilePath))) :=
  @runtimeCreate_precedence .reference layeredHost _ _ (fun _ _ => rfl) (fun _ => Nat.one_pos)
    layeredConfig () () .initial

end BcRuntime
