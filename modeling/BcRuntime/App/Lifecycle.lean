import BcRuntime.Config.ProcessLoader

/-!
Creating and destroying an application. Creation acquires its parts in order and
gives them back in the opposite order when one of them cannot be had: each
`onFailure` is one label of the chain of `goto`s. The parallel configuration is
handed on unread and the callbacks are only stored, so neither is looked into.
-/

namespace BcRuntime
open Fallible Run

inductive LogLevel
  | error
  | warn
  | info
  | debug
deriving DecidableEq

inductive RuntimeState
  | created
  | initialized
  | running
  | stopping
  | stopped
deriving DecidableEq

/-- `bc_runtime_config_t`; an absent path or argument vector is a NULL pointer. -/
structure RuntimeConfig where
  maxPoolMemory : Nat
  memoryTrackingEnabled : Bool
  logLevel : LogLevel
  configFilePath : Option CString
  argumentValues : Option (List CString)

/-- `bc_runtime_t`; its store is the one of the machine. -/
structure Runtime (Callbacks UserData : Type) where
  block : Resource
  memoryContext : Resource
  signalHandler : Resource
  parallelContext : Resource
  logLevel : LogLevel
  state : RuntimeState
  callbacks : Callbacks
  userData : UserData
  logMessagesWritten : Nat

/-- `sizeof(bc_runtime_t)`, `SIGINT` and `SIGTERM`. -/
def runtimeSize : Nat := 80
def sigInt : Nat := 2
def sigTerm : Nat := 15

variable [BcCore] {Callbacks UserData : Type}

/-- The two guarded loads of `bc_runtime_create`. -/
def loadConfigFile : Option CString → Run Unit
  | some configFilePath => loadFile configFilePath
  | none => pure ()

def loadArgumentValues : Option (List CString) → Run Unit
  | some argumentValues =>
      if 0 < argumentValues.length then loadArguments argumentValues else pure ()
  | none => pure ()

def runtimeCreate (config : RuntimeConfig) (callbacks : Callbacks) (userData : UserData) :
    Run (Runtime Callbacks UserData) := do
  let memoryContext ← acquire .memoryContext
    (.contextCreate config.maxPoolMemory config.memoryTrackingEnabled)
  onFailure (do
    let application ← poolAllocate runtimeSize
    onFailure (do
      let signalHandler ← acquire .signalHandler .signalHandlerCreate
      onFailure (do
        let _ ← external (.signalHandlerInstall sigInt)
        let _ ← external (.signalHandlerInstall sigTerm)
        configStoreCreate
        onFailure (do
          loadConfigFile config.configFilePath
          loadEnvironment
          loadArgumentValues config.argumentValues
          configStoreSort
          let parallelContext ← acquire .parallelContext .concurrencyCreate
          pure
            { block := application, memoryContext := memoryContext,
              signalHandler := signalHandler, parallelContext := parallelContext,
              logLevel := config.logLevel, state := .created, callbacks := callbacks,
              userData := userData, logMessagesWritten := 0 })
          configStoreDestroy)
        (release signalHandler))
      (release application))
    (release memoryContext)

omit [BcCore] in
def runtimeDestroy (application : Runtime Callbacks UserData) : Run Unit := do
  release application.parallelContext
  release application.signalHandler
  configStoreDestroy
  release application.block
  release application.memoryContext

end BcRuntime
