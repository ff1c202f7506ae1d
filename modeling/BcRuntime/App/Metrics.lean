import BcRuntime.App.Lifecycle
import BcRuntime.Config.StoreInvariant

/-!
The metrics of an application. The number of its configuration entries is read
off the store, so it counts the keys that have ever been stored with success.
-/

namespace BcRuntime

/-- `bc_runtime_metrics_t`, over what the allocator says of its memory. -/
structure RuntimeMetrics (Stats : Type) where
  memoryStats : Stats
  parallelThreadCount : Nat
  state : RuntimeState
  logMessagesWritten : Nat
  configEntriesCount : Nat

variable {Callbacks UserData Stats : Type}

/-- `bc_runtime_get_metrics`; the allocator may fail to report. -/
def runtimeGetMetrics (memoryStats : Option Stats) (threadCount : Nat)
    (application : Runtime Callbacks UserData) (m : Machine) : Option (RuntimeMetrics Stats) :=
  memoryStats.map fun stats =>
    { memoryStats := stats
      parallelThreadCount := threadCount
      state := application.state
      logMessagesWritten := application.logMessagesWritten
      configEntriesCount := m.store.entries.length }

variable [BcCore]

/-- In every state reached from a created store: the representation, the room for
the next entry once a full array has been doubled, and the metric. -/
theorem reachable_store {host : Host} {m₀ m₁ : Machine}
    (created : configStoreCreate host m₀ = (some (), m₁)) (operations : List StoreOperation) :
    (operations.foldl (stepStore host) m₁).store.Represents (everStored host m₁ operations) ∧
    Fallible.wp growEntries
      (fun _ m' => m'.store.Fits ∧ m'.store.entries.length < m'.store.entryCapacity)
      (fun m' => m'.store.Fits) host (operations.foldl (stepStore host) m₁) ∧
    ∀ (application : Runtime Callbacks UserData) (stats : Stats) (threadCount : Nat),
      (runtimeGetMetrics (some stats) threadCount application
        (operations.foldl (stepStore host) m₁)).map RuntimeMetrics.configEntriesCount =
      some (everStored host m₁ operations).toFinset.card := by
  have represents := reachable_represents created operations
  refine ⟨represents, growEntries_fits represents.fits, fun _ _ _ => ?_⟩
  exact congrArg some represents.count

/-- A host on which some arena copies fail and others do not. -/
def sparingHost : Host where
  succeeds n call :=
    match call with
    | .arenaCopyString _ => n % 7 ≠ 0
    | _ => true
  environ := []
  fileContent _ := []
  readCount _ := 1

def mixedOperations : List StoreOperation :=
  [.set (.lit "b") (.lit "1"), .append (.lit "b") (.lit "2") 10, .sort,
    .loadFromBuffer (CString.lit "a = 3\nb = 4\nc = 5").bytes,
    .loadEnvironment [.lit "BC_APP_D=6"], .loadArguments [.lit "program", .lit "--e=7"], .sort]

omit [BcCore] in
theorem reachable_store_mixed :
    (mixedOperations.foldl (@stepStore .reference sparingHost)
        (configStoreCreate sparingHost .initial).2).store.Represents
      (@everStored .reference sparingHost (configStoreCreate sparingHost .initial).2
        mixedOperations) :=
  (@reachable_store Unit Unit Unit .reference sparingHost .initial _ rfl mixedOperations).1

end BcRuntime
