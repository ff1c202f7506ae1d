import BcRuntime.App.Lifecycle
import BcRuntime.Config.Holdings

/-!
Creation leaves nothing behind when it fails, wherever it fails, and what it
leaves when it succeeds is what destruction gives back. Each label of the chain
of `goto`s releases the last resource acquired before it, so the ledger is
shortened in the opposite order to that in which it has grown.
-/

namespace BcRuntime
open Fallible Run

/-- Since the machine `start` every resource acquired has been released exactly once
and after its acquisition, and the memory context last. -/
structure Unwound (start m : Machine) (events : List Event) : Prop where
  trace : m.trace = start.trace ++ events
  released_once : ∀ r, .acquired r ∈ events →
    events.count (.acquired r) = 1 ∧ events.count (.released r) = 1
  ordered : ∀ first, first <+: events → ∀ r, .released r ∈ first → .acquired r ∈ first
  context_last : ∀ event, events.getLast? = some event →
    ∃ id, event = .released ⟨.memoryContext, id⟩

theorem Ledger.released_once {events : List Event} (h : Ledger events []) {r : Resource}
    (mem : .acquired r ∈ events) :
    events.count (.acquired r) = 1 ∧ events.count (.released r) = 1 := by
  have once := h.acquired_once r
  have balance := h.balance r
  have some_time := List.count_pos_iff.mpr mem
  rw [List.count_nil] at balance
  omega

/-- Nothing has been acquired. -/
theorem Unwound.of_trace_eq {start m : Machine} (same : m.trace = start.trace) :
    Unwound start m [] where
  trace := same.trans (List.append_nil _).symm
  released_once := fun _ mem => absurd mem List.not_mem_nil
  ordered := Ledger.nil.ordered
  context_last := fun _ last => absurd last (by simp)

/-- The memory context was all that was still held. -/
theorem Holds.unwound {start m : Machine} {context : Resource} (h : Holds start [context] m)
    (kind : context.kind = .memoryContext) (host : Host) {Q : Machine → Prop} :
    wp (Run.release context) (fun _ m' => ∃ events, Unwound start m' events) Q host m := by
  obtain ⟨events, trace, ledger, -⟩ := h
  have settled := ledger.release
  refine (wp_release _ _).mpr ⟨events ++ [.released context], ?_, ?_, settled.ordered, ?_⟩
  · rw [trace, List.append_assoc]
  · exact fun r mem => settled.released_once mem
  · intro event last
    rw [List.getLast?_concat, Option.some_inj] at last
    obtain ⟨_, id⟩ := context
    obtain rfl : _ = ResourceKind.memoryContext := kind
    exact ⟨id, last.symm⟩

/-- A label: acquire, and release again when what follows fails. -/
theorem guarded_holds {α : Type} {host : Host} {start m : Machine} {held : List Resource}
    (h : Holds start held m) (kind : ResourceKind) (call : ExternalCall) (body : Resource → Run α)
    {Q : α → Machine → Prop}
    (rest : ∀ r m', r.kind = kind → Holds start (r :: held) m' →
      wp (body r) Q (Holds start (r :: held)) host m') :
    wp (do
      let r ← acquire kind call
      onFailure (body r) (release r)) Q (Holds start held) host m := by
  rw [wp_bind]
  refine wp_mono (acquire_holds kind call h) ?_ fun _ failed => failed.2
  rintro r m₁ ⟨is_kind, -, acquired⟩
  rw [wp_onFailure]
  refine wp_mono (rest r m₁ is_kind acquired) (fun _ _ done => done) fun m₂ failed => ?_
  exact wp_mono (release_holds failed) (fun _ _ released => released.2) fun _ failed => failed

section Creation
variable [BcCore] {host : Host} {start m : Machine} {held : List Resource}

omit [BcCore] in
theorem configStoreCreate_holds (h : Holds start held m) :
    wp configStoreCreate (fun _ m' => Holds start (m'.store.resources ++ held) m')
      (Holds start held) host m := by
  simp only [configStoreCreate, wp_bind, wp_onFailure]
  refine wp_mono (acquire_holds _ _ h) ?_ fun _ failed => failed.2
  rintro block m₁ ⟨-, -, allocated⟩
  refine wp_mono (acquire_holds _ _ allocated) ?_ ?_
  · rintro arena m₂ ⟨-, -, created⟩
    refine wp_mono (acquire_holds _ _ created) ?_ ?_
    · rintro entries m₃ ⟨-, -, acquired⟩
      exact (acquired.perm (.swap _ _ _)).of_trace_eq rfl (Nat.le_refl _)
    · rintro m₃ ⟨-, failed⟩
      refine wp_mono (release_holds failed) ?_ fun _ failed => failed
      rintro _ m₄ ⟨-, failed⟩
      exact wp_mono (release_holds failed) (fun _ _ released => released.2) fun _ failed => failed
  · rintro m₂ ⟨-, failed⟩
    exact wp_mono (release_holds failed) (fun _ _ released => released.2) fun _ failed => failed

omit [BcCore] in
theorem configStoreDestroy_holds (h : Holds start (m.store.resources ++ held) m)
    {E : Machine → Prop} :
    wp configStoreDestroy (fun _ => Holds start held) E host m := by
  simp only [configStoreDestroy, wp_bind, wp_get]
  refine wp_mono (release_holds h) ?_ fun _ failed => failed
  rintro _ m₁ ⟨-, rest⟩
  refine wp_mono (release_holds rest) ?_ fun _ failed => failed
  rintro _ m₂ ⟨-, rest⟩
  exact wp_mono (release_holds rest) (fun _ _ released => released.2) fun _ failed => failed

variable {Callbacks UserData : Type}

omit [BcCore] in
theorem holds_of_keeps {α : Type} {c : Run α} (kept : Keeps KeepsHoldings c)
    (h : Holds start (m.store.resources ++ held) m) :
    wp c (fun _ m' => Holds start (m'.store.resources ++ held) m')
      (fun m' => Holds start (m'.store.resources ++ held) m') host m :=
  wp_mono (kept host m) (fun _ _ kept => kept _ _ h) fun _ kept => kept _ _ h

/-- What is done once there is a store, up to the last resource. -/
theorem furnish_holds (config : RuntimeConfig) {α : Type} (application : Resource → α)
    (h : Holds start (m.store.resources ++ held) m) :
    wp (do
        loadConfigFile config.configFilePath
        loadEnvironment
        loadArgumentValues config.argumentValues
        configStoreSort
        let parallelContext ← acquire .parallelContext .concurrencyCreate
        pure (application parallelContext))
      (fun result m' => ∃ parallelContext, result = application parallelContext ∧
        Holds start (parallelContext :: (m'.store.resources ++ held)) m')
      (fun m' => Holds start (m'.store.resources ++ held) m') host m := by
  have file : Keeps KeepsHoldings (loadConfigFile config.configFilePath) := by
    cases config.configFilePath with
    | none => exact .pure _
    | some configFilePath => exact loadFile_keepsHoldings configFilePath
  have arguments : Keeps KeepsHoldings (loadArgumentValues config.argumentValues) := by
    cases config.argumentValues with
    | none => exact .pure _
    | some argumentValues =>
        have loaded : Keeps KeepsHoldings (loadArguments argumentValues) :=
          loadArguments_keeps configStoreSet_keepsHoldings external_keepsHoldings _
        exact .ite loaded (.pure _)
  have environment : Keeps KeepsHoldings loadEnvironment :=
    loadEnvironment_keeps configStoreSet_keepsHoldings external_keepsHoldings
  simp only [wp_bind]
  refine wp_mono (holds_of_keeps file h) (fun _ m₁ h => ?_) fun _ failed => failed
  refine wp_mono (holds_of_keeps environment h) (fun _ m₂ h => ?_) fun _ failed => failed
  refine wp_mono (holds_of_keeps arguments h) (fun _ m₃ h => ?_) fun _ failed => failed
  refine wp_mono (holds_of_keeps configStoreSort_keepsHoldings h) (fun _ m₄ h => ?_)
    fun _ failed => failed
  refine wp_mono (acquire_holds _ _ h) ?_ ?_
  · rintro parallelContext m₅ ⟨-, store, acquired⟩
    rw [← store] at acquired
    exact ⟨parallelContext, rfl, acquired⟩
  · rintro m₅ ⟨store, failed⟩
    rw [store]
    exact failed

/-- What a created application holds, in the order in which it is destroyed. -/
def Runtime.resources (application : Runtime Callbacks UserData) (store : ConfigStore) :
    List Resource :=
  application.parallelContext :: application.signalHandler ::
    (store.resources ++ [application.block, application.memoryContext])

theorem runtimeCreate_holds (config : RuntimeConfig) (callbacks : Callbacks)
    (userData : UserData) (host : Host) (m : Machine) :
    wp (runtimeCreate config callbacks userData)
      (fun application m' => application.memoryContext.kind = .memoryContext ∧
        Holds m (application.resources m'.store) m')
      (fun m' => ∃ events, Unwound m m' events) host m := by
  have none_acquired : wp (acquire .memoryContext
      (.contextCreate config.maxPoolMemory config.memoryTrackingEnabled)) (fun _ _ => True)
      (fun m' => m'.trace = m.trace) host m := by
    rw [acquire, wp_bind, wp_external]
    exact ⟨fun _ => trivial, fun _ => rfl⟩
  rw [runtimeCreate, wp_bind]
  refine wp_mono (wp_and (acquire_holds _ _ (.refl m)) none_acquired) ?_
    fun m₁ failed => ⟨[], .of_trace_eq failed.2⟩
  rintro memoryContext m₁ ⟨⟨is_context, -, holds⟩, -⟩
  rw [wp_onFailure]
  refine wp_mono ?_ (fun _ _ done => done) fun m₂ failed =>
    Holds.unwound failed is_context host
  refine guarded_holds holds _ _ _ fun application m₂ _ holds => ?_
  refine guarded_holds holds _ _ _ fun signalHandler m₃ _ holds => ?_
  simp only [wp_bind]
  refine wp_mono (external_holds _ holds) ?_ fun _ failed => failed.2
  rintro _ m₄ ⟨-, holds⟩
  refine wp_mono (external_holds _ holds) ?_ fun _ failed => failed.2
  rintro _ m₅ ⟨-, holds⟩
  refine wp_mono (configStoreCreate_holds holds) (fun _ m₆ holds => ?_) fun _ failed => failed
  rw [wp_onFailure]
  refine wp_mono (furnish_holds config _ holds) ?_ fun m₇ failed => ?_
  · rintro result m₇ ⟨parallelContext, rfl, holds⟩
    refine ⟨is_context, holds.perm (.cons _ ?_)⟩
    exact List.perm_middle
  · exact wp_mono (configStoreDestroy_holds failed) (fun _ _ destroyed => destroyed)
      fun _ failed => failed

omit [BcCore] in
theorem runtimeDestroy_unwound (application : Runtime Callbacks UserData) (host : Host)
    (kind : application.memoryContext.kind = .memoryContext)
    (h : Holds start (application.resources m.store) m) :
    wp (runtimeDestroy application) (fun _ m' => ∃ events, Unwound start m' events)
      (fun _ => False) host m := by
  simp only [runtimeDestroy, wp_bind]
  refine wp_mono (release_holds h) ?_ fun _ failed => failed
  rintro _ m₁ ⟨store₁, holds⟩
  refine wp_mono (release_holds holds) ?_ fun _ failed => failed
  rintro _ m₂ ⟨store₂, holds⟩
  rw [← store₁, ← store₂] at holds
  refine wp_mono (configStoreDestroy_holds holds) (fun _ m₃ holds => ?_) fun _ failed => failed
  refine wp_mono (release_holds holds) ?_ fun _ failed => failed
  rintro _ m₄ ⟨-, holds⟩
  exact Holds.unwound holds kind host

/-- On every host, for every configuration and from every machine. -/
theorem runtimeCreate_unwinds (config : RuntimeConfig) (callbacks : Callbacks)
    (userData : UserData) (host : Host) (m : Machine) :
    (∀ m', runtimeCreate config callbacks userData host m = (none, m') →
      ∃ events, Unwound m m' events) ∧
    ∀ application m', runtimeCreate config callbacks userData host m = (some application, m') →
      ∃ m'' events, runtimeDestroy application host m' = (some (), m'') ∧
        Unwound m m'' events := by
  have spec := runtimeCreate_holds config callbacks userData host m
  refine ⟨((wp_iff _ _ _ _ _).mp spec).2, fun application m' run => ?_⟩
  obtain ⟨kind, holds⟩ := wp_some spec run
  obtain ⟨_, m'', destroyed, events, unwound⟩ :=
    exists_run_of_wp (runtimeDestroy_unwound application host kind holds)
  exact ⟨m'', events, destroyed, unwound⟩

end Creation

end BcRuntime
