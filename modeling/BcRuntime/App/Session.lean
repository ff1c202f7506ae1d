import BcRuntime.App.Precedence
import BcRuntime.App.Unwinding
import BcRuntime.Log.Logging
import Mathlib.Data.List.Perm.Subperm

/-!
A whole session with an application: it is created, log buffers and error collectors come
and go while it is in use, those left are destroyed, and then the application is. At every
point what is held is what the live objects are made of, and nothing of it has been given
back, so no object can be touched by the end of another.
-/

namespace BcRuntime
open Fallible Run

/-- `sizeof(bc_runtime_log_buffer_t)`. -/
def logBufferSize : Nat := 56

/-- A log buffer with the blocks of the structure and of its data. -/
structure HeldLogBuffer where
  block : Resource
  dataBlock : Resource
  buffer : LogBuffer

def HeldLogBuffer.resources (held : HeldLogBuffer) : List Resource := [held.dataBlock, held.block]

/-- `bc_runtime_log_buffer_create`; `contents` is what the data block holds when it is
handed out, as many bytes as were asked for. -/
def logBufferCreate (logLevel : LogLevel) (contents : List UInt8) : Run HeldLogBuffer := do
  let block ← poolAllocate logBufferSize
  let dataBlock ← onFailure (poolAllocate contents.length) (release block)
  pure ⟨block, dataBlock, .created contents logLevel⟩

def logBufferDestroy (held : HeldLogBuffer) : Run Unit := do
  release held.dataBlock
  release held.block

/-- What the collector relies on of the typed array of its records, and its own size with
the array in it. A push may acquire memory for the array and give memory of it back, and
leaves it as it was when it fails; the destruction gives back all of it. -/
structure RecordsMemory where
  collectorSize : Nat
  push : List Resource → Run (List Resource)
  destroy : List Resource → Run Unit
  push_holds : ∀ (host : Host) (start m : Machine) (array others : List Resource),
    Holds start (array ++ others) m →
      wp (push array) (fun array' m' => m'.store = m.store ∧ Holds start (array' ++ others) m')
        (fun m' => m'.store = m.store ∧ Holds start (array ++ others) m') host m
  destroy_holds : ∀ (host : Host) (start m : Machine) (array others : List Resource),
    Holds start (array ++ others) m →
      wp (destroy array) (fun _ m' => m'.store = m.store ∧ Holds start others m')
        (fun _ => False) host m

/-- An error collector with its block and the memory of its records. -/
structure HeldCollector where
  block : Resource
  array : List Resource

def HeldCollector.resources (held : HeldCollector) : List Resource := held.array ++ [held.block]

/-- `bc_runtime_error_collector_create`; the zeroed array holds nothing. -/
def errorCollectorCreate (memory : RecordsMemory) : Run HeldCollector := do
  let block ← poolAllocate memory.collectorSize
  pure ⟨block, []⟩

def errorCollectorDestroy (memory : RecordsMemory) (held : HeldCollector) : Run Unit := do
  memory.destroy held.array
  release held.block

/-- The push of `bc_runtime_error_collector_append`, as far as memory goes. -/
def errorCollectorPush (memory : RecordsMemory) (held : HeldCollector) : Run HeldCollector := do
  let array ← memory.push held.array
  pure { held with array := array }

/-- An application and what has been created for it and not destroyed. -/
structure Session (Callbacks UserData : Type) where
  application : Runtime Callbacks UserData
  buffers : List HeldLogBuffer
  collectors : List HeldCollector

/-- What a program may do in between; the numbers name live objects. -/
inductive SessionOperation
  | setLevel (level : LogLevel)
  | createBuffer (contents : List UInt8)
  | destroyBuffer (n : Nat)
  | createCollector
  | appendError (n : Nat)
  | destroyCollector (n : Nat)

namespace Session
variable {Callbacks UserData : Type}

def created (application : Runtime Callbacks UserData) : Session Callbacks UserData :=
  ⟨application, [], []⟩

def objects (session : Session Callbacks UserData) : List Resource :=
  session.collectors.flatMap HeldCollector.resources ++
    session.buffers.flatMap HeldLogBuffer.resources

def resources (session : Session Callbacks UserData) (store : ConfigStore) : List Resource :=
  session.objects ++ session.application.resources store

/-- An operation; one that names no live object does nothing. -/
def perform (memory : RecordsMemory) (session : Session Callbacks UserData) :
    SessionOperation → Run (Session Callbacks UserData)
  | .setLevel level =>
      pure { session with application := { session.application with logLevel := level } }
  | .createBuffer contents => do
      let held ← logBufferCreate session.application.logLevel contents
      pure { session with buffers := held :: session.buffers }
  | .destroyBuffer n =>
      match session.buffers[n]? with
      | none => pure session
      | some held => do
          logBufferDestroy held
          pure { session with buffers := session.buffers.eraseIdx n }
  | .createCollector => do
      let held ← errorCollectorCreate memory
      pure { session with collectors := held :: session.collectors }
  | .appendError n =>
      match session.collectors[n]? with
      | none => pure session
      | some held => do
          let grown ← errorCollectorPush memory held
          pure { session with collectors := session.collectors.set n grown }
  | .destroyCollector n =>
      match session.collectors[n]? with
      | none => pure session
      | some held => do
          errorCollectorDestroy memory held
          pure { session with collectors := session.collectors.eraseIdx n }

/-- The session and the machine after an operation, which leaves the session as it was
when it fails. -/
def step (memory : RecordsMemory) (host : Host) (state : Session Callbacks UserData × Machine)
    (operation : SessionOperation) : Session Callbacks UserData × Machine :=
  match state.1.perform memory operation host state.2 with
  | (some session, m) => (session, m)
  | (none, m) => (state.1, m)

def destroyBuffers : List HeldLogBuffer → Run Unit
  | [] => pure ()
  | held :: rest => do
      logBufferDestroy held
      destroyBuffers rest

def destroyCollectors (memory : RecordsMemory) : List HeldCollector → Run Unit
  | [] => pure ()
  | held :: rest => do
      errorCollectorDestroy memory held
      destroyCollectors memory rest

/-- The end of a program that destroys what it has created. -/
def close (memory : RecordsMemory) (session : Session Callbacks UserData) : Run Unit := do
  destroyCollectors memory session.collectors
  destroyBuffers session.buffers
  runtimeDestroy session.application

end Session

section Rules
variable {host : Host} {start m : Machine} {others : List Resource}

theorem logBufferCreate_holds (logLevel : LogLevel) (contents : List UInt8)
    (h : Holds start others m) :
    wp (logBufferCreate logLevel contents)
      (fun held m' => m'.store = m.store ∧ Holds start (held.resources ++ others) m')
      (fun m' => m'.store = m.store ∧ Holds start others m') host m := by
  simp only [logBufferCreate, wp_bind, wp_onFailure]
  refine wp_mono (acquire_holds _ _ h) ?_ fun _ failed => failed
  intro block m₁ first
  obtain ⟨-, store₁, allocated⟩ := first
  refine wp_mono (acquire_holds _ _ allocated) ?_ ?_
  · intro dataBlock m₂ second
    exact ⟨second.2.1.trans store₁, second.2.2⟩
  · intro m₂ failed
    refine wp_mono (release_holds failed.2) ?_ fun _ impossible => impossible
    intro _ m₃ released
    exact ⟨(released.1.trans failed.1).trans store₁, released.2⟩

theorem logBufferDestroy_holds (held : HeldLogBuffer) (h : Holds start (held.resources ++ others) m) :
    wp (logBufferDestroy held) (fun _ m' => m'.store = m.store ∧ Holds start others m')
      (fun _ => False) host m := by
  simp only [logBufferDestroy, wp_bind]
  refine wp_mono (release_holds h) ?_ fun _ impossible => impossible
  intro _ m₁ first
  refine wp_mono (release_holds first.2) ?_ fun _ impossible => impossible
  exact fun _ m₂ second => ⟨second.1.trans first.1, second.2⟩

theorem errorCollectorCreate_holds (memory : RecordsMemory) (h : Holds start others m) :
    wp (errorCollectorCreate memory)
      (fun held m' => m'.store = m.store ∧ Holds start (held.resources ++ others) m')
      (fun m' => m'.store = m.store ∧ Holds start others m') host m := by
  rw [errorCollectorCreate, wp_bind]
  refine wp_mono (acquire_holds _ _ h) ?_ fun _ failed => failed
  exact fun block m₁ allocated => ⟨allocated.2.1, allocated.2.2⟩

variable (memory : RecordsMemory)

theorem errorCollectorPush_holds (held : HeldCollector)
    (h : Holds start (held.resources ++ others) m) :
    wp (errorCollectorPush memory held)
      (fun grown m' => m'.store = m.store ∧ Holds start (grown.resources ++ others) m')
      (fun m' => m'.store = m.store ∧ Holds start (held.resources ++ others) m') host m := by
  rw [HeldCollector.resources, List.append_assoc] at h ⊢
  rw [errorCollectorPush, wp_bind]
  refine wp_mono (memory.push_holds host start m held.array _ h) ?_ fun _ failed => failed
  intro array m₁ pushed
  rw [wp_pure, HeldCollector.resources, List.append_assoc]
  exact pushed

theorem errorCollectorDestroy_holds (held : HeldCollector)
    (h : Holds start (held.resources ++ others) m) :
    wp (errorCollectorDestroy memory held)
      (fun _ m' => m'.store = m.store ∧ Holds start others m') (fun _ => False) host m := by
  rw [HeldCollector.resources, List.append_assoc] at h
  rw [errorCollectorDestroy, wp_bind]
  refine wp_mono (memory.destroy_holds host start m held.array _ h) ?_ fun _ impossible => impossible
  intro _ m₁ first
  refine wp_mono (release_holds first.2) ?_ fun _ impossible => impossible
  exact fun _ m₂ second => ⟨second.1.trans first.1, second.2⟩

end Rules

section Sessions
variable {Callbacks UserData : Type} {host : Host} {start m : Machine}
  (memory : RecordsMemory) {session : Session Callbacks UserData}

theorem flatMap_eraseIdx {α : Type} (resources : α → List Resource) {objects : List α} {n : Nat}
    {object : α} (cell : objects[n]? = some object) :
    (objects.flatMap resources).Perm (resources object ++ (objects.eraseIdx n).flatMap resources) := by
  induction objects generalizing n with
  | nil => simp at cell
  | cons first objects ih =>
      cases n with
      | zero =>
          obtain rfl : first = object := by simpa using cell
          simp
      | succ n =>
          have rest := ih (n := n) (by simpa using cell)
          simp only [List.flatMap_cons, List.eraseIdx_cons_succ]
          refine (rest.append_left _).trans ?_
          rw [← List.append_assoc, ← List.append_assoc]
          exact List.perm_append_comm.append_right _

theorem flatMap_set {α : Type} (resources : α → List Resource) {objects : List α} {n : Nat}
    {object : α} (cell : objects[n]? = some object) (changed : α) :
    ((objects.set n changed).flatMap resources).Perm
      (resources changed ++ (objects.eraseIdx n).flatMap resources) := by
  have inside : n < objects.length := (List.getElem?_eq_some_iff.mp cell).1
  have there : (objects.set n changed)[n]? = some changed := by simp [inside]
  have same : (objects.set n changed).eraseIdx n = objects.eraseIdx n := by
    rw [List.eraseIdx_set_eq]
  have split := flatMap_eraseIdx resources there
  rwa [same] at split

/-- The same resources, in whatever order the objects that are made of them stand. -/
theorem Holds.recount {held held' : List Resource} (h : Holds start held m)
    (same : ∀ r, held.count r = held'.count r) : Holds start held' m :=
  h.perm (List.perm_iff_count.mpr same)

theorem Session.count_resources (session : Session Callbacks UserData) (store : ConfigStore)
    (r : Resource) : (session.resources store).count r =
      (session.collectors.flatMap HeldCollector.resources).count r +
        (session.buffers.flatMap HeldLogBuffer.resources).count r +
          (session.application.resources store).count r := by
  rw [Session.resources, Session.objects, List.count_append, List.count_append]

/-- A live log buffer beside everything else, and a live collector. -/
theorem Session.count_buffer (session : Session Callbacks UserData) {n : Nat}
    {held : HeldLogBuffer} (cell : session.buffers[n]? = some held) (store : ConfigStore)
    (r : Resource) : (session.resources store).count r = (held.resources ++
      { session with buffers := session.buffers.eraseIdx n }.resources store).count r := by
  have counted := (flatMap_eraseIdx HeldLogBuffer.resources cell).count_eq r
  simp only [List.count_append, Session.count_resources] at counted ⊢
  omega

theorem Session.count_collector (session : Session Callbacks UserData) {n : Nat}
    {held : HeldCollector} (cell : session.collectors[n]? = some held) (store : ConfigStore)
    (r : Resource) : (session.resources store).count r = (held.resources ++
      { session with collectors := session.collectors.eraseIdx n }.resources store).count r := by
  have counted := (flatMap_eraseIdx HeldCollector.resources cell).count_eq r
  simp only [List.count_append, Session.count_resources] at counted ⊢
  omega

theorem Session.perform_holds (h : Holds start (session.resources m.store) m)
    (operation : SessionOperation) :
    wp (session.perform memory operation)
      (fun next m' => next.application.memoryContext = session.application.memoryContext ∧
        Holds start (next.resources m'.store) m')
      (fun m' => Holds start (session.resources m'.store) m') host m := by
  cases operation with
  | setLevel level => exact ⟨rfl, h⟩
  | createBuffer contents =>
      rw [Session.perform, wp_bind]
      refine wp_mono (logBufferCreate_holds _ contents h) ?_ fun m' failed => failed.1 ▸ failed.2
      intro held m' made
      refine ⟨rfl, made.2.recount fun r => ?_⟩
      simp only [List.count_append, Session.count_resources, List.flatMap_cons, made.1]
      omega
  | destroyBuffer n =>
      rw [Session.perform]
      cases cell : session.buffers[n]? with
      | none => exact ⟨rfl, h⟩
      | some held =>
          have apart := h.recount (session.count_buffer cell m.store)
          simp only [wp_bind]
          refine wp_mono (logBufferDestroy_holds held apart) ?_ fun _ impossible => impossible.elim
          intro _ m' gone
          rw [wp_pure, gone.1]
          exact ⟨rfl, gone.2⟩
  | createCollector =>
      rw [Session.perform, wp_bind]
      refine wp_mono (errorCollectorCreate_holds memory h) ?_ fun m' failed => failed.1 ▸ failed.2
      intro held m' made
      refine ⟨rfl, made.2.recount fun r => ?_⟩
      simp only [List.count_append, Session.count_resources, List.flatMap_cons, made.1]
      omega
  | appendError n =>
      rw [Session.perform]
      cases cell : session.collectors[n]? with
      | none => exact ⟨rfl, h⟩
      | some held =>
          have apart := h.recount (session.count_collector cell m.store)
          simp only [wp_bind]
          refine wp_mono (errorCollectorPush_holds memory held apart) ?_ ?_
          · intro grown m' pushed
            have together := flatMap_set HeldCollector.resources cell grown
            refine ⟨rfl, pushed.2.recount fun r => ?_⟩
            have counted := together.count_eq r
            simp only [List.count_append, Session.count_resources, pushed.1] at counted ⊢
            omega
          · intro m' failed
            rw [failed.1]
            exact failed.2.recount fun r => (session.count_collector cell m.store r).symm
  | destroyCollector n =>
      rw [Session.perform]
      cases cell : session.collectors[n]? with
      | none => exact ⟨rfl, h⟩
      | some held =>
          have apart := h.recount (session.count_collector cell m.store)
          simp only [wp_bind]
          refine wp_mono (errorCollectorDestroy_holds memory held apart) ?_
            fun _ impossible => impossible.elim
          intro _ m' gone
          rw [wp_pure, gone.1]
          exact ⟨rfl, gone.2⟩

/-- Whatever the program does in between, with whatever outcomes. -/
theorem Session.run_holds (h : Holds start (session.resources m.store) m)
    (operations : List SessionOperation) :
    let ended := operations.foldl (Session.step memory host) (session, m)
    ended.1.application.memoryContext = session.application.memoryContext ∧
      Holds start (ended.1.resources ended.2.store) ended.2 := by
  induction operations generalizing session m with
  | nil => exact ⟨rfl, h⟩
  | cons operation operations ih =>
      have performed : wp (session.perform memory operation) _ _ host m :=
        session.perform_holds memory h operation
      rw [List.foldl_cons, Session.step]
      cases run : session.perform memory operation host m with
      | mk result m' =>
          cases result with
          | none =>
              have kept := wp_none performed run
              exact ih kept
          | some next =>
              have changed := wp_some performed run
              have later := ih changed.2
              exact ⟨later.1.trans changed.1, later.2⟩

theorem destroyCollectors_holds (collectors : List HeldCollector) {others : List Resource}
    (h : Holds start (collectors.flatMap HeldCollector.resources ++ others) m) :
    wp (Session.destroyCollectors memory collectors)
      (fun _ m' => m'.store = m.store ∧ Holds start others m') (fun _ => False) host m := by
  induction collectors generalizing m with
  | nil => exact ⟨rfl, h⟩
  | cons held rest ih =>
      rw [List.flatMap_cons, List.append_assoc] at h
      rw [Session.destroyCollectors, wp_bind]
      refine wp_mono (errorCollectorDestroy_holds memory held h) ?_ fun _ impossible => impossible
      intro _ m₁ gone
      refine wp_mono (ih gone.2) ?_ fun _ impossible => impossible
      exact fun _ m₂ ended => ⟨ended.1.trans gone.1, ended.2⟩

theorem destroyBuffers_holds (buffers : List HeldLogBuffer) {others : List Resource}
    (h : Holds start (buffers.flatMap HeldLogBuffer.resources ++ others) m) :
    wp (Session.destroyBuffers buffers)
      (fun _ m' => m'.store = m.store ∧ Holds start others m') (fun _ => False) host m := by
  induction buffers generalizing m with
  | nil => exact ⟨rfl, h⟩
  | cons held rest ih =>
      rw [List.flatMap_cons, List.append_assoc] at h
      rw [Session.destroyBuffers, wp_bind]
      refine wp_mono (logBufferDestroy_holds held h) ?_ fun _ impossible => impossible
      intro _ m₁ gone
      refine wp_mono (ih gone.2) ?_ fun _ impossible => impossible
      exact fun _ m₂ ended => ⟨ended.1.trans gone.1, ended.2⟩

theorem Session.close_unwound (h : Holds start (session.resources m.store) m)
    (kind : session.application.memoryContext.kind = .memoryContext) :
    wp (session.close memory) (fun _ m' => ∃ events, Unwound start m' events) (fun _ => False)
      host m := by
  rw [Session.resources, Session.objects, List.append_assoc] at h
  simp only [Session.close, wp_bind]
  refine wp_mono (destroyCollectors_holds memory _ h) ?_ fun _ impossible => impossible
  intro _ m₁ collectors
  refine wp_mono (destroyBuffers_holds _ collectors.2) ?_ fun _ impossible => impossible
  intro _ m₂ buffers
  rw [← collectors.1, ← buffers.1] at buffers
  exact runtimeDestroy_unwound session.application host kind buffers.2

/-- Of the events so far, what has been acquired and not given back is held, once. -/
structure HeldExactly (start m : Machine) (held : List Resource) : Prop where
  once : held.Nodup
  exactly : ∃ events, m.trace = start.trace ++ events ∧
    (∀ r, events.count (.acquired r) ≤ 1 ∧ events.count (.released r) ≤ 1) ∧
      ∀ r, r ∈ held ↔ .acquired r ∈ events ∧ .released r ∉ events

omit memory in
theorem Holds.heldExactly {held : List Resource} (h : Holds start held m) :
    HeldExactly start m held := by
  obtain ⟨events, trace, ledger, -⟩ := h
  have counted : ∀ r, events.count (.released r) + held.count r = events.count (.acquired r) ∧
      events.count (.acquired r) ≤ 1 := fun r => ⟨ledger.balance r, ledger.acquired_once r⟩
  refine ⟨List.nodup_iff_count_le_one.mpr fun r => ?_, events, trace, fun r => ?_, fun r => ?_⟩
  · have := counted r
    omega
  · have := counted r
    omega
  · have here := counted r
    rw [← List.count_pos_iff, ← List.count_pos_iff, ← List.count_eq_zero]
    omega

end Sessions

section Whole
variable [BcCore] {Callbacks UserData : Type} {host : Host}

/-- From the creation on, in every session on every host: what is held is what the live
objects are made of, and when those left are destroyed everything has been given back, the
memory context last. -/
theorem session_unwinds (memory : RecordsMemory) (config : RuntimeConfig) (callbacks : Callbacks)
    (userData : UserData) (m m₁ : Machine) (application : Runtime Callbacks UserData)
    (created : runtimeCreate config callbacks userData host m = (some application, m₁))
    (operations : List SessionOperation) :
    let ended := operations.foldl (Session.step memory host) (Session.created application, m₁)
    HeldExactly m ended.2 (ended.1.resources ended.2.store) ∧
      ∃ m₂ events, ended.1.close memory host ended.2 = (some (), m₂) ∧ Unwound m m₂ events := by
  obtain ⟨kind, holds⟩ := wp_some (runtimeCreate_holds config callbacks userData host m) created
  obtain ⟨same, live⟩ :=
    @Session.run_holds _ _ host m m₁ memory (Session.created application) holds operations
  refine ⟨live.heldExactly, ?_⟩
  obtain ⟨_, m₂, closed, events, unwound⟩ :=
    exists_run_of_wp (Session.close_unwound memory live (same ▸ kind))
  exact ⟨m₂, events, closed, unwound⟩

theorem runtimeCreate_succeeds (calls : host.AllCallsSucceed) (reads : host.ReadsDeliver)
    (config : RuntimeConfig) (callbacks : Callbacks) (userData : UserData) (m : Machine) :
    ∃ application m₁,
      runtimeCreate config callbacks userData host m = (some application, m₁) := by
  obtain ⟨application, m₁, created, -⟩ :=
    exists_run_of_wp (runtimeCreate_spec calls reads config callbacks userData m)
  exact ⟨application, m₁, created⟩

end Whole

section Reallocating
variable {host : Host} {start m : Machine} {others : List Resource}

def releaseAll : List Resource → Run Unit
  | [] => pure ()
  | block :: rest => do
      release block
      releaseAll rest

theorem releaseAll_holds (blocks : List Resource) (h : Holds start (blocks ++ others) m) :
    wp (releaseAll blocks) (fun _ m' => m'.store = m.store ∧ Holds start others m')
      (fun _ => False) host m := by
  induction blocks generalizing m with
  | nil => exact ⟨rfl, h⟩
  | cons block rest ih =>
      rw [releaseAll, wp_bind]
      refine wp_mono (release_holds h) ?_ fun _ impossible => impossible
      intro _ m₁ first
      refine wp_mono (ih first.2) ?_ fun _ impossible => impossible
      exact fun _ m₂ second => ⟨second.1.trans first.1, second.2⟩

/-- An array in one block, had with the first push and moved to a new one by the others. -/
def growArray : List Resource → Run (List Resource)
  | [] => do
      let block ← poolAllocate 256
      pure [block]
  | block :: rest => do
      let moved ← poolReallocate block 512
      pure (moved :: rest)

theorem growArray_holds (array : List Resource) (h : Holds start (array ++ others) m) :
    wp (growArray array) (fun array' m' => m'.store = m.store ∧ Holds start (array' ++ others) m')
      (fun m' => m'.store = m.store ∧ Holds start (array ++ others) m') host m := by
  cases array with
  | nil =>
      rw [growArray, wp_bind]
      refine wp_mono (acquire_holds _ _ h) ?_ fun _ failed => failed
      exact fun block m₁ allocated => ⟨allocated.2.1, allocated.2.2⟩
  | cons block rest =>
      rw [growArray, wp_bind]
      exact poolReallocate_holds _ h

def RecordsMemory.reallocating : RecordsMemory where
  collectorSize := 48
  push := growArray
  destroy := releaseAll
  push_holds := fun _ _ _ array _ h => growArray_holds array h
  destroy_holds := fun _ _ _ array _ h => releaseAll_holds array h

/-- Two collectors and a buffer, of which one collector is destroyed before the end. -/
def collectingOperations : List SessionOperation :=
  [.createCollector, .createBuffer [0, 0], .createCollector, .appendError 0, .appendError 0,
    .setLevel .debug, .destroyCollector 0, .appendError 0]

theorem session_unwinds_collecting :
    ∃ m₁ application, @runtimeCreate .reference _ _ layeredConfig () () layeredHost .initial =
        (some application, m₁) ∧
      let ended := collectingOperations.foldl
        (Session.step .reallocating layeredHost) (Session.created application, m₁)
      HeldExactly .initial ended.2 (ended.1.resources ended.2.store) ∧
        ∃ m₂ events, ended.1.close .reallocating layeredHost ended.2 = (some (), m₂) ∧
          Unwound .initial m₂ events := by
  obtain ⟨application, m₁, created⟩ := @runtimeCreate_succeeds .reference _ _ layeredHost
    (fun _ _ => rfl) (fun _ => Nat.one_pos) layeredConfig () () .initial
  have unwound := @session_unwinds .reference _ _ layeredHost .reallocating layeredConfig () ()
    .initial m₁ application created collectingOperations
  exact ⟨m₁, application, created, unwound⟩

end Reallocating

end BcRuntime
