import BcRuntime.Foundation.Fallible
import BcRuntime.Model.BcCore

/-!
The state the runtime's functions act on and the calls they make outside the
repository. A call outside is numbered in the order of execution and the host
decides its outcome from that number and the call, so every pattern of
successes and failures is some host. What a successful allocation hands out is
identified by the number of its call; acquisitions and releases are recorded.

Sizes are unbounded naturals: every size computed here is that of an object in
memory, and no such object reaches half of the address space. Where the source
itself guards against wrapping, the guard is modelled.
-/

namespace BcRuntime

inductive ExternalCall
  | contextCreate (maxPoolMemory : Nat) (trackingEnabled : Bool)
  | poolAllocate (size : Nat)
  | poolReallocate (size : Nat)
  | arenaCreate (capacity : Nat)
  | arenaCopyString (text : CString)
  | coreLength (text : CString)
  | coreEqual (count : Nat)
  | coreEqualCaseInsensitive
  | signalHandlerCreate
  | signalHandlerInstall (signal : Nat)
  | concurrencyCreate
  | fileOpen (path : CString)
  | writerInitBufferOnly
  | writerBufferData
deriving DecidableEq

/-- The calls a store operation makes. -/
def ExternalCall.isStoreCall : ExternalCall → Bool
  | .poolAllocate _ | .poolReallocate _ | .arenaCopyString _ | .coreLength _
  | .coreEqual _ => true
  | _ => false

/-- The outside of the process: the outcome of each numbered call, `environ`,
the file behind a path, and how many bytes the `n`-th call delivers when it is
an `fread`; zero before the end of the file is a read error. -/
structure Host where
  succeeds : Nat → ExternalCall → Bool
  environ : List CString
  fileContent : CString → List UInt8
  readCount : Nat → Nat

def Host.StoreCallsSucceed (host : Host) : Prop :=
  ∀ n call, call.isStoreCall = true → host.succeeds n call = true

/-- `bc_core_length` and `bc_core_equal` succeed; allocations may fail. -/
def Host.CoreCallsSucceed (host : Host) : Prop :=
  ∀ n, (∀ text, host.succeeds n (.coreLength text) = true) ∧
    ∀ count, host.succeeds n (.coreEqual count) = true

theorem Host.StoreCallsSucceed.core {host : Host} (h : host.StoreCallsSucceed) :
    host.CoreCallsSucceed := fun n => ⟨fun _ => h n _ rfl, fun _ => h n _ rfl⟩

inductive ResourceKind
  | memoryContext
  | poolBlock (size : Nat)
  | arena
  | signalHandler
  | parallelContext
  | file
deriving DecidableEq

structure Resource where
  kind : ResourceKind
  id : Nat
deriving DecidableEq

inductive Event
  | acquired (resource : Resource)
  | released (resource : Resource)
deriving DecidableEq

/-- `bc_runtime_config_entry_t`, with what every writer of an entry establishes. -/
structure ConfigEntry where
  key : CString
  keyLength : Nat
  value : CString
  keyLength_eq : keyLength = key.length
deriving DecidableEq

/-- `bc_runtime_config_store_t`. `entries` are the first `entry_count` cells of
the array in `entriesBlock`; `block` holds the structure itself. -/
structure ConfigStore where
  block : Resource
  arena : Resource
  entriesBlock : Resource
  entries : List ConfigEntry
  entryCapacity : Nat
  sorted : Bool
deriving DecidableEq

def ConfigStore.keys (store : ConfigStore) : List CString := store.entries.map ConfigEntry.key

/-- `bufferWrites` holds the index of every byte written into one of the
256-byte arrays of the command-line parser, `errorOutput` what was written to
its error stream. -/
structure Machine where
  calls : Nat
  trace : List Event
  store : ConfigStore
  bufferWrites : List Nat
  errorOutput : List (List UInt8)

/-- A machine before its first call; its store is still to be created. -/
def Machine.initial : Machine where
  calls := 0
  trace := []
  store :=
    { block := ⟨.poolBlock 0, 0⟩, arena := ⟨.arena, 0⟩, entriesBlock := ⟨.poolBlock 0, 0⟩,
      entries := [], entryCapacity := 0, sorted := false }
  bufferWrites := []
  errorOutput := []

/-- The host on which every call succeeds and every read delivers a byte. -/
def Host.obliging (environ : List CString) (content : List UInt8) : Host where
  succeeds _ _ := true
  environ := environ
  fileContent _ := content
  readCount _ := 1

theorem Host.obliging_storeCallsSucceed (environ : List CString) (content : List UInt8) :
    (Host.obliging environ content).StoreCallsSucceed := fun _ _ _ => rfl

abbrev Run := Fallible Host Machine

namespace Run
open Fallible

/-- Make a call outside; the result is the call's number. -/
def external (call : ExternalCall) : Run Nat := fun host m =>
  (if host.succeeds m.calls call then some m.calls else none, { m with calls := m.calls + 1 })

def record (event : Event) : Run Unit :=
  modify fun m => { m with trace := m.trace ++ [event] }

def acquire (kind : ResourceKind) (call : ExternalCall) : Run Resource := do
  let id ← external call
  record (.acquired ⟨kind, id⟩)
  pure ⟨kind, id⟩

def release (resource : Resource) : Run Unit := record (.released resource)

def poolAllocate (size : Nat) : Run Resource := acquire (.poolBlock size) (.poolAllocate size)

def poolReallocate (block : Resource) (size : Nat) : Run Resource := do
  let id ← external (.poolReallocate size)
  record (.released block)
  record (.acquired ⟨.poolBlock size, id⟩)
  pure ⟨.poolBlock size, id⟩

/-- `bc_allocators_arena_copy_string`: the copy is equal to the string. -/
def arenaCopyString (text : CString) : Run { copy : CString // copy = text } := do
  let _ ← external (.arenaCopyString text)
  pure ⟨text, rfl⟩

def coreLength [BcCore] (text : CString) : Run { count : Nat // count = text.length } := do
  let _ ← external (.coreLength text)
  pure ⟨BcCore.length text, BcCore.length_eq text⟩

def coreEqual [BcCore] (left right : List UInt8) (count : Nat) : Run Bool := do
  let _ ← external (.coreEqual count)
  pure (BcCore.equal left right count)

def coreEqualCaseInsensitiveAscii [BcCore] (left right : List UInt8) : Run Bool := do
  let _ ← external .coreEqualCaseInsensitive
  pure (BcCore.equalCaseInsensitiveAscii left right)

def modifyStore (f : ConfigStore → ConfigStore) : Run Unit :=
  modify fun m => { m with store := f m.store }

section Rules
variable {host : Host} {m : Machine} {E : Machine → Prop}

@[simp] theorem wp_external (call : ExternalCall) (Q : Nat → Machine → Prop) :
    wp (external call) Q E host m ↔
      (host.succeeds m.calls call = true → Q m.calls { m with calls := m.calls + 1 }) ∧
        (host.succeeds m.calls call = false → E { m with calls := m.calls + 1 }) := by
  cases h : host.succeeds m.calls call <;> simp [wp, external, h]

@[simp] theorem wp_modifyStore (f : ConfigStore → ConfigStore) (Q : Unit → Machine → Prop) :
    wp (modifyStore f) Q E host m ↔ Q () { m with store := f m.store } := Iff.rfl

@[simp] theorem wp_record (event : Event) (Q : Unit → Machine → Prop) :
    wp (record event) Q E host m ↔ Q () { m with trace := m.trace ++ [event] } := Iff.rfl

@[simp] theorem wp_release (resource : Resource) (Q : Unit → Machine → Prop) :
    wp (release resource) Q E host m ↔
      Q () { m with trace := m.trace ++ [.released resource] } := Iff.rfl

end Rules

end Run

end BcRuntime
