import BcRuntime.Model.Machine
import BcRuntime.Foundation.Bisection

/-!
The configuration store: creation, upsert, append, sort and lookup. A function
that returns `false` is a failing computation, and keeps what it did before.

The temporary buffer of the sort is a list of cells, empty until written. It is
emptied before each pass, so that a pass can only copy back what it wrote.
-/

namespace BcRuntime
open Fallible Run

def configStoreInitialCapacity : Nat := 1024
def configStoreArenaCapacity : Nat := 32768

/-- `sizeof(bc_runtime_config_store_t)` and `sizeof(bc_runtime_config_entry_t)`. -/
def configStoreSize : Nat := 48
def configEntrySize : Nat := 24

variable [BcCore]

def configStoreCreate : Run Unit := do
  let block ← poolAllocate configStoreSize
  let arena ← onFailure (acquire .arena (.arenaCreate configStoreArenaCapacity)) (release block)
  let entries ← onFailure (poolAllocate (configStoreInitialCapacity * configEntrySize)) do
    release arena
    release block
  modifyStore fun _ =>
    { block := block, arena := arena, entriesBlock := entries, entries := [],
      entryCapacity := configStoreInitialCapacity, sorted := false }

def configStoreDestroy : Run Unit := do
  let m ← get
  release m.store.arena
  release m.store.entriesBlock
  release m.store.block

/-- The scan over the entries from index `i` on: the first one with the key. -/
def scanEntries (key : CString) (keyLength : Nat) :
    List ConfigEntry → Nat → Run (Option (Nat × ConfigEntry))
  | [], _ => pure none
  | entry :: entries, i =>
      if entry.keyLength ≠ keyLength then scanEntries key keyLength entries (i + 1)
      else do
        let keysEqual ← coreEqual entry.key.bytes key.bytes keyLength
        if keysEqual then pure (some (i, entry))
        else scanEntries key keyLength entries (i + 1)

/-- `store->entries[i].value = copied_value`. -/
def assignValue (i : Nat) (value : CString) : Run Unit :=
  modifyStore fun store =>
    { store with entries := store.entries.modify i fun e => { e with value := value } }

/-- Double the entry array when it is full. -/
def growEntries : Run Unit := do
  let m ← get
  if m.store.entries.length = m.store.entryCapacity then
    let newCapacity := m.store.entryCapacity * 2
    let newEntries ← poolReallocate m.store.entriesBlock (newCapacity * configEntrySize)
    modifyStore fun store =>
      { store with entriesBlock := newEntries, entryCapacity := newCapacity }

def configStoreSet (key value : CString) : Run Unit := do
  let keyLength ← coreLength key
  let m ← get
  match ← scanEntries key keyLength m.store.entries 0 with
  | some (i, _) =>
      let copiedValue ← arenaCopyString value
      assignValue i copiedValue
  | none =>
      growEntries
      let copiedKey ← arenaCopyString key
      let copiedValue ← arenaCopyString value
      modifyStore fun store =>
        { store with
          entries := store.entries ++
            [{ key := copiedKey, keyLength := keyLength, value := copiedValue,
               keyLength_eq := by rw [copiedKey.2, keyLength.2] }]
          sorted := false }

def configStoreAppend (key value : CString) (separator : UInt8) : Run Unit := do
  let keyLength ← coreLength key
  let valueLength ← coreLength value
  let m ← get
  match ← scanEntries key keyLength m.store.entries 0 with
  | some (i, entry) =>
      let existing := entry.value
      let existingLength ← coreLength existing
      let combinedLength := existingLength.val + 1 + valueLength.val
      let combinedBlock ← poolAllocate (combinedLength + 1)
      -- the arena copies the buffer as a string, up to its first NUL
      let combined := CString.ofBuffer (existing.bytes ++ separator :: value.bytes)
      let copiedValue ← onFailure (arenaCopyString combined) (release combinedBlock)
      release combinedBlock
      assignValue i copiedValue
  | none => configStoreSet key value

def configEntryCompare (a b : ConfigEntry) : Int :=
  let minLength := if b.keyLength < a.keyLength then b.keyLength else a.keyLength
  let comparison := BcCore.compare a.key.bytes b.key.bytes minLength
  if comparison ≠ 0 then comparison
  else if a.keyLength < b.keyLength then -1
  else if a.keyLength > b.keyLength then 1
  else 0

abbrev Cells := List (Option ConfigEntry)

/-- The first loop of `merge_entries`, with the number of cells still to write:
the indices where it stops and the cells written by then. -/
def mergeHeads (entries : List ConfigEntry) (rightStart rightEnd : Nat) :
    Nat → Nat → Nat → Nat → Cells → Nat × Nat × Nat × Cells
  | 0, left, right, write, temp => (left, right, write, temp)
  | n + 1, left, right, write, temp =>
      if left < rightStart ∧ right < rightEnd then
        match entries[left]?, entries[right]? with
        | some a, some b =>
            if configEntryCompare a b ≤ 0 then
              mergeHeads entries rightStart rightEnd n (left + 1) right (write + 1)
                (temp.set write (some a))
            else
              mergeHeads entries rightStart rightEnd n left (right + 1) (write + 1)
                (temp.set write (some b))
        | _, _ => (left, right, write, temp)
      else (left, right, write, temp)

/-- The two loops that copy what is left of one run: `count` cells from `index`. -/
def copyCells (entries : List ConfigEntry) : Nat → Nat → Nat → Cells → Cells
  | 0, _, _, temp => temp
  | count + 1, index, write, temp =>
      copyCells entries count (index + 1) (write + 1) (temp.set write entries[index]?)

/-- The three loops of `merge_entries` from the given indices on. -/
def mergeFrom (entries : List ConfigEntry) (rightStart rightEnd n left right write : Nat)
    (temp : Cells) : Cells :=
  match mergeHeads entries rightStart rightEnd n left right write temp with
  | (left, right, write, temp) =>
      copyCells entries (rightEnd - right) right (write + (rightStart - left))
        (copyCells entries (rightStart - left) left write temp)

def mergeEntries (entries : List ConfigEntry) (temp : Cells)
    (leftStart rightStart rightEnd : Nat) : Cells :=
  mergeFrom entries rightStart rightEnd (rightEnd - leftStart) leftStart rightStart leftStart temp

/-- The inner loop of the sort from `i` on, with a bound on its iterations. -/
def sortPass (entries : List ConfigEntry) (width : Nat) : Nat → Nat → Cells → Cells
  | 0, _, temp => temp
  | n + 1, i, temp =>
      if i < entries.length then
        let rightStart := min (i + width) entries.length
        let rightEnd := min (i + 2 * width) entries.length
        sortPass entries width n (i + 2 * width)
          (mergeEntries entries temp i rightStart rightEnd)
      else temp

/-- The outer loop of the sort; each pass is copied back over the entries. -/
def sortPasses : Nat → Nat → List ConfigEntry → List ConfigEntry
  | 0, _, entries => entries
  | n + 1, width, entries =>
      if width < entries.length then
        let temp := sortPass entries width entries.length 0
          (List.replicate entries.length none)
        sortPasses n (width * 2) temp.reduceOption
      else entries

def configStoreSort : Run Unit := do
  let m ← get
  if m.store.entries.length ≤ 1 then
    modifyStore fun store => { store with sorted := true }
  else
    let tempBlock ← poolAllocate (m.store.entries.length * configEntrySize)
    modifyStore fun store =>
      { store with entries := sortPasses store.entries.length 1 store.entries }
    release tempBlock
    modifyStore fun store => { store with sorted := true }

/-- The comparison written out inside the lookup loop. -/
def lookupCompare (entry : ConfigEntry) (key : CString) (keyLength : Nat) : Int :=
  let minLength := if keyLength < entry.keyLength then keyLength else entry.keyLength
  let comparison := BcCore.compare entry.key.bytes key.bytes minLength
  if comparison = 0 then
    if entry.keyLength < keyLength then -1
    else if entry.keyLength > keyLength then 1
    else comparison
  else comparison

/-- The loop of the lookup: `Bisection.bisect` probing the entry at `mid`. -/
def lookupIndex (entries : List ConfigEntry) (key : CString) (keyLength : Nat) : Option Nat :=
  Bisection.bisect
    (fun mid => (entries[mid]?.map fun entry => lookupCompare entry key keyLength).getD 0)
    entries.length 0 entries.length

def configStoreLookup (key : CString) : Run CString := do
  let m ← get
  if m.store.sorted = false then fail
  else
    let keyLength ← coreLength key
    match (lookupIndex m.store.entries key keyLength).bind (m.store.entries[·]?) with
    | some entry => pure entry.value
    | none => fail

end BcRuntime
