import BcRuntime.Config.LineGrammar

/-!
Writing a configuration file. A key and a value can stand on a line of their own when
nothing that ends, trims or cuts a line comes in their way; the text made of such lines
is read back as it was written, and every file means the same as the text of its bindings.
-/

namespace BcRuntime
open Fallible Run

def bindingLine (texts : List UInt8 × List UInt8) : List UInt8 := texts.1 ++ equalsSign :: texts.2

def Trimmed (text : List UInt8) : Prop :=
  text.dropWhile isBlank = text ∧ text.rdropWhile isBlank = text

/-- A key and a value that a line can bind. -/
structure Writable (texts : List UInt8 × List UInt8) : Prop where
  nonempty : texts.1 ≠ []
  noEquals : equalsSign ∉ texts.1
  notComment : texts.1.head? ≠ some hash
  noNewline : newline ∉ bindingLine texts
  key : Trimmed texts.1
  value : Trimmed texts.2
  fits : (bindingLine texts).length ≤ bufferStackSize - 1

def bindingsText (bindings : List (List UInt8 × List UInt8)) : List UInt8 :=
  bindings.flatMap fun texts => bindingLine texts ++ [newline]

section Trimming

theorem trimmed_of_dropWhile (text : List UInt8) :
    Trimmed ((text.dropWhile isBlank).rdropWhile isBlank) := by
  refine ⟨?_, List.rdropWhile_idempotent isBlank _⟩
  cases rest : text.dropWhile isBlank with
  | nil => rfl
  | cons first rest' =>
      have visible := dropWhile_isBlank_head rest
      have head : ((first :: rest').rdropWhile isBlank).head? = some first := by
        cases kept : (first :: rest').rdropWhile isBlank with
        | nil => exact absurd kept (rdropWhile_isBlank_eq_nil visible)
        | cons other more =>
            have start := List.rdropWhile_prefix isBlank (first :: rest')
            rw [kept] at start
            exact congrArg some (List.cons_prefix_cons.mp start).1
      cases kept : (first :: rest').rdropWhile isBlank with
      | nil => rfl
      | cons other more =>
          rw [kept, List.head?_cons, Option.some.injEq] at head
          rw [head]
          exact List.dropWhile_cons_of_neg (Bool.not_eq_true _ ▸ visible)

theorem rdropWhile_trimmed {first : UInt8} {rest : List UInt8} (visible : isBlank first = false) :
    Trimmed ((first :: rest).rdropWhile isBlank) := by
  have same : (first :: rest).dropWhile isBlank = first :: rest :=
    List.dropWhile_cons_of_neg (Bool.not_eq_true _ ▸ visible)
  rw [← same]
  exact trimmed_of_dropWhile _

end Trimming

section Lines
variable {texts : List UInt8 × List UInt8} {line : List UInt8}

theorem lineBinding_bindingLine (h : Writable texts) :
    lineBinding (bindingLine texts) = some texts := by
  obtain ⟨key, value⟩ := texts
  cases key with
  | nil => exact absurd rfl h.nonempty
  | cons first rest =>
      have visible : isBlank first = false := dropWhile_isBlank_head h.key.1
      have start : (bindingLine (first :: rest, value)).dropWhile isBlank =
          bindingLine (first :: rest, value) :=
        List.dropWhile_cons_of_neg (Bool.not_eq_true _ ▸ visible)
      have split : (bindingLine (first :: rest, value)).splitFirst equalsSign =
          some (first :: rest, value) := List.splitFirst_eq_some_iff.mpr ⟨rfl, h.noEquals⟩
      have plain : ¬ (bindingLine (first :: rest, value)).head? = some hash := h.notComment
      rw [lineBinding, start]
      simp only [if_neg plain, split, reduceCtorEq, if_false, h.key.2, h.value.1, h.value.2]

/-- Only writable bindings come from a line that fits the line buffer. -/
theorem writable_of_lineBinding (noNewline : newline ∉ line)
    (fits : line.length ≤ bufferStackSize - 1) (h : lineBinding line = some texts) :
    Writable texts := by
  obtain ⟨key, value⟩ := texts
  obtain ⟨first, before, after, visible, notHash, noEquals, whole, hkey, hvalue⟩ :=
    lineBinding_eq_some h
  have start : key <+: first :: before := hkey ▸ List.rdropWhile_prefix isBlank _
  have part : value.Sublist after := by
    rw [hvalue]
    exact (List.rdropWhile_prefix isBlank _).sublist.trans (List.dropWhile_sublist isBlank)
  have inside : (key ++ equalsSign :: value).Sublist line := by
    have shorter : (key ++ equalsSign :: value).Sublist
        (first :: before ++ equalsSign :: after) := start.sublist.append (part.cons_cons _)
    rw [← whole] at shorter
    exact shorter.trans (List.dropWhile_sublist isBlank)
  have nonempty : key ≠ [] := hkey ▸ rdropWhile_isBlank_eq_nil visible
  constructor
  · exact nonempty
  · exact fun mem => noEquals (start.subset mem)
  · intro comment
    cases key with
    | nil => exact nonempty rfl
    | cons other rest =>
        have same := (List.cons_prefix_cons.mp start).1
        exact notHash (same ▸ Option.some.inj comment)
  · exact fun mem => noNewline (inside.subset mem)
  · exact hkey ▸ rdropWhile_trimmed visible
  · exact hvalue ▸ trimmed_of_dropWhile after
  · exact Nat.le_trans inside.length_le fits

/-- The lines of two texts put together at a newline are the lines of both. -/
theorem fileBindings_append (first second : List UInt8) :
    fileBindings (first ++ newline :: second) = fileBindings first ++ fileBindings second := by
  rw [fileBindings, fileLines, List.splitOn_append_cons_self, List.map_append,
    List.filterMap_append]
  rfl

theorem fileBindings_line (noNewline : newline ∉ line) (fits : line.length ≤ bufferStackSize - 1) :
    fileBindings line = (lineBinding line).toList := by
  rw [fileBindings, fileLines, List.splitOn_eq_singleton noNewline, List.map_singleton,
    List.take_of_length_le fits, List.filterMap_eq_flatMap_toList, List.flatMap_singleton]

theorem writable_of_mem {data : List UInt8} (mem : texts ∈ fileBindings data) :
    Writable texts := by
  obtain ⟨line, cut, binding⟩ := List.mem_filterMap.mp mem
  obtain ⟨piece, part, same⟩ := List.mem_map.mp cut
  rw [← same] at binding
  refine writable_of_lineBinding (fun inside => ?_) (List.length_take_le _ _) binding
  exact (splitOn_piece part).2 (List.mem_of_mem_take inside)

/-- What is read back is what was written, just when each binding fits a line of its own. -/
theorem fileBindings_bindingsText (bindings : List (List UInt8 × List UInt8)) :
    fileBindings (bindingsText bindings) = bindings ↔ ∀ texts ∈ bindings, Writable texts := by
  constructor
  · intro same texts mem
    rw [← same] at mem
    exact writable_of_mem mem
  · intro writable
    induction bindings with
    | nil => rfl
    | cons texts bindings ih =>
        have first := writable texts List.mem_cons_self
        have later := ih fun other mem => writable other (List.mem_cons_of_mem _ mem)
        have text : bindingsText (texts :: bindings) =
            bindingLine texts ++ newline :: bindingsText bindings := by
          rw [bindingsText, List.flatMap_cons, List.append_assoc]
          rfl
        have line : fileBindings (bindingLine texts) = [texts] := by
          rw [fileBindings_line first.noNewline first.fits, lineBinding_bindingLine first]
          rfl
        rw [text, fileBindings_append, later, line, List.singleton_append]

end Lines

def ConfigStore.texts (store : ConfigStore) : List (List UInt8 × List UInt8) :=
  store.entries.map fun entry => (entry.key.bytes, entry.value.bytes)

section Loading
variable [BcCore]

/-- A file and the text of its bindings are loaded alike, whatever fails, and a file made
of two is loaded like one after the other. -/
theorem loadFromBuffer_normalForm (data : List UInt8) :
    (∀ texts ∈ fileBindings data, Writable texts) ∧
      loadFromBuffer (bindingsText (fileBindings data)) = loadFromBuffer data ∧
      (∀ bindings, (∀ texts ∈ bindings, Writable texts) →
        loadFromBuffer (bindingsText bindings) = setEach (bindings.map asBinding)) ∧
      ∀ rest, loadFromBuffer (data ++ newline :: rest) = (do
        loadFromBuffer data
        loadFromBuffer rest) := by
  have written : ∀ bindings, (∀ texts ∈ bindings, Writable texts) →
      loadFromBuffer (bindingsText bindings) = setEach (bindings.map asBinding) := by
    intro bindings writable
    rw [loadFromBuffer_eq, storedBindings, (fileBindings_bindingsText bindings).mpr writable]
  have writable : ∀ texts ∈ fileBindings data, Writable texts := fun texts => writable_of_mem
  refine ⟨writable, ?_, written, fun rest => ?_⟩
  · rw [written _ writable, loadFromBuffer_eq]
    rfl
  · rw [loadFromBuffer_eq, loadFromBuffer_eq, loadFromBuffer_eq, storedBindings,
      fileBindings_append, List.map_append, setEach_append]
    rfl

theorem setEach_distinct {host : Host} (store : host.StoreCallsSucceed) (bindings : List Binding)
    (m : Machine) (distinct : (m.store.keys ++ bindings.map Prod.fst).Nodup) :
    ∃ m', setEach bindings host m = (some (), m') ∧ m'.store.entries =
      m.store.entries ++ bindings.map fun binding => freshEntry binding.1 binding.2 := by
  induction bindings generalizing m with
  | nil => exact ⟨m, rfl, (List.append_nil _).symm⟩
  | cons binding bindings ih =>
      obtain ⟨_, m₁, run, stored⟩ := exists_run_of_wp
        (wp_mono (configStoreSet_spec host m binding.1 binding.2) (fun _ _ stored => stored)
          fun _ refused => absurd store refused.failure)
      have absent : binding.1 ∉ m.store.keys := fun mem =>
        (List.nodup_append.mp distinct).2.2 _ mem _ List.mem_cons_self rfl
      have entries : m₁.store.entries =
          m.store.entries ++ [freshEntry binding.1 binding.2] := by
        rw [stored.entries, ← KeyedList.append_eq_upsert absent]
      have keys : m₁.store.keys = m.store.keys ++ [binding.1] := by
        rw [ConfigStore.keys, entries, List.map_append]
        rfl
      rw [List.map_cons, List.append_cons, ← keys] at distinct
      obtain ⟨m', rest, added⟩ := ih m₁ distinct
      have dropped : setDropped binding host m = (some (), m₁) := by
        simp [setDropped, bind_run, attempt, run]
      refine ⟨m', ?_, ?_⟩
      · rw [setEach, bind_run_of_some dropped, rest]
      · rw [added, entries, List.map_cons, List.append_assoc, List.singleton_append]

/-- A store that is written to a file and loaded into an empty one is as it was. -/
theorem saved_store_restored {host : Host} (calls : host.StoreCallsSucceed) {saved m : Machine}
    (distinct : saved.store.keys.Nodup) (writable : ∀ texts ∈ saved.store.texts, Writable texts)
    (empty : m.store.entries = []) :
    ∃ m', loadFromBuffer (bindingsText saved.store.texts) host m = (some (), m') ∧
      m'.store.entries = saved.store.entries := by
  have read : ∀ entry : ConfigEntry, asBinding (entry.key.bytes, entry.value.bytes) =
      (entry.key, entry.value) := fun entry =>
    Prod.ext (CString.ofBuffer_self entry.key) (CString.ofBuffer_self entry.value)
  have bindings : saved.store.texts.map asBinding =
      saved.store.entries.map fun entry => (entry.key, entry.value) := by
    rw [ConfigStore.texts, List.map_map]
    exact List.map_congr_left fun entry _ => read entry
  have same : ∀ entry : ConfigEntry, freshEntry entry.key entry.value = entry := by
    intro entry
    cases entry with
    | mk key keyLength value keyLength_eq =>
        subst keyLength_eq
        rfl
  have fresh : (m.store.keys ++
      (saved.store.entries.map fun entry => (entry.key, entry.value)).map Prod.fst).Nodup := by
    rw [ConfigStore.keys, empty, List.map_map]
    exact distinct
  obtain ⟨m', run, added⟩ := setEach_distinct calls _ m fresh
  refine ⟨m', ?_, ?_⟩
  · rw [(loadFromBuffer_normalForm []).2.2.1 _ writable, bindings]
    exact run
  · rw [added, empty, List.map_map, List.nil_append]
    exact (List.map_congr_left fun entry _ => same entry).trans (List.map_id _)

/-- A store with two settings, one of them empty. -/
def savedMachine : Machine :=
  { Machine.initial with
    store := { Machine.initial.store with
      entries := [freshEntry (.lit "log.level") (.lit "warn = 2"), freshEntry (.lit "path") (.lit "")] } }

omit [BcCore] in
theorem saved_store_restored_two :
    ∃ m', @loadFromBuffer .reference (bindingsText savedMachine.store.texts) (.obliging [] [])
        .initial = (some (), m') ∧ m'.store.entries = savedMachine.store.entries := by
  have distinct : savedMachine.store.keys.Nodup := by decide
  have lines : fileBindings (bindingsText savedMachine.store.texts) = savedMachine.store.texts := by
    decide
  exact @saved_store_restored .reference _ (Host.obliging_storeCallsSucceed [] []) savedMachine
    .initial distinct ((fileBindings_bindingsText _).mp lines) rfl

end Loading

end BcRuntime
