import BcRuntime.Config.LoadFailures

/-!
The keys a file can bring into the store. Trimming and the test for an empty key
look at explicit lengths, the store at the text before the first NUL; a key is
well formed unless that cut leaves nothing or a trailing blank.
-/

namespace BcRuntime
open Fallible Run

structure WellFormedKey (key : CString) : Prop where
  nonempty : key.bytes ≠ []
  noEquals : equalsSign ∉ key.bytes
  noNewline : newline ∉ key.bytes
  notComment : key.bytes.head? ≠ some hash
  visibleStart : ∀ b, key.bytes.head? = some b → isBlank b = false
  visibleEnd : ∀ b, key.bytes.getLast? = some b → isBlank b = false

/-- A text with a NUL has a byte before it, and the last such byte is no blank. -/
def SafelyCut (text : List UInt8) : Prop :=
  0 ∈ text → ∃ b, (text.takeWhile (· ≠ 0)).getLast? = some b ∧ isBlank b = false

theorem head_of_isPrefix {text whole : List UInt8} {first b : UInt8}
    (start : text <+: first :: whole) (head : text.head? = some b) : b = first := by
  cases text with
  | nil => simp at head
  | cons c rest =>
      obtain rfl : c = b := by simpa using head
      exact (List.cons_prefix_cons.mp start).1

theorem trimmed_end {first : UInt8} {rest : List UInt8} (visible : isBlank first = false) :
    ∃ b, ((first :: rest).rdropWhile isBlank).getLast? = some b ∧ isBlank b = false := by
  have nonempty : (first :: rest).rdropWhile isBlank ≠ [] := rdropWhile_isBlank_eq_nil visible
  exact ⟨_, List.getLast?_eq_some_getLast nonempty,
    by simpa using List.rdropWhile_last_not isBlank _ nonempty⟩

/-- Apart from the end it is cut to, the key of a binding line is well formed. -/
theorem lineKey_wellFormed {line key value : List UInt8} (noNewline : newline ∉ line)
    (h : lineBinding line = some (key, value)) (safe : SafelyCut key) :
    WellFormedKey (.ofBuffer key) := by
  obtain ⟨first, before, after, visible, notHash, noEquals, whole, hkey, -⟩ :=
    lineBinding_eq_some h
  have trimmed : key <+: first :: before := hkey ▸ List.rdropWhile_prefix _ _
  have start : key.takeWhile (· ≠ 0) <+: first :: before :=
    (List.takeWhile_prefix _).trans trimmed
  have ends : ∃ b, (key.takeWhile (· ≠ 0)).getLast? = some b ∧ isBlank b = false := by
    by_cases nul : 0 ∈ key
    · exact safe nul
    · have uncut : key.takeWhile (· ≠ 0) = key := CString.ofBuffer_bytes nul
      rw [uncut, hkey]
      exact trimmed_end visible
  obtain ⟨last, hlast, visibleLast⟩ := ends
  constructor
  · intro empty
    have nothing : key.takeWhile (· ≠ 0) = [] := empty
    rw [nothing] at hlast
    simp at hlast
  · exact fun mem => noEquals (start.subset mem)
  · intro mem
    have inside : newline ∈ line.dropWhile isBlank := by
      rw [whole]
      exact List.mem_append_left _ (start.subset mem)
    exact noNewline ((List.dropWhile_sublist _).subset inside)
  · intro head
    exact notHash (head_of_isPrefix start head).symm
  · intro b head
    rwa [head_of_isPrefix start head]
  · intro b hb
    obtain rfl : last = b := by
      rw [← Option.some.injEq, ← hlast]
      exact hb
    exact visibleLast

theorem fileBinding_line {data : List UInt8} {texts : List UInt8 × List UInt8}
    (h : texts ∈ fileBindings data) : ∃ line, newline ∉ line ∧ lineBinding line = some texts := by
  obtain ⟨line, mem, binding⟩ := List.mem_filterMap.mp h
  obtain ⟨piece, part, cut⟩ := List.mem_map.mp mem
  refine ⟨line, fun inside => ?_, binding⟩
  rw [← cut] at inside
  exact (splitOn_piece part).2 (List.mem_of_mem_take inside)

variable [BcCore]

/-- Whatever the outcomes of the calls, a key that loading brings in is well formed. -/
def NewKeysWellFormed (data : List UInt8) (m : Machine) : Prop :=
  ∀ host key, key ∈ (loadFromBuffer data host m).2.store.keys → key ∉ m.store.keys →
    WellFormedKey key

theorem setEach_keys (host : Host) (m : Machine) (bindings : List Binding) (key : CString)
    (h : key ∈ (setEach bindings host m).2.store.keys) :
    key ∈ bindings.map Prod.fst ∨ key ∈ m.store.keys := by
  induction bindings generalizing m with
  | nil => exact .inr h
  | cons binding bindings ih =>
      have rest := ih (configStoreSet binding.1 binding.2 host m).2 h
      rw [List.map_cons, List.mem_cons, or_assoc]
      refine or_iff_not_imp_left.mpr fun other => rest.imp_right fun mem => ?_
      cases wp_cases (configStoreSet_spec host m binding.1 binding.2) with
      | inl set =>
          obtain ⟨_, m₁, run, stored⟩ := set
          rw [run] at mem
          simpa [stored.loaded.mem_keys_iff, other] using mem
      | inr failed =>
          obtain ⟨m₁, run, refused⟩ := failed
          rw [run] at mem
          rwa [ConfigStore.keys, refused.entries] at mem

/-- New keys are well formed exactly when each key text with a NUL in it is cut
after a visible byte or to a key the store already has. -/
theorem newKeysWellFormed_iff (data : List UInt8) (m : Machine) :
    NewKeysWellFormed data m ↔
      ∀ texts ∈ fileBindings data,
        SafelyCut texts.1 ∨ CString.ofBuffer texts.1 ∈ m.store.keys := by
  constructor
  · intro wellFormed texts mem
    refine or_iff_not_imp_right.mpr fun fresh nul => ?_
    obtain ⟨m', run, loaded⟩ :=
      setAll_run (Host.obliging_storeCallsSucceed [] []) (storedBindings data) m
    have stored : CString.ofBuffer texts.1 ∈ m'.store.keys := by
      rw [loaded.mem_keys_iff]
      exact .inl (List.mem_map.mpr ⟨asBinding texts, List.mem_map_of_mem mem, rfl⟩)
    have key := wellFormed (.obliging [] []) (.ofBuffer texts.1)
      (by rw [loadFromBuffer_eq, setEach_run run]; exact stored) fresh
    exact ⟨_, List.getLast?_eq_some_getLast key.nonempty,
      key.visibleEnd _ (List.getLast?_eq_some_getLast key.nonempty)⟩
  · intro safe host key stored fresh
    rw [loadFromBuffer_eq] at stored
    have new := (setEach_keys host m _ key stored).resolve_right fresh
    obtain ⟨binding, mem, same⟩ := List.mem_map.mp new
    obtain ⟨texts, inside, hbinding⟩ := List.mem_map.mp mem
    subst hbinding same
    obtain ⟨line, noNewline, hline⟩ := fileBinding_line inside
    exact lineKey_wellFormed noNewline hline ((safe texts inside).resolve_right fresh)

omit [BcCore] in
/-- A NUL before `=1` is stored as an empty key. -/
theorem load_nul_malformed :
    ¬ @NewKeysWellFormed .reference [0, 61, 49] (configStoreCreate (.obliging [] []) .initial).2 := by
  intro wellFormed
  have key := wellFormed (.obliging [] []) (.lit "") (by decide) (by decide)
  exact key.nonempty (by decide)

end BcRuntime
