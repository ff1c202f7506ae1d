import BcRuntime.Config.FileLoader
import BcRuntime.Config.Bindings
import BcRuntime.Foundation.FirstSplit
import Mathlib.Data.List.DropRight
import Mathlib.Data.List.TakeWhile

/-!
The line grammar of a configuration file, stated over the bytes of a line with
no index in it, and the loader's agreement with it: loading a buffer is the
sequence of sets its binding lines ask for, each with its result dropped.
-/

namespace BcRuntime
open Fallible Run

/-- The lines of a buffer, each cut to what the line buffer holds. -/
def fileLines (data : List UInt8) : List (List UInt8) :=
  (data.splitOn newline).map (List.take (bufferStackSize - 1))

/-- The texts of the key and the value a line binds, if it is a binding line. -/
def lineBinding (line : List UInt8) : Option (List UInt8 × List UInt8) :=
  let text := line.dropWhile isBlank
  if text.head? = some hash then none
  else
    match text.splitFirst equalsSign with
    | none => none
    | some (before, after) =>
        if before = [] then none
        else some (before.rdropWhile isBlank, (after.dropWhile isBlank).rdropWhile isBlank)

def fileBindings (data : List UInt8) : List (List UInt8 × List UInt8) :=
  (fileLines data).filterMap lineBinding

/-- The store reads a text up to its first NUL. -/
def asBinding (texts : List UInt8 × List UInt8) : Binding := (.ofBuffer texts.1, .ofBuffer texts.2)

def storedBindings (data : List UInt8) : List Binding := (fileBindings data).map asBinding

section Loops

theorem skipBlanks_spec (text : List UInt8) (steps i : Nat) (fits : i + steps = text.length) :
    (text.drop (skipBlanks text steps i) = (text.drop i).dropWhile isBlank) ∧
      i ≤ skipBlanks text steps i ∧ skipBlanks text steps i ≤ text.length := by
  induction steps generalizing i with
  | zero =>
      have done : text.drop i = [] := List.drop_eq_nil_of_le (by omega)
      simp [skipBlanks, done]
      omega
  | succ steps ih =>
      have inside : i < text.length := by omega
      have head : text.getD i 0 = text[i] := by simp [inside]
      rw [skipBlanks, head, List.drop_eq_getElem_cons inside]
      by_cases blank : isBlank text[i] = true
      · obtain ⟨rest, lower, upper⟩ := ih (i + 1) (by omega)
        rw [if_pos blank, List.dropWhile_cons_of_pos blank]
        exact ⟨rest, by omega, upper⟩
      · rw [if_neg blank, List.dropWhile_cons_of_neg blank]
        exact ⟨List.drop_eq_getElem_cons inside, le_rfl, by omega⟩

theorem trimBlanks_spec (text : List UInt8) (start stop : Nat) (le : start ≤ stop)
    (inside : stop ≤ text.length) :
    ((text.take (trimBlanks text start stop)).drop start =
        ((text.take stop).drop start).rdropWhile isBlank) ∧
      start ≤ trimBlanks text start stop ∧ trimBlanks text start stop ≤ stop := by
  induction stop with
  | zero => simp [trimBlanks]; omega
  | succ stop ih =>
      have within : stop < text.length := inside
      have last : text.getD stop 0 = text[stop] := by simp [within]
      rw [trimBlanks, last]
      by_cases before : start < stop + 1
      · have grow : (text.take (stop + 1)).drop start =
            (text.take stop).drop start ++ [text[stop]] := by
          rw [List.take_succ_eq_append_getElem (by omega), List.drop_append_of_le_length]
          simp; omega
        by_cases blank : isBlank text[stop] = true
        · obtain ⟨rest, lower, upper⟩ := ih (by omega) (by omega)
          rw [if_pos ⟨before, blank⟩, grow, List.rdropWhile_concat_pos _ _ _ blank]
          exact ⟨rest, lower, by omega⟩
        · rw [if_neg (fun h => blank h.2), grow, List.rdropWhile_concat_neg _ _ _ blank]
          exact ⟨rfl, le, le_rfl⟩
      · rw [if_neg (fun h => before h.1)]
        have nothing : (text.take (stop + 1)).drop start = [] :=
          List.drop_eq_nil_of_le (by simp; omega)
        rw [nothing]
        exact ⟨rfl, by omega, le_rfl⟩

end Loops

section Lines

theorem dropWhile_isBlank_head {line rest : List UInt8} {first : UInt8}
    (h : line.dropWhile isBlank = first :: rest) : isBlank first = false := by
  have head := List.head?_dropWhile_not isBlank line
  rw [h] at head
  simpa using head

theorem rdropWhile_isBlank_eq_nil {first : UInt8} {rest : List UInt8}
    (h : isBlank first = false) : (first :: rest).rdropWhile isBlank ≠ [] := by
  rw [ne_eq, List.rdropWhile_eq_nil_iff]
  exact fun all => by simp [h] at all

variable [BcCore]

def setDropped (binding : Binding) : Run Unit := do
  let _ ← attempt (configStoreSet binding.1 binding.2)
  pure ()

/-- A set for each binding in order, whatever becomes of the others. -/
def setEach : List Binding → Run Unit
  | [] => pure ()
  | binding :: bindings => do
      setDropped binding
      setEach bindings

theorem setEach_append (first second : List Binding) :
    setEach (first ++ second) = (do setEach first; setEach second) := by
  induction first with
  | nil => rfl
  | cons binding first ih => rw [List.cons_append, setEach, setEach, ih, bind_assoc]

theorem findByte_eq_splitFirst (text : List UInt8) (byte : UInt8) :
    BcCore.findByte text byte = (text.splitFirst byte).map fun parts => parts.1.length := by
  rw [BcCore.findByte_eq, List.idxOf?_eq_splitFirst]

/-- The index loops on a text with an `=`, started at its first byte. -/
theorem parse_binding_line {first : UInt8} {rest before after : List UInt8}
    (visible : isBlank first = false)
    (split : (first :: rest).splitFirst equalsSign = some (before, after)) :
    let remaining := first :: rest
    let equalsOffset := before.length
    let keyEnd := trimBlanks remaining 0 equalsOffset
    let valueStart :=
      skipBlanks remaining (remaining.length - (equalsOffset + 1)) (equalsOffset + 1)
    let valueEnd := trimBlanks remaining valueStart remaining.length
    (if keyEnd = 0 then pure ()
      else setDropped
        (asBinding (remaining.take keyEnd,
          (remaining.drop valueStart).take (valueEnd - valueStart)))) =
      match (if before = [] then none
        else some (before.rdropWhile isBlank, (after.dropWhile isBlank).rdropWhile isBlank)) with
      | none => pure ()
      | some texts => setDropped (asBinding texts) := by
  intro remaining equalsOffset keyEnd valueStart valueEnd
  obtain ⟨whole, absent⟩ := List.splitFirst_eq_some_iff.mp split
  have length : remaining.length = before.length + 1 + after.length := by
    simp [remaining, whole]
    omega
  obtain ⟨key, -, -⟩ := trimBlanks_spec remaining 0 equalsOffset (Nat.zero_le _) (by omega)
  obtain ⟨skip, -, within⟩ := skipBlanks_spec remaining
    (remaining.length - (equalsOffset + 1)) (equalsOffset + 1) (by omega)
  obtain ⟨value, -, -⟩ := trimBlanks_spec remaining valueStart remaining.length within le_rfl
  have keyText : remaining.take keyEnd = before.rdropWhile isBlank := by
    rw [List.drop_zero, List.drop_zero] at key
    rw [key]
    simp [remaining, whole, equalsOffset]
  have valueText : (remaining.drop valueStart).take (valueEnd - valueStart) =
      (after.dropWhile isBlank).rdropWhile isBlank := by
    have tail : remaining.drop (equalsOffset + 1) = after := by
      simp [remaining, whole, equalsOffset, ← List.drop_drop]
    rw [← List.drop_take, value, List.take_length, skip, tail]
  have emptyKey : keyEnd = 0 ↔ before = [] := by
    constructor
    · intro zero
      rw [zero, List.take_zero] at keyText
      cases before with
      | nil => rfl
      | cons head tail =>
          have same : head = first := (List.cons.inj whole).1.symm
          exact absurd keyText.symm (rdropWhile_isBlank_eq_nil (same ▸ visible))
    · intro nothing
      simp [keyEnd, equalsOffset, nothing, trimBlanks]
  by_cases nothing : before = []
  · rw [if_pos (emptyKey.mpr nothing), if_pos nothing]
  · rw [if_neg (mt emptyKey.mp nothing), if_neg nothing, keyText, valueText]

theorem parseConfigLine_eq (line : List UInt8) :
    parseConfigLine line =
      match lineBinding line with
      | none => pure ()
      | some texts => setDropped (asBinding texts) := by
  obtain ⟨skipped, -, inside⟩ := skipBlanks_spec line line.length 0 (by omega)
  rw [List.drop_zero] at skipped
  simp only [parseConfigLine, lineBinding]
  cases text : line.dropWhile isBlank with
  | nil =>
      have ended : skipBlanks line line.length 0 = line.length := by
        rw [text, List.drop_eq_nil_iff] at skipped
        omega
      simp [ended, List.splitFirst]
  | cons first rest =>
      rw [text] at skipped
      have going : skipBlanks line line.length 0 < line.length := by
        have := congrArg List.length skipped
        simp at this
        omega
      have cell : line.getD (skipBlanks line line.length 0) 0 = first := by
        have := congrArg List.head? skipped
        simp at this
        simp [this]
      simp only [going.ne, if_false, cell, skipped, List.head?_cons, Option.some.injEq]
      by_cases comment : first = hash
      · simp [comment]
      · simp only [comment, if_false, findByte_eq_splitFirst]
        cases split : (first :: rest).splitFirst equalsSign with
        | none => rfl
        | some parts =>
            obtain ⟨before, after⟩ := parts
            exact parse_binding_line (dropWhile_isBlank_head text) split

theorem endLine_eq (line : List UInt8) :
    endLine line = setEach ((lineBinding line).toList.map asBinding) := by
  cases line with
  | nil => rfl
  | cons byte line =>
      rw [endLine, if_pos (by simp), parseConfigLine_eq]
      cases lineBinding (byte :: line) with
      | none => rfl
      | some texts => exact (bind_pure (setDropped (asBinding texts))).symm

/-- The line buffer holds the first bytes of the line read so far. -/
theorem loadLines_eq (data line : List UInt8) :
    loadLines data (line.take (bufferStackSize - 1)) =
      setEach ((((data.splitOnPPrepend (· == newline) line.reverse).map
        (List.take (bufferStackSize - 1))).filterMap lineBinding).map asBinding) := by
  induction data generalizing line with
  | nil =>
      rw [loadLines, endLine_eq, List.splitOnPPrepend_nil, List.reverse_reverse]
      cases h : lineBinding (line.take (bufferStackSize - 1)) <;> simp [h]
  | cons byte data ih =>
      rw [loadLines]
      by_cases ends : byte = newline
      · rw [if_pos ends, endLine_eq, List.splitOnPPrepend_cons_pos (by simpa using ends),
          List.reverse_reverse, List.map_cons, List.filterMap_cons]
        have rest := ih []
        rw [List.take_nil, List.reverse_nil, List.splitOnPPrepend_nil_right] at rest
        rw [rest, ← setEach_append, ← List.map_append]
        cases lineBinding (line.take (bufferStackSize - 1)) <;> rfl
      · rw [if_neg ends, List.splitOnPPrepend_cons_neg (by simpa using ends),
          ← List.reverse_concat, ← ih]
        have taken : (line.take (bufferStackSize - 1)).length =
            min (bufferStackSize - 1) line.length := List.length_take
        by_cases short : line.length < bufferStackSize - 1
        · rw [if_pos (by omega), List.take_of_length_le short.le,
            List.take_of_length_le (by simp; omega)]
        · rw [if_neg (by omega), List.take_append_of_le_length (by omega)]

theorem loadFromBuffer_eq (data : List UInt8) :
    loadFromBuffer data = setEach (storedBindings data) := loadLines_eq data []

/-- Where no set fails, dropping the results makes no difference. -/
theorem setEach_run {host : Host} {bindings : List Binding} {m m' : Machine}
    (run : setAll bindings host m = (some (), m')) :
    setEach bindings host m = (some (), m') := by
  induction bindings generalizing m with
  | nil => exact run
  | cons binding bindings ih =>
      rw [setAll] at run
      cases first : configStoreSet binding.1 binding.2 host m with
      | mk result m₁ =>
          cases result with
          | none =>
              rw [bind_run_of_none first] at run
              simp at run
          | some _ =>
              rw [bind_run_of_some first] at run
              have dropped : setDropped binding host m = (some (), m₁) := by
                simp [setDropped, bind_run, attempt, first]
              rw [setEach, bind_run_of_some dropped]
              exact ih run

end Lines

section Grammar

theorem splitOn_piece {mark : UInt8} {text piece : List UInt8} (h : piece ∈ text.splitOn mark) :
    (∀ b ∈ piece, b ∈ text) ∧ mark ∉ piece := by
  rw [List.splitOn_eq_splitOnP] at h
  induction text generalizing piece with
  | nil =>
      rw [List.splitOnP_nil, List.mem_singleton] at h
      simp [h]
  | cons first rest ih =>
      rw [List.splitOnP_cons_eq_if_modifyHead] at h
      by_cases same : first = mark
      · simp only [same, beq_self_eq_true, if_true, List.mem_cons] at h
        cases h with
        | inl empty => simp [empty]
        | inr later => exact ⟨fun b hb => List.mem_cons_of_mem _ ((ih later).1 b hb), (ih later).2⟩
      · rw [if_neg (by simpa using same)] at h
        cases pieces : rest.splitOnP (· == mark) with
        | nil => exact absurd pieces (List.splitOnP_ne_nil _ _)
        | cons head tail =>
            rw [pieces, List.modifyHead_cons, List.mem_cons] at h
            cases h with
            | inl grown =>
                obtain ⟨inside, absent⟩ := @ih head (by simp [pieces])
                subst grown
                refine ⟨fun b hb => ?_, by simp [absent, Ne.symm same]⟩
                cases List.mem_cons.mp hb with
                | inl head => exact head ▸ List.mem_cons_self
                | inr tail => exact List.mem_cons_of_mem _ (inside b tail)
            | inr later =>
                obtain ⟨inside, absent⟩ := @ih piece (by simp [pieces, later])
                exact ⟨fun b hb => List.mem_cons_of_mem _ (inside b hb), absent⟩

/-- What the grammar says of the texts of a binding line. -/
theorem lineBinding_eq_some {line key value : List UInt8}
    (h : lineBinding line = some (key, value)) :
    ∃ first before after, isBlank first = false ∧ first ≠ hash ∧ equalsSign ∉ first :: before ∧
      line.dropWhile isBlank = first :: before ++ equalsSign :: after ∧
      key = (first :: before).rdropWhile isBlank ∧
      value = (after.dropWhile isBlank).rdropWhile isBlank := by
  simp only [lineBinding] at h
  by_cases comment : (line.dropWhile isBlank).head? = some hash
  · simp [comment] at h
  · cases split : (line.dropWhile isBlank).splitFirst equalsSign with
    | none => simp [split] at h
    | some parts =>
        obtain ⟨before, after⟩ := parts
        obtain ⟨whole, absent⟩ := List.splitFirst_eq_some_iff.mp split
        cases before with
        | nil => simp [split] at h
        | cons first before =>
            simp only [if_neg comment, split, reduceCtorEq, if_false, Option.some.injEq,
              Prod.mk.injEq] at h
            refine ⟨first, before, after, dropWhile_isBlank_head whole, ?_, absent, whole,
              h.1.symm, h.2.symm⟩
            intro same
            exact comment (by rw [whole, same]; rfl)

theorem fileBindings_mem {data key value : List UInt8} (h : (key, value) ∈ fileBindings data) :
    (∀ b ∈ key, b ∈ data) ∧ ∀ b ∈ value, b ∈ data := by
  obtain ⟨line, mem, binding⟩ := List.mem_filterMap.mp h
  obtain ⟨piece, part, cut⟩ := List.mem_map.mp mem
  obtain ⟨first, before, after, -, -, -, whole, hkey, hvalue⟩ := lineBinding_eq_some binding
  have text : ∀ b ∈ first :: before ++ equalsSign :: after, b ∈ data := by
    intro b hb
    rw [← whole, ← cut] at hb
    exact (splitOn_piece part).1 b (List.mem_of_mem_take ((List.dropWhile_sublist _).subset hb))
  rw [hkey, hvalue]
  refine ⟨fun b hb => text b ?_, fun b hb => text b ?_⟩
  · exact List.mem_append_left _ ((List.rdropWhile_prefix _ _).subset hb)
  · have trailing := (List.rdropWhile_prefix _ _).subset hb
    exact List.mem_append_right _
      (List.mem_cons_of_mem _ ((List.dropWhile_sublist _).subset trailing))

variable [BcCore]

/-- A buffer without NUL is loaded by one set for each binding line, in order,
with the very texts of the line. -/
theorem loadFromBuffer_reads_bindings {host : Host} (store : host.StoreCallsSucceed)
    {data : List UInt8} (noNul : 0 ∉ data) (m : Machine) :
    ∃ (bindings : List Binding) (m' : Machine),
      bindings.map (fun binding => (binding.1.bytes, binding.2.bytes)) = fileBindings data ∧
      setAll bindings host m = (some (), m') ∧
      loadFromBuffer data host m = (some (), m') := by
  obtain ⟨m', run, -⟩ := setAll_run store (storedBindings data) m
  refine ⟨storedBindings data, m', ?_, run, ?_⟩
  · rw [storedBindings, List.map_map]
    refine (List.map_congr_left fun texts mem => ?_).trans (List.map_id _)
    obtain ⟨key, value⟩ := fileBindings_mem mem
    exact Prod.ext (CString.ofBuffer_bytes fun h => noNul (key 0 h))
      (CString.ofBuffer_bytes fun h => noNul (value 0 h))
  · rw [loadFromBuffer_eq]
    exact setEach_run run

omit [BcCore] in
theorem loadFromBuffer_reads_bindings_lines :
    ∃ (bindings : List Binding) (m' : Machine),
      bindings.map (fun binding => (binding.1.bytes, binding.2.bytes)) =
        fileBindings (CString.lit "a = 1\n# b=2\n c=").bytes ∧
      @setAll .reference bindings (.obliging [] []) .initial = (some (), m') ∧
      @loadFromBuffer .reference (CString.lit "a = 1\n# b=2\n c=").bytes (.obliging [] [])
        .initial = (some (), m') :=
  @loadFromBuffer_reads_bindings .reference _ (Host.obliging_storeCallsSucceed [] []) _
    (CString.noNul _) .initial

end Grammar

end BcRuntime
