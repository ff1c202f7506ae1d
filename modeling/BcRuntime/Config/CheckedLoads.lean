import BcRuntime.Config.Loads
import BcRuntime.Foundation.Checked

/-!
The three loaders with every access checked. A read past the end of a line, an
entry or an argument, a write past the end of a stack buffer and a difference of
sizes that wraps make a loader give nothing; each gives what the loader gives, on
every input and whatever the stack buffers hold before they are written.
-/

namespace BcRuntime
open Fallible Run Checked Splice

/-- An array of the stack, with what it happens to hold. -/
abbrev StackBuffer := { cells : List UInt8 // cells.length = bufferStackSize }

/-- `bc_core_copy(buffer, text, count); buffer[count] = '\0';` -/
def copyTerminated (buffer : StackBuffer) (text : List UInt8) (count : Nat) :
    Option (List UInt8) := do
  let copied ← slice text 0 count
  let cells ← write buffer.val 0 copied
  write cells count [0]

def checkedSkipBlanks (text : List UInt8) : Nat → Nat → Option Nat
  | 0, i => some i
  | steps + 1, i => do
      let cell ← text[i]?
      if isBlank cell then checkedSkipBlanks text steps (i + 1) else some i

def checkedTrimBlanks (text : List UInt8) (start : Nat) : Nat → Option Nat
  | 0 => some 0
  | stop + 1 =>
      if start < stop + 1 then do
        let cell ← text[stop]?
        if isBlank cell then checkedTrimBlanks text start stop else some (stop + 1)
      else some (stop + 1)

/-- `for (j = 0; j < key_length; j++)` of the environment, with `key_length - j` steps left. -/
def checkedKeyBytes (entry : List UInt8) (keyStart : Nat) :
    Nat → Nat → List UInt8 → Option (List UInt8)
  | 0, _, keyBuffer => some keyBuffer
  | steps + 1, j, keyBuffer => do
      let character ← entry[keyStart + j]?
      let keyBuffer ← write keyBuffer j [environmentKeyByte character]
      checkedKeyBytes entry keyStart steps (j + 1) keyBuffer

section Checked
variable [BcCore]

/-- `parse_config_line`; `stack` is its key and its value buffer. -/
def checkedParseConfigLine (stack : StackBuffer × StackBuffer) (line : List UInt8) :
    Run (Option Unit) :=
  within (checkedSkipBlanks line line.length 0) fun start =>
  if start = line.length then pure (some ())
  else within (line)[start]? fun first =>
  if first = hash then pure (some ())
  else within (sub line.length start) fun remainingLength =>
  within (slice line start remainingLength) fun remaining =>
  match BcCore.findByte remaining equalsSign with
  | none => pure (some ())
  | some equalsOffset =>
      within (checkedTrimBlanks remaining 0 equalsOffset) fun keyEnd =>
      if keyEnd = 0 then pure (some ())
      else
        within (checkedSkipBlanks remaining (remainingLength - (equalsOffset + 1))
          (equalsOffset + 1)) fun valueStart =>
        within (checkedTrimBlanks remaining valueStart remainingLength) fun valueEnd =>
        within (sub valueEnd valueStart) fun valueLength =>
        within (copyTerminated stack.1 remaining keyEnd) fun keyBuffer =>
        within (slice remaining valueStart valueLength) fun value =>
        within (copyTerminated stack.2 value valueLength) fun valueBuffer => do
          let _ ← attempt (configStoreSet (.ofBuffer keyBuffer) (.ofBuffer valueBuffer))
          pure (some ())

/-- The first `lineLength` cells of the line buffer are a line, if there are any. -/
def checkedEndLine (stack : StackBuffer × StackBuffer) (lineBuffer : List UInt8)
    (lineLength : Nat) : Run (Option Unit) :=
  if 0 < lineLength then
    within (slice lineBuffer 0 lineLength) fun line => checkedParseConfigLine stack line
  else pure (some ())

/-- The loop over the data; `arrays n` are the buffers of the `n`-th line. -/
def checkedLoadLines (arrays : Nat → StackBuffer × StackBuffer) :
    Nat → List UInt8 → List UInt8 → Nat → Run (Option Unit)
  | n, [], lineBuffer, lineLength => checkedEndLine (arrays n) lineBuffer lineLength
  | n, byte :: data, lineBuffer, lineLength =>
      if byte = newline then do
        let ended ← checkedEndLine (arrays n) lineBuffer lineLength
        within ended fun _ => checkedLoadLines arrays (n + 1) data lineBuffer 0
      else if lineLength < bufferStackSize - 1 then
        within (write lineBuffer lineLength [byte]) fun lineBuffer =>
          checkedLoadLines arrays n data lineBuffer (lineLength + 1)
      else checkedLoadLines arrays n data lineBuffer lineLength

def checkedLoadFromBuffer (lineBuffer : StackBuffer) (arrays : Nat → StackBuffer × StackBuffer)
    (data : List UInt8) : Run (Option Unit) :=
  checkedLoadLines arrays 0 data lineBuffer.val 0

def checkedLoadEnvironmentEntry (stack : StackBuffer) (entry : CString) : Run (Option Unit) := do
  match ← attempt (coreLength entry) with
  | none => pure (some ())
  | some entryLength =>
      if entryLength.val < 8 then pure (some ())
      else within (slice entry.bytes 0 7) fun start =>
      if start ≠ environmentPrefix then pure (some ())
      else
        match BcCore.findByte entry.bytes equalsSign with
        | none => pure (some ())
        | some equalsOffset =>
            let keyStart := 7
            within (sub equalsOffset keyStart) fun keyLength =>
            if keyLength = 0 then pure (some ())
            else
              let keyLength := truncateKey keyLength
              within (checkedKeyBytes entry.bytes keyStart keyLength 0 stack.val) fun keyBuffer =>
              within (write keyBuffer keyLength [0]) fun keyBuffer =>
              within (offset entry.length (equalsOffset + 1)) fun value => do
                configStoreSet (.ofBuffer keyBuffer) (entry.drop value)
                pure (some ())

def checkedLoadArgument (stack : StackBuffer) (argument : CString) : Run (Option Unit) := do
  match ← attempt (coreLength argument) with
  | none => pure (some ())
  | some argumentLength =>
      if BcCore.startsWith argument.bytes optionPrefix = false then pure (some ())
      else within (offset argumentLength.val 2) fun start =>
      let afterPrefix := argument.drop start
      within (sub argumentLength.val 2) fun afterPrefixLength =>
      within (slice afterPrefix.bytes 0 afterPrefixLength) fun text =>
      match BcCore.findByte text equalsSign with
      | none => pure (some ())
      | some equalsOffset =>
          if equalsOffset = 0 then pure (some ())
          else
            let keyLength := truncateKey equalsOffset
            within (copyTerminated stack text keyLength) fun keyBuffer =>
            within (offset afterPrefixLength (equalsOffset + 1)) fun value => do
              configStoreSet (.ofBuffer keyBuffer) (afterPrefix.drop value)
              pure (some ())

/-- A loop over texts, up to the first that does not end normally; `arrays n` is
the buffer of the `n`-th. -/
def checkedEach (body : StackBuffer → CString → Run (Option Unit)) (arrays : Nat → StackBuffer) :
    Nat → List CString → Run (Option Unit)
  | _, [] => pure (some ())
  | n, text :: texts => do
      let ended ← body (arrays n) text
      within ended fun _ => checkedEach body arrays (n + 1) texts

def checkedLoadEnvironment (arrays : Nat → StackBuffer) : Run (Option Unit) := do
  let host ← ask
  checkedEach checkedLoadEnvironmentEntry arrays 0 host.environ

def checkedLoadArguments (arrays : Nat → StackBuffer) (argumentValues : List CString) :
    Run (Option Unit) :=
  checkedEach checkedLoadArgument arrays 0 (argumentValues.drop 1)

end Checked

section Buffers

theorem ofBuffer_terminated (text rest : List UInt8) :
    CString.ofBuffer (text ++ 0 :: rest) = .ofBuffer text := by
  refine CString.ext ?_
  change (text ++ 0 :: rest).takeWhile _ = text.takeWhile _
  induction text with
  | nil => rfl
  | cons byte text ih =>
      rw [List.cons_append, List.takeWhile_cons, List.takeWhile_cons, ih]

theorem ofBuffer_written (cells text : List UInt8) :
    CString.ofBuffer (splice cells 0 (text ++ [0])) = .ofBuffer text := by
  have laid : splice cells 0 (text ++ [0]) = text ++ 0 :: cells.drop (text ++ [0]).length := by
    rw [splice, List.take_zero, Nat.zero_add, List.nil_append, List.append_assoc,
      List.singleton_append]
  rw [laid, ofBuffer_terminated]

theorem write_terminator {cells text : List UInt8} {count : Nat} (size : text.length = count)
    (fits : count < cells.length) :
    write (splice cells 0 text) count [0] = some (splice cells 0 (text ++ [0])) :=
  write_next size.symm (by rw [List.length_append, size]; exact fits)

theorem copyTerminated_eq (buffer : StackBuffer) {text : List UInt8} {count : Nat}
    (inside : count ≤ text.length) (fits : count < bufferStackSize) :
    ∃ written, copyTerminated buffer text count = some written ∧
      CString.ofBuffer written = .ofBuffer (text.take count) := by
  have size : (text.take count).length = count := List.length_take_of_le inside
  have room : count < buffer.val.length := by rw [buffer.property]; exact fits
  refine ⟨splice buffer.val 0 (text.take count ++ [0]), ?_, ofBuffer_written _ _⟩
  rw [copyTerminated, slice_of_le (by omega), List.drop_zero]
  simp only [Option.bind_eq_bind, Option.bind_some]
  rw [write_of_le (by omega), Option.bind_some, write_terminator size room]

theorem checkedSkipBlanks_eq (text : List UInt8) (steps i : Nat)
    (fits : i + steps ≤ text.length) :
    checkedSkipBlanks text steps i = some (skipBlanks text steps i) := by
  induction steps generalizing i with
  | zero => rfl
  | succ steps ih =>
      have inside : i < text.length := by omega
      have head : text.getD i 0 = text[i] := by simp [inside]
      have rest := ih (i + 1) (by omega)
      simp only [checkedSkipBlanks, skipBlanks, List.getElem?_eq_getElem inside, head,
        Option.bind_eq_bind, Option.bind_some, rest]
      split <;> rfl

theorem checkedTrimBlanks_eq (text : List UInt8) (start stop : Nat)
    (inside : stop ≤ text.length) :
    checkedTrimBlanks text start stop = some (trimBlanks text start stop) := by
  induction stop with
  | zero => rfl
  | succ stop ih =>
      have within : stop < text.length := inside
      have last : text.getD stop 0 = text[stop] := by simp [within]
      have rest := ih (by omega)
      simp only [checkedTrimBlanks, trimBlanks, List.getElem?_eq_getElem within, last,
        Option.bind_eq_bind, Option.bind_some, rest]
      by_cases before : start < stop + 1
      · simp only [before, true_and, if_true]
        split <;> rfl
      · simp only [before, false_and, if_false]

/-- The loop over the name of a variable lays out its key, one cell at a time. -/
theorem checkedKeyBytes_eq (entry : List UInt8) (keyStart steps j : Nat) (cells : List UInt8)
    (inside : keyStart + j + steps ≤ entry.length) (fits : j + steps ≤ cells.length) :
    checkedKeyBytes entry keyStart steps j cells =
      some (splice cells j (((entry.drop (keyStart + j)).take steps).map environmentKeyByte)) := by
  induction steps generalizing j cells with
  | zero => simp [checkedKeyBytes]
  | succ steps ih =>
      have here : keyStart + j < entry.length := by omega
      have cell : entry.drop (keyStart + j) =
          entry[keyStart + j] :: entry.drop (keyStart + (j + 1)) :=
        List.drop_eq_getElem_cons here
      have written : (splice cells j [environmentKeyByte entry[keyStart + j]]).length =
          cells.length := length_splice (by rw [List.length_singleton]; omega)
      have rest := ih (j + 1) (splice cells j [environmentKeyByte entry[keyStart + j]])
        (by omega) (by omega)
      have size : ((entry.drop (keyStart + (j + 1))).take steps).length = steps :=
        List.length_take_of_le (by rw [List.length_drop]; omega)
      simp only [checkedKeyBytes, List.getElem?_eq_getElem here, Option.bind_eq_bind,
        Option.bind_some]
      rw [write_of_le (by rw [List.length_singleton]; omega), Option.bind_some, rest, cell,
        List.take_succ_cons, List.map_cons]
      refine congrArg some (splice_append ?_)
      rw [List.length_map, size, List.length_singleton]
      omega

end Buffers

section Refinement

theorem checkedEach_eq {checked : StackBuffer → CString → Run (Option Unit)}
    {body : CString → Run Unit} (same : ∀ stack text, checked stack text = some <$> body text)
    {loop : List CString → Run Unit} (ends : loop [] = pure ())
    (turns : ∀ text texts, loop (text :: texts) = do body text; loop texts)
    (arrays : Nat → StackBuffer) (n : Nat) (texts : List CString) :
    checkedEach checked arrays n texts = some <$> loop texts := by
  induction texts generalizing n with
  | nil =>
      rw [checkedEach, ends]
      rfl
  | cons text texts ih =>
      rw [checkedEach, turns, same, bind_map_left, map_bind]
      exact bind_congr fun _ => ih (n + 1)

theorem truncateKey_le (keyLength : Nat) : truncateKey keyLength ≤ keyLength := by
  rw [truncateKey]
  split <;> omega

theorem truncateKey_lt (keyLength : Nat) : truncateKey keyLength < bufferStackSize := by
  have some_cell : 0 < bufferStackSize := by decide
  rw [truncateKey]
  split <;> omega

variable [BcCore]

theorem findByte_lt {text : List UInt8} {byte : UInt8} {offset : Nat}
    (found : BcCore.findByte text byte = some offset) : offset < text.length := by
  rw [findByte_eq_splitFirst, Option.map_eq_some_iff] at found
  obtain ⟨⟨before, after⟩, split, rfl⟩ := found
  rw [(List.splitFirst_eq_some_iff.mp split).1, List.length_append, List.length_cons]
  exact Nat.lt_add_of_pos_right (Nat.succ_pos _)

theorem findByte_ge_prefix {text : List UInt8} {offset : Nat}
    (starts : text.take 7 = environmentPrefix)
    (found : BcCore.findByte text equalsSign = some offset) : 7 ≤ offset := by
  have absent : equalsSign ∉ environmentPrefix := by decide
  have whole : environmentPrefix ++ text.drop 7 = text := by rw [← starts, List.take_append_drop]
  rw [findByte_eq_splitFirst, ← whole, List.splitFirst_append absent] at found
  cases split : (text.drop 7).splitFirst equalsSign with
  | none => simp [split] at found
  | some parts =>
      have size : environmentPrefix.length = 7 := by decide
      simp [split] at found
      omega

theorem checkedParseConfigLine_eq (stack : StackBuffer × StackBuffer) {line : List UInt8}
    (fits : line.length < bufferStackSize) :
    checkedParseConfigLine stack line = some <$> parseConfigLine line := by
  obtain ⟨-, -, inside⟩ := skipBlanks_spec line line.length 0 (by omega)
  rw [checkedParseConfigLine, checkedSkipBlanks_eq _ _ _ (by omega), within_some]
  simp only [parseConfigLine]
  generalize skipBlanks line line.length 0 = start at inside
  by_cases ended : start = line.length
  · rw [if_pos ended, if_pos ended]
    rfl
  have here : start < line.length := by omega
  have cell : (line)[start]? = some (line.getD start 0) := by simp [here]
  rw [if_neg ended, if_neg ended, cell, within_some]
  by_cases comment : line.getD start 0 = hash
  · rw [if_pos comment, if_pos comment]
    rfl
  have size : (line.drop start).length = line.length - start := List.length_drop
  rw [if_neg comment, if_neg comment, sub_of_le inside, within_some, slice_of_le (by omega),
    within_some, List.take_of_length_le size.le, ← size]
  generalize line.drop start = remaining at size
  cases found : BcCore.findByte remaining equalsSign with
  | none => rfl
  | some equalsOffset =>
      have sign : equalsOffset < remaining.length := findByte_lt found
      obtain ⟨-, -, keyInside⟩ := trimBlanks_spec remaining 0 equalsOffset (Nat.zero_le _) sign.le
      obtain ⟨-, -, startInside⟩ := skipBlanks_spec remaining
        (remaining.length - (equalsOffset + 1)) (equalsOffset + 1) (by omega)
      simp only
      rw [checkedTrimBlanks_eq _ _ _ sign.le, within_some]
      generalize trimBlanks remaining 0 equalsOffset = keyEnd at keyInside
      by_cases nameless : keyEnd = 0
      · rw [if_pos nameless, if_pos nameless]
        rfl
      rw [if_neg nameless, if_neg nameless, checkedSkipBlanks_eq _ _ _ (by omega), within_some]
      generalize skipBlanks remaining (remaining.length - (equalsOffset + 1)) (equalsOffset + 1) =
        valueStart at startInside
      obtain ⟨-, ordered, endInside⟩ := trimBlanks_spec remaining valueStart remaining.length
        startInside le_rfl
      rw [checkedTrimBlanks_eq _ _ _ le_rfl, within_some]
      generalize trimBlanks remaining valueStart remaining.length = valueEnd at ordered endInside
      have valueSize : ((remaining.drop valueStart).take (valueEnd - valueStart)).length =
          valueEnd - valueStart := List.length_take_of_le (by rw [List.length_drop]; omega)
      obtain ⟨keyBuffer, keyCopied, key⟩ := copyTerminated_eq stack.1
        (show keyEnd ≤ remaining.length by omega) (by omega)
      obtain ⟨valueBuffer, valueCopied, value⟩ := copyTerminated_eq stack.2 valueSize.ge (by omega)
      rw [sub_of_le ordered, within_some, keyCopied, within_some, slice_of_le (by omega),
        within_some, valueCopied, within_some, key, value, List.take_of_length_le valueSize.le,
        map_bind]
      rfl

theorem checkedEndLine_eq (stack : StackBuffer × StackBuffer) {line lineBuffer : List UInt8}
    (holds : lineBuffer.take line.length = line) (fits : line.length < bufferStackSize)
    (room : lineBuffer.length = bufferStackSize) :
    checkedEndLine stack lineBuffer line.length = some <$> endLine line := by
  rw [checkedEndLine, endLine]
  by_cases some_byte : 0 < line.length
  · rw [if_pos some_byte, if_pos some_byte, slice_of_le (by omega), within_some, List.drop_zero,
      holds, checkedParseConfigLine_eq stack fits]
  · rw [if_neg some_byte, if_neg some_byte]
    rfl

/-- The line buffer holds the line from its start, which never fills it. -/
theorem checkedLoadLines_eq (arrays : Nat → StackBuffer × StackBuffer) (data : List UInt8)
    (n : Nat) {line lineBuffer : List UInt8} (holds : lineBuffer.take line.length = line)
    (fits : line.length < bufferStackSize) (room : lineBuffer.length = bufferStackSize) :
    checkedLoadLines arrays n data lineBuffer line.length = some <$> loadLines data line := by
  induction data generalizing n line lineBuffer with
  | nil => exact checkedEndLine_eq (arrays n) holds fits room
  | cons byte data ih =>
      rw [checkedLoadLines, loadLines]
      by_cases ends : byte = newline
      · rw [if_pos ends, if_pos ends, checkedEndLine_eq (arrays n) holds fits room, bind_map_left,
          map_bind]
        have nothing : lineBuffer.take ([] : List UInt8).length = [] := List.take_zero
        exact bind_congr fun _ => ih (n + 1) nothing (by decide) room
      · rw [if_neg ends, if_neg ends]
        by_cases more : line.length < bufferStackSize - 1
        · have written : (splice lineBuffer line.length [byte]).take (line ++ [byte]).length =
              line ++ [byte] := by
            have read : (splice lineBuffer line.length [byte]).take (line.length + [byte].length) =
                lineBuffer.take line.length ++ [byte] := take_splice (by omega)
            rw [List.length_append, read, holds]
          have longer : (line ++ [byte]).length = line.length + 1 := by simp
          rw [if_pos more, if_pos more, write_of_le (by rw [List.length_singleton]; omega),
            within_some, ← longer]
          refine ih n written (by omega) ?_
          rw [length_splice (by rw [List.length_singleton]; omega), room]
        · rw [if_neg more, if_neg more]
          exact ih n holds fits room

theorem checkedLoadEnvironmentEntry_eq (stack : StackBuffer) (entry : CString) :
    checkedLoadEnvironmentEntry stack entry = some <$> loadEnvironmentEntry entry := by
  rw [checkedLoadEnvironmentEntry, loadEnvironmentEntry, map_bind]
  refine bind_congr fun measured => ?_
  cases measured with
  | none => rfl
  | some entryLength =>
      obtain ⟨_, rfl⟩ := entryLength
      simp only
      by_cases short : entry.length < 8
      · rw [if_pos short, if_pos short]
        rfl
      have long : 8 ≤ entry.bytes.length := not_lt.mp short
      rw [if_neg short, if_neg short, slice_of_le (by omega), within_some, List.drop_zero]
      by_cases other : entry.bytes.take 7 ≠ environmentPrefix
      · rw [if_pos other, if_pos other]
        rfl
      rw [if_neg other, if_neg other]
      cases found : BcCore.findByte entry.bytes equalsSign with
      | none => rfl
      | some equalsOffset =>
          have inside : equalsOffset < entry.bytes.length := findByte_lt found
          have behind : 7 ≤ equalsOffset := findByte_ge_prefix (not_not.mp other) found
          simp only
          rw [sub_of_le behind, within_some]
          by_cases nameless : equalsOffset - 7 = 0
          · rw [if_pos nameless, if_pos nameless]
            rfl
          have keyFits : truncateKey (equalsOffset - 7) < bufferStackSize := truncateKey_lt _
          have keyInside : truncateKey (equalsOffset - 7) ≤ equalsOffset - 7 := truncateKey_le _
          generalize truncateKey (equalsOffset - 7) = keyLength at keyFits keyInside
          have room := stack.property
          have size : (((entry.bytes.drop 7).take keyLength).map environmentKeyByte).length =
              keyLength := by
            rw [List.length_map, List.length_take_of_le (by rw [List.length_drop]; omega)]
          rw [if_neg nameless, if_neg nameless, checkedKeyBytes_eq _ _ _ _ _ (by omega) (by omega),
            within_some, write_terminator size (by omega), within_some, ofBuffer_written,
            offset_of_le (by exact inside), within_some, map_eq_pure_bind]

theorem checkedLoadArgument_eq (stack : StackBuffer) (argument : CString) :
    checkedLoadArgument stack argument = some <$> loadArgument argument := by
  rw [checkedLoadArgument, loadArgument, map_bind]
  refine bind_congr fun measured => ?_
  cases measured with
  | none => rfl
  | some argumentLength =>
      obtain ⟨_, rfl⟩ := argumentLength
      simp only
      by_cases other : BcCore.startsWith argument.bytes optionPrefix = false
      · rw [if_pos other, if_pos other]
        rfl
      have dashes : 2 ≤ argument.length := by
        rw [Bool.not_eq_false, BcCore.startsWith_eq, List.isPrefixOf_iff_prefix] at other
        exact other.length_le
      have size : (argument.drop 2).bytes.length = argument.length - 2 := List.length_drop
      rw [if_neg other, if_neg other, offset_of_le dashes, within_some, sub_of_le dashes,
        within_some, slice_of_le (by omega), within_some, List.drop_zero,
        List.take_of_length_le size.le, ← size]
      cases found : BcCore.findByte (argument.drop 2).bytes equalsSign with
      | none => rfl
      | some equalsOffset =>
          have inside := findByte_lt found
          simp only
          by_cases nameless : equalsOffset = 0
          · rw [if_pos nameless, if_pos nameless]
            rfl
          have keyInside : truncateKey equalsOffset ≤ equalsOffset := truncateKey_le _
          obtain ⟨keyBuffer, copied, key⟩ := copyTerminated_eq stack
            (show truncateKey equalsOffset ≤ (argument.drop 2).bytes.length by omega)
            (truncateKey_lt _)
          rw [if_neg nameless, if_neg nameless, copied, within_some, key, offset_of_le inside,
            within_some, map_eq_pure_bind]

/-- No loader reads outside of a line, an entry or an argument, writes outside of a
stack buffer or wraps a difference of sizes: with its accesses checked it is itself. -/
theorem loaders_inBounds :
    (∀ lineBuffer arrays data,
      checkedLoadFromBuffer lineBuffer arrays data = some <$> loadFromBuffer data) ∧
    (∀ arrays, checkedLoadEnvironment arrays = some <$> loadEnvironment) ∧
    ∀ arrays argumentValues,
      checkedLoadArguments arrays argumentValues = some <$> loadArguments argumentValues := by
  refine ⟨fun lineBuffer arrays data => ?_, fun arrays => ?_, fun arrays argumentValues => ?_⟩
  · have nothing : lineBuffer.val.take ([] : List UInt8).length = [] := List.take_zero
    exact checkedLoadLines_eq arrays data 0 nothing (by decide) lineBuffer.property
  · rw [checkedLoadEnvironment, loadEnvironment, map_bind]
    refine bind_congr fun host => ?_
    exact checkedEach_eq checkedLoadEnvironmentEntry_eq rfl (fun _ _ => rfl) arrays 0 host.environ
  · exact checkedEach_eq checkedLoadArgument_eq rfl (fun _ _ => rfl) arrays 0 _

end Refinement

end BcRuntime
