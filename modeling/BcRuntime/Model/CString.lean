import BcRuntime.Foundation.ByteOrder
import Mathlib.Data.List.TakeWhile

/-!
Byte strings as C sees them. A `CString` is the part of a `char *` before its
terminator, so it holds no NUL; a byte buffer becomes one by being cut at its
first NUL, which is what every reader of a terminated buffer does.
-/

namespace BcRuntime

def newline : UInt8 := 10
def hash : UInt8 := 35
def dash : UInt8 := 45
def equalsSign : UInt8 := 61

@[ext] structure CString where
  bytes : List UInt8
  noNul : 0 ∉ bytes
deriving DecidableEq

namespace CString

def length (text : CString) : Nat := text.bytes.length

/-- What a reader finds in a buffer that holds `buffer` and then a NUL. -/
def ofBuffer (buffer : List UInt8) : CString where
  bytes := buffer.takeWhile (· ≠ 0)
  noNul := by
    intro h
    simpa using List.all_eq_true.mp List.all_takeWhile 0 h

/-- A string literal of the source. -/
def lit (text : String) : CString :=
  ofBuffer (text.toList.map fun c => UInt8.ofNat c.toNat)

/-- The string that starts `count` bytes into `text`. -/
def drop (text : CString) (count : Nat) : CString where
  bytes := text.bytes.drop count
  noNul := fun h => text.noNul (List.mem_of_mem_drop h)

def append (left right : CString) : CString where
  bytes := left.bytes ++ right.bytes
  noNul := by simp [left.noNul, right.noNul]

theorem ofBuffer_bytes {buffer : List UInt8} (h : 0 ∉ buffer) :
    (ofBuffer buffer).bytes = buffer := by
  refine List.takeWhile_eq_self_iff.mpr fun b hb => ?_
  simpa using fun zero : b = 0 => h (zero ▸ hb)

theorem ofBuffer_self (text : CString) : ofBuffer text.bytes = text :=
  CString.ext (ofBuffer_bytes text.noNul)

/-- The rest of a string from an offset on, given its bytes. -/
theorem drop_eq_ofBuffer {text : CString} {count : Nat} {rest : List UInt8}
    (h : text.bytes.drop count = rest) : text.drop count = ofBuffer rest := by
  subst h
  exact (ofBuffer_self (text.drop count)).symm

theorem append_left_cancel {left right right' : CString}
    (h : left.append right = left.append right') : right = right' := by
  have hbytes := congrArg CString.bytes h
  exact CString.ext (List.append_cancel_left hbytes)

end CString

end BcRuntime
