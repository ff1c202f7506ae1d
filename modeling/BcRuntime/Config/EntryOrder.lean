import BcRuntime.Config.Store

/-!
The two hand-written comparators read as one order. `config_entry_compare` and
the comparison inlined in the lookup both compare a common prefix and then the
lengths, which is the lexicographic order of the key bytes.
-/

namespace BcRuntime
variable [BcCore]

/-- A comparison of the common prefix, refined by the lengths. -/
def prefixCompare (left right : List UInt8) : Int :=
  let comparison := BcCore.compare left right (min left.length right.length)
  if comparison ≠ 0 then comparison
  else if left.length < right.length then -1
  else if left.length > right.length then 1
  else 0

theorem prefixCompare_neg_iff (left right : List UInt8) :
    prefixCompare left right < 0 ↔ left < right := by
  have neg := BcCore.compare_neg left right _ (min_le_left _ _) (min_le_right _ _)
  have zero := BcCore.compare_zero left right _ (min_le_left _ _) (min_le_right _ _)
  rw [ByteOrder.lt_iff_take_min, ← neg, ← zero]
  simp only [prefixCompare]
  by_cases same : BcCore.compare left right (min left.length right.length) = 0
  · by_cases shorter : left.length < right.length
    · simp [same, shorter]
    · by_cases longer : right.length < left.length <;> simp [same, shorter, longer]
  · simp [same]

theorem prefixCompare_eq_zero_iff (left right : List UInt8) :
    prefixCompare left right = 0 ↔ left = right := by
  have zero := BcCore.compare_zero left right _ (min_le_left _ _) (min_le_right _ _)
  rw [ByteOrder.eq_iff_take_min, ← zero]
  simp only [prefixCompare]
  by_cases same : BcCore.compare left right (min left.length right.length) = 0
  · by_cases shorter : left.length < right.length
    · simp [same, shorter, Nat.ne_of_lt shorter]
    · by_cases longer : right.length < left.length
      · simp [same, shorter, longer, Nat.ne_of_gt longer]
      · have lengths : left.length = right.length := by omega
        simp [lengths]
  · simp [same]

theorem prefixCompare_pos_iff (left right : List UInt8) :
    0 < prefixCompare left right ↔ right < left := by
  have neg := prefixCompare_neg_iff left right
  have zero := prefixCompare_eq_zero_iff left right
  constructor
  · intro pos
    have notLess : ¬ left < right := fun h => by have := neg.mpr h; omega
    have notSame : left ≠ right := fun h => by have := zero.mpr h; omega
    exact lt_of_le_of_ne (not_lt.mp notLess) (Ne.symm notSame)
  · intro less
    have notNeg : ¬ prefixCompare left right < 0 := fun h => lt_asymm less (neg.mp h)
    have notZero : prefixCompare left right ≠ 0 := fun h => ne_of_gt less (zero.mp h)
    omega

omit [BcCore] in
private theorem shorter_eq_min (n m : Nat) : (if m < n then m else n) = min n m := by
  split <;> omega

theorem configEntryCompare_eq (a b : ConfigEntry) :
    configEntryCompare a b = prefixCompare a.key.bytes b.key.bytes := by
  simp only [configEntryCompare, prefixCompare, shorter_eq_min, a.keyLength_eq, b.keyLength_eq,
    CString.length]

theorem lookupCompare_eq (entry : ConfigEntry) (key : CString) :
    lookupCompare entry key key.length = prefixCompare entry.key.bytes key.bytes := by
  simp only [lookupCompare, prefixCompare, shorter_eq_min, entry.keyLength_eq, CString.length]
  by_cases same : BcCore.compare entry.key.bytes key.bytes
      (min entry.key.bytes.length key.bytes.length) = 0
  · simp [same]
  · simp [same]

/-- The order in which `merge_entries` keeps the left entry first. -/
def entryLe (a b : ConfigEntry) : Bool := decide (configEntryCompare a b ≤ 0)

theorem entryLe_iff (a b : ConfigEntry) : entryLe a b = true ↔ a.key.bytes ≤ b.key.bytes := by
  rw [entryLe, decide_eq_true_iff, configEntryCompare_eq, ← not_lt, prefixCompare_pos_iff, not_lt]

theorem entryLe_trans (a b c : ConfigEntry) (hab : entryLe a b = true)
    (hbc : entryLe b c = true) : entryLe a c = true := by
  rw [entryLe_iff] at hab hbc ⊢
  exact le_trans hab hbc

theorem entryLe_total (a b : ConfigEntry) : (entryLe a b || entryLe b a) = true := by
  rw [Bool.or_eq_true, entryLe_iff, entryLe_iff]
  exact le_total _ _

/-- A three-way comparison that is a total order of the keys: swapped arguments
flip its sign, so any two entries are in one order or the other. -/
structure OrdersKeys (compare : ConfigEntry → ConfigEntry → Int) : Prop where
  zero_iff : ∀ a b, compare a b = 0 ↔ a.key.bytes = b.key.bytes
  flips : ∀ a b, (compare b a).sign = -(compare a b).sign
  trans : ∀ a b c, compare a b ≤ 0 → compare b c ≤ 0 → compare a c ≤ 0

theorem prefixCompare_flips (left right : List UInt8) :
    (prefixCompare right left).sign = -(prefixCompare left right).sign := by
  rcases lt_trichotomy left right with less | same | greater
  · rw [Int.sign_eq_one_of_pos ((prefixCompare_pos_iff _ _).mpr less),
      Int.sign_eq_neg_one_of_neg ((prefixCompare_neg_iff _ _).mpr less), neg_neg]
  · rw [(prefixCompare_eq_zero_iff _ _).mpr same, (prefixCompare_eq_zero_iff _ _).mpr same.symm]
    rfl
  · rw [Int.sign_eq_one_of_pos ((prefixCompare_pos_iff left right).mpr greater),
      Int.sign_eq_neg_one_of_neg ((prefixCompare_neg_iff right left).mpr greater)]

theorem configEntryCompare_ordersKeys : OrdersKeys configEntryCompare where
  zero_iff := fun a b => by rw [configEntryCompare_eq, prefixCompare_eq_zero_iff]
  flips := fun a b => by rw [configEntryCompare_eq, configEntryCompare_eq, prefixCompare_flips]
  trans := fun a b c hab hbc =>
    of_decide_eq_true (entryLe_trans a b c (decide_eq_true hab) (decide_eq_true hbc))

def KeysAscending (entries : List ConfigEntry) : Prop :=
  entries.Pairwise fun a b => a.key.bytes ≤ b.key.bytes

theorem keysAscending_iff (entries : List ConfigEntry) :
    KeysAscending entries ↔ entries.Pairwise fun a b => configEntryCompare a b ≤ 0 := by
  refine List.Pairwise.iff fun {a b} => ?_
  rw [← entryLe_iff, entryLe, decide_eq_true_iff]

omit [BcCore] in
theorem keysAscending_of_short {entries : List ConfigEntry} (short : entries.length ≤ 1) :
    KeysAscending entries := by
  cases entries with
  | nil => exact .nil
  | cons entry rest =>
      have alone : rest = [] := List.length_eq_zero_iff.mp (by simpa using short)
      rw [alone]
      exact List.pairwise_singleton _ _

end BcRuntime
