import BcRuntime.Foundation.FixedFields
import BcRuntime.Log.CheckedRecord
import BcRuntime.Model.IntegerText

/-!
What a time stamp tells. The digits that the formulas of the source produce are
those of fields of a fixed width; so the fields can be read back, and byte by byte
the time stamps are in the order of the times they stand for.
-/

namespace BcRuntime
open Fallible LogRun FixedFields

section Layout

def decimalNumerals : Numerals UInt8 where
  base := 10
  symbol := fun digit => UInt8.ofNat (48 + digit)
  value := fun byte => byte.toNat - 48
  base_gt := by decide
  value_symbol := fun _ small => (decimalDigit_spec small).2
  symbol_lt := by
    intro digit other less small
    rw [UInt8.lt_iff_toNat_lt, UInt8.toNat_ofNat', UInt8.toNat_ofNat']
    omega

/-- `[YYYY-MM-DDThh:mm:ss.uuuuuu]`. -/
def timestampParts : List (LayoutPart UInt8) :=
  [.mark 91, .field 4, .mark 45, .field 2, .mark 45, .field 2, .mark 84, .field 2, .mark 58,
    .field 2, .mark 58, .field 2, .mark 46, .field 6, .mark 93]

/-- The fields of a time stamp as integers, the most significant one first. -/
def timestampFields (time : LocalTime) (nanoseconds : Int) : List Int :=
  [time.year + 1900, time.month + 1, time.day, time.hour, time.minute, time.second,
    nanoseconds / 1000]

def readTimestamp (text : List UInt8) : List Int :=
  (decimalNumerals.readParts timestampParts text).map Nat.cast

def AtPlace (place : Option UInt8) (byte : UInt8) : Prop :=
  place.elim (isDigit byte = true) (byte = ·)

/-- The years with four digits, the ranges of `localtime_r` with its leap seconds, and
the nanoseconds of one second. -/
structure InTimestampRange (time : LocalTime) (nanoseconds : Int) : Prop where
  year : 0 ≤ time.year + 1900 ∧ time.year + 1900 ≤ 9999
  month : 0 ≤ time.month ∧ time.month ≤ 11
  day : 1 ≤ time.day ∧ time.day ≤ 31
  hour : 0 ≤ time.hour ∧ time.hour ≤ 23
  minute : 0 ≤ time.minute ∧ time.minute ≤ 59
  second : 0 ≤ time.second ∧ time.second ≤ 60
  nanoseconds : 0 ≤ nanoseconds ∧ nanoseconds ≤ 999999999

end Layout

section Digits

theorem isDigit_of_decimal {byte : UInt8} (digit : decimalNumerals.IsDigit byte) :
    isDigit byte = true := by
  obtain ⟨number, small, rfl⟩ := digit
  exact (decimalDigit_spec small).1

theorem digitByte_natCast (number : Nat) :
    digitByte (number : Int) = decimalNumerals.symbol number := by
  have sum : (48 + (number : Int)) = ((48 + number : Nat) : Int) := by push_cast; rfl
  have byte : ((48 + number : Nat) : Int) % 2 ^ 8 = (((48 + number) % 2 ^ 8 : Nat) : Int) := by
    push_cast; rfl
  rw [digitByte, sum, UInt8.ofInt, byte, Int.toNat_natCast]
  exact UInt8.ofNat_mod_size

/-- The formulas for a month, a day, an hour, a minute or a second. -/
theorem write_two {number : Nat} (small : number < 100) :
    decimalNumerals.write 2 number =
      [digitByte ((number : Int).tdiv 10), digitByte ((number : Int).tmod 10)] := by
  have first : number / 10 % 10 = number / 10 := by omega
  calc decimalNumerals.write 2 number
      = [decimalNumerals.symbol (number / 10 % 10), decimalNumerals.symbol (number % 10)] := by
        rw [Numerals.write_eq_map small]
        simp [decimalNumerals, List.range_succ]
    _ = _ := by
        rw [first, ← digitByte_natCast, ← digitByte_natCast]
        rfl

theorem write_four {number : Nat} (small : number < 10000) :
    decimalNumerals.write 4 number =
      [digitByte ((number : Int).tdiv 1000), digitByte (((number : Int).tdiv 100).tmod 10),
        digitByte (((number : Int).tdiv 10).tmod 10), digitByte ((number : Int).tmod 10)] := by
  have first : number / 1000 % 10 = number / 1000 := by omega
  calc decimalNumerals.write 4 number
      = [decimalNumerals.symbol (number / 1000 % 10), decimalNumerals.symbol (number / 100 % 10),
          decimalNumerals.symbol (number / 10 % 10), decimalNumerals.symbol (number % 10)] := by
        rw [Numerals.write_eq_map small]
        simp [decimalNumerals, List.range_succ]
    _ = _ := by
        rw [first]
        simp only [← digitByte_natCast]
        rfl

theorem write_six {number : Nat} (small : number < 1000000) :
    decimalNumerals.write 6 number =
      [digitByte (((number : Int).tdiv 100000).tmod 10),
        digitByte (((number : Int).tdiv 10000).tmod 10),
        digitByte (((number : Int).tdiv 1000).tmod 10),
        digitByte (((number : Int).tdiv 100).tmod 10),
        digitByte (((number : Int).tdiv 10).tmod 10), digitByte ((number : Int).tmod 10)] := by
  calc decimalNumerals.write 6 number
      = [decimalNumerals.symbol (number / 100000 % 10),
          decimalNumerals.symbol (number / 10000 % 10), decimalNumerals.symbol (number / 1000 % 10),
          decimalNumerals.symbol (number / 100 % 10), decimalNumerals.symbol (number / 10 % 10),
          decimalNumerals.symbol (number % 10)] := by
        rw [Numerals.write_eq_map small]
        simp [decimalNumerals, List.range_succ]
    _ = _ := by
        simp only [← digitByte_natCast]
        rfl

end Digits

section Layouts

theorem exists_natCast (number : Int) (bound : Nat) (inRange : 0 ≤ number ∧ number < bound) :
    ∃ value : Nat, value < bound ∧ number = value := by
  obtain ⟨value, rfl⟩ := Int.eq_ofNat_of_zero_le inRange.1
  exact ⟨value, Int.ofNat_lt.mp inRange.2, rfl⟩

theorem timestampBytes_eq_layOut {time : LocalTime} {nanoseconds : Int}
    (range : InTimestampRange time nanoseconds) :
    ∃ values : List Nat, Fits 10 timestampParts values ∧
      values.map Nat.cast = timestampFields time nanoseconds ∧
      timestampBytes time nanoseconds = decimalNumerals.layOut timestampParts values := by
  have truncated : nanoseconds.tdiv 1000 = nanoseconds / 1000 :=
    Int.tdiv_eq_ediv_of_nonneg range.nanoseconds.1
  obtain ⟨inYear, inMonth, inDay, inHour, inMinute, inSecond, inNanoseconds⟩ := range
  obtain ⟨year, year_lt, year_eq⟩ := exists_natCast (time.year + 1900) 10000 (by omega)
  obtain ⟨month, month_lt, month_eq⟩ := exists_natCast (time.month + 1) 100 (by omega)
  obtain ⟨day, day_lt, day_eq⟩ := exists_natCast time.day 100 (by omega)
  obtain ⟨hour, hour_lt, hour_eq⟩ := exists_natCast time.hour 100 (by omega)
  obtain ⟨minute, minute_lt, minute_eq⟩ := exists_natCast time.minute 100 (by omega)
  obtain ⟨second, second_lt, second_eq⟩ := exists_natCast time.second 100 (by omega)
  obtain ⟨microseconds, microseconds_lt, microseconds_eq⟩ :=
    exists_natCast (nanoseconds / 1000) 1000000 (by omega)
  refine ⟨[year, month, day, hour, minute, second, microseconds], ?_, ?_, ?_⟩
  · exact .mark (.field year_lt (.mark (.field month_lt (.mark (.field day_lt (.mark
      (.field hour_lt (.mark (.field minute_lt (.mark (.field second_lt (.mark
        (.field microseconds_lt (.mark .nil))))))))))))))
  · simp only [timestampFields, year_eq, month_eq, day_eq, hour_eq, minute_eq, second_eq,
      microseconds_eq, List.map_cons, List.map_nil]
  · simp only [timestampBytes, truncated, year_eq, month_eq, day_eq, hour_eq, minute_eq, second_eq,
      microseconds_eq, timestampParts, Numerals.layOut, List.headD_cons, List.tail_cons, write_two,
      write_four, write_six, year_lt, month_lt, day_lt, hour_lt, minute_lt, second_lt,
      microseconds_lt]
    rfl

theorem map_natCast_lt_iff (values others : List Nat) :
    values.map (Nat.cast : Nat → Int) < others.map Nat.cast ↔ values < others := by
  have mono : StrictMono (List.map (Nat.cast : Nat → Int)) :=
    fun _ _ less => List.map_lt (fun _ _ smaller => Int.ofNat_lt.mpr smaller) less
  exact mono.lt_iff_lt

theorem timestampBytes_lt_iff {time time' : LocalTime} {nanoseconds nanoseconds' : Int}
    (range : InTimestampRange time nanoseconds) (range' : InTimestampRange time' nanoseconds') :
    (timestampBytes time nanoseconds < timestampBytes time' nanoseconds' ↔
      timestampFields time nanoseconds < timestampFields time' nanoseconds') ∧
    (timestampBytes time nanoseconds = timestampBytes time' nanoseconds' ↔
      timestampFields time nanoseconds = timestampFields time' nanoseconds') := by
  obtain ⟨values, fits, fields, text⟩ := timestampBytes_eq_layOut range
  obtain ⟨values', fits', fields', text'⟩ := timestampBytes_eq_layOut range'
  rw [text, text', ← fields, ← fields']
  constructor
  · exact (Numerals.layOut_lt_layOut_iff fits fits').trans (map_natCast_lt_iff values values').symm
  · exact (Numerals.layOut_inj fits fits').trans
      (List.map_injective_iff.mpr Int.ofNat_injective).eq_iff.symm

/-- The text tells the time: marks and digits are where the layout has them, and the
digits are those of the fields. -/
structure TellsTime (text : List UInt8) (time : LocalTime) (nanoseconds : Int) : Prop where
  length : text.length = 28
  places : List.Forall₂ AtPlace (timestampParts.flatMap LayoutPart.places) text
  reads : readTimestamp text = timestampFields time nanoseconds

theorem timestampBytes_tellsTime {time : LocalTime} {nanoseconds : Int}
    (range : InTimestampRange time nanoseconds) :
    TellsTime (timestampBytes time nanoseconds) time nanoseconds := by
  obtain ⟨values, fits, fields, text⟩ := timestampBytes_eq_layOut range
  refine ⟨length_timestampBytes _ _, ?_, ?_⟩
  · rw [text]
    refine (Numerals.layOut_follows fits).imp fun place byte stands => ?_
    cases place with
    | none => exact isDigit_of_decimal stands
    | some symbol => exact stands
  · rw [readTimestamp, text, Numerals.readParts_layOut fits, fields]

end Layouts

section Runs

theorem logFormatTimestamp_eq_some_iff {size : Nat} {host : LogHost} {m : LogMachine}
    {text : List UInt8} :
    (logFormatTimestamp size host m).1 = some text ↔
      29 ≤ size ∧ ¬ ClockFails host m.calls ∧
        text = timestampBytes (host.localTime (m.calls + 1)) (host.nanoseconds m.calls) := by
  cases wp_cases (logFormatTimestamp_result size host m) with
  | inl written =>
      obtain ⟨bytes, m', run, _, room, works, rfl⟩ := written
      rw [run]
      simp [room, works, eq_comm]
  | inr failed =>
      obtain ⟨m', run, reason⟩ := failed
      rw [run]
      refine iff_of_false (by simp) fun ⟨room, works, _⟩ => ?_
      exact reason.elim (not_lt.mpr room) works

/-- Whatever two times two calls read, the texts they write are those of the times,
and comparing the texts is comparing the times. -/
theorem timestamps_faithful {host host' : LogHost} {m m' : LogMachine} {size size' : Nat}
    (room : 29 ≤ size) (works : ¬ ClockFails host m.calls)
    (range : InTimestampRange (host.localTime (m.calls + 1)) (host.nanoseconds m.calls))
    (room' : 29 ≤ size') (works' : ¬ ClockFails host' m'.calls)
    (range' : InTimestampRange (host'.localTime (m'.calls + 1)) (host'.nanoseconds m'.calls)) :
    ∃ text text', (logFormatTimestamp size host m).1 = some text ∧
      (logFormatTimestamp size' host' m').1 = some text' ∧
      TellsTime text (host.localTime (m.calls + 1)) (host.nanoseconds m.calls) ∧
      TellsTime text' (host'.localTime (m'.calls + 1)) (host'.nanoseconds m'.calls) ∧
      let fields := timestampFields (host.localTime (m.calls + 1)) (host.nanoseconds m.calls)
      let fields' := timestampFields (host'.localTime (m'.calls + 1)) (host'.nanoseconds m'.calls)
      (text < text' ↔ fields < fields') ∧ (text = text' ↔ fields = fields') := by
  refine ⟨_, _, logFormatTimestamp_eq_some_iff.mpr ⟨room, works, rfl⟩,
    logFormatTimestamp_eq_some_iff.mpr ⟨room', works', rfl⟩,
    timestampBytes_tellsTime range, timestampBytes_tellsTime range', ?_⟩
  exact timestampBytes_lt_iff range range'

def stoppedClock (time : LocalTime) (nanoseconds : Int) : LogHost where
  succeeds := fun _ _ => true
  nanoseconds := fun _ => nanoseconds
  localTime := fun _ => time

/-- The end of a leap second and the start of the year after it. -/
theorem timestamps_faithful_leapSecond :
    ∃ text text',
      (logFormatTimestamp 29 (stoppedClock ⟨116, 11, 31, 23, 59, 60⟩ 999999999)
        (.started .debug (fun _ => []) fun _ => .debug)).1 = some text ∧
      (logFormatTimestamp 32 (stoppedClock ⟨117, 0, 1, 0, 0, 0⟩ 0)
        (.started .debug (fun _ => []) fun _ => .debug)).1 = some text' ∧
      readTimestamp text = [2016, 12, 31, 23, 59, 60, 999999] ∧
      readTimestamp text' = [2017, 1, 1, 0, 0, 0, 0] ∧ text < text' := by
  have works : ∀ time nanoseconds n, ¬ ClockFails (stoppedClock time nanoseconds) n := by
    intro time nanoseconds n
    simp [ClockFails, stoppedClock]
  obtain ⟨text, text', written, written', tells, tells', order, _⟩ :=
    @timestamps_faithful (stoppedClock ⟨116, 11, 31, 23, 59, 60⟩ 999999999)
      (stoppedClock ⟨117, 0, 1, 0, 0, 0⟩ 0) (.started .debug (fun _ => []) fun _ => .debug)
      (.started .debug (fun _ => []) fun _ => .debug) 29 32 (by decide) (works _ _ _)
      (by constructor <;> decide) (by decide) (works _ _ _) (by constructor <;> decide)
  exact ⟨text, text', written, written', tells.reads, tells'.reads, order.mpr (by decide)⟩

end Runs

end BcRuntime
