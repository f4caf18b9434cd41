/-
  Meta data of the data stream: `PowerMetaData`, `DynamicStreamMetaData`, and
  the built-in types they are made of.

  A `size_t` or `unsigned long` is a natural number: what it counts has to fit
  into memory.  Its subtraction wraps (`sizeSub`).  An `int` is an `Int32`, so
  sums of the configured counts overflow as in the code.  Data point ids are
  `cpp_int`s, i.e. integers.
-/
import Mathlib.Tactic

namespace SmartScreen

/-- What ends a piece of code early: a failed `assert`, a C++ exception, or an
    access the language gives no meaning to. -/
inductive Fault where
  | assertion
  | exception
  | undefined
deriving DecidableEq, Repr

/-! ## Built-in types -/

/-- `a - b` on `size_t`: it wraps below zero. -/
def sizeSub (a b : ℕ) : ℕ := if b ≤ a then a - b else 2 ^ 64 + a - b

theorem sizeSub_of_le {a b : ℕ} (h : b ≤ a) : sizeSub a b = a - b := if_pos h

/-- The conversion of an `int` to `size_t`. -/
def sizeOfInt (z : Int32) : ℕ := (z.toInt % 2 ^ 64).toNat

theorem sizeOfInt_of_nonneg {z : Int32} (h : 0 ≤ z.toInt) : (sizeOfInt z : ℤ) = z.toInt := by
  have := z.toInt_lt
  rw [sizeOfInt, Int.emod_eq_of_lt h (by omega), Int.toNat_of_nonneg h]

/-- A sum of two counts of which neither is negative: exact, or wrapped below
    zero. -/
theorem toInt_add_of_nonneg {a b : Int32} (ha : 0 ≤ a.toInt) (hb : 0 ≤ b.toInt) :
    (a + b).toInt = a.toInt + b.toInt ∨
      ((a + b).toInt = a.toInt + b.toInt - 2 ^ 32 ∧ (a + b).toInt < 0) := by
  have ha' := a.toInt_lt
  have hb' := b.toInt_lt
  rw [Int32.toInt_add, Int.bmod_def]
  split_ifs with h <;> omega

/-- The conversions of a `cpp_int` to built-in integers.  What is not negative
    converts to `size_t` exactly, a negative value throws (`none`) or wraps; what
    fits into an `int` converts exactly, other values saturate or wrap. -/
structure CppInt where
  toSize : ℤ → Option ℕ
  toSize_natCast : ∀ n : ℕ, toSize n = some n
  toInt : ℤ → Int32
  toInt_toInt : ∀ z : Int32, toInt z.toInt = z

namespace CppInt

theorem toSize_of_nonneg (C : CppInt) {z : ℤ} (h : 0 ≤ z) : C.toSize z = some z.toNat := by
  obtain ⟨n, rfl⟩ := Int.eq_ofNat_of_zero_le h
  exact C.toSize_natCast n

/-- Conversions that wrap. -/
def wrapping : CppInt where
  toSize z := some (if 0 ≤ z then z.toNat else (z % 2 ^ 64).toNat)
  toSize_natCast n := by simp
  toInt := Int32.ofInt
  toInt_toInt z := z.ofInt_toInt

end CppInt

/-- A `boost::posix_time::ptime` in microseconds; `none` is `not_a_date_time`. -/
abbrev TimeType := Option ℤ

/-! ## `PowerMetaData` -/

/-- What is known about the electrical data; `voltage` is only copied. -/
structure PowerMetaData where
  sampleRate : ℕ := 12000
  frequency : ℕ := 60
  voltage : ℚ := 230
  maxDataPointsInQueue : ℕ := 16000
  dataPointsStoredOfEvent : Int32 := 0
  dataPointsStoredBeforeEvent : Int32 := 0
deriving DecidableEq

namespace PowerMetaData

def dataPointsPerPeriod (m : PowerMetaData) : ℕ := m.sampleRate / m.frequency

/-- The configured counts as integers. -/
def before (m : PowerMetaData) : ℤ := m.dataPointsStoredBeforeEvent.toInt

def ofEvent (m : PowerMetaData) : ℤ := m.dataPointsStoredOfEvent.toInt

/-- The `int` sum of the counts: the number of data points of an event. -/
def eventLength (m : PowerMetaData) : Int32 :=
  m.dataPointsStoredBeforeEvent + m.dataPointsStoredOfEvent

theorem dataPointsPerPeriod_pos {m : PowerMetaData} (hf : 1 ≤ m.frequency)
    (h : m.frequency ≤ m.sampleRate) : 1 ≤ m.dataPointsPerPeriod :=
  Nat.div_pos h hf

theorem sampleRate_pos {m : PowerMetaData} (h : 1 ≤ m.dataPointsPerPeriod) : 1 ≤ m.sampleRate :=
  h.trans (Nat.div_le_self _ _)

end PowerMetaData

/-- Periods of two data points, one data point before and one of the event. -/
def smallMetaData : PowerMetaData :=
  { sampleRate := 2, frequency := 1, dataPointsStoredOfEvent := 1,
    dataPointsStoredBeforeEvent := 1 }

/-! ## `DynamicStreamMetaData` -/

structure DynamicStreamMetaData where
  syncedPackageId : ℤ := 0
  packetTime : TimeType := none
  powerMetaData : PowerMetaData := {}

namespace DynamicStreamMetaData

def setFixedPowerMetaData (md : DynamicStreamMetaData) (m : PowerMetaData) :
    DynamicStreamMetaData :=
  { md with powerMetaData := m }

def syncTimePoint (md : DynamicStreamMetaData) (id : ℤ) (time : TimeType) :
    DynamicStreamMetaData :=
  { md with syncedPackageId := id, packetTime := time }

/-- The time of a data point, from the last synchronised one.  Dividing a
    `cpp_int` by zero throws. -/
def getDataPointTime (C : CppInt) (md : DynamicStreamMetaData) (id : ℤ) : Except Fault TimeType :=
  if md.powerMetaData.sampleRate = 0 then .error .exception
  else
    let difference := ((id - md.syncedPackageId) * 1000000).tdiv md.powerMetaData.sampleRate
    .ok (md.packetTime.map (· + (C.toInt difference).toInt))

end DynamicStreamMetaData

end SmartScreen
