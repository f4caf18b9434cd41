/-
  The times of data points, from the last synchronised one.

  The microseconds between the two points are an integer of any size, cut off
  towards zero, and then converted to an `int`.
-/
import SmartScreen.Stream.MetaData
import SmartScreen.Lib.Rounding

namespace SmartScreen.DynamicStreamMetaData

open Rounding

variable {md : DynamicStreamMetaData} {s t n m : ℤ}

/-- A history of `syncTimePoint` calls. -/
def syncTimePoints (md : DynamicStreamMetaData) (history : List (ℤ × TimeType)) :
    DynamicStreamMetaData :=
  history.foldl (fun md x => md.syncTimePoint x.1 x.2) md

/-- The whole microseconds from the data point `s` to the data point `n`. -/
def difference (sampleRate : ℕ) (s n : ℤ) : ℤ := ((n - s) * 1000000).tdiv sampleRate

/-- The time of `n` in microseconds if `s` is at `t`. -/
def exactTime (sampleRate : ℕ) (s t n : ℤ) : ℚ := t + (n - s) * 1000000 / sampleRate

/-- The conversion to an `int` keeps the difference: it is at most 35 minutes. -/
def Fits (sampleRate : ℕ) (s n : ℤ) : Prop :=
  -2 ^ 31 ≤ difference sampleRate s n ∧ difference sampleRate s n < 2 ^ 31

/-- The times of two data points differ from the exact ones by less than a
    microsecond, they are in order, and one second apart if the points are. -/
def TimesExact (C : CppInt) (md : DynamicStreamMetaData) (s t n m : ℤ) : Prop :=
  ∃ a b : ℤ, md.getDataPointTime C n = .ok (some a) ∧ md.getDataPointTime C m = .ok (some b) ∧
    |(a : ℚ) - exactTime md.powerMetaData.sampleRate s t n| < 1 ∧
    |(b : ℚ) - exactTime md.powerMetaData.sampleRate s t m| < 1 ∧
    (n ≤ m → a ≤ b) ∧ (m = n + md.powerMetaData.sampleRate → b = a + 1000000)

/-! ## The last synchronised point -/

theorem powerMetaData_syncTimePoints (md : DynamicStreamMetaData)
    (history : List (ℤ × TimeType)) :
    (md.syncTimePoints history).powerMetaData = md.powerMetaData := by
  induction history generalizing md with
  | nil => rfl
  | cons x history ih => exact ih (md.syncTimePoint x.1 x.2)

/-- Only the last call counts. -/
theorem syncTimePoints_snoc (md : DynamicStreamMetaData) (history : List (ℤ × TimeType)) (s : ℤ)
    (time : TimeType) :
    md.syncTimePoints (history ++ [(s, time)]) = ⟨s, time, md.powerMetaData⟩ := by
  rw [← powerMetaData_syncTimePoints md history, syncTimePoints, List.foldl_append]
  rfl

/-! ## One data point -/

section
variable (C : CppInt) {sampleRate : ℕ}

theorem getDataPointTime_eq (hmd : md.syncedPackageId = s) (ht : md.packetTime = some t)
    (hrate : 1 ≤ md.powerMetaData.sampleRate) (n : ℤ) :
    md.getDataPointTime C n =
      .ok (some (t + (C.toInt (difference md.powerMetaData.sampleRate s n)).toInt)) := by
  rw [getDataPointTime, if_neg (by omega), hmd, ht]
  rfl

theorem toInt_of_fits (h : Fits sampleRate s n) :
    (C.toInt (difference sampleRate s n)).toInt = difference sampleRate s n := by
  have hfits : (Int32.ofInt (difference sampleRate s n)).toInt = difference sampleRate s n :=
    Int32.toInt_ofInt_of_le h.1 h.2
  rw [← hfits, C.toInt_toInt]

/-- An `int` is less than a microsecond off exactly if the difference fits. -/
theorem abs_sub_exactTime_lt_iff (hrate : 1 ≤ sampleRate) :
    |((t + (C.toInt (difference sampleRate s n)).toInt : ℤ) : ℚ) - exactTime sampleRate s t n| < 1 ↔
      Fits sampleRate s n := by
  set z := (C.toInt (difference sampleRate s n)).toInt with hz
  have hq : ((t + z : ℤ) : ℚ) - exactTime sampleRate s t n =
      z - (((n - s) * 1000000 : ℤ) : ℚ) / sampleRate := by
    rw [exactTime]
    push_cast
    ring
  rw [hq]
  constructor
  · intro h
    refine ⟨?_, tdiv_lt_of_abs_sub_lt (2 ^ 31) hrate (by norm_num) (Int32.toInt_lt _) h⟩
    -- the lower bound is the upper one of the opposite difference
    have hneg : |((-z : ℤ) : ℚ) - ((-((n - s) * 1000000) : ℤ) : ℚ) / sampleRate| < 1 := by
      rw [← abs_neg]
      convert h using 2
      push_cast
      ring
    have hlow := Int32.le_toInt (C.toInt (difference sampleRate s n))
    have := tdiv_lt_of_abs_sub_lt (2 ^ 31 + 1) hrate (by norm_num) (by omega) hneg
    rw [Int.neg_tdiv] at this
    rw [difference]
    omega
  · intro h
    rw [hz, toInt_of_fits C h]
    exact abs_tdiv_sub_lt _ hrate

end

/-! ## Two data points -/

theorem difference_mono {sampleRate : ℕ} (hrate : 1 ≤ sampleRate) (h : n ≤ m) :
    difference sampleRate s n ≤ difference sampleRate s m :=
  Int.tdiv_le_tdiv (by exact_mod_cast hrate) (by omega)

/-- A second later, unless the synchronised point lies between, at a fraction of a
    microsecond from both. -/
theorem difference_add_sampleRate {sampleRate : ℕ} (hrate : 1 ≤ sampleRate) :
    difference sampleRate s (n + sampleRate) = difference sampleRate s n + 1000000 ↔
      s ≤ n ∨ n + sampleRate ≤ s ∨ (sampleRate : ℤ) ∣ (n - s) * 1000000 := by
  have hadd : (n + sampleRate - s) * 1000000 = (n - s) * 1000000 + sampleRate * 1000000 := by
    ring
  have hneg : (n - s) * 1000000 + sampleRate * 1000000 ≤ 0 ↔ n + sampleRate ≤ s := by omega
  have hpos : 0 ≤ (n - s) * 1000000 ↔ s ≤ n := by omega
  rw [difference, difference, hadd, tdiv_add_mul_eq_iff hrate (by norm_num), hneg, hpos]

/-- **Time stamps are exact** exactly if the difference to the synchronised point
    fits into an `int`; two points one second apart must not have it between them at
    a fraction of a microsecond. -/
theorem timesExact_iff (C : CppInt) (md : DynamicStreamMetaData)
    (hrate : 1 ≤ md.powerMetaData.sampleRate) (history : List (ℤ × TimeType)) (s t n m : ℤ) :
    TimesExact C (md.syncTimePoints (history ++ [(s, some t)])) s t n m ↔
      Fits md.powerMetaData.sampleRate s n ∧ Fits md.powerMetaData.sampleRate s m ∧
        (m = n + md.powerMetaData.sampleRate →
          s ≤ n ∨ m ≤ s ∨ (md.powerMetaData.sampleRate : ℤ) ∣ (n - s) * 1000000) := by
  rw [syncTimePoints_snoc]
  have htime : ∀ n, getDataPointTime C ⟨s, some t, md.powerMetaData⟩ n =
      .ok (some (t + (C.toInt (difference md.powerMetaData.sampleRate s n)).toInt)) :=
    getDataPointTime_eq C rfl rfl hrate
  constructor
  · rintro ⟨a, b, ha, hb, hna, hmb, -, hsecond⟩
    rw [htime] at ha hb
    cases ha
    cases hb
    have hn := (abs_sub_exactTime_lt_iff C hrate).1 hna
    have hm := (abs_sub_exactTime_lt_iff C hrate).1 hmb
    refine ⟨hn, hm, fun h => ?_⟩
    have hdiff := hsecond h
    simp only [toInt_of_fits C hn, toInt_of_fits C hm] at hdiff
    subst h
    exact (difference_add_sampleRate hrate).1 (by linarith)
  · rintro ⟨hn, hm, hsecond⟩
    refine ⟨_, _, htime n, htime m, (abs_sub_exactTime_lt_iff C hrate).2 hn,
      (abs_sub_exactTime_lt_iff C hrate).2 hm, fun h => ?_, fun h => ?_⟩
    · simp only [toInt_of_fits C hn, toInt_of_fits C hm]
      exact Int.add_le_add_left (difference_mono hrate h) t
    · simp only [toInt_of_fits C hn, toInt_of_fits C hm]
      have := hsecond h
      subst h
      rw [(difference_add_sampleRate hrate).2 this, add_assoc]

/-- A data point one second after the synchronised one. -/
theorem timesExact_one_second :
    TimesExact CppInt.wrapping (syncTimePoints {} ([(5, none)] ++ [(0, some 0)])) 0 0 0 12000 :=
  (timesExact_iff CppInt.wrapping {} (by decide) [(5, none)] 0 0 0 12000).2
    ⟨⟨by decide, by decide⟩, ⟨by decide, by decide⟩, fun _ => Or.inl le_rfl⟩

/-- A data point one hour after the synchronised one gets a time before it. -/
theorem time_one_hour_later :
    getDataPointTime CppInt.wrapping (syncTimePoints {} [(0, some 0)]) (3600 * 12000) =
        .ok (some (-694967296)) ∧
      ¬ TimesExact CppInt.wrapping (syncTimePoints {} [(0, some 0)]) 0 0 0 (3600 * 12000) := by
  refine ⟨by rfl, ?_⟩
  rintro ⟨a, b, ha, hb, -, -, horder, -⟩
  cases ha
  cases hb
  exact absurd (horder (by norm_num)) (by decide)

end SmartScreen.DynamicStreamMetaData
