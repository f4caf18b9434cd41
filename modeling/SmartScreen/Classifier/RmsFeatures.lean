/-
  The root mean squares of the periods of an event.

  The loop stops in front of the last period, and one period after it should.
-/
import SmartScreen.Classifier.FeatureExtractor

namespace SmartScreen.FeatureExtractor

open Fallible

variable {α F : Type}

/-! ## The loop -/

section
variable {rms : ℕ → Except Fault F} {f : ℕ → F} {period : ℕ} {loopEnd : ℤ}

/-- The number of periods that begin in front of the end of the loop. -/
def periods (period : ℕ) (loopEnd : ℤ) : ℕ := (loopEnd.toNat + period - 1) / period

theorem lt_periods_iff (hp : 1 ≤ period) (k : ℕ) :
    k < periods period loopEnd ↔ (k * period : ℤ) < loopEnd := by
  rw [periods, Nat.lt_iff_add_one_le, Nat.le_div_iff_mul_le hp, Nat.add_mul, one_mul]
  have : ((k * period : ℕ) : ℤ) = k * period := Nat.cast_mul k period
  omega

theorem frequency_ne_zero {m : PowerMetaData} (hp : 1 ≤ m.dataPointsPerPeriod) :
    m.frequency ≠ 0 := by
  intro hzero
  rw [PowerMetaData.dataPointsPerPeriod, hzero, Nat.div_zero] at hp
  omega

/-- **The loop** adds a value for each period, until `left` more than the first are
    added. -/
theorem rmsLoop_eq (hp : 1 ≤ period)
    (hrms : ∀ k : ℕ, (k * period : ℤ) < loopEnd → rms k = .ok (f k)) (left count : ℕ) :
    rmsLoop rms period loopEnd left count =
      .ok ((List.range' count (min (left + 1) (periods period loopEnd - count))).map f) := by
  induction left generalizing count with
  | zero =>
    rw [rmsLoop]
    split_ifs with hlt
    · have hcount := (lt_periods_iff hp count).2 hlt
      have hone : min (0 + 1) (periods period loopEnd - count) = 1 := by omega
      rw [hrms count hlt, hone]
      rfl
    · rw [← lt_periods_iff hp] at hlt
      have hnone : min (0 + 1) (periods period loopEnd - count) = 0 := by omega
      rw [hnone]
      rfl
  | succ left ih =>
    rw [rmsLoop]
    split_ifs with hlt
    · have hcount := (lt_periods_iff hp count).2 hlt
      have hmore : min (left + 1 + 1) (periods period loopEnd - count) =
          min (left + 1) (periods period loopEnd - (count + 1)) + 1 := by omega
      rw [hrms count hlt, hmore, List.range'_succ, List.map_cons]
      simp only [ih (count + 1)]
      rfl
    · rw [← lt_periods_iff hp] at hlt
      have hnone : min (left + 1 + 1) (periods period loopEnd - count) = 0 := by omega
      rw [hnone]
      rfl

/-- A loop whose values exist ends. -/
theorem rmsLoop_isOk (hrms : ∀ k, ∃ x, rms k = .ok x) (left count : ℕ) :
    ∃ vs, rmsLoop rms period loopEnd left count = .ok vs := by
  obtain ⟨x, hx⟩ := hrms count
  induction left generalizing count x with
  | zero =>
    rw [rmsLoop, hx]
    split_ifs
    · exact ⟨[x], rfl⟩
    · exact ⟨[], rfl⟩
  | succ left ih =>
    obtain ⟨y, hy⟩ := hrms (count + 1)
    obtain ⟨vs, hvs⟩ := ih (count + 1) y hy
    rw [rmsLoop, hx]
    simp only [hvs]
    split_ifs
    · exact ⟨x :: vs, rfl⟩
    · exact ⟨[], rfl⟩

end

/-! ## Ranges of an event -/

theorem readRange_append {β : Type} (xs ys : List β) (offset n : ℕ) :
    readRange (xs ++ ys) (xs.length + offset) (xs.length + offset + n) =
      if offset + n ≤ ys.length then .ok ((ys.drop offset).take n) else .error .undefined := by
  rw [readRange, List.length_append]
  by_cases hle : offset + n ≤ ys.length
  · rw [if_pos (by omega), if_pos hle]
    have hlast : ((xs.length : ℤ) + offset + n).toNat = xs.length + (offset + n) := by omega
    have hfirst : ((xs.length : ℤ) + offset).toNat = xs.length + offset := by omega
    rw [hlast, hfirst, List.take_length_add_append, List.drop_length_add_append, List.drop_take,
      Nat.add_sub_cancel_left]
  · rw [if_neg (by omega), if_neg hle]

section
variable [FloatArith F] [DataPoint α F]

/-- The root mean square of the period `i` of the event, less that of the first period
    before it. -/
def rmsOf (before part : List α) (period i : ℕ) : F :=
  Algorithms.rootMeanSquareOfAmpere ((part.drop (i * period)).take period) -
    if period ≤ before.length then Algorithms.rootMeanSquareOfAmpere (before.take period) else 0

/-- The features are those of the complete periods, as many as are configured. -/
def RmsCovers (config : ClassificationConfig) (event : Event α) (before part : List α) : Prop :=
  let period := event.eventMetaData.powerMetaData.dataPointsPerPeriod
  extractRms config event = .ok
    ((List.range (min config.numberOfRms.toInt.toNat (part.length / period))).map
      (rmsOf before part period))

/-- An event whose data are `before` and, from the noted position on, `part`. -/
structure Splits (event : Event α) (before part : List α) : Prop where
  data : event.eventData = before ++ part
  begin : event.eventMetaData.powerMetaData.dataPointsStoredBeforeEvent.toInt = before.length

variable {config : ClassificationConfig} {event : Event α} {before part : List α}

theorem periodRms_event (h : Splits event before part) (offset period : ℕ) :
    periodRms event event.eventBegin offset period =
      if offset + period ≤ part.length then
        .ok (Algorithms.rootMeanSquareOfAmpere ((part.drop offset).take period))
      else .error .undefined := by
  have hbegin : event.eventBegin = before.length := h.begin
  rw [periodRms, hbegin, h.data, readRange_append]
  split_ifs <;> rfl

theorem periodRms_before (h : Splits event before part) {period : ℕ}
    (hle : period ≤ before.length) :
    periodRms event 0 0 period =
      .ok (Algorithms.rootMeanSquareOfAmpere (before.take period)) := by
  have hread := readRange_append [] (before ++ part) 0 period
  simp only [List.nil_append, List.length_nil] at hread
  rw [periodRms, h.data]
  norm_cast at hread ⊢
  rw [hread, if_pos (by rw [List.length_append]; omega), List.drop_zero,
    List.take_append_of_le_length hle]
  rfl

theorem subRms_eq (h : Splits event before part) (period : ℕ) :
    subRms event period = .ok (if period ≤ before.length then
      Algorithms.rootMeanSquareOfAmpere (before.take period) else 0) := by
  set m := event.eventMetaData.powerMetaData with hm
  have hstored : sizeOfInt m.dataPointsStoredBeforeEvent = before.length := by
    have hnonneg : 0 ≤ m.dataPointsStoredBeforeEvent.toInt := by
      rw [hm, h.begin]
      omega
    have hsize := sizeOfInt_of_nonneg hnonneg
    rw [hm, h.begin] at hsize
    exact_mod_cast hsize
  rw [subRms, ← hm, hstored]
  split_ifs with hle
  · exact periodRms_before h hle
  · rfl

/-- The loop and its end. -/
theorem extractRms_eq (h : Splits event before part)
    (hfrequency : event.eventMetaData.powerMetaData.frequency ≠ 0) :
    extractRms config event =
      rmsLoop (fun count =>
          if (count + 1) * event.eventMetaData.powerMetaData.dataPointsPerPeriod ≤ part.length then
            .ok (rmsOf before part event.eventMetaData.powerMetaData.dataPointsPerPeriod count)
          else .error .undefined)
        event.eventMetaData.powerMetaData.dataPointsPerPeriod
        (longSub part.length event.eventMetaData.powerMetaData.dataPointsPerPeriod)
        config.numberOfRms.toInt.toNat 0 := by
  set m := event.eventMetaData.powerMetaData with hm
  have hlength : (event.eventData.length - event.eventBegin).toNat = part.length := by
    have hbegin : event.eventBegin = before.length := h.begin
    rw [hbegin, h.data, List.length_append]
    omega
  simp only [extractRms, ← hm, if_neg hfrequency, subRms_eq h, hlength]
  change rmsLoop _ _ _ _ _ = _
  congr 1
  funext count
  rw [periodRms_event h, Nat.add_one_mul]
  by_cases hcount : count * m.dataPointsPerPeriod + m.dataPointsPerPeriod ≤ part.length
  · rw [if_pos hcount, if_pos hcount]
    rfl
  · rw [if_neg hcount, if_neg hcount]
    rfl

/-- **The features that are extracted.** -/
theorem extractRms_ok (h : Splits event before part)
    (hp : 1 ≤ event.eventMetaData.powerMetaData.dataPointsPerPeriod)
    (hfits : event.eventMetaData.powerMetaData.dataPointsPerPeriod ≤ part.length + 2 ^ 63) :
    extractRms config event = .ok ((List.range (min (config.numberOfRms.toInt.toNat + 1)
      ((part.length - 1) / event.eventMetaData.powerMetaData.dataPointsPerPeriod))).map
        (rmsOf before part event.eventMetaData.powerMetaData.dataPointsPerPeriod)) := by
  rw [extractRms_eq h (frequency_ne_zero hp)]
  set p := event.eventMetaData.powerMetaData.dataPointsPerPeriod
  have hend : longSub part.length p = part.length - p := if_pos hfits
  have hperiods : periods p (longSub part.length p) = (part.length - 1) / p := by
    rw [periods, hend]
    rcases Nat.lt_or_ge part.length p with hlt | hge
    · rw [Nat.div_eq_of_lt (by omega), Nat.div_eq_of_lt (by omega)]
    · congr 1
      omega
  rw [rmsLoop_eq hp (f := rmsOf before part p), hperiods, Nat.sub_zero, List.range_eq_range']
  intro k hk
  rw [hend] at hk
  rw [if_pos]
  rw [Nat.add_one_mul]
  have : ((k * p : ℕ) : ℤ) = k * p := Nat.cast_mul k p
  omega

/-- A period that is much longer than the event makes the loop read behind it. -/
theorem extractRms_error (h : Splits event before part)
    (hp : 1 ≤ event.eventMetaData.powerMetaData.dataPointsPerPeriod)
    (hlong : event.eventMetaData.powerMetaData.dataPointsPerPeriod < 2 ^ 64)
    (hfits : part.length + 2 ^ 63 < event.eventMetaData.powerMetaData.dataPointsPerPeriod) :
    extractRms config event = .error .undefined := by
  rw [extractRms_eq h (frequency_ne_zero hp)]
  set p := event.eventMetaData.powerMetaData.dataPointsPerPeriod
  have hend : longSub part.length p = 2 ^ 64 + part.length - p := if_neg (by omega)
  rw [rmsLoop.eq_def]
  dsimp only
  rw [if_pos (by rw [hend]; push_cast; omega), if_neg (by omega)]
  rfl

/-- **When the features can be extracted.** -/
theorem extractRms_isOk_iff (config : ClassificationConfig) (h : Splits event before part)
    (hlong : event.eventMetaData.powerMetaData.dataPointsPerPeriod < 2 ^ 64) :
    (∃ vs, extractRms config event = .ok vs) ↔
      event.eventMetaData.powerMetaData.frequency ≠ 0 ∧
        event.eventMetaData.powerMetaData.dataPointsPerPeriod ≤ part.length + 2 ^ 63 := by
  by_cases hfrequency : event.eventMetaData.powerMetaData.frequency = 0
  · refine iff_of_false ?_ fun h => h.1 hfrequency
    rw [extractRms, if_pos hfrequency]
    simp
  rcases Nat.eq_zero_or_pos event.eventMetaData.powerMetaData.dataPointsPerPeriod with hp | hp
  · refine iff_of_true ?_ ⟨hfrequency, by omega⟩
    rw [extractRms_eq h hfrequency]
    exact rmsLoop_isOk (fun k => ⟨_, if_pos (by rw [hp]; omega)⟩) _ _
  by_cases hfits : event.eventMetaData.powerMetaData.dataPointsPerPeriod ≤ part.length + 2 ^ 63
  · exact iff_of_true ⟨_, extractRms_ok h hp hfits⟩ ⟨hfrequency, hfits⟩
  · rw [extractRms_error h hp hlong (not_le.1 hfits)]
    exact iff_of_false (by simp) fun h => hfits h.2

/-- When one period more in front of the last one is the right number. -/
theorem min_periods_iff {r length period : ℕ} (hp : 1 ≤ period) :
    min (r + 1) ((length - 1) / period) = min r (length / period) ↔
      length = 0 ∨ (¬ period ∣ length ∧ length / period ≤ r) ∨ length = (r + 1) * period := by
  rcases Nat.eq_zero_or_pos length with rfl | hpos
  · simp
  have hlast : (length - 1) / period = if period ∣ length then length / period - 1
      else length / period := by
    obtain ⟨n, rfl⟩ : ∃ n, length = n + 1 := ⟨length - 1, by omega⟩
    rw [Nat.add_sub_cancel, Nat.succ_div]
    generalize n / period = q
    split_ifs <;> omega
  rw [hlast]
  split_ifs with hdvd
  · obtain ⟨q, rfl⟩ := hdvd
    have hq : 1 ≤ q := Nat.pos_of_ne_zero fun h => by simp [h] at hpos
    rw [Nat.mul_div_cancel_left q hp, Nat.mul_comm period q,
      Nat.mul_left_inj (Nat.one_le_iff_ne_zero.1 hp)]
    simp only [dvd_mul_left, not_true_eq_false, false_and, false_or]
    constructor
    · intro h
      exact Or.inr (by omega)
    · rintro (h | rfl)
      · exact absurd h (by positivity)
      · omega
  · have hne : length ≠ (r + 1) * period := fun h => hdvd (h ▸ Nat.dvd_mul_left _ _)
    simp only [hpos.ne', hdvd, hne, not_false_eq_true, true_and, false_or, or_false]
    omega

/-- **The features cover the configured periods** exactly if the event has no data
    points, or has a fraction of a period and not too many periods, or has one
    period more than configured. -/
theorem rmsCovers_iff (config : ClassificationConfig) (h : Splits event before part)
    (hp : 1 ≤ event.eventMetaData.powerMetaData.dataPointsPerPeriod)
    (hlong : event.eventMetaData.powerMetaData.dataPointsPerPeriod < 2 ^ 64)
    (hr : 0 ≤ config.numberOfRms.toInt) :
    RmsCovers config event before part ↔
      event.eventMetaData.powerMetaData.dataPointsPerPeriod ≤ part.length + 2 ^ 63 ∧
        (part.length = 0 ∨
          (¬ event.eventMetaData.powerMetaData.dataPointsPerPeriod ∣ part.length ∧
            (part.length / event.eventMetaData.powerMetaData.dataPointsPerPeriod : ℕ) ≤
              config.numberOfRms.toInt) ∨
          part.length =
            (config.numberOfRms.toInt + 1) *
              event.eventMetaData.powerMetaData.dataPointsPerPeriod) := by
  rw [RmsCovers]
  obtain ⟨r, hr'⟩ := Int.eq_ofNat_of_zero_le hr
  by_cases hfits : event.eventMetaData.powerMetaData.dataPointsPerPeriod ≤ part.length + 2 ^ 63
  · rw [extractRms_ok h hp hfits]
    simp only [hr', Int.toNat_natCast, hfits, true_and]
    rw [Except.ok.injEq]
    norm_cast
    rw [← min_periods_iff hp]
    constructor
    · intro heq
      simpa using congrArg List.length heq
    · intro heq
      rw [heq]
  · rw [extractRms_error h hp hlong (not_le.1 hfits)]
    exact iff_of_false (by simp) fun h => hfits h.1

end

/-- An event with one data point before it and `n` of it, in periods of two. -/
def smallEvent (n : ℕ) : Event (DefaultDataPoint ℚ) :=
  ⟨⟨0, 1⟩ :: List.replicate n ⟨0, 1⟩, { powerMetaData := smallMetaData }⟩

theorem splits_smallEvent (n : ℕ) :
    Splits (smallEvent n) [⟨0, 1⟩] (List.replicate n ⟨0, 1⟩) := ⟨rfl, rfl⟩

/-- One and a half periods. -/
theorem rmsCovers_small : RmsCovers {} (smallEvent 3) [⟨0, 1⟩] (List.replicate 3 ⟨0, 1⟩) :=
  (rmsCovers_iff {} (splits_smallEvent 3) (by decide) (by decide) (by decide)).2
    ⟨by decide, Or.inr (Or.inl ⟨by decide, by decide⟩)⟩

/-- Of two periods only the first one is extracted. -/
theorem last_period_missing :
    ¬ RmsCovers {} (smallEvent 4) [⟨0, 1⟩] (List.replicate 4 ⟨0, 1⟩) := by
  intro h
  rw [RmsCovers, extractRms_ok (splits_smallEvent 4) (by decide) (by decide)] at h
  have hlength := congrArg List.length (Except.ok.inj h)
  rw [List.length_map, List.length_map, List.length_range, List.length_range] at hlength
  exact absurd hlength (by decide)

end SmartScreen.FeatureExtractor
