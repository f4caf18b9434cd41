/-
  The search for harmonics in a spectrum.

  The assertion keeps the windows from leaving the spectrum at its end; the window of
  the first harmonic may begin in front of it.
-/
import Mathlib.Data.List.MinMax
import SmartScreen.Classifier.RmsFeatures

namespace SmartScreen

open Fallible

/-! ## Ranges -/

section
variable {β : Type} {xs ys : List β} {first last : ℤ}

theorem readRange_ok_iff : readRange xs first last = .ok ys ↔
    (0 ≤ first ∧ first ≤ last ∧ last ≤ xs.length) ∧
      ys = (xs.take last.toNat).drop first.toNat := ite_eq_ok

/-- The entries of a range are those at its positions. -/
theorem mem_readRange (h : readRange xs first last = .ok ys) {x : β} :
    x ∈ ys ↔ ∃ j : ℕ, first ≤ j ∧ j < last ∧ xs[j]? = some x := by
  obtain ⟨⟨hfirst, hle, hlast⟩, rfl⟩ := readRange_ok_iff.1 h
  rw [List.mem_iff_getElem?]
  constructor
  · rintro ⟨i, hi⟩
    rw [List.getElem?_drop, List.getElem?_take] at hi
    split_ifs at hi with hlt
    exact ⟨first.toNat + i, by omega, by omega, hi⟩
  · rintro ⟨j, hj, hj', hx⟩
    refine ⟨j - first.toNat, ?_⟩
    rw [List.getElem?_drop, List.getElem?_take, if_pos (by omega), ← hx]
    congr 1
    omega

end

namespace Algorithms

/-! ## One window -/

/-- The positions around the harmonic `i`; without a radius it is the harmonic. -/
def InWindow (baseFrequency searchRadius i : ℕ) (j : ℕ) : Prop :=
  if searchRadius = 0 then j = i * baseFrequency
  else (i * baseFrequency - searchRadius : ℤ) ≤ j ∧ j < i * baseFrequency + searchRadius

section
variable {F : Type} [FloatArith F] {dataPoints : List (KissFftCpx F)} {b s i : ℕ}

/-- A search returns if it stays in the spectrum. -/
theorem maxElement_isOk {first last : ℤ} (hfirst : 0 ≤ first) (hle : first ≤ last)
    (hlast : last < dataPoints.length) : ∃ x, maxElement dataPoints first last = .ok x := by
  have hlast' : last.toNat < dataPoints.length := by omega
  rw [maxElement, readRange_ok_iff.2 ⟨⟨hfirst, hle, hlast.le⟩, rfl⟩,
    List.getElem?_eq_getElem hlast']
  cases hlargest : largest ((dataPoints.take last.toNat).drop first.toNat) with
  | none => exact ⟨dataPoints[last.toNat], by simp [bind, Except.bind, hlargest]⟩
  | some x => exact ⟨x, by simp [bind, Except.bind, hlargest]⟩

theorem maxElement_error {first last : ℤ} (hfirst : first < 0) :
    maxElement dataPoints first last = .error .undefined := by
  have hread : readRange dataPoints first last = .error .undefined :=
    if_neg fun h => absurd h.1 (not_le.2 hfirst)
  rw [maxElement, hread]
  rfl

/-- **When the search returns**, if the assertion holds. -/
theorem getHarmonics_isOk_iff {h : ℕ} (hassert : b * (h + 1) + s < dataPoints.length) :
    (∃ vs, getHarmonics dataPoints b h s = .ok vs) ↔ h = 0 ∨ s ≤ 2 * b := by
  rw [getHarmonics, if_pos hassert, Nat.add_sub_cancel]
  constructor
  · rintro ⟨vs, hvs⟩
    by_contra hno
    rw [not_or, not_le] at hno
    obtain ⟨h, rfl⟩ := Nat.exists_eq_succ_of_ne_zero hno.1
    rw [List.range'_succ, List.mapM_cons, harmonic, maxElement_error (by push_cast; omega)] at hvs
    cases hvs
  · intro hs
    refine mapM_isOk fun i hi => ?_
    obtain ⟨hlow, hhigh⟩ := List.mem_range'_1.1 hi
    have hb : 2 * b ≤ i * b := Nat.mul_le_mul_right b hlow
    have hb' : i * b ≤ b * (h + 1) := by
      rw [Nat.mul_comm]
      exact Nat.mul_le_mul_left b (by omega)
    have hcast : ((i * b : ℕ) : ℤ) = i * b := Nat.cast_mul i b
    obtain ⟨x, hx⟩ : ∃ x, maxElement dataPoints (i * b - s) (i * b + s) = .ok x :=
      maxElement_isOk (by omega) (by omega) (by omega)
    exact ⟨_, by rw [harmonic, hx]; rfl⟩

end

section
variable {F : Type} [ExactArith F] {dataPoints : List (KissFftCpx F)} {b s i : ℕ}

/-- The largest `|r|` at the positions of a window. -/
def IsLargest (dataPoints : List (KissFftCpx F)) (window : ℕ → Prop) (v : F) : Prop :=
  (∃ j x, window j ∧ dataPoints[j]? = some x ∧ v = FloatArith.abs x.r) ∧
    ∀ j x, window j → dataPoints[j]? = some x → FloatArith.abs x.r ≤ v

/-- All reads are inside the spectrum, and there is a value for each harmonic. -/
def HarmonicsInside (dataPoints : List (KissFftCpx F)) (b h s : ℕ) : Prop :=
  ∃ vs, getHarmonics dataPoints b h s = .ok vs ∧ vs.length = h ∧
    ∀ i v, vs[i]? = some v → IsLargest dataPoints (InWindow b s (i + 2)) v

theorem largest_eq_argmax (xs : List (KissFftCpx F)) :
    largest xs = xs.argmax fun x => FloatArith.abs x.r := by
  cases xs with
  | nil => rfl
  | cons x xs =>
    rw [largest, List.argmax, List.foldl_cons]
    induction xs generalizing x with
    | nil => rfl
    | cons y xs ih =>
      rw [List.foldl_cons, ih, List.foldl_cons]
      congr 1
      simp only [List.argAux]
      split_ifs <;> rfl

theorem maxElement_empty {position : ℤ} {x : KissFftCpx F}
    (h : maxElement dataPoints position position = .ok x) :
    dataPoints[position.toNat]? = some x := by
  simp only [maxElement, bind_eq_ok] at h
  obtain ⟨points, hread, h⟩ := h
  have hpoints : points = [] := by
    refine List.eq_nil_iff_forall_not_mem.2 fun y hy => ?_
    obtain ⟨j, hj, hj', -⟩ := (mem_readRange hread).1 hy
    omega
  rw [hpoints, largest, Option.none_or] at h
  cases hx : dataPoints[position.toNat]? with
  | none =>
    rw [hx] at h
    cases h
  | some y =>
    rw [hx] at h
    cases h
    rfl

theorem maxElement_nonempty {first last : ℤ} {x : KissFftCpx F} (hlt : first < last)
    (h : maxElement dataPoints first last = .ok x) :
    (∃ j : ℕ, first ≤ j ∧ j < last ∧ dataPoints[j]? = some x) ∧
      ∀ (j : ℕ) y, first ≤ j → j < last → dataPoints[j]? = some y →
        FloatArith.abs y.r ≤ FloatArith.abs x.r := by
  simp only [maxElement, bind_eq_ok] at h
  obtain ⟨points, hread, h⟩ := h
  have hmem := fun y => mem_readRange hread (x := y)
  have hpoints : points ≠ [] := by
    obtain ⟨⟨hfirst, -, hlast⟩, -⟩ := readRange_ok_iff.1 hread
    have hlt' : first.toNat < dataPoints.length := by omega
    exact List.ne_nil_of_mem
      ((hmem _).2 ⟨first.toNat, by omega, by omega, List.getElem?_eq_getElem hlt'⟩)
  cases hlargest : largest points with
  | none => exact absurd (List.argmax_eq_none.1 (largest_eq_argmax points ▸ hlargest)) hpoints
  | some y =>
    rw [hlargest] at h
    cases h
    rw [largest_eq_argmax] at hlargest
    refine ⟨(hmem x).1 (List.argmax_mem hlargest), fun j z hj hj' hz => ?_⟩
    exact List.le_of_mem_argmax (f := fun x : KissFftCpx F => FloatArith.abs x.r)
      ((hmem z).2 ⟨j, hj, hj', hz⟩) hlargest

theorem harmonic_isLargest {v : F} (h : harmonic dataPoints b s i = .ok v) :
    IsLargest dataPoints (InWindow b s i) v := by
  rw [harmonic] at h
  cases hmax : maxElement dataPoints (i * b - s : ℤ) (i * b + s : ℤ) with
  | error e =>
    rw [hmax] at h
    cases h
  | ok x =>
  rw [hmax] at h
  cases h
  have hcast : ((i * b : ℕ) : ℤ) = i * b := Nat.cast_mul i b
  rcases Nat.eq_zero_or_pos s with rfl | hs
  · have hzero : ((i * b : ℤ) - (0 : ℕ)) = i * b := by omega
    have hzero' : ((i * b : ℤ) + (0 : ℕ)) = i * b := by omega
    rw [hzero, hzero'] at hmax
    have hx := maxElement_empty hmax
    rw [← hcast, Int.toNat_natCast] at hx
    refine ⟨⟨i * b, x, by simp [InWindow], hx, rfl⟩, fun j y hj hy => ?_⟩
    obtain rfl : j = i * b := by simpa [InWindow] using hj
    rw [hx] at hy
    cases hy
    exact le_rfl
  · have hwindow : ∀ j : ℕ, InWindow b s i j ↔ (i * b - s : ℤ) ≤ j ∧ j < (i * b + s : ℤ) := by
      intro j
      rw [InWindow, if_neg hs.ne']
      omega
    obtain ⟨⟨j, hj, hj', hx⟩, hall⟩ := maxElement_nonempty (by omega) hmax
    refine ⟨⟨j, x, (hwindow j).2 ⟨hj, hj'⟩, hx, rfl⟩, fun k y hk hy => ?_⟩
    obtain ⟨hk, hk'⟩ := (hwindow k).1 hk
    exact hall k y hk hk' hy

/-- **The search stays inside the spectrum** exactly if there is nothing to search, or
    the radius is at most two harmonics. -/
theorem harmonicsInside_iff {h : ℕ} (hassert : b * (h + 1) + s < dataPoints.length) :
    HarmonicsInside dataPoints b h s ↔ h = 0 ∨ s ≤ 2 * b := by
  rw [← getHarmonics_isOk_iff hassert]
  constructor
  · rintro ⟨vs, hvs, -⟩
    exact ⟨vs, hvs⟩
  · rintro ⟨vs, hvs⟩
    refine ⟨vs, hvs, ?_⟩
    rw [getHarmonics, if_pos hassert, Nat.add_sub_cancel] at hvs
    have hall := mapM_eq_ok.1 hvs
    refine ⟨by rw [← hall.length_eq, List.length_range'], fun i v hv => ?_⟩
    obtain ⟨hi, rfl⟩ := List.getElem?_eq_some_iff.1 hv
    have hi' : i < (List.range' 2 h).length := by rwa [hall.length_eq]
    have hharmonic := hall.get hi' hi
    simp only [List.get_eq_getElem, List.getElem_range', one_mul] at hharmonic
    rw [Nat.add_comm]
    exact harmonic_isLargest hharmonic

end

end Algorithms

/-! ## The features of an event -/

namespace FeatureExtractor

/-- The states of an extractor. -/
inductive Reached {F : Type} [FloatMath F] (α : Type) [DataPoint α F] (fft : KissFft F) :
    FeatureExtractor F → Prop
  | new : Reached α fft {}
  | setConfig {fe : FeatureExtractor F} (config : ClassificationConfig) : Reached α fft fe →
      Reached α fft (fe.setConfig config)
  | extract {fe fe' : FeatureExtractor F} {event : Event α} {features : EventFeatures F} :
      Reached α fft fe → fe.extractFeatures fft event = .ok (fe', features) →
      Reached α fft fe'

variable {α F : Type} [FloatMath F] [DataPoint α F] {fft : KissFft F}
  {fe fe' : FeatureExtractor F} {event : Event α} {before part : List α}

/-- The spectra have `n` points. -/
structure SpectraOf (n : ℕ) (fe : FeatureExtractor F) : Prop where
  ampereBefore : fe.fftAmpereBefore.length = n
  ampereAfter : fe.fftAmpereAfter.length = n
  voltageBefore : fe.fftVoltageBefore.length = n
  voltageAfter : fe.fftVoltageAfter.length = n

theorem wellFormed_of_calcFFTs (h : fe.fftCalculator.WellFormed)
    (hok : fe.calcFFTs fft event = .ok fe') : fe'.fftCalculator.WellFormed := by
  simp only [calcFFTs, bind_eq_ok] at hok
  obtain ⟨_, -, _, -, r₁, h₁, r₂, h₂, r₃, h₃, r₄, h₄, hfe⟩ := hok
  cases hfe
  exact (((h.calculate fft h₁).calculate fft h₂).calculate fft h₃).calculate fft h₄

theorem Reached.wellFormed (h : Reached α fft fe) : fe.fftCalculator.WellFormed := by
  induction h with
  | new => exact FftCalculator.WellFormed.construct none
  | setConfig _ _ ih => exact ih
  | extract _ hok ih =>
    simp only [extractFeatures, bind_eq_ok] at hok
    obtain ⟨fe₁, hfft, _, -, _, -, _, -, hr⟩ := hok
    cases hr
    exact wellFormed_of_calcFFTs ih hfft

/-! ### The spectra -/

theorem readRange_before (h : Splits event before part) {n : ℕ} (hn : n ≤ before.length) :
    readRange event.eventData 0 n = .ok (before.take n) := by
  rw [h.data, readRange_ok_iff, List.length_append]
  refine ⟨by omega, ?_⟩
  rw [Int.toNat_natCast, Int.toNat_zero, List.drop_zero, List.take_append_of_le_length hn]

theorem readRange_part (h : Splits event before part) {n : ℕ} (hn : n ≤ part.length) :
    readRange event.eventData event.eventBegin (event.eventBegin + n) = .ok (part.take n) := by
  have hbegin : event.eventBegin = before.length := h.begin
  have hread := readRange_append before part 0 n
  rw [Nat.zero_add, if_pos hn, List.drop_zero, Nat.cast_zero, add_zero] at hread
  rw [hbegin, h.data, hread]

/-- An `int` counts the data points in front of an event. -/
theorem Splits.before_lt (h : Splits event before part) : before.length < 2 ^ 31 := by
  have := h.begin ▸ Int32.toInt_lt event.eventMetaData.powerMetaData.dataPointsStoredBeforeEvent
  exact_mod_cast this

/-- The spectrum of the first `n` of some data points, with the window. -/
def spectrum (fft : KissFft F) (n : ℕ) (f : α → F) (points : List α) : List (KissFftCpx F) :=
  fft.transform (FftCalculator.windowed ((points.take n).map f))

/-- The spectra are those of an event, of as many points before it as of it. -/
structure HasSpectra (fft : KissFft F) (before part : List α) (fe : FeatureExtractor F) : Prop where
  ampereBefore : fe.fftAmpereBefore =
    spectrum fft (min before.length part.length) DataPoint.ampere before
  ampereAfter : fe.fftAmpereAfter =
    spectrum fft (min before.length part.length) DataPoint.ampere part
  voltageBefore : fe.fftVoltageBefore =
    spectrum fft (min before.length part.length) DataPoint.voltage before
  voltageAfter : fe.fftVoltageAfter =
    spectrum fft (min before.length part.length) DataPoint.voltage part

omit [DataPoint α F] in
theorem length_spectrum (f : α → F) {n : ℕ} {points : List α} (hn : n ≤ points.length) :
    (spectrum fft n f points).length = n := by
  rw [spectrum, fft.length_transform, FftCalculator.length_windowed, List.length_map,
    List.length_take, min_eq_left hn]

theorem HasSpectra.spectraOf (h : HasSpectra fft before part fe) :
    SpectraOf (min before.length part.length) fe where
  ampereBefore := h.ampereBefore ▸ length_spectrum _ (min_le_left _ _)
  ampereAfter := h.ampereAfter ▸ length_spectrum _ (min_le_right _ _)
  voltageBefore := h.voltageBefore ▸ length_spectrum _ (min_le_left _ _)
  voltageAfter := h.voltageAfter ▸ length_spectrum _ (min_le_right _ _)

/-- **The spectra are calculated** exactly if the calculator has not been used for more
    points. -/
theorem calcFFTs_ok (fft : KissFft F) (h : Splits event before part)
    (hfe : fe.fftCalculator.WellFormed) (hpos : 1 ≤ min before.length part.length)
    (hfits : fe.fftCalculator.maxDataSize ≤ min before.length part.length) :
    ∃ fe', fe.calcFFTs fft event = .ok fe' ∧ HasSpectra fft before part fe' ∧
      fe'.classificationConfig = fe.classificationConfig := by
  set n := min before.length part.length with hn
  have hsmall : n < 2 ^ 31 := (min_le_left _ _).trans_lt h.before_lt
  have hcount : min event.eventBegin (event.eventData.length - event.eventBegin) = (n : ℤ) := by
    have hbegin : event.eventBegin = before.length := h.begin
    rw [hbegin, h.data, List.length_append, hn]
    omega
  have hstep : ∀ (c : FftCalculator F) (f : α → F) (points : List α), c.WellFormed →
      n ≤ points.length → c.maxDataSize ≤ n →
      ∃ c', c.calculateFFTWithBlackmanHarris fft ((points.take n).map f) =
        .ok (c', spectrum fft n f points) ∧ c'.WellFormed ∧ c'.maxDataSize ≤ n := by
    intro c f points hc hle hmax
    have hlen : ((points.take n).map f).length = n := by
      rw [List.length_map, List.length_take, min_eq_left hle]
    obtain ⟨c', hok, hc', hmax'⟩ := FftCalculator.calculateFFTWithBlackmanHarris_ok fft hc
      (hlen.symm ▸ hpos) (hlen.symm ▸ hsmall) (hlen.symm ▸ hmax)
    exact ⟨c', hok, hc', (hmax'.trans hlen).le⟩
  have hb : n ≤ before.length := min_le_left _ _
  have hp : n ≤ part.length := min_le_right _ _
  obtain ⟨c₁, hok₁, hc₁, hmax₁⟩ := hstep _ DataPoint.ampere before hfe hb hfits
  obtain ⟨c₂, hok₂, hc₂, hmax₂⟩ := hstep _ DataPoint.voltage before hc₁ hb hmax₁
  obtain ⟨c₃, hok₃, hc₃, hmax₃⟩ := hstep _ DataPoint.ampere part hc₂ hp hmax₂
  obtain ⟨c₄, hok₄, -⟩ := hstep _ DataPoint.voltage part hc₃ hp hmax₃
  refine ⟨{ fe with
      fftCalculator := c₄
      fftAmpereBefore := spectrum fft n DataPoint.ampere before
      fftVoltageBefore := spectrum fft n DataPoint.voltage before
      fftAmpereAfter := spectrum fft n DataPoint.ampere part
      fftVoltageAfter := spectrum fft n DataPoint.voltage part }, ?_, ⟨rfl, rfl, rfl, rfl⟩, rfl⟩
  simp only [calcFFTs, bind_eq_ok, hcount]
  exact ⟨_, readRange_before h hb, _, readRange_part h hp, _, hok₁, _, hok₂, _, hok₃, _, hok₄, rfl⟩

theorem fits_of_calcFFTs (h : Splits event before part) (hfe : fe.fftCalculator.WellFormed)
    (hok : fe.calcFFTs fft event = .ok fe') :
    fe.fftCalculator.maxDataSize ≤ min before.length part.length := by
  have hcount : min event.eventBegin (event.eventData.length - event.eventBegin) =
      ((min before.length part.length : ℕ) : ℤ) := by
    have hbegin : event.eventBegin = before.length := h.begin
    rw [hbegin, h.data, List.length_append]
    omega
  simp only [calcFFTs, bind_eq_ok, hcount, readRange_before h (min_le_left _ _)] at hok
  obtain ⟨_, hread, _, -, _, hfirst, -⟩ := hok
  cases hread
  have hlen : ((before.take (min before.length part.length)).map
      (DataPoint.ampere : α → F)).length = min before.length part.length := by
    rw [List.length_map, List.length_take, min_eq_left (min_le_left _ _)]
  have hfits := FftCalculator.fits_of_calculateFFTWithBlackmanHarris fft hfe hfirst
  omega

/-! ### All features -/

theorem calcPhaseShift_isOk {amps volts : List (KissFftCpx F)} {pos : ℕ}
    (ha : pos < amps.length) (hv : pos < volts.length) :
    ∃ x, calcPhaseShift amps volts pos = .ok x := by
  rw [calcPhaseShift, List.getElem?_eq_getElem ha, List.getElem?_eq_getElem hv]
  exact ⟨_, rfl⟩

/-- The position of the base frequency is read in all spectra. -/
theorem extractPhaseShift_isOk {n : ℕ} {m : PowerMetaData} (h : SpectraOf n fe)
    (hpos : calcBaseFrequencyPos F m n < n) : ∃ x, fe.extractPhaseShift m = .ok x := by
  obtain ⟨x, hx⟩ := calcPhaseShift_isOk (hpos.trans_eq h.ampereBefore.symm)
    (hpos.trans_eq h.voltageBefore.symm)
  obtain ⟨y, hy⟩ := calcPhaseShift_isOk (hpos.trans_eq h.ampereAfter.symm)
    (hpos.trans_eq h.voltageAfter.symm)
  refine ⟨y - x, ?_⟩
  simp only [extractPhaseShift, bind_eq_ok, h.ampereBefore]
  exact ⟨x, hx, y, hy, rfl⟩

theorem extractHarmonics_isOk_iff {n : ℕ} {m : PowerMetaData} (h : SpectraOf n fe)
    (hassert : calcBaseFrequencyPos F m n * (fe.classificationConfig.numberOfHarmonics + 1) +
      fe.classificationConfig.harmonicsSearchRadius < n) :
    (∃ vs, fe.extractHarmonics m = .ok vs) ↔
      fe.classificationConfig.numberOfHarmonics = 0 ∨
        fe.classificationConfig.harmonicsSearchRadius ≤ 2 * calcBaseFrequencyPos F m n := by
  have hold := Algorithms.getHarmonics_isOk_iff
    (hassert.trans_eq h.ampereBefore.symm)
  have hnew := Algorithms.getHarmonics_isOk_iff
    (hassert.trans_eq h.ampereAfter.symm)
  simp only [extractHarmonics, bind_eq_ok, h.ampereBefore]
  constructor
  · rintro ⟨_, old, hold', -⟩
    exact hold.1 ⟨old, hold'⟩
  · intro hs
    obtain ⟨old, hold'⟩ := hold.2 hs
    obtain ⟨new, hnew'⟩ := hnew.2 hs
    exact ⟨_, old, hold', new, hnew', rfl⟩

/-- **The features of an event** are extracted without leaving a vector. -/
theorem extractFeatures_isOk_iff (h : Splits event before part)
    (hfe : fe.fftCalculator.WellFormed) (hpos : 1 ≤ min before.length part.length)
    (hlong : event.eventMetaData.powerMetaData.dataPointsPerPeriod < 2 ^ 64)
    (hassert : calcBaseFrequencyPos F event.eventMetaData.powerMetaData
        (min before.length part.length) * (fe.classificationConfig.numberOfHarmonics + 1) +
      fe.classificationConfig.harmonicsSearchRadius < min before.length part.length) :
    (∃ r, fe.extractFeatures fft event = .ok r) ↔
      (fe.classificationConfig.numberOfHarmonics = 0 ∨
        fe.classificationConfig.harmonicsSearchRadius ≤
          2 * calcBaseFrequencyPos F event.eventMetaData.powerMetaData
            (min before.length part.length)) ∧
      fe.fftCalculator.maxDataSize ≤ min before.length part.length ∧
      event.eventMetaData.powerMetaData.frequency ≠ 0 ∧
      event.eventMetaData.powerMetaData.dataPointsPerPeriod ≤ part.length + 2 ^ 63 := by
  have hbase : calcBaseFrequencyPos F event.eventMetaData.powerMetaData
      (min before.length part.length) < min before.length part.length := by
    refine lt_of_le_of_lt ?_ hassert
    exact (Nat.le_mul_of_pos_right _ (Nat.succ_pos _)).trans (Nat.le_add_right _ _)
  by_cases hfits : fe.fftCalculator.maxDataSize ≤ min before.length part.length
  · obtain ⟨fe', hfft, hspectra, hconfig⟩ := calcFFTs_ok fft h hfe hpos hfits
    rw [← hconfig] at hassert ⊢
    rw [← extractHarmonics_isOk_iff hspectra.spectraOf hassert,
      ← extractRms_isOk_iff fe'.classificationConfig (F := F) h hlong]
    obtain ⟨shift, hshift⟩ := extractPhaseShift_isOk hspectra.spectraOf hbase
    simp only [extractFeatures, bind_eq_ok, hfft, hfits, true_and]
    constructor
    · rintro ⟨_, _, hfe', _, -, rms, hrms, harmonics, hharmonics, -⟩
      cases hfe'
      exact ⟨⟨harmonics, hharmonics⟩, rms, hrms⟩
    · rintro ⟨⟨harmonics, hharmonics⟩, rms, hrms⟩
      exact ⟨_, fe', rfl, shift, hshift, rms, hrms, harmonics, hharmonics, rfl⟩
  · refine iff_of_false ?_ fun h => hfits h.2.1
    rintro ⟨r, hr⟩
    simp only [extractFeatures, bind_eq_ok] at hr
    obtain ⟨fe', hfft, -⟩ := hr
    exact hfits (fits_of_calcFFTs h hfe hfft)

/-- **The search for harmonics stays inside the spectrum** exactly if there is nothing
    to search, or the radius is at most two harmonics.  The features of an event are
    extracted under the same condition, if the calculator has not been used for more
    points, and the period is neither undefined nor much longer than the event. -/
theorem harmonic_search_inside_iff {G : Type} [ExactArith G] (α : Type) [DataPoint α F]
    (fft : KissFft F) :
    (∀ (dataPoints : List (KissFftCpx G)) (b h s : ℕ),
      b * (h + 1) + s < dataPoints.length →
        (Algorithms.HarmonicsInside dataPoints b h s ↔ h = 0 ∨ s ≤ 2 * b)) ∧
    ∀ (fe : FeatureExtractor F) (event : Event α) (before part : List α),
      Reached α fft fe → Splits event before part → 1 ≤ min before.length part.length →
      event.eventMetaData.powerMetaData.dataPointsPerPeriod < 2 ^ 64 →
      calcBaseFrequencyPos F event.eventMetaData.powerMetaData
          (min before.length part.length) * (fe.classificationConfig.numberOfHarmonics + 1) +
        fe.classificationConfig.harmonicsSearchRadius < min before.length part.length →
      ((∃ r, fe.extractFeatures fft event = .ok r) ↔
        (fe.classificationConfig.numberOfHarmonics = 0 ∨
          fe.classificationConfig.harmonicsSearchRadius ≤
            2 * calcBaseFrequencyPos F event.eventMetaData.powerMetaData
              (min before.length part.length)) ∧
        fe.fftCalculator.maxDataSize ≤ min before.length part.length ∧
        event.eventMetaData.powerMetaData.frequency ≠ 0 ∧
        event.eventMetaData.powerMetaData.dataPointsPerPeriod ≤ part.length + 2 ^ 63) :=
  ⟨fun _ _ _ _ hassert => Algorithms.harmonicsInside_iff hassert,
    fun _ _ _ _ hreached h hpos hlong hassert =>
      extractFeatures_isOk_iff h hreached.wellFormed hpos hlong hassert⟩

/-! ### Small events -/

/-- Four zeros before an event and four of it, which are one period. -/
def zeroEvent : Event (DefaultDataPoint ℝ) :=
  ⟨List.replicate 8 ⟨0, 0⟩,
    { powerMetaData :=
        { sampleRate := 4, frequency := 1, dataPointsStoredOfEvent := 4
          dataPointsStoredBeforeEvent := 4 } }⟩

/-- The transform of zeros. -/
def zeroFft : KissFft ℝ := ⟨id, fun _ => rfl⟩

/-- One harmonic is searched with a radius of one. -/
theorem harmonic_search_inside_small :
    Algorithms.HarmonicsInside (List.replicate 4 (⟨0, 0⟩ : KissFftCpx ℚ)) 1 1 1 ∧
      ∃ r, (setConfig {} { numberOfHarmonics := 1, harmonicsSearchRadius := 1 }).extractFeatures
        zeroFft zeroEvent = .ok r := by
  have hsplits : Splits zeroEvent (List.replicate 4 ⟨0, 0⟩) (List.replicate 4 ⟨0, 0⟩) := ⟨rfl, rfl⟩
  have hbase : calcBaseFrequencyPos ℝ zeroEvent.eventMetaData.powerMetaData 4 = 1 := by
    have hfloor : ⌊(4 : ℝ) / 4 * 1 + 1 / 2⌋ = 1 := by
      rw [Int.floor_eq_iff]
      norm_num
    simp only [calcBaseFrequencyPos, zeroEvent, FloatMath.round]
    exact_mod_cast congrArg Int.toNat hfloor
  have hboth := harmonic_search_inside_iff (G := ℚ) (DefaultDataPoint ℝ) zeroFft
  refine ⟨(hboth.1 _ 1 1 1 (by decide)).2 (Or.inr (by decide)), ?_⟩
  refine (hboth.2 _ _ _ _ (.setConfig _ .new) hsplits (by decide) (by decide) ?_).2
    ⟨Or.inr ?_, by decide, by decide, by decide⟩
  · simp only [List.length_replicate, min_self, hbase]
    decide
  · simp only [List.length_replicate, min_self, hbase]
    decide

/-- With 400 points, 12000 points a second and 60 Hz, the first window begins in front
    of the spectrum. -/
theorem first_window_outside :
    2 * (10 + 1) + 5 < (List.replicate 400 (⟨0, 0⟩ : KissFftCpx ℚ)).length ∧
      ¬ Algorithms.HarmonicsInside (List.replicate 400 (⟨0, 0⟩ : KissFftCpx ℚ)) 2 10 5 := by
  have hassert : 2 * (10 + 1) + 5 < (List.replicate 400 (⟨0, 0⟩ : KissFftCpx ℚ)).length := by
    rw [List.length_replicate]
    norm_num
  refine ⟨hassert, ?_⟩
  rintro ⟨vs, hvs, -⟩
  exact absurd ((Algorithms.getHarmonics_isOk_iff hassert).1 ⟨vs, hvs⟩) (by decide)

end FeatureExtractor

end SmartScreen
