/-
  The spectra of an event, with the Fourier transform of kiss_fft.

  * `kissFft` is kiss_fft as the calculator uses it; `coefficient` is what one of its
    values is for.
  * `extractFeatures_spectra`: what the features that are read off the spectra are.
-/
import SmartScreen.Classifier.KissFftDft
import SmartScreen.Classifier.Harmonics

namespace SmartScreen

open Complex Finset Fallible KissFftCpx KissFftState

/-! ## The transform of the calculator -/

/-- kiss_fft with the configuration for as many points as there are.  With more than 2^30
    points it may read outside of its arrays: what is then in the output is not known, and
    any points will do. -/
noncomputable def kissFftTransform (points : List (KissFftCpx ℝ)) : List (KissFftCpx ℝ) :=
  if points.length ≤ 2 ^ 30 then
    ((alloc points.length false).bind fun cfg => cfg.transform points).getD points
  else points

theorem kissFftTransform_spec {points : List (KissFftCpx ℝ)} (hn : 0 < points.length)
    (hint : points.length ≤ 2 ^ 30) :
    (kissFftTransform points).length = points.length ∧ ∀ k < points.length,
      value (kissFftTransform points) k =
        dft (root false points.length) points.length (value points) k := by
  obtain ⟨cfg, halloc, hfactors⟩ := alloc_ok hn false
  obtain ⟨fout, hfout, hspec⟩ := transform_spec halloc hn hint hfactors
  have heq : kissFftTransform points = fout := by
    rw [kissFftTransform, if_pos hint, halloc, Option.bind_some, hfout]
    rfl
  rwa [heq]

theorem length_kissFftTransform (points : List (KissFftCpx ℝ)) :
    (kissFftTransform points).length = points.length := by
  by_cases hint : points.length ≤ 2 ^ 30
  · rcases Nat.eq_zero_or_pos points.length with hnil | hn
    · rw [List.eq_nil_of_length_eq_zero hnil]
      rfl
    · exact (kissFftTransform_spec hn hint).1
  · rw [kissFftTransform, if_neg hint]

noncomputable def kissFft : KissFft ℝ where
  transform := kissFftTransform
  length_transform := length_kissFftTransform

/-! ## Spectra -/

/-- A Fourier coefficient of the first `n` values, with the window. -/
noncomputable def coefficient (n : ℕ) (xs : List ℝ) (k : ℕ) : ℂ :=
  ∑ j ∈ range n, (FftCalculator.blackmanHarris n j * xs.getD j 0 : ℝ) *
    exp (-(2 : ℕ) * Real.pi * I * j * k / n)

theorem value_windowed {xs : List ℝ} {j : ℕ} (hj : j < xs.length) :
    value (FftCalculator.windowed xs) j =
      (FftCalculator.blackmanHarris xs.length j * xs.getD j 0 : ℝ) := by
  rw [value, toComplex_eq]
  simp [FftCalculator.windowed, FftCalculator.window, hj]

namespace FeatureExtractor

variable {α : Type} {n k : ℕ} {f : α → ℝ} {points : List α}

theorem value_spectrum (hn : n ≤ points.length) (hint : n ≤ 2 ^ 30) (hk : k < n) :
    value (spectrum kissFft n f points) k = coefficient n (points.map f) k := by
  have hlen : ((points.take n).map f).length = n := by
    rw [List.length_map, List.length_take, min_eq_left hn]
  have hwindowed : (FftCalculator.windowed ((points.take n).map f)).length = n := by
    rw [FftCalculator.length_windowed, hlen]
  have hspec := (kissFftTransform_spec
    (show 0 < (FftCalculator.windowed ((points.take n).map f)).length by omega) (by omega)).2
  rw [hwindowed] at hspec
  rw [spectrum, kissFft, hspec k hk, dft, coefficient]
  refine sum_congr rfl fun j hj => ?_
  rw [value_windowed (by rw [hlen]; exact mem_range.1 hj), hlen, root, ← exp_nat_mul]
  congr 2
  · rw [List.map_take, List.getD_eq_getElem?_getD, List.getD_eq_getElem?_getD,
      List.getElem?_take_of_lt (mem_range.1 hj)]
  · push_cast
    ring

theorem spectrum_toComplex (hn : n ≤ points.length) (hint : n ≤ 2 ^ 30) :
    (spectrum kissFft n f points).map toComplex =
      (List.range n).map (coefficient n (points.map f)) :=
  map_toComplex_eq (length_spectrum f hn) fun _ hk => value_spectrum hn hint hk

/-! ## Phase shifts -/

/-- How far the voltage is ahead of the current.  Beyond half a turn it is counted
    backwards, whatever the direction. -/
noncomputable def phaseDifference (amps volts : ℂ) : ℝ :=
  let phase := arg volts - arg amps
  if Real.pi < phase then (2 : ℕ) * Real.pi - phase
  else if phase < -Real.pi then (2 : ℕ) * Real.pi + phase
  else phase

theorem phaseShift_eq_phaseDifference (amps volts : KissFftCpx ℝ) :
    phaseShift amps volts = phaseDifference amps.toComplex volts.toComplex := by
  rw [phaseShift_eq, phaseDifference, Nat.cast_ofNat]

/-- A phase difference is at most half a turn. -/
theorem abs_phaseDifference_le (amps volts : ℂ) : |phaseDifference amps volts| ≤ Real.pi := by
  have ha := arg_le_pi amps
  have hv := arg_le_pi volts
  have ha' := neg_pi_lt_arg amps
  have hv' := neg_pi_lt_arg volts
  rw [phaseDifference, abs_le, Nat.cast_ofNat]
  split_ifs with hgt hlt
  · constructor <;> linarith
  · constructor <;> linarith
  · exact ⟨not_lt.1 hlt, not_lt.1 hgt⟩

theorem calcPhaseShift_spectrum {amps volts : α → ℝ} {pos : ℕ} {x : ℝ} (hn : n ≤ points.length)
    (hint : n ≤ 2 ^ 30)
    (hok : calcPhaseShift (spectrum kissFft n amps points) (spectrum kissFft n volts points) pos =
      .ok x) :
    pos < n ∧ x = phaseDifference (coefficient n (points.map amps) pos)
      (coefficient n (points.map volts) pos) := by
  have hlen : (spectrum kissFft n amps points).length = n := length_spectrum amps hn
  have hlen' : (spectrum kissFft n volts points).length = n := length_spectrum volts hn
  by_cases hpos : pos < n
  · refine ⟨hpos, ?_⟩
    rw [calcPhaseShift, List.getElem?_eq_getElem (hlen.symm ▸ hpos),
      List.getElem?_eq_getElem (hlen'.symm ▸ hpos)] at hok
    cases hok
    rw [phaseShift_eq_phaseDifference, ← value_spectrum hn hint hpos,
      ← value_spectrum hn hint hpos, value, value, List.getD_eq_getElem?_getD,
      List.getD_eq_getElem?_getD,
      List.getElem?_eq_getElem (hlen.symm ▸ hpos), List.getElem?_eq_getElem (hlen'.symm ▸ hpos)]
    rfl
  · rw [calcPhaseShift, List.getElem?_eq_none (hlen.le.trans (not_lt.1 hpos))] at hok
    cases hok

/-! ## The features of an event -/

variable [DataPoint α ℝ] {fe fe' : FeatureExtractor ℝ} {event : Event α} {before part : List α}

/-- **The features that are read off the spectra**: the spectra are Fourier coefficients
    of the windowed currents and voltages, and the first feature is by how much the phase
    shift at the base frequency changes.  The window of a single point would be 0 / 0. -/
theorem extractFeatures_spectra {features : EventFeatures ℝ} (hreached : Reached α kissFft fe)
    (h : Splits event before part) (htwo : 2 ≤ min before.length part.length)
    (hint : min before.length part.length ≤ 2 ^ 30)
    (hok : fe.extractFeatures kissFft event = .ok (fe', features)) :
    let n := min before.length part.length
    let pos := calcBaseFrequencyPos ℝ event.eventMetaData.powerMetaData n
    let X (f : α → ℝ) (points : List α) := coefficient n (points.map f)
    fe'.fftAmpereBefore.map toComplex = (List.range n).map (X DataPoint.ampere before) ∧
      fe'.fftVoltageBefore.map toComplex = (List.range n).map (X DataPoint.voltage before) ∧
      fe'.fftAmpereAfter.map toComplex = (List.range n).map (X DataPoint.ampere part) ∧
      fe'.fftVoltageAfter.map toComplex = (List.range n).map (X DataPoint.voltage part) ∧
      pos < n ∧ ∃ shift rest, features.featureVector = shift :: rest ∧ |shift| ≤ 2 * Real.pi ∧
        shift =
          phaseDifference (X DataPoint.ampere part pos) (X DataPoint.voltage part pos) -
            phaseDifference (X DataPoint.ampere before pos) (X DataPoint.voltage before pos) := by
  intro n pos X
  have hb : n ≤ before.length := min_le_left _ _
  have hp : n ≤ part.length := min_le_right _ _
  simp only [extractFeatures, bind_eq_ok] at hok
  obtain ⟨fe₁, hfft, shift, hshift, rms, -, harmonics, -, hr⟩ := hok
  cases hr
  obtain ⟨fe₂, hfft₂, hspectra, -⟩ := calcFFTs_ok kissFft h hreached.wellFormed
    (one_le_two.trans htwo) (fits_of_calcFFTs h hreached.wellFormed hfft)
  rw [hfft] at hfft₂
  cases hfft₂
  simp only [extractPhaseShift, bind_eq_ok, hspectra.spectraOf.ampereBefore] at hshift
  rw [hspectra.ampereBefore, hspectra.voltageBefore, hspectra.ampereAfter,
    hspectra.voltageAfter] at hshift ⊢
  obtain ⟨old, hold, new, hnew, hdiff⟩ := hshift
  cases hdiff
  obtain ⟨hlt, rfl⟩ := calcPhaseShift_spectrum hb hint hold
  obtain ⟨-, rfl⟩ := calcPhaseShift_spectrum hp hint hnew
  refine ⟨spectrum_toComplex hb hint, spectrum_toComplex hb hint, spectrum_toComplex hp hint,
    spectrum_toComplex hp hint, hlt, _, _, rfl, ?_, rfl⟩
  calc |_ - _| ≤ |_| + |_| := abs_sub _ _
    _ ≤ Real.pi + Real.pi := add_le_add (abs_phaseDifference_le _ _) (abs_phaseDifference_le _ _)
    _ = 2 * Real.pi := (two_mul _).symm

/-- The current is switched on. -/
def switchedOn : Event (DefaultDataPoint ℝ) :=
  ⟨List.replicate 4 ⟨1, 0⟩ ++ List.replicate 4 ⟨1, 1⟩,
    { powerMetaData :=
        { sampleRate := 4, frequency := 1, dataPointsStoredOfEvent := 4
          dataPointsStoredBeforeEvent := 4 } }⟩

/-- With one harmonic and a radius of one, the features of such an event are extracted. -/
theorem extractFeatures_spectra_switchedOn :
    ∃ fe' features,
      (setConfig {} { numberOfHarmonics := 1, harmonicsSearchRadius := 1 }).extractFeatures
        kissFft switchedOn = .ok (fe', features) ∧
      fe'.fftAmpereBefore.map toComplex =
        (List.range 4).map (coefficient 4 (List.replicate 4 0)) ∧
      fe'.fftAmpereAfter.map toComplex =
        (List.range 4).map (coefficient 4 (List.replicate 4 1)) := by
  have hsplits : Splits switchedOn (List.replicate 4 ⟨1, 0⟩) (List.replicate 4 ⟨1, 1⟩) :=
    ⟨rfl, rfl⟩
  have hbase : calcBaseFrequencyPos ℝ switchedOn.eventMetaData.powerMetaData 4 = 1 := by
    have hfloor : ⌊(4 : ℝ) / 4 * 1 + 1 / 2⌋ = 1 := by
      rw [Int.floor_eq_iff]
      norm_num
    simp only [calcBaseFrequencyPos, switchedOn, FloatMath.round]
    exact_mod_cast congrArg Int.toNat hfloor
  have hreached : Reached (DefaultDataPoint ℝ) kissFft
      (setConfig {} { numberOfHarmonics := 1, harmonicsSearchRadius := 1 }) := .setConfig _ .new
  obtain ⟨⟨fe', features⟩, hok⟩ := (extractFeatures_isOk_iff hsplits
    hreached.wellFormed (by decide) (by decide)
    (by rw [List.length_replicate, List.length_replicate, min_self, hbase]; decide)).2
    ⟨Or.inr (by rw [List.length_replicate, List.length_replicate, min_self, hbase]; decide),
      by decide, by decide, by decide⟩
  obtain ⟨hbefore, -, hafter, -⟩ := extractFeatures_spectra hreached hsplits (by decide)
    (by decide) hok
  exact ⟨fe', features, hok, hbefore, hafter⟩

end FeatureExtractor

end SmartScreen
