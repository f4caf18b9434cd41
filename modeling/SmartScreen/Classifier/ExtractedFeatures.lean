/-
  What the features of an event depend on.

  The extractor keeps its calculator and the spectra from one event to the next.  What
  it returns for an event is a function of the event and of the configuration, as the
  classifier takes it to be.
-/
import SmartScreen.Classifier.Harmonics

namespace SmartScreen.FeatureExtractor

open Fallible

variable {α F : Type} [FloatMath F] [DataPoint α F] {fft : KissFft F}
  {fe fe' : FeatureExtractor F} {event : Event α} {before part : List α}

/-! ## The spectra -/

theorem hasSpectra_of_calcFFTs (h : Splits event before part)
    (hfe : fe.fftCalculator.WellFormed) (hpos : 1 ≤ min before.length part.length)
    (hok : fe.calcFFTs fft event = .ok fe') :
    HasSpectra fft before part fe' ∧ fe'.classificationConfig = fe.classificationConfig := by
  obtain ⟨fe₁, hok₁, hspectra, hconfig⟩ :=
    calcFFTs_ok fft h hfe hpos (fits_of_calcFFTs h hfe hok)
  rw [hok] at hok₁
  cases hok₁
  exact ⟨hspectra, hconfig⟩

theorem extractPhaseShift_eq (h : HasSpectra fft before part fe)
    (h' : HasSpectra fft before part fe') (m : PowerMetaData) :
    fe.extractPhaseShift m = fe'.extractPhaseShift m := by
  simp only [extractPhaseShift, h.ampereBefore, h.ampereAfter, h.voltageBefore, h.voltageAfter,
    h'.ampereBefore, h'.ampereAfter, h'.voltageBefore, h'.voltageAfter]

theorem extractHarmonics_eq (h : HasSpectra fft before part fe)
    (h' : HasSpectra fft before part fe')
    (hconfig : fe.classificationConfig = fe'.classificationConfig) (m : PowerMetaData) :
    fe.extractHarmonics m = fe'.extractHarmonics m := by
  simp only [extractHarmonics, h.ampereBefore, h.ampereAfter, h'.ampereBefore, h'.ampereAfter,
    hconfig]

/-! ## The features -/

/-- The features as functions of the event, from an extractor that has seen no other. -/
def libraries (fft : KissFft F) (nearest : NearestNeighbourSearch F → List F → ℕ → List ℕ)
    (resized : Matrix F → ℕ → ℕ → List (List F)) (config : ClassificationConfig) :
    Libraries α F where
  phaseShift event :=
    let fe := calcFFTs { classificationConfig := config } fft event
    (fe.bind (·.extractPhaseShift event.eventMetaData.powerMetaData)).toOption.getD 0
  rms event := (extractRms config event).toOption.getD []
  harmonics event :=
    let fe := calcFFTs { classificationConfig := config } fft event
    (fe.bind (·.extractHarmonics event.eventMetaData.powerMetaData)).toOption.getD []
  nearest := nearest
  resized := resized

/-- **The features of an event** are those that a new extractor finds, whatever events
    came before. -/
theorem extractFeatures_libraries (nearest : NearestNeighbourSearch F → List F → ℕ → List ℕ)
    (resized : Matrix F → ℕ → ℕ → List (List F)) (hreached : Reached α fft fe)
    (h : Splits event before part) (hpos : 1 ≤ min before.length part.length)
    {features : EventFeatures F} (hok : fe.extractFeatures fft event = .ok (fe', features)) :
    features = SmartScreen.extractFeatures
      (libraries fft nearest resized fe.classificationConfig) event := by
  simp only [extractFeatures, bind_eq_ok] at hok
  obtain ⟨fe₁, hfft, shift, hshift, rms, hrms, harmonics, hharmonics, hfeatures⟩ := hok
  cases hfeatures
  obtain ⟨hspectra, hconfig⟩ := hasSpectra_of_calcFFTs h hreached.wellFormed hpos hfft
  let unused : FeatureExtractor F := { classificationConfig := fe.classificationConfig }
  have hunused : unused.fftCalculator.WellFormed := FftCalculator.WellFormed.construct none
  obtain ⟨fe₀, hfft₀, hspectra₀, hconfig₀⟩ :=
    calcFFTs_ok fft h hunused hpos (Nat.zero_le _)
  have hsame : fe'.classificationConfig = fe₀.classificationConfig := hconfig.trans hconfig₀.symm
  rw [extractPhaseShift_eq hspectra hspectra₀] at hshift
  rw [extractHarmonics_eq hspectra hspectra₀ hsame] at hharmonics
  rw [hconfig] at hrms
  simp only [SmartScreen.extractFeatures, libraries, hrms]
  rw [show calcFFTs { classificationConfig := fe.classificationConfig } fft event = .ok fe₀
    from hfft₀]
  change _ = EventFeatures.mk _ ([(fe₀.extractPhaseShift _).toOption.getD 0] ++ rms ++
    (fe₀.extractHarmonics _).toOption.getD [])
  rw [hshift, hharmonics]
  rfl

/-- Two extractors with the same configuration find the same features. -/
theorem extractFeatures_unique {fe₁ fe₂ fe₁' fe₂' : FeatureExtractor F}
    (h₁ : Reached α fft fe₁) (h₂ : Reached α fft fe₂)
    (hconfig : fe₁.classificationConfig = fe₂.classificationConfig)
    (h : Splits event before part) (hpos : 1 ≤ min before.length part.length)
    {features₁ features₂ : EventFeatures F}
    (hok₁ : fe₁.extractFeatures fft event = .ok (fe₁', features₁))
    (hok₂ : fe₂.extractFeatures fft event = .ok (fe₂', features₂)) : features₁ = features₂ := by
  have nearest : NearestNeighbourSearch F → List F → ℕ → List ℕ := fun _ _ _ => []
  have resized : Matrix F → ℕ → ℕ → List (List F) := fun _ _ _ => []
  rw [extractFeatures_libraries nearest resized h₁ h hpos hok₁, hconfig,
    extractFeatures_libraries nearest resized h₂ h hpos hok₂]

end SmartScreen.FeatureExtractor
