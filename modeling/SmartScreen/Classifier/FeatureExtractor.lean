/-
  The features of an event (`FeatureExtractor.h`, `Algorithms::getHarmonics`).

  Ranges are given by positions in a vector.  A range that leaves its vector ends
  with `Fault.undefined`, a failed `assert` with `Fault.assertion`.
-/
import SmartScreen.Classifier.DataClassifier
import SmartScreen.Classifier.FftCalculator

namespace SmartScreen

variable {α F : Type}

/-! ## Ranges -/

/-- The entries from `first` up to `last`. -/
def readRange {β : Type} (xs : List β) (first last : ℤ) : Except Fault (List β) :=
  if 0 ≤ first ∧ first ≤ last ∧ last ≤ xs.length then
    .ok ((xs.take last.toNat).drop first.toNat)
  else .error .undefined

/-- `a - b` on `unsigned long`, converted to `long`: it wraps twice. -/
def longSub (a b : ℕ) : ℤ := if b ≤ a + 2 ^ 63 then a - b else 2 ^ 64 + a - b

namespace Algorithms

variable [FloatArith F]

/-- The first entry with the largest `|r|`. -/
def largest : List (KissFftCpx F) → Option (KissFftCpx F)
  | [] => none
  | x :: xs =>
    some (xs.foldl (fun m x => if FloatArith.abs m.r < FloatArith.abs x.r then x else m) x)

/-- What `std::max_element` points to: in an empty range the entry behind it. -/
def maxElement (dataPoints : List (KissFftCpx F)) (first last : ℤ) :
    Except Fault (KissFftCpx F) := do
  let points ← readRange dataPoints first last
  match (largest points).or dataPoints[last.toNat]? with
  | some x => .ok x
  | none => .error .undefined

/-- The largest value around the harmonic `i`. -/
def harmonic (dataPoints : List (KissFftCpx F)) (baseFrequency searchRadius i : ℕ) :
    Except Fault F :=
  (maxElement dataPoints (i * baseFrequency - searchRadius : ℤ)
    (i * baseFrequency + searchRadius : ℤ)).map fun x => FloatArith.abs x.r

def getHarmonics (dataPoints : List (KissFftCpx F))
    (baseFrequency numberOfHarmonics searchRadius : ℕ) : Except Fault (List F) :=
  let n := numberOfHarmonics + 1
  if baseFrequency * n + searchRadius < dataPoints.length then
    (List.range' 2 (n - 1)).mapM (harmonic dataPoints baseFrequency searchRadius)
  else .error .assertion

end Algorithms

/-! ## The extractor -/

structure FeatureExtractor (F : Type) where
  classificationConfig : ClassificationConfig := {}
  fftCalculator : FftCalculator F := {}
  fftAmpereBefore : List (KissFftCpx F) := []
  fftAmpereAfter : List (KissFftCpx F) := []
  fftVoltageBefore : List (KissFftCpx F) := []
  fftVoltageAfter : List (KissFftCpx F) := []

namespace FeatureExtractor

def setConfig (fe : FeatureExtractor F) (config : ClassificationConfig) : FeatureExtractor F :=
  { fe with classificationConfig := config }

section
variable [FloatArith F] [DataPoint α F]

/-- The loop over the periods, of which `left` more may be added after this one. -/
def rmsLoop (rms : ℕ → Except Fault F) (period : ℕ) (loopEnd : ℤ) :
    ℕ → ℕ → Except Fault (List F)
  | left, count =>
    if (count * period : ℤ) < loopEnd then do
      let x ← rms count
      match left with
      | 0 => .ok [x]
      | left + 1 => .ok (x :: (← rmsLoop rms period loopEnd left (count + 1)))
    else .ok []

/-- The root mean square of a period that begins `offset` data points after `begin`. -/
def periodRms (event : Event α) (begin : ℤ) (offset period : ℕ) : Except Fault F :=
  (readRange event.eventData (begin + offset) (begin + offset + period)).map
    Algorithms.rootMeanSquareOfAmpere

/-- What is subtracted from the values. -/
def subRms (event : Event α) (period : ℕ) : Except Fault F :=
  if period ≤ sizeOfInt event.eventMetaData.powerMetaData.dataPointsStoredBeforeEvent then
    periodRms event 0 0 period
  else .ok 0

/-- What `extractRms` appends.  Dividing by a frequency of zero has no meaning. -/
def extractRms (config : ClassificationConfig) (event : Event α) : Except Fault (List F) :=
  let m := event.eventMetaData.powerMetaData
  if m.frequency = 0 then .error .undefined
  else do
    let period := m.dataPointsPerPeriod
    let subRms ← subRms event period
    let loopEnd := longSub (event.eventData.length - event.eventBegin).toNat period
    rmsLoop
      (fun count => (periodRms event event.eventBegin (count * period) period).map (· - subRms))
      period loopEnd config.numberOfRms.toInt.toNat 0

end

section
variable [FloatMath F] [DataPoint α F] (fe : FeatureExtractor F)

def calcBaseFrequencyPos (F : Type) [FloatMath F] (m : PowerMetaData) (n : ℕ) : ℕ :=
  FloatMath.round ((n : F) / (m.sampleRate : F) * (m.frequency : F))

/-- The difference between the arguments of two numbers. -/
def phaseShift (amps volts : KissFftCpx F) : F :=
  let angleAmps := FloatMath.arg amps.r amps.i
  let angleVolts := FloatMath.arg volts.r volts.i
  let phaseTmp := (angleAmps - angleVolts) * -((1 : ℕ) : F)
  if FloatMath.pi < phaseTmp then ((2 : ℕ) : F) * FloatMath.pi - phaseTmp
  else if phaseTmp < -FloatMath.pi then ((2 : ℕ) : F) * FloatMath.pi + phaseTmp
  else phaseTmp

def calcPhaseShift (amps volts : List (KissFftCpx F)) (baseFreqPos : ℕ) : Except Fault F :=
  match amps[baseFreqPos]?, volts[baseFreqPos]? with
  | some a, some v => .ok (phaseShift a v)
  | _, _ => .error .undefined

def calcFFTs (fft : KissFft F) (event : Event α) : Except Fault (FeatureExtractor F) := do
  let begin := event.eventBegin
  let n := min begin (event.eventData.length - begin)
  let before ← readRange event.eventData 0 n
  let after ← readRange event.eventData begin (begin + n)
  let c := fe.fftCalculator
  let (c, fftAmpereBefore) ← c.calculateFFTWithBlackmanHarris fft (before.map DataPoint.ampere)
  let (c, fftVoltageBefore) ← c.calculateFFTWithBlackmanHarris fft (before.map DataPoint.voltage)
  let (c, fftAmpereAfter) ← c.calculateFFTWithBlackmanHarris fft (after.map DataPoint.ampere)
  let (c, fftVoltageAfter) ← c.calculateFFTWithBlackmanHarris fft (after.map DataPoint.voltage)
  .ok { fe with fftCalculator := c, fftAmpereBefore, fftAmpereAfter, fftVoltageBefore,
                fftVoltageAfter }

def extractPhaseShift (m : PowerMetaData) : Except Fault F := do
  let pos := calcBaseFrequencyPos F m fe.fftAmpereBefore.length
  let phaseShiftBefore ← calcPhaseShift fe.fftAmpereBefore fe.fftVoltageBefore pos
  let phaseShift ← calcPhaseShift fe.fftAmpereAfter fe.fftVoltageAfter pos
  .ok (phaseShift - phaseShiftBefore)

def extractHarmonics (m : PowerMetaData) : Except Fault (List F) := do
  let pos := calcBaseFrequencyPos F m fe.fftAmpereBefore.length
  let config := fe.classificationConfig
  let harmOld ← Algorithms.getHarmonics fe.fftAmpereBefore pos config.numberOfHarmonics
    config.harmonicsSearchRadius
  let harmNew ← Algorithms.getHarmonics fe.fftAmpereAfter pos config.numberOfHarmonics
    config.harmonicsSearchRadius
  .ok (List.zipWith (fun new old => FloatArith.abs new - FloatArith.abs old) harmNew harmOld)

def extractFeatures (fft : KissFft F) (event : Event α) :
    Except Fault (FeatureExtractor F × EventFeatures F) := do
  let m := event.eventMetaData.powerMetaData
  let fe ← fe.calcFFTs fft event
  let phaseShift ← fe.extractPhaseShift m
  let rms ← extractRms fe.classificationConfig event
  let harmonics ← fe.extractHarmonics m
  .ok (fe, ⟨event.eventMetaData, [phaseShift] ++ rms ++ harmonics⟩)

end

end FeatureExtractor

end SmartScreen
