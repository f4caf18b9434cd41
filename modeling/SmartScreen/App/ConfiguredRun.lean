/-
  Runs with a configuration that has been loaded.

  The values of the file get to the components as they are.  For every function of
  the detector that computes with them, the operations that are not defined for all
  values are listed; the pipeline is the detector with what it has asked for, and the
  events whose features are extracted.

  * `allDefined_of_reach`: with values in their ranges every operation of a run is
    defined.
  * `arithmeticDefined_iff`: these are the only values.
-/
import SmartScreen.App.ProgramConfiguration
import SmartScreen.Detector.RmsWindow

namespace SmartScreen

open Loop LTS

/-- An operation with values of the configuration. -/
inductive Operation where
  | divideByFrequency
  | divideBySampleRate
  /-- the `int` sum of the counts -/
  | addCounts
  /-- the conversion of a count to `size_t` -/
  | toSize (count : Int32)
deriving DecidableEq

/-- No divisor is zero, the sum does not overflow, no negative count is converted. -/
def Operation.Defined (m : PowerMetaData) : Operation → Prop
  | divideByFrequency => m.frequency ≠ 0
  | divideBySampleRate => m.sampleRate ≠ 0
  | addCounts => -2 ^ 31 ≤ m.before + m.ofEvent ∧ m.before + m.ofEvent < 2 ^ 31
  | toSize count => 0 ≤ count.toInt

/-! ## The operations of a call -/

def PowerMetaData.dataPointsPerPeriodOps : List Operation := [.divideByFrequency]

def DynamicStreamMetaData.getDataPointTimeOps : List Operation := [.divideBySampleRate]

/-- The phase shift, the RMS values and the harmonics. -/
def FeatureExtractor.extractFeaturesOps : List Operation :=
  [.divideBySampleRate] ++ PowerMetaData.dataPointsPerPeriodOps ++ [.divideBySampleRate]

namespace EventDetector

section
variable (m : PowerMetaData)

def minDataPointsNeededOps : List Operation :=
  PowerMetaData.dataPointsPerPeriodOps ++ PowerMetaData.dataPointsPerPeriodOps

def getEventDataOps : List Operation :=
  [.addCounts] ++ PowerMetaData.dataPointsPerPeriodOps ++ [.toSize m.eventLength]

def getDataAfterEventOps : List Operation :=
  minDataPointsNeededOps ++ [.toSize m.dataPointsStoredBeforeEvent]

def getFirstDetectionPeriodOps : List Operation :=
  minDataPointsNeededOps ++ [.toSize m.dataPointsStoredBeforeEvent]

def getNextDetectionPeriodOps : List Operation :=
  minDataPointsNeededOps ++ [.toSize m.dataPointsStoredBeforeEvent]

/-- The time is computed if there is enough data. -/
def createEventOps (numberOfDataPoints : ℕ) : List Operation :=
  [.addCounts] ++
    if (numberOfDataPoints : ℤ) < m.eventLength.toInt then []
    else DynamicStreamMetaData.getDataPointTimeOps

/-- The periods are those of an assertion and of the first RMS values. -/
def detectEventOps : List Operation :=
  PowerMetaData.dataPointsPerPeriodOps ++ PowerMetaData.dataPointsPerPeriodOps

end

variable {α F : Type} [FloatArith F] [DataPoint α F]

/-- What `workOnDataPoints` gets to, with a listener that returns. -/
def workOnDataPointsOps (C : CppInt) (d : EventDetector F) (a : WorkCall α) : List Operation :=
  let m := a.metaData.powerMetaData
  if a.dataPoints = [] then getFirstDetectionPeriodOps m
  else if d.detectedAnEvent ∧ d.requestedDataPointId = a.dataPointId then
    createEventOps m a.dataPoints.length ++
      match createEvent C a.metaData a.dataPoints a.dataPointId with
      | .error _ => []
      | .ok _ => getDataAfterEventOps m
  else
    detectEventOps ++
      match detectEvent m d a.dataPoints with
      | .error _ => []
      | .ok (_, true) => getEventDataOps m
      | .ok (_, false) => getNextDetectionPeriodOps m

end EventDetector

/-! ## The pipeline -/

/-- The detector, its request, and the events that it has handed over. -/
structure ConfiguredPipeline (α F : Type) where
  detector : EventDetector F
  readInfos : NextReadInfos := {}
  events : List (Event α) := []

namespace ConfiguredPipeline

/-- The distributor calls the detector, or the features of an event are extracted. -/
inductive Action (α : Type) where
  | work (call : WorkCall α)
  | extractFeatures (event : Event α)

section
variable {α F : Type}

/-- The detector gets as many data points as it has asked for, from where it has asked
    for them or behind; the features are those of an event of the run. -/
def Enabled (m : PowerMetaData) (s : ConfiguredPipeline α F) : Action α → Prop
  | .work a => a.metaData.powerMetaData = m ∧ a.dataPoints.length = s.readInfos.readNumber ∧
      s.readInfos.nextReadLocation ≤ a.dataPointId
  | .extractFeatures event => event ∈ s.events

variable [FloatArith F] [DataPoint α F] (C : CppInt)

def Steps (m : PowerMetaData) (s : ConfiguredPipeline α F) (a : Action α)
    (s' : ConfiguredPipeline α F) : Prop :=
  s.Enabled m a ∧
    match a with
    | .work a =>
      EventDetector.workOnDataPoints C a.metaData EventDetector.record (s.detector, s.events)
        a.dataPoints a.dataPointId = .ok (s'.detector, s'.events) s'.readInfos
    | .extractFeatures _ => s' = s

/-- All operations of the action are defined. -/
def AllDefined (s : ConfiguredPipeline α F) : Action α → Prop
  | .work a => ∀ op ∈ EventDetector.workOnDataPointsOps C s.detector a,
      op.Defined a.metaData.powerMetaData
  | .extractFeatures event => ∀ op ∈ FeatureExtractor.extractFeaturesOps,
      op.Defined event.eventMetaData.powerMetaData

def start (threshold : F) (compareAfter : ℤ) : ConfiguredPipeline α F where
  detector := .new threshold compareAfter

end

/-- On every run with these meta data, all operations are defined. -/
def ArithmeticDefined (m : PowerMetaData) : Prop :=
  ∀ (α F : Type) [FloatArith F] [DataPoint α F] (C : CppInt) (threshold : F) (compareAfter : ℤ)
    (s : ConfiguredPipeline α F) (a : Action α),
    Reach (Steps C m) (start threshold compareAfter) s →
    s.Enabled m a → s.AllDefined C a

end ConfiguredPipeline

/-- Values for which everything is defined. -/
structure PowerMetaData.InRange (m : PowerMetaData) : Prop where
  frequency : m.frequency ≠ 0
  sampleRate : m.sampleRate ≠ 0
  before : 0 ≤ m.before
  sum_nonneg : 0 ≤ m.before + m.ofEvent
  sum_lt : m.before + m.ofEvent < 2 ^ 31

/-- A sum that is in the range of `int`. -/
theorem PowerMetaData.toInt_eventLength {m : PowerMetaData} (hge : -2 ^ 31 ≤ m.before + m.ofEvent)
    (hlt : m.before + m.ofEvent < 2 ^ 31) : m.eventLength.toInt = m.before + m.ofEvent := by
  simp only [PowerMetaData.before, PowerMetaData.ofEvent] at *
  rw [PowerMetaData.eventLength, Int32.toInt_add]
  exact Int.bmod_eq_of_le (by omega) (by omega)

/-! ## Runs with values in their ranges -/

section
variable {m : PowerMetaData}

theorem PowerMetaData.InRange.toInt_eventLength (hm : m.InRange) :
    m.eventLength.toInt = m.before + m.ofEvent := by
  have hnonneg := hm.sum_nonneg
  exact PowerMetaData.toInt_eventLength (by omega) hm.sum_lt

theorem PowerMetaData.InRange.addCounts (hm : m.InRange) : Operation.addCounts.Defined m := by
  have hnonneg := hm.sum_nonneg
  exact ⟨by omega, hm.sum_lt⟩

/-- The requests for a chunk. -/
theorem PowerMetaData.InRange.chunkOps (hm : m.InRange) :
    ∀ op ∈ EventDetector.minDataPointsNeededOps ++ [.toSize m.dataPointsStoredBeforeEvent],
      op.Defined m := by
  simp only [EventDetector.minDataPointsNeededOps, PowerMetaData.dataPointsPerPeriodOps,
    List.forall_mem_append, List.forall_mem_singleton]
  exact ⟨⟨hm.frequency, hm.frequency⟩, hm.before⟩

theorem PowerMetaData.InRange.eventDataOps (hm : m.InRange) :
    ∀ op ∈ EventDetector.getEventDataOps m, op.Defined m := by
  have hsum : (0 : ℤ) ≤ m.eventLength.toInt := hm.toInt_eventLength ▸ hm.sum_nonneg
  simp only [EventDetector.getEventDataOps, PowerMetaData.dataPointsPerPeriodOps,
    List.forall_mem_append, List.forall_mem_singleton]
  exact ⟨⟨hm.addCounts, hm.frequency⟩, hsum⟩

theorem PowerMetaData.InRange.createEventOps (hm : m.InRange) (n : ℕ) :
    ∀ op ∈ EventDetector.createEventOps m n, op.Defined m := by
  simp only [EventDetector.createEventOps, List.forall_mem_append, List.forall_mem_singleton]
  refine ⟨hm.addCounts, ?_⟩
  split_ifs with hlen
  · exact List.forall_mem_nil _
  · exact List.forall_mem_singleton.2 hm.sampleRate

end

namespace ConfiguredPipeline

section
variable {α F : Type} [FloatArith F] [DataPoint α F] {C : CppInt} {m : PowerMetaData}
  {s s' : ConfiguredPipeline α F} {a : Action α}

/-- **Every operation of a call** is defined. -/
theorem defined_workOnDataPoints (hm : m.InRange) {d : EventDetector F} {a : WorkCall α}
    (ha : a.metaData.powerMetaData = m) :
    ∀ op ∈ EventDetector.workOnDataPointsOps C d a, op.Defined m := by
  unfold EventDetector.workOnDataPointsOps
  rw [ha]
  dsimp only
  split_ifs with hnil hevent
  · exact hm.chunkOps
  · rw [List.forall_mem_append]
    refine ⟨hm.createEventOps _, ?_⟩
    split
    · exact List.forall_mem_nil _
    · exact hm.chunkOps
  · rw [EventDetector.detectEventOps, List.forall_mem_append]
    constructor
    · simp only [PowerMetaData.dataPointsPerPeriodOps, List.forall_mem_append,
        List.forall_mem_singleton]
      exact ⟨hm.frequency, hm.frequency⟩
    · split
      · exact List.forall_mem_nil _
      · exact hm.eventDataOps
      · exact hm.chunkOps

/-- Every event has been created with the meta data of the run. -/
def EventsOf (m : PowerMetaData) (s : ConfiguredPipeline α F) : Prop :=
  ∀ e ∈ s.events, e.eventMetaData.powerMetaData = m

/-- The events of a call that returns. -/
theorem eventsOf_work {a : WorkCall α} {d d' : EventDetector F} {events events' : List (Event α)}
    {i : NextReadInfos} (h : EventDetector.workOnDataPoints C a.metaData EventDetector.record
      (d, events) a.dataPoints a.dataPointId = .ok (d', events') i) :
    events' = events ∨ ∃ e, events' = events ++ [e] ∧
      e.eventMetaData.powerMetaData = a.metaData.powerMetaData := by
  unfold EventDetector.workOnDataPoints at h
  dsimp only at h
  split_ifs at h with hnil hevent
  · cases h
    exact Or.inl rfl
  · rcases EventDetector.createEvent_cases C a.metaData a.dataPoints a.dataPointId with
      ⟨-, -, e, he, -, hmeta, -⟩ | ⟨-, herror⟩
    · rw [he] at h
      cases h
      exact Or.inr ⟨e, rfl, hmeta⟩
    · rw [herror] at h
      cases h
  · split at h
    · cases h
    · cases h
      exact Or.inl rfl
    · cases h
      exact Or.inl rfl

theorem EventsOf.step (hs : EventsOf m s) (h : Steps C m s a s') : EventsOf m s' := by
  obtain ⟨henabled, h⟩ := h
  cases a with
  | work a =>
    rcases eventsOf_work h with heq | ⟨e, heq, hmeta⟩
    · rw [EventsOf, heq]
      exact hs
    · rw [EventsOf, heq, List.forall_mem_append, List.forall_mem_singleton]
      exact ⟨hs, hmeta.trans henabled.1⟩
  | extractFeatures event =>
    cases h
    exact hs

/-- **A run with values in their ranges.** -/
theorem allDefined_of_reach (hm : m.InRange) {threshold : F} {compareAfter : ℤ}
    (h : Reach (Steps C m) (start threshold compareAfter) s) (ha : s.Enabled m a) :
    s.AllDefined C a := by
  have hevents : EventsOf m s := h.inv (by rintro e ⟨⟩) fun _ _ _ hs hi => hi.step hs
  cases a with
  | work a =>
    rw [AllDefined, ha.1]
    exact defined_workOnDataPoints hm ha.1
  | extractFeatures event =>
    rw [AllDefined, hevents event ha]
    simp only [FeatureExtractor.extractFeaturesOps, PowerMetaData.dataPointsPerPeriodOps,
      List.forall_mem_append, List.forall_mem_singleton]
    exact ⟨⟨hm.sampleRate, hm.frequency⟩, hm.sampleRate⟩

end

/-! ## A run with an event -/

section
variable {m : PowerMetaData} {C : CppInt}

/-- `n` data points of one current. -/
def steady (amps : ℚ) (n : ℕ) : List (DefaultDataPoint ℚ) := List.replicate n ⟨0, amps⟩

def steadyCall (m : PowerMetaData) (amps : ℚ) (n : ℕ) (id : ℤ) :
    WorkCall (DefaultDataPoint ℚ) where
  metaData := { powerMetaData := m }
  dataPoints := steady amps n
  dataPointId := id

@[simp] theorem length_steady (amps : ℚ) (n : ℕ) : (steady amps n).length = n :=
  List.length_replicate

theorem sum_steady (amps : ℚ) (n : ℕ) :
    ((steady amps n).map DataPoint.ampere).foldl (fun result x => result + x * x) 0 =
      n * (amps * amps) := by
  suffices h : ∀ a : ℚ, ((steady amps n).map DataPoint.ampere).foldl
      (fun result x => result + x * x) a = a + n * (amps * amps) by rw [h, zero_add]
  induction n with
  | zero => simp [steady]
  | succ n ih =>
    intro a
    rw [steady, List.replicate_succ, List.map_cons, List.foldl_cons]
    refine (ih _).trans ?_
    show a + amps * amps + _ = _
    push_cast
    ring

/-- Without a current the RMS is zero, also for an empty range. -/
theorem rms_steady_zero (n : ℕ) : Algorithms.rootMeanSquareOfAmpere (steady 0 n) = (0 : ℚ) := by
  rw [Algorithms.rootMeanSquareOfAmpere, Algorithms.rootMeanSquare, sum_steady, mul_zero, mul_zero,
    zero_div]
  decide +kernel

theorem rms_steady_one {n : ℕ} (hn : n ≠ 0) :
    Algorithms.rootMeanSquareOfAmpere (steady 1 n) = (1 : ℚ) := by
  rw [Algorithms.rootMeanSquareOfAmpere, Algorithms.rootMeanSquare, sum_steady, List.length_map,
    length_steady, mul_one, mul_one, div_self (by exact_mod_cast hn)]
  decide +kernel

/-- A detector with the values of the source. -/
def newDetector : EventDetector ℚ := .new (1 / 5) 800

/-- The length of a chunk. -/
def chunkLength (m : PowerMetaData) : ℕ := newDetector.minDataPointsNeeded m

theorem le_chunkLength (m : PowerMetaData) :
    m.dataPointsPerPeriod * numberOfRms < chunkLength m ∧ 800 ≤ chunkLength m := by
  have h := EventDetector.cast_minDataPointsNeeded m newDetector
  simp only [chunkLength, numberOfRms, newDetector, EventDetector.new] at *
  constructor <;> omega

/-- A chunk passes the assertions. -/
theorem chunk_asserted (m : PowerMetaData) (amps : ℚ) {d : EventDetector ℚ}
    (hd : d.compareAfter = 800) :
    ¬ (steady amps (chunkLength m)).length < m.dataPointsPerPeriod ∧
      ¬ ((steady amps (chunkLength m)).length : ℤ) < d.compareAfter ∧
      m.dataPointsPerPeriod * numberOfRms < (steady amps (chunkLength m)).length := by
  obtain ⟨hperiods, hlen⟩ := le_chunkLength m
  rw [length_steady, hd]
  refine ⟨?_, by omega, hperiods⟩
  rw [numberOfRms] at hperiods
  omega

/-- The first chunk fills the window. -/
theorem detectEvent_zero {d : EventDetector ℚ} (hd : d.compareAfter = 800)
    (hrms : d.previousRms = []) :
    EventDetector.detectEvent m d (steady 0 (chunkLength m)) =
      .ok ({ d with previousRms := [0, 0, 0, 0, 0] }, false) := by
  obtain ⟨h₁, h₂, h₃⟩ := chunk_asserted m 0 hd
  have hperiod : ∀ i, Algorithms.rootMeanSquareOfAmpere (((steady 0 (chunkLength m)).drop
      (i * m.dataPointsPerPeriod)).take m.dataPointsPerPeriod) = (0 : ℚ) := by
    intro i
    rw [steady, List.drop_replicate, List.take_replicate]
    exact rms_steady_zero _
  simp only [EventDetector.detectEvent, if_neg h₁, if_neg h₂, EventDetector.initializePreviousRms,
    if_pos h₃, hperiod, rms_steady_zero, hrms]
  rfl

/-- The second chunk exceeds the median. -/
theorem detectEvent_one {d : EventDetector ℚ} (hd : d.compareAfter = 800)
    (hthreshold : d.threshold = 1 / 5) (hrms : d.previousRms = [0, 0, 0, 0, 0]) :
    EventDetector.detectEvent m d (steady 1 (chunkLength m)) =
      .ok ({ d with previousRms := [] }, true) := by
  obtain ⟨h₁, h₂, -⟩ := chunk_asserted m 1 hd
  have hone : Algorithms.rootMeanSquareOfAmpere (steady 1 (chunkLength m)) = (1 : ℚ) := by
    have hlen := (le_chunkLength m).2
    exact rms_steady_one (by omega)
  have hwindow : ¬ ([0, 0, 0, 0, 0] ++ [1] : List ℚ).length < numberOfRms := by decide
  have hexceeds : EventDetector.exceeds (1 / 5 : ℚ)
      (EventDetector.dropOldest ([0, 0, 0, 0, 0] ++ [1])) 1 = true := by decide +kernel
  simp only [EventDetector.detectEvent, if_neg h₁, if_neg h₂, hone, hrms, if_neg hwindow,
    hthreshold, hexceeds]

/-- The pipeline when the detector has asked for its first chunk. -/
def afterFirst (m : PowerMetaData) : ConfiguredPipeline (DefaultDataPoint ℚ) ℚ where
  detector := { newDetector with requestedDataPointId := m.before }
  readInfos := ⟨sizeOfInt m.dataPointsStoredBeforeEvent, chunkLength m, m.before⟩

/-- After a chunk without current. -/
def afterZero (m : PowerMetaData) : ConfiguredPipeline (DefaultDataPoint ℚ) ℚ where
  detector :=
    { newDetector with
      requestedDataPointId := m.before + chunkLength m
      previousRms := [0, 0, 0, 0, 0] }
  readInfos := ⟨sizeOfInt m.dataPointsStoredBeforeEvent, chunkLength m, m.before + chunkLength m⟩

/-- Where the data of the event is asked for. -/
def eventLocation (m : PowerMetaData) : ℤ :=
  m.before + chunkLength m - m.before + m.dataPointsPerPeriod

/-- After a chunk with a current: an event has been detected. -/
def afterOne (m : PowerMetaData) : ConfiguredPipeline (DefaultDataPoint ℚ) ℚ where
  detector :=
    { newDetector with
      requestedDataPointId := eventLocation m
      detectedAnEvent := true }
  readInfos := ⟨0, sizeOfInt m.eventLength, eventLocation m⟩

theorem chunkLength_ne_zero (m : PowerMetaData) : chunkLength m ≠ 0 := by
  have hlen := (le_chunkLength m).2
  omega

theorem steady_ne_nil (amps : ℚ) (m : PowerMetaData) : steady amps (chunkLength m) ≠ [] := by
  rw [← List.length_pos_iff, length_steady]
  exact Nat.pos_of_ne_zero (chunkLength_ne_zero m)

theorem minDataPointsNeeded_eq {d : EventDetector ℚ} (hd : d.compareAfter = 800) :
    d.minDataPointsNeeded m = chunkLength m := by
  simp only [chunkLength, EventDetector.minDataPointsNeeded, newDetector, EventDetector.new, hd]

theorem steps_first :
    Steps C m (start (1 / 5) 800) (.work (steadyCall m 0 0 0)) (afterFirst m) := by
  refine ⟨⟨rfl, rfl, le_rfl⟩, ?_⟩
  have hwork : EventDetector.workOnDataPoints C { powerMetaData := m } EventDetector.record
      (newDetector, ([] : List (Event (DefaultDataPoint ℚ)))) [] 0 = _ :=
    EventDetector.workOnDataPoints_nil
  simp only [EventDetector.getFirstDetectionPeriod, EventDetector.request,
    minDataPointsNeeded_eq (d := newDetector) rfl, zero_add] at hwork
  exact hwork

theorem steps_zero : Steps C m (afterFirst m) (.work (steadyCall m 0 (chunkLength m) m.before))
    (afterZero m) := by
  refine ⟨⟨rfl, length_steady .., le_rfl⟩, ?_⟩
  have hdetect := detectEvent_zero (m := m) (d := (afterFirst m).detector) rfl rfl
  have hwork : EventDetector.workOnDataPoints C { powerMetaData := m } EventDetector.record
      ((afterFirst m).detector, ([] : List (Event (DefaultDataPoint ℚ))))
      (steady 0 (chunkLength m)) m.before = _ :=
    EventDetector.workOnDataPoints_detect EventDetector.record [] m.before (steady_ne_nil 0 m) rfl
      hdetect
  simp only [Bool.false_eq_true, if_false, EventDetector.getNextDetectionPeriod,
    EventDetector.request, EventDetector.setRequested] at hwork
  rw [minDataPointsNeeded_eq rfl] at hwork
  exact hwork

theorem steps_one : Steps C m (afterZero m)
    (.work (steadyCall m 1 (chunkLength m) (m.before + chunkLength m))) (afterOne m) := by
  refine ⟨⟨rfl, length_steady .., le_rfl⟩, ?_⟩
  have hdetect := detectEvent_one (m := m) (d := (afterZero m).detector) rfl rfl rfl
  have hwork : EventDetector.workOnDataPoints C { powerMetaData := m } EventDetector.record
      ((afterZero m).detector, ([] : List (Event (DefaultDataPoint ℚ))))
      (steady 1 (chunkLength m)) (m.before + chunkLength m) = _ :=
    EventDetector.workOnDataPoints_detect EventDetector.record [] (m.before + chunkLength m)
      (steady_ne_nil 1 m) rfl hdetect
  simp only [if_true, EventDetector.getEventData, EventDetector.request,
    EventDetector.setRequested] at hwork
  exact hwork

/-- The event has no data: the request for it is answered with an empty range. -/
def afterEmpty (m : PowerMetaData) : ConfiguredPipeline (DefaultDataPoint ℚ) ℚ where
  detector :=
    { newDetector with
      requestedDataPointId := eventLocation m + m.before
      detectedAnEvent := true }
  readInfos :=
    ⟨sizeOfInt m.dataPointsStoredBeforeEvent, chunkLength m, eventLocation m + m.before⟩

theorem steps_empty (hzero : sizeOfInt m.eventLength = 0) :
    Steps C m (afterOne m) (.work (steadyCall m 0 0 (eventLocation m))) (afterEmpty m) := by
  refine ⟨⟨rfl, hzero.symm, le_rfl⟩, ?_⟩
  have hwork : EventDetector.workOnDataPoints C { powerMetaData := m } EventDetector.record
      ((afterOne m).detector, ([] : List (Event (DefaultDataPoint ℚ)))) [] (eventLocation m) = _ :=
    EventDetector.workOnDataPoints_nil
  simp only [EventDetector.getFirstDetectionPeriod, EventDetector.request,
    EventDetector.setRequested] at hwork
  rw [minDataPointsNeeded_eq rfl] at hwork
  exact hwork

theorem reach_afterZero : Reach (Steps C m) (start (1 / 5) 800) (afterZero m) :=
  (Reach.refl _).next steps_first |>.next steps_zero

theorem reach_afterOne : Reach (Steps C m) (start (1 / 5) 800) (afterOne m) :=
  reach_afterZero.next steps_one

/-! ## What a run gets to -/

/-- The first call. -/
theorem defined_first (h : ArithmeticDefined m) : m.frequency ≠ 0 ∧ 0 ≤ m.before := by
  have hall := h (DefaultDataPoint ℚ) ℚ CppInt.wrapping (1 / 5) 800 _
    (.work (steadyCall m 0 0 0)) (Reach.refl _) ⟨rfl, rfl, le_rfl⟩
  have hops : EventDetector.workOnDataPointsOps CppInt.wrapping newDetector (steadyCall m 0 0 0) =
      EventDetector.getFirstDetectionPeriodOps m := by
    simp [EventDetector.workOnDataPointsOps, steadyCall, steady]
  constructor
  · exact hall .divideByFrequency (hops ▸ by
      simp [EventDetector.getFirstDetectionPeriodOps, EventDetector.minDataPointsNeededOps,
        PowerMetaData.dataPointsPerPeriodOps])
  · exact hall (.toSize m.dataPointsStoredBeforeEvent) (hops ▸ by
      simp [EventDetector.getFirstDetectionPeriodOps])

/-- The call that detects the event. -/
theorem defined_sum (h : ArithmeticDefined m) :
    (-2 ^ 31 ≤ m.before + m.ofEvent ∧ m.before + m.ofEvent < 2 ^ 31) ∧
      0 ≤ m.before + m.ofEvent := by
  have hall := h (DefaultDataPoint ℚ) ℚ CppInt.wrapping (1 / 5) 800 _
    (.work (steadyCall m 1 (chunkLength m) (m.before + chunkLength m))) reach_afterZero
    ⟨rfl, length_steady .., le_rfl⟩
  have hops : EventDetector.workOnDataPointsOps CppInt.wrapping (afterZero m).detector
      (steadyCall m 1 (chunkLength m) (m.before + chunkLength m)) =
        EventDetector.detectEventOps ++ EventDetector.getEventDataOps m := by
    have hdetect := detectEvent_one (m := m) (d := (afterZero m).detector) rfl rfl rfl
    have hno : ¬ ((afterZero m).detector.detectedAnEvent = true ∧
        (afterZero m).detector.requestedDataPointId = m.before + chunkLength m) := by
      rintro ⟨h, -⟩
      cases h
    simp only [EventDetector.workOnDataPointsOps, steadyCall, if_neg (steady_ne_nil 1 m),
      if_neg hno, hdetect]
  have hsum : Operation.addCounts.Defined m := hall .addCounts (hops ▸ by
    simp [EventDetector.getEventDataOps])
  have hsize : 0 ≤ m.eventLength.toInt := hall (.toSize m.eventLength) (hops ▸ by
    simp [EventDetector.getEventDataOps])
  rw [PowerMetaData.toInt_eventLength hsum.1 hsum.2] at hsize
  exact ⟨hsum, hsize⟩

/-- A call with the data of the event. -/
theorem mem_createEvent {d : EventDetector ℚ} {n : ℕ} {id : ℤ} (hd : d.detectedAnEvent = true)
    (hid : d.requestedDataPointId = id) (hn : n ≠ 0) (hlen : m.eventLength.toInt ≤ n) :
    .divideBySampleRate ∈ EventDetector.workOnDataPointsOps C d (steadyCall m 1 n id) := by
  have hne : steady 1 n ≠ [] := by
    rw [← List.length_pos_iff, length_steady]
    exact Nat.pos_of_ne_zero hn
  simp only [EventDetector.workOnDataPointsOps, steadyCall, if_neg hne, if_pos (And.intro hd hid),
    EventDetector.createEventOps, length_steady, if_neg (not_lt.2 hlen),
    DynamicStreamMetaData.getDataPointTimeOps]
  simp

/-- The call with the data of the event, or the one behind it if there is no data. -/
theorem defined_sampleRate (h : ArithmeticDefined m) : m.sampleRate ≠ 0 := by
  obtain ⟨hrange, hnonneg⟩ := defined_sum h
  have hlen := PowerMetaData.toInt_eventLength hrange.1 hrange.2
  have hsize := sizeOfInt_of_nonneg (z := m.eventLength) (by omega)
  by_cases hzero : sizeOfInt m.eventLength = 0
  · refine h (DefaultDataPoint ℚ) ℚ CppInt.wrapping (1 / 5) 800 _
      (.work (steadyCall m 1 (chunkLength m) (eventLocation m + m.before)))
      (reach_afterOne.next (steps_empty hzero)) ⟨rfl, length_steady .., le_rfl⟩ _
      (mem_createEvent rfl rfl (chunkLength_ne_zero m) (by omega))
  · refine h (DefaultDataPoint ℚ) ℚ CppInt.wrapping (1 / 5) 800 _
      (.work (steadyCall m 1 (sizeOfInt m.eventLength) (eventLocation m)))
      reach_afterOne ⟨rfl, length_steady .., le_rfl⟩ _ (mem_createEvent rfl rfl hzero hsize.ge)

/-- **The values for which every run is defined.** -/
theorem arithmeticDefined_iff : ArithmeticDefined m ↔ m.InRange := by
  constructor
  · intro h
    obtain ⟨hfrequency, hbefore⟩ := defined_first h
    obtain ⟨⟨-, hlt⟩, hnonneg⟩ := defined_sum h
    exact ⟨hfrequency, defined_sampleRate h, hbefore, hnonneg, hlt⟩
  · intro hm α F _ _ C threshold compareAfter s a hreach ha
    exact allDefined_of_reach hm hreach ha

end

end ConfiguredPipeline

open ProgramConfiguration ConfiguredPipeline Format

section
variable (strtof : Bool → ℚ≥0 → Option ℚ) (entries : List IniEntry)

/-- The values that a file gives: for every attribute the last one that can be read. -/
def readMetaData : PowerMetaData where
  sampleRate := lastRead strtof entries .sampleRate {}
  frequency := lastRead strtof entries .frequency {}
  voltage := lastRead strtof entries .voltage {}
  maxDataPointsInQueue := lastRead strtof entries .maxDataPointsInQueue {}
  dataPointsStoredOfEvent := lastRead strtof entries .dataPointsStoredOfEvent {}
  dataPointsStoredBeforeEvent := lastRead strtof entries .dataPointsStoredBeforeEvent {}

theorem toPowerMetaData_load :
    (load strtof (some entries) {}).1.toPowerMetaData = readMetaData strtof entries := by
  simp only [readMetaData, ← get_load]
  rfl

/-- **Which configurations have defined runs.**  Every file that can be opened is
    accepted, but only values in their ranges keep the arithmetic defined. -/
theorem configured_runs_iff :
    (load strtof (some entries) {}).2 = true ∧
      (ArithmeticDefined (load strtof (some entries) {}).1.toPowerMetaData ↔
        (readMetaData strtof entries).InRange) := by
  rw [toPowerMetaData_load, load_some]
  exact ⟨rfl, arithmeticDefined_iff⟩

end

/-- A frequency of zero is accepted, and the first call of the detector divides by it. -/
theorem zero_frequency_accepted :
    (load exactDecimal (some [⟨1, "main", "frequency", "0"⟩]) {}).2 = true ∧
      ¬ ArithmeticDefined
        (load exactDecimal (some [⟨1, "main", "frequency", "0"⟩]) {}).1.toPowerMetaData := by
  have hzero : (load exactDecimal (some [⟨1, "main", "frequency", "0"⟩]) {}).1.frequency = 0 := by
    decide +kernel
  exact ⟨by rw [load_some], fun h => (defined_first h).1 hzero⟩

end SmartScreen
