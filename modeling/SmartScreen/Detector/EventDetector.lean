/-
  The event detector (`EventDetector.h`).

  The detector compares the RMS of a chunk with the median of the last five; if
  it exceeds the median by more than the threshold, the detector asks for the
  data around the event and hands it to the listeners of `event_detected`.
-/
import SmartScreen.Detector.DataPoint
import SmartScreen.Detector.Event
import SmartScreen.Stream.Distributor

namespace SmartScreen

open Loop

variable {α F σ : Type}

/-- The members of the detector.  A `cpp_int` starts as zero. -/
structure EventDetector (F : Type) where
  threshold : F
  compareAfter : ℤ := 800
  requestedDataPointId : ℤ := 0
  detectedAnEvent : Bool := false
  previousRms : List F := []

/-- The RMS values that the detector compares with; nothing changes the member. -/
def numberOfRms : ℕ := 4

namespace EventDetector

/-! ## Requests -/

section
variable (m : PowerMetaData) (d : EventDetector F)

def minDataPointsNeeded : ℕ :=
  (max ((numberOfRms * m.dataPointsPerPeriod : ℕ) : ℤ) d.compareAfter + m.dataPointsPerPeriod).toNat

def setRequested (id : ℤ) : EventDetector F := { d with requestedDataPointId := id }

/-- Every request is remembered by its location. -/
def request (i : NextReadInfos) : EventDetector F × NextReadInfos :=
  (d.setRequested i.nextReadLocation, i)

def getEventData (id : ℤ) : EventDetector F × NextReadInfos :=
  d.request
    { keepNumber := 0
      readNumber := sizeOfInt m.eventLength
      nextReadLocation := id - m.before + m.dataPointsPerPeriod }

def getDataAfterEvent (id : ℤ) : EventDetector F × NextReadInfos :=
  d.request
    { keepNumber := sizeOfInt m.dataPointsStoredBeforeEvent
      readNumber := d.minDataPointsNeeded m
      nextReadLocation := id + m.before + m.ofEvent }

def getFirstDetectionPeriod (id : ℤ) : EventDetector F × NextReadInfos :=
  d.request
    { keepNumber := sizeOfInt m.dataPointsStoredBeforeEvent
      readNumber := d.minDataPointsNeeded m
      nextReadLocation := id + m.before }

def getNextDetectionPeriod (id : ℤ) : EventDetector F × NextReadInfos :=
  d.request
    { keepNumber := sizeOfInt m.dataPointsStoredBeforeEvent
      readNumber := d.minDataPointsNeeded m
      nextReadLocation := id + d.minDataPointsNeeded m }

end

/-! ## Detection -/

section
variable [FloatArith F] [DataPoint α F]

/-- The upper median; `nth_element` puts the value of the sorted deque in the
    middle. -/
def getMedianPrevRms (previousRms : List F) : F :=
  (previousRms.insertionSort fun a b => ¬ b < a).getD (previousRms.length / 2) 0

/-- The RMS values of the first periods of a chunk. -/
def initializePreviousRms (m : PowerMetaData) (d : EventDetector F) (dataPoints : List α) :
    Except Fault (EventDetector F) :=
  let p := m.dataPointsPerPeriod
  if p * numberOfRms < dataPoints.length then
    .ok { d with previousRms := d.previousRms ++ (List.range numberOfRms).map fun i =>
      Algorithms.rootMeanSquareOfAmpere ((dataPoints.drop (i * p)).take p) }
  else .error .assertion

/-- The deque without its oldest value, once it has enough of them. -/
def dropOldest (previousRms : List F) : List F :=
  if numberOfRms < previousRms.length then previousRms.tail else previousRms

/-- `current_rms` exceeds the median of `previousRms`. -/
def exceeds (threshold : F) (previousRms : List F) (currentRms : F) : Bool :=
  decide (getMedianPrevRms previousRms < currentRms - threshold)

def detectEvent (m : PowerMetaData) (d : EventDetector F) (dataPoints : List α) :
    Except Fault (EventDetector F × Bool) :=
  if dataPoints.length < m.dataPointsPerPeriod then .error .assertion
  else if (dataPoints.length : ℤ) < d.compareAfter then .error .assertion
  else
    let currentRms : F := Algorithms.rootMeanSquareOfAmpere dataPoints
    let previousRms := d.previousRms ++ [currentRms]
    if previousRms.length < numberOfRms then
      (initializePreviousRms m { d with previousRms := previousRms } dataPoints).map (·, false)
    else
      match exceeds d.threshold (dropOldest previousRms) currentRms with
      | true => .ok ({ d with previousRms := [] }, true)
      | false => .ok ({ d with previousRms := dropOldest previousRms }, false)

end

/-! ## `workOnDataPoints` -/

section
variable (C : CppInt) (md : DynamicStreamMetaData)

def createEvent (dataPoints : List α) (id : ℤ) : Except Fault (Event α) :=
  let m := md.powerMetaData
  if (dataPoints.length : ℤ) < m.eventLength.toInt then .error .exception
  else
    (md.getDataPointTime C (id + m.before)).map fun eventTime =>
      Event.createEvent { eventTime := eventTime, powerMetaData := m } dataPoints

variable [FloatArith F] [DataPoint α F]

/-- `slot` is what is connected to `event_detected`, on the state `σ` of the
    program around the detector. -/
def workOnDataPoints (slot : σ → Event α → Res Fault σ Unit) :
    DataStreamWorker α (EventDetector F × σ) := fun (d, o) dataPoints id =>
  let m := md.powerMetaData
  if dataPoints = [] then
    let (d', i) := d.getFirstDetectionPeriod m id
    .ok (d', o) i
  else if d.detectedAnEvent ∧ d.requestedDataPointId = id then
    let d := { d with detectedAnEvent := false }
    match createEvent C md dataPoints id with
    | .error e => .fault e (d, o)
    | .ok event =>
      ((slot o event).lift (d, ·)).bind fun (d, o) _ =>
        let (d', i) := d.getDataAfterEvent m id
        .ok (d', o) i
  else
    match detectEvent m d dataPoints with
    | .error e => .fault e (d, o)
    | .ok (d, true) =>
      let (d', i) := { d with detectedAnEvent := true }.getEventData m id
      .ok (d', o) i
    | .ok (d, false) =>
      let (d', i) := d.getNextDetectionPeriod m id
      .ok (d', o) i

end

/-- A listener that keeps the events, as `DataClassifier::pushEvent` does. -/
def record (events : List (Event α)) (e : Event α) : Res Fault (List (Event α)) Unit :=
  .ok (events ++ [e]) ()

theorem record_ok (events : List (Event α)) (e : Event α) :
    ∃ events', record events e = .ok events' () := ⟨_, rfl⟩

/-! ## What the calls do -/

section
variable {m : PowerMetaData} {d : EventDetector F}

@[simp] theorem setRequested_detectedAnEvent (id : ℤ) :
    (d.setRequested id).detectedAnEvent = d.detectedAnEvent := rfl

theorem cast_minDataPointsNeeded (m : PowerMetaData) (d : EventDetector F) :
    (d.minDataPointsNeeded m : ℤ) =
      max (4 * m.dataPointsPerPeriod : ℤ) d.compareAfter + m.dataPointsPerPeriod := by
  simp only [minDataPointsNeeded, numberOfRms]
  omega

variable [FloatArith F] [DataPoint α F]

/-- A chunk of the length asked for passes the assertions; detection changes the
    RMS values only. -/
theorem detectEvent_ok (hp : 1 ≤ m.dataPointsPerPeriod) {dataPoints : List α}
    (h : dataPoints.length = d.minDataPointsNeeded m) :
    ∃ previousRms b, detectEvent m d dataPoints =
      .ok ({ d with previousRms := previousRms }, b) := by
  have hM := cast_minDataPointsNeeded m d
  rw [← h] at hM
  have h₁ : ¬ dataPoints.length < m.dataPointsPerPeriod := by omega
  have h₂ : ¬ (dataPoints.length : ℤ) < d.compareAfter := by omega
  have h₃ : m.dataPointsPerPeriod * numberOfRms < dataPoints.length := by
    simp only [numberOfRms]; omega
  simp only [detectEvent, if_neg h₁, if_neg h₂, initializePreviousRms, if_pos h₃, Except.map]
  split
  · exact ⟨_, _, rfl⟩
  · split <;> exact ⟨_, _, rfl⟩

variable {C : CppInt} {md : DynamicStreamMetaData} {slot : σ → Event α → Res Fault σ Unit} {o : σ}
  {dataPoints : List α} {id : ℤ}

theorem workOnDataPoints_nil :
    workOnDataPoints C md slot (d, o) ([] : List α) id =
      .ok ((d.getFirstDetectionPeriod md.powerMetaData id).1, o)
        (d.getFirstDetectionPeriod md.powerMetaData id).2 := by
  simp [workOnDataPoints]

theorem workOnDataPoints_detect (slot : σ → Event α → Res Fault σ Unit) (o : σ) (id : ℤ)
    (hne : dataPoints ≠ []) (hd : d.detectedAnEvent = false) {d' : EventDetector F} {b : Bool}
    (h : detectEvent md.powerMetaData d dataPoints = .ok (d', b)) :
    workOnDataPoints C md slot (d, o) dataPoints id =
      let di := if b then { d' with detectedAnEvent := true }.getEventData md.powerMetaData id
        else d'.getNextDetectionPeriod md.powerMetaData id
      .ok (di.1, o) di.2 := by
  cases b <;> simp [workOnDataPoints, hne, hd, h]

theorem workOnDataPoints_detect_error (hne : dataPoints ≠ []) (hd : d.detectedAnEvent = false)
    {e : Fault} (h : detectEvent md.powerMetaData d dataPoints = .error e) :
    workOnDataPoints C md slot (d, o) dataPoints id = .fault e (d, o) := by
  simp [workOnDataPoints, hne, hd, h]

/-- **An event is created** of enough data that can be timed, and it gets no id. -/
theorem createEvent_cases (C : CppInt) (md : DynamicStreamMetaData) (dataPoints : List α) (id : ℤ) :
    (md.powerMetaData.eventLength.toInt ≤ dataPoints.length ∧ md.powerMetaData.sampleRate ≠ 0 ∧
      ∃ e, createEvent C md dataPoints id = .ok e ∧ e.eventData = dataPoints ∧
        e.eventMetaData.powerMetaData = md.powerMetaData ∧ e.eventMetaData.eventId = none) ∨
    (¬ (md.powerMetaData.eventLength.toInt ≤ dataPoints.length ∧ md.powerMetaData.sampleRate ≠ 0) ∧
      createEvent C md dataPoints id = .error .exception) := by
  simp only [createEvent, DynamicStreamMetaData.getDataPointTime]
  split_ifs with hlen hrate
  · exact Or.inr ⟨fun h => absurd hlen (not_lt.2 h.1), rfl⟩
  · exact Or.inr ⟨fun h => h.2 hrate, rfl⟩
  · exact Or.inl ⟨not_lt.1 hlen, hrate, _, rfl, rfl, rfl, rfl⟩

theorem createEvent_ok (id : ℤ) (hp : 1 ≤ md.powerMetaData.dataPointsPerPeriod)
    (h : md.powerMetaData.eventLength.toInt ≤ dataPoints.length) :
    ∃ e, createEvent C md dataPoints id = .ok e ∧ e.eventData = dataPoints ∧
      e.eventMetaData.powerMetaData = md.powerMetaData := by
  have hrate : md.powerMetaData.sampleRate ≠ 0 :=
    Nat.one_le_iff_ne_zero.1 (PowerMetaData.sampleRate_pos hp)
  rcases createEvent_cases C md dataPoints id with ⟨-, -, e, he, hdata, hmeta, -⟩ | ⟨hno, -⟩
  · exact ⟨e, he, hdata, hmeta⟩
  · exact absurd ⟨h, hrate⟩ hno

theorem workOnDataPoints_event (hne : dataPoints ≠ []) (hd : d.detectedAnEvent = true)
    (hid : d.requestedDataPointId = id) {e : Event α}
    (h : createEvent C md dataPoints id = .ok e) {o' : σ} (ho : slot o e = .ok o' ()) :
    workOnDataPoints C md slot (d, o) dataPoints id =
      let di := { d with detectedAnEvent := false }.getDataAfterEvent md.powerMetaData id
      .ok (di.1, o') di.2 := by
  simp [workOnDataPoints, hne, hd, hid, h, ho]

/-- What a call that returns leaves and asks for. -/
inductive Answer (m : PowerMetaData) (d : EventDetector F) (dataPoints : List α) (id : ℤ) :
    EventDetector F → NextReadInfos → Prop
  | first : dataPoints = [] → Answer m d dataPoints id (d.getFirstDetectionPeriod m id).1
      (d.getFirstDetectionPeriod m id).2
  | raised : dataPoints ≠ [] → d.detectedAnEvent = true → d.requestedDataPointId = id →
      m.eventLength.toInt ≤ dataPoints.length →
      Answer m d dataPoints id ({ d with detectedAnEvent := false }.getDataAfterEvent m id).1
        ({ d with detectedAnEvent := false }.getDataAfterEvent m id).2
  | detected {d' : EventDetector F} : dataPoints ≠ [] →
      ¬ (d.detectedAnEvent = true ∧ d.requestedDataPointId = id) →
      detectEvent m d dataPoints = .ok (d', true) →
      Answer m d dataPoints id ({ d' with detectedAnEvent := true }.getEventData m id).1
        ({ d' with detectedAnEvent := true }.getEventData m id).2
  | quiet {d' : EventDetector F} : dataPoints ≠ [] →
      ¬ (d.detectedAnEvent = true ∧ d.requestedDataPointId = id) →
      detectEvent m d dataPoints = .ok (d', false) →
      Answer m d dataPoints id (d'.getNextDetectionPeriod m id).1 (d'.getNextDetectionPeriod m id).2

/-- **A call** answers; or it is a call with the data of an event, and leaves with a fault
    of the listener or because the data is missing; or it leaves because something is
    asserted; or its listener never comes back. -/
theorem workOnDataPoints_cases (C : CppInt) (md : DynamicStreamMetaData)
    (slot : σ → Event α → Res Fault σ Unit) (d : EventDetector F) (o : σ) (dataPoints : List α)
    (id : ℤ) :
    (∃ d' o' i, workOnDataPoints C md slot (d, o) dataPoints id = .ok (d', o') i ∧
        Answer md.powerMetaData d dataPoints id d' i) ∨
      (∃ e d' o', workOnDataPoints C md slot (d, o) dataPoints id = .fault e (d', o') ∧
        d'.previousRms = d.previousRms ∧ d'.threshold = d.threshold ∧
        ((d.detectedAnEvent = true ∧ d.requestedDataPointId = id ∧
            ((∃ event o', slot o event = .fault e o') ∨
              createEvent C md dataPoints id = .error e)) ∨
          (¬ (d.detectedAnEvent = true ∧ d.requestedDataPointId = id) ∧
            detectEvent md.powerMetaData d dataPoints = .error e))) ∨
      (workOnDataPoints C md slot (d, o) dataPoints id = .timeout ∧
        ∃ event, slot o event = .timeout) := by
  unfold workOnDataPoints
  dsimp only
  split_ifs with hnil hevent
  · exact Or.inl ⟨_, o, _, rfl, .first hnil⟩
  · obtain ⟨hdetected, hid⟩ := hevent
    cases hcreate : createEvent C md dataPoints id with
    | error e =>
      exact Or.inr (Or.inl ⟨e, _, _, rfl, rfl, rfl, Or.inl ⟨hdetected, hid, Or.inr rfl⟩⟩)
    | ok event =>
      have hlen : md.powerMetaData.eventLength.toInt ≤ dataPoints.length := by
        rcases createEvent_cases C md dataPoints id with ⟨hle, -⟩ | ⟨-, herror⟩
        · exact hle
        · rw [hcreate] at herror
          cases herror
      cases hslot : slot o event with
      | ok o' u => exact Or.inl ⟨_, o', _, by simp [hslot], .raised hnil hdetected hid hlen⟩
      | fault e o' =>
        refine Or.inr (Or.inl ⟨e, { d with detectedAnEvent := false }, o', ?_, rfl, rfl, Or.inl ?_⟩)
        · simp only [hslot]
          rfl
        · exact ⟨hdetected, hid, Or.inl ⟨event, o', hslot⟩⟩
      | timeout => exact Or.inr (Or.inr ⟨by simp only [hslot]; rfl, event, hslot⟩)
  · split
    · rename_i e hdetect
      exact Or.inr (Or.inl ⟨e, _, _, rfl, rfl, rfl, Or.inr ⟨hevent, hdetect⟩⟩)
    · rename_i hdetect
      exact Or.inl ⟨_, o, _, rfl, .detected hnil hevent hdetect⟩
    · rename_i hdetect
      exact Or.inl ⟨_, o, _, rfl, .quiet hnil hevent hdetect⟩

end

/-! ## Calls with the data asked for -/

/-- Counts with which the detector works. -/
structure Counts (m : PowerMetaData) : Prop where
  period : 1 ≤ m.dataPointsPerPeriod
  before : 0 ≤ m.before
  ofEvent : 0 ≤ m.ofEvent

theorem counts_smallMetaData : Counts smallMetaData := ⟨by decide, by decide, by decide⟩

/-- A current that rises twice.  With `smallMetaData` an event is detected in the chunk at 11
    and one in the chunk at 24. -/
def risingCurrent : List (DefaultDataPoint ℚ) :=
  .replicate 11 ⟨0, 0⟩ ++ .replicate 13 ⟨0, 10⟩ ++ .replicate 11 ⟨0, 20⟩

section
variable {m : PowerMetaData}

theorem Counts.sampleRate_pos (hm : Counts m) : 1 ≤ m.sampleRate :=
  PowerMetaData.sampleRate_pos hm.period

theorem Counts.sizeOfInt_before (h : Counts m) :
    sizeOfInt m.dataPointsStoredBeforeEvent = m.before.toNat := by
  have h₁ := sizeOfInt_of_nonneg h.before
  simp only [PowerMetaData.before]; omega

/-- The number of data points of an event is exact, or very large if the sum of
    the counts overflows. -/
theorem Counts.le_sizeOfInt_eventLength (h : Counts m) :
    m.before + m.ofEvent ≤ sizeOfInt m.eventLength ∧
      m.eventLength.toInt ≤ sizeOfInt m.eventLength := by
  have hb := h.before
  have ho := h.ofEvent
  have hlt := m.eventLength.toInt_lt
  have hge := m.eventLength.le_toInt
  have hsize : (sizeOfInt m.eventLength : ℤ) = m.eventLength.toInt % 2 ^ 64 := by
    rw [sizeOfInt]; omega
  rcases toInt_add_of_nonneg hb ho with he | ⟨he, hneg⟩ <;>
    simp only [PowerMetaData.eventLength, PowerMetaData.before, PowerMetaData.ofEvent] at * <;>
    omega

theorem Counts.eventLength_eq (h : Counts m) (hsum : 0 < m.eventLength.toInt) :
    m.eventLength.toInt = m.before + m.ofEvent ∧
      sizeOfInt m.eventLength = (m.before + m.ofEvent).toNat := by
  have h₁ := sizeOfInt_of_nonneg hsum.le
  rcases toInt_add_of_nonneg h.before h.ofEvent with he | ⟨-, hneg⟩
  · have he : m.eventLength.toInt = m.before + m.ofEvent := he
    exact ⟨he, by omega⟩
  · rw [PowerMetaData.eventLength] at hsum; omega

/-- The number of data points of an event is exact, if the sum does not overflow. -/
theorem Counts.sizeOfInt_eventLength (h : Counts m) (hsum : m.before + m.ofEvent < 2 ^ 31) :
    (sizeOfInt m.eventLength : ℤ) = m.before + m.ofEvent := by
  have hb := h.before
  have ho := h.ofEvent
  have hge := m.eventLength.le_toInt
  have hsize := sizeOfInt_of_nonneg (z := m.eventLength)
  rcases toInt_add_of_nonneg hb ho with he | ⟨he, -⟩ <;>
    simp only [PowerMetaData.eventLength, PowerMetaData.before, PowerMetaData.ofEvent] at * <;>
    omega

/-- If it does, the number is negative, and wraps in its conversion to `size_t`. -/
theorem Counts.wrapped_le_sizeOfInt (h : Counts m) (hsum : 2 ^ 31 ≤ m.before + m.ofEvent) :
    2 ^ 64 - 2 ^ 31 ≤ sizeOfInt m.eventLength := by
  have hlt := m.eventLength.toInt_lt
  have hge := m.eventLength.le_toInt
  have hsize : (sizeOfInt m.eventLength : ℤ) = m.eventLength.toInt % 2 ^ 64 := by
    rw [sizeOfInt]; omega
  rcases toInt_add_of_nonneg h.before h.ofEvent with he | ⟨-, hneg⟩ <;>
    simp only [PowerMetaData.eventLength, PowerMetaData.before, PowerMetaData.ofEvent] at * <;>
    omega

variable [FloatArith F] [DataPoint α F] {d : EventDetector F} {C : CppInt}
  {md : DynamicStreamMetaData} {slot : σ → Event α → Res Fault σ Unit} {o : σ}
  {dataPoints : List α}

/-- The call with a detection chunk. -/
theorem workOnDataPoints_chunk (slot : σ → Event α → Res Fault σ Unit) (o : σ)
    (hmd : md.powerMetaData = m) (hm : Counts m) (hd : d.detectedAnEvent = false)
    (hlen : dataPoints.length = d.minDataPointsNeeded m) (id : ℤ) :
    ∃ d' b, (∃ d₁, detectEvent m d dataPoints = .ok (d₁, b)) ∧
      workOnDataPoints C md slot (d, o) dataPoints id =
        .ok (d', o) (if b then ⟨0, sizeOfInt m.eventLength, id - m.before + m.dataPointsPerPeriod⟩
          else ⟨m.before.toNat, d.minDataPointsNeeded m, id + d.minDataPointsNeeded m⟩) ∧
      d'.compareAfter = d.compareAfter ∧ d'.detectedAnEvent = b ∧
      (b = true → d'.requestedDataPointId = id - m.before + m.dataPointsPerPeriod) := by
  have hM := cast_minDataPointsNeeded m d
  have hp := hm.period
  have hne : dataPoints ≠ [] := by
    rintro rfl
    simp only [List.length_nil] at hlen
    omega
  subst hmd
  obtain ⟨rms, b, hdet⟩ := detectEvent_ok hp hlen
  have hwork := workOnDataPoints_detect (C := C) slot o id hne hd hdet
  simp only [getNextDetectionPeriod, getEventData, request, hm.sizeOfInt_before] at hwork
  cases b with
  | false => exact ⟨_, false, ⟨_, hdet⟩, hwork, rfl, hd, by simp⟩
  | true => exact ⟨_, true, ⟨_, hdet⟩, hwork, rfl, rfl, fun _ => rfl⟩

/-- The call with the data of an event, of which there are enough. -/
theorem workOnDataPoints_eventData (hmd : md.powerMetaData = m) (hm : Counts m)
    (hslot : ∀ e, ∃ o', slot o e = .ok o' ()) (hd : d.detectedAnEvent = true)
    (hne : dataPoints ≠ []) (hlen : m.eventLength.toInt ≤ dataPoints.length) :
    ∃ d' o' e, workOnDataPoints C md slot (d, o) dataPoints d.requestedDataPointId =
        .ok (d', o') ⟨m.before.toNat, d.minDataPointsNeeded m,
          d.requestedDataPointId + m.before + m.ofEvent⟩ ∧
      slot o e = .ok o' () ∧ e.eventData = dataPoints ∧ e.eventBegin = m.before ∧
      d'.compareAfter = d.compareAfter ∧ d'.detectedAnEvent = false := by
  subst hmd
  obtain ⟨e, he, hdata, hmeta⟩ := createEvent_ok (C := C) d.requestedDataPointId
    hm.period hlen
  obtain ⟨o', ho⟩ := hslot e
  have hwork := workOnDataPoints_event hne hd rfl he ho
  simp only [getDataAfterEvent, request, hm.sizeOfInt_before] at hwork
  exact ⟨_, o', e, hwork, ho, hdata, by rw [Event.eventBegin, hmeta], rfl, rfl⟩

end

end EventDetector

end SmartScreen
