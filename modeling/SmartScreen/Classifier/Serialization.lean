/-
  What is stored of events and of the manager (`Event.h`,
  `SerializeEventLabelManager.h`).

  Each `serialize` function is the codec of its type, with the members in the order
  of the source.  A value is loaded into a fresh one, so a member that a function
  leaves out has its default afterwards.

  * `Boost` are the archives of the built-in types, and of sets.
  * `lawful_eventLabelManager`: everything is restored but the certainties.
  * `round_trip_iff`: so a value is restored iff it has none.
-/
import SmartScreen.Classifier.EventLabelManager
import SmartScreen.Lib.Archive

namespace SmartScreen

open Archive Codec

variable {ι F : Type}

/-! ## What Boost does -/

/-- The archives of built-in types.  A set is loaded with its elements, but maybe as
    another tree. -/
structure Boost (ι F : Type) where
  unsignedLong : Codec ι ℕ
  int : Codec ι Int32
  bool : Codec ι Bool
  float : Codec ι F
  number : Codec ι ℚ
  ptime : Codec ι TimeType
  set : Codec ι LabelTimePair → Codec ι LabelSet
  rebuilt : LabelSet → LabelSet
  unsignedLong_lawful : unsignedLong.Lawful id
  int_lawful : int.Lawful id
  bool_lawful : bool.Lawful id
  float_lawful : float.Lawful id
  number_lawful : number.Lawful id
  ptime_lawful : ptime.Lawful id
  set_lawful : ∀ c : Codec ι LabelTimePair, c.Lawful id → (set c).Lawful rebuilt
  toList_rebuilt : ∀ labels, (rebuilt labels).toList = labels.toList

namespace Boost

variable (B : Boost ι F)

/-! ## The `serialize` functions -/

def defaultDataPoint : Codec ι (DefaultDataPoint F) :=
  (B.float.prod B.float).via (fun d => (d.volts, d.amps)) fun (volts, amps) => { volts, amps }

def powerMetaData : Codec ι PowerMetaData :=
  (B.unsignedLong.prod (B.unsignedLong.prod (B.number.prod
    (B.unsignedLong.prod (B.int.prod B.int))))).via
    (fun m => (m.sampleRate, m.frequency, m.voltage, m.maxDataPointsInQueue,
      m.dataPointsStoredOfEvent, m.dataPointsStoredBeforeEvent))
    fun (sampleRate, frequency, voltage, maxDataPointsInQueue, dataPointsStoredOfEvent,
        dataPointsStoredBeforeEvent) =>
      { sampleRate, frequency, voltage, maxDataPointsInQueue, dataPointsStoredOfEvent,
        dataPointsStoredBeforeEvent }

/-- The certainty is left out. -/
def eventMetaData : Codec ι EventMetaData :=
  ((optional B.bool B.unsignedLong).prod (B.ptime.prod
    ((optional B.bool B.number).prod B.powerMetaData))).via
    (fun m => (m.eventId, m.eventTime, m.label, m.powerMetaData))
    fun (eventId, eventTime, label, powerMetaData) => { eventId, eventTime, label, powerMetaData }

def bluedDataPoint : Codec ι (BluedDataPoint F) :=
  (B.float.prod (B.float.prod (B.float.prod B.float))).via
    (fun d => (d.xValue, d.currentA, d.currentB, d.voltageA))
    fun (xValue, currentA, currentB, voltageA) => { xValue, currentA, currentB, voltageA }

/-- Events with either kind of data points. -/
def event {α : Type} (dataPoint : Codec ι α) : Codec ι (Event α) :=
  ((vector B.unsignedLong dataPoint).prod B.eventMetaData).via
    (fun e => (e.eventData, e.eventMetaData))
    fun (eventData, eventMetaData) => { eventData, eventMetaData }

def labelTimePair : Codec ι LabelTimePair :=
  (B.number.prod B.ptime).via (fun p => (p.label, p.time)) fun (label, time) => { label, time }

def eventFeatures : Codec ι (EventFeatures F) :=
  (B.eventMetaData.prod (vector B.unsignedLong B.float)).via
    (fun e => (e.eventMetaData, e.featureVector))
    fun (eventMetaData, featureVector) => { eventMetaData, featureVector }

/-- `serializeEventLabelManager` -/
def eventLabelManager : Codec ι (EventLabelManager F) :=
  ((vector B.unsignedLong B.eventFeatures).prod ((vector B.unsignedLong B.eventFeatures).prod
    (B.set B.labelTimePair))).via
    (fun m => (m.labeledEvents, m.unlabeledEvents, m.labels))
    fun (labeledEvents, unlabeledEvents, labels) => { labeledEvents, unlabeledEvents, labels }

/-! ## What is restored -/

theorem lawful_defaultDataPoint : B.defaultDataPoint.Lawful id :=
  (B.float_lawful.prod B.float_lawful).via _ _

theorem lawful_bluedDataPoint : B.bluedDataPoint.Lawful id :=
  (B.float_lawful.prod (B.float_lawful.prod (B.float_lawful.prod B.float_lawful))).via _ _

theorem lawful_powerMetaData : B.powerMetaData.Lawful id :=
  (B.unsignedLong_lawful.prod (B.unsignedLong_lawful.prod (B.number_lawful.prod
    (B.unsignedLong_lawful.prod (B.int_lawful.prod B.int_lawful))))).via _ _

theorem lawful_labelTimePair : B.labelTimePair.Lawful id :=
  (B.number_lawful.prod B.ptime_lawful).via _ _

end Boost

/-- Without its certainty. -/
def EventMetaData.uncertain (m : EventMetaData) : EventMetaData :=
  { m with classificationCertainty := 0 }

def EventFeatures.uncertain (e : EventFeatures F) : EventFeatures F :=
  { e with eventMetaData := e.eventMetaData.uncertain }

def Event.uncertain {α : Type} (e : Event α) : Event α :=
  { e with eventMetaData := e.eventMetaData.uncertain }

theorem EventMetaData.uncertain_eq_self {m : EventMetaData} :
    m.uncertain = m ↔ m.classificationCertainty = 0 := by
  constructor
  · intro h
    rw [← h]
    rfl
  · intro h
    obtain ⟨time, id, label, certainty, power⟩ := m
    cases h
    rfl

theorem EventFeatures.uncertain_eq_self {e : EventFeatures F} :
    e.uncertain = e ↔ e.eventMetaData.classificationCertainty = 0 := by
  rw [← EventMetaData.uncertain_eq_self]
  obtain ⟨m, v⟩ := e
  simp [EventFeatures.uncertain]

theorem Event.uncertain_eq_self {α : Type} {e : Event α} :
    e.uncertain = e ↔ e.eventMetaData.classificationCertainty = 0 := by
  rw [← EventMetaData.uncertain_eq_self]
  obtain ⟨d, m⟩ := e
  simp [Event.uncertain]

namespace Boost

variable (B : Boost ι F)

theorem lawful_eventMetaData : B.eventMetaData.Lawful EventMetaData.uncertain := by
  have h := ((B.bool_lawful.optional B.unsignedLong_lawful).prod (B.ptime_lawful.prod
    ((B.bool_lawful.optional B.number_lawful).prod B.lawful_powerMetaData))).via
      (fun m : EventMetaData => (m.eventId, m.eventTime, m.label, m.powerMetaData))
      fun (eventId, eventTime, label, powerMetaData) =>
        ({ eventId, eventTime, label, powerMetaData } : EventMetaData)
  rw [Option.map_id, Option.map_id] at h
  exact h

theorem lawful_event {α : Type} {dataPoint : Codec ι α} (h : dataPoint.Lawful id) :
    (B.event dataPoint).Lawful Event.uncertain := by
  have h := ((B.unsignedLong_lawful.vector h).prod B.lawful_eventMetaData).via
    (fun e : Event α => (e.eventData, e.eventMetaData))
    fun (eventData, eventMetaData) => ({ eventData, eventMetaData } : Event α)
  rw [List.map_id_fun] at h
  exact h

theorem lawful_eventFeatures : B.eventFeatures.Lawful EventFeatures.uncertain := by
  have h := (B.lawful_eventMetaData.prod (B.unsignedLong_lawful.vector B.float_lawful)).via
    (fun e : EventFeatures F => (e.eventMetaData, e.featureVector))
    fun (eventMetaData, featureVector) =>
      ({ eventMetaData, featureVector } : EventFeatures F)
  rw [List.map_id_fun] at h
  exact h

/-- What is loaded of a saved manager. -/
def restored (m : EventLabelManager F) : EventLabelManager F where
  labeledEvents := m.labeledEvents.map EventFeatures.uncertain
  unlabeledEvents := m.unlabeledEvents.map EventFeatures.uncertain
  labels := B.rebuilt m.labels

/-- **Archives of the manager** restore everything but the certainties. -/
theorem lawful_eventLabelManager : B.eventLabelManager.Lawful B.restored :=
  ((B.unsignedLong_lawful.vector B.lawful_eventFeatures).prod
    ((B.unsignedLong_lawful.vector B.lawful_eventFeatures).prod
      (B.set_lawful _ B.lawful_labelTimePair))).via _ _

/-! ## Round trips -/

end Boost

/-- The same events in the same order, and the same pairs in the set. -/
def EventLabelManager.Same (m m' : EventLabelManager F) : Prop :=
  m.labeledEvents = m'.labeledEvents ∧ m.unlabeledEvents = m'.unlabeledEvents ∧
    m.labels.toList = m'.labels.toList

/-- Loading what was saved gives an equal value. -/
def RoundTrips {β : Type} (c : Codec ι β) (Same : β → β → Prop) (x : β) : Prop :=
  ∃ x', c.load (c.save x) = some (x', []) ∧ Same x x'

theorem roundTrips_iff {β : Type} {c : Codec ι β} {f : β → β} (h : c.Lawful f)
    {Same : β → β → Prop} {x : β} : RoundTrips c Same x ↔ Same x (f x) := by
  rw [RoundTrips, h.restores_nil]
  constructor
  · rintro ⟨x', hx', hsame⟩
    cases hx'
    exact hsame
  · exact fun hsame => ⟨_, rfl, hsame⟩

theorem map_uncertain_eq_self {es : List (EventFeatures F)} :
    es.map EventFeatures.uncertain = es ↔
      ∀ e ∈ es, e.eventMetaData.classificationCertainty = 0 := by
  constructor
  · intro h e he
    rw [← h] at he
    obtain ⟨e', -, rfl⟩ := List.mem_map.1 he
    rfl
  · intro h
    have hmap : es.map EventFeatures.uncertain = es.map id :=
      List.map_congr_left fun e he => EventFeatures.uncertain_eq_self.2 (h e he)
    rw [hmap, List.map_id]

/-- **Round trips.**  A manager and events with either kind of data points are
    restored iff they carry no certainties. -/
theorem round_trip_iff (B : Boost ι F) (m : EventLabelManager F)
    (e : Event (DefaultDataPoint F)) (e' : Event (BluedDataPoint F)) :
    (RoundTrips B.eventLabelManager EventLabelManager.Same m ↔
      ∀ x ∈ m.labeledEvents ++ m.unlabeledEvents,
        x.eventMetaData.classificationCertainty = 0) ∧
    (RoundTrips (B.event B.defaultDataPoint) (· = ·) e ↔
      e.eventMetaData.classificationCertainty = 0) ∧
    (RoundTrips (B.event B.bluedDataPoint) (· = ·) e' ↔
      e'.eventMetaData.classificationCertainty = 0) := by
  refine ⟨?_, ?_, ?_⟩
  · rw [roundTrips_iff B.lawful_eventLabelManager, List.forall_mem_append,
      ← map_uncertain_eq_self, ← map_uncertain_eq_self]
    constructor
    · rintro ⟨hl, hu, -⟩
      exact ⟨hl.symm, hu.symm⟩
    · rintro ⟨hl, hu⟩
      exact ⟨hl.symm, hu.symm, (B.toList_rebuilt m.labels).symm⟩
  · rw [roundTrips_iff (B.lawful_event B.lawful_defaultDataPoint), eq_comm]
    exact Event.uncertain_eq_self
  · rw [roundTrips_iff (B.lawful_event B.lawful_bluedDataPoint), eq_comm]
    exact Event.uncertain_eq_self

/-! ## An event that has been classified -/

/-- The items of a plain archive. -/
inductive Item (F : Type) where
  | unsignedLong (n : ℕ)
  | int (z : Int32)
  | bool (b : Bool)
  | float (x : F)
  | number (q : ℚ)
  | ptime (t : TimeType)
deriving DecidableEq

/-- The tree of a sorted list, without left branches. -/
def LabelSet.ofList : List LabelTimePair → LabelSet
  | [] => .empty
  | x :: xs => .node .empty x (ofList xs)

theorem LabelSet.toList_ofList (xs : List LabelTimePair) : (ofList xs).toList = xs := by
  induction xs with
  | nil => rfl
  | cons x xs ih => rw [ofList, toList, toList, ih, List.nil_append]

def plainUnsignedLong (F : Type) : Codec (Item F) ℕ :=
  item .unsignedLong fun | .unsignedLong n => some n | _ => none

theorem lawful_plainUnsignedLong : (plainUnsignedLong F).Lawful id := .item fun _ => rfl

/-- Archives with one item for each value. -/
def plainBoost (F : Type) : Boost (Item F) F where
  unsignedLong := plainUnsignedLong F
  int := item .int fun | .int z => some z | _ => none
  bool := item .bool fun | .bool b => some b | _ => none
  float := item .float fun | .float x => some x | _ => none
  number := item .number fun | .number q => some q | _ => none
  ptime := item .ptime fun | .ptime t => some t | _ => none
  set c := (vector (plainUnsignedLong F) c).via LabelSet.toList LabelSet.ofList
  rebuilt labels := .ofList labels.toList
  unsignedLong_lawful := lawful_plainUnsignedLong
  int_lawful := .item fun _ => rfl
  bool_lawful := .item fun _ => rfl
  float_lawful := .item fun _ => rfl
  number_lawful := .item fun _ => rfl
  ptime_lawful := .item fun _ => rfl
  set_lawful c hc := by
    have h := (lawful_plainUnsignedLong.vector hc).via LabelSet.toList LabelSet.ofList
    rw [List.map_id_fun] at h
    exact h
  toList_rebuilt labels := LabelSet.toList_ofList _

/-- The certainty of a classified event is lost. -/
theorem certainty_lost :
    ¬ RoundTrips (plainBoost ℚ).eventLabelManager EventLabelManager.Same
      { unlabeledEvents := [⟨{ eventId := some 0, label := some 1,
                               classificationCertainty := 1 }, []⟩] } := by
  rw [roundTrips_iff (plainBoost ℚ).lawful_eventLabelManager]
  rintro ⟨-, hu, -⟩
  simp [Boost.restored, EventFeatures.uncertain, EventMetaData.uncertain] at hu

end SmartScreen
