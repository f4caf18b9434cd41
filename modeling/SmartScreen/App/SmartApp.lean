/-
  The metric provider (`MetricProvider.h`) and the workers of the smart app
  (`SmartApp.h`).
-/
import SmartScreen.Detector.EventDetector
import SmartScreen.Stream.DistributorSpec

namespace SmartScreen

open Loop Window DataStreamDistributor

variable {α F σ : Type}

/-! ## `MetricProvider` -/

structure MetricProvider where
  totalSecondsOfDataAccumulated : ℕ
  currentSecondsOfDataAccumulated : ℕ

namespace MetricProvider

def numberOfDataPointsFetched (m : PowerMetaData) : ℕ := m.sampleRate

def nextPeriod (m : PowerMetaData) (id : ℤ) : NextReadInfos :=
  { keepNumber := 0
    readNumber := numberOfDataPointsFetched m
    nextReadLocation := id + numberOfDataPointsFetched m }

def calculateSteadyStateData (m : PowerMetaData) (dataPoints : List α) : Except Fault Unit :=
  if dataPoints.length = m.sampleRate then .ok () else .error .assertion

def shouldPublishData (s : MetricProvider) : Bool :=
  decide (s.totalSecondsOfDataAccumulated ≤ s.currentSecondsOfDataAccumulated)

def publishData (s : MetricProvider) : MetricProvider := s

def resetInfos (s : MetricProvider) (_id : ℤ) : MetricProvider := s

def workOnDataPoints (md : DynamicStreamMetaData) : DataStreamWorker α MetricProvider :=
  fun s dataPoints id =>
    let m := md.powerMetaData
    if dataPoints = [] then .ok s (nextPeriod m id)
    else
      match calculateSteadyStateData m dataPoints with
      | .error e => .fault e s
      | .ok () =>
        let s := if s.shouldPublishData then s.publishData.resetInfos id else s
        .ok s (nextPeriod m id)

variable {md : DynamicStreamMetaData} {s : MetricProvider} {dataPoints : List α} {id : ℤ}

theorem workOnDataPoints_ok (id : ℤ)
    (h : dataPoints = [] ∨ dataPoints.length = md.powerMetaData.sampleRate) :
    workOnDataPoints md s dataPoints id = .ok s (nextPeriod md.powerMetaData id) := by
  by_cases h₁ : dataPoints = []
  · simp [workOnDataPoints, h₁]
  · simp [workOnDataPoints, h₁, h.resolve_left h₁, calculateSteadyStateData, publishData,
      resetInfos]

theorem workOnDataPoints_assertion (id : ℤ) (h : dataPoints ≠ [])
    (h' : dataPoints.length ≠ md.powerMetaData.sampleRate) :
    workOnDataPoints md s dataPoints id = .fault .assertion s := by
  simp [workOnDataPoints, calculateSteadyStateData, h, h']

end MetricProvider

/-! ## `SmartApp` -/

/-- The workers of the app; the listeners of the detector have the state `σ`. -/
inductive AppWorker (F σ : Type) where
  | eventDetector (s : EventDetector F × σ)
  | metricProvider (s : MetricProvider)

section
variable [FloatArith F] [DataPoint α F] (C : CppInt) (md : DynamicStreamMetaData)

def AppWorker.workOnDataPoints (slot : σ → Event α → Res Fault σ Unit) :
    DataStreamWorker α (AppWorker F σ)
  | .eventDetector s, dataPoints, id =>
    (EventDetector.workOnDataPoints C md slot s dataPoints id).lift .eventDetector
  | .metricProvider s, dataPoints, id =>
    (MetricProvider.workOnDataPoints md s dataPoints id).lift .metricProvider

/-- The constructor: the distributor with both workers. -/
def smartApp (slot : σ → Event α → Res Fault σ Unit) (s : EventDetector F × σ)
    (metricProvider : MetricProvider) :
    Res Fault (DataStreamDistributor α (AppWorker F σ)) Unit :=
  let W := AppWorker.workOnDataPoints C md slot
  (addWorker W {} (.eventDetector s)).bind fun d _ => addWorker W d (.metricProvider metricProvider)

end

end SmartScreen
