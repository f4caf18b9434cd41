/-
  The event handlers of the app (`Hdf5EventStorage.h`, `EventHandlers.h`, `Init.h`).

  The detector raises `event_detected`; the slots that are connected to it run in
  the order of their groups.  The classifier's thread takes the last event that
  was pushed, the message loop adds labels and reclassifies.

  * Each call of the detector and each section under the classifier's mutex is one
    step; they interleave.
  * The main loop catches exceptions and goes on, the other threads do not.
  * Whether the file of an event can be created is part of the step.
-/
import SmartScreen.Classifier.DataClassifier
import SmartScreen.Detector.EventDetector

namespace SmartScreen

open Loop

variable {α F σ β : Type}

/-! ## `Hdf5EventStorage` -/

structure Hdf5EventStorage where
  storagePath : String := "events"

namespace Hdf5EventStorage

def padWidth : ℕ := 7

/-- `std::to_string`, or a text that is the same for all events without an id. -/
def eventIdText (eventId : Option ℕ) : String :=
  match eventId with
  | some id => toString id
  | none => "no_id"

def padded (eventId : String) : String :=
  if padWidth < eventId.length then eventId
  else String.ofList (List.replicate (padWidth - eventId.length) '0') ++ eventId

def getFilePathForEvent (s : Hdf5EventStorage) (metaData : EventMetaData) : String :=
  s.storagePath ++ "/event_" ++ padded (eventIdText metaData.eventId) ++ ".hdf5"

/-! ### Paths -/

/-- The number that a text of digits stands for. -/
def number (text : String) : ℕ := Nat.ofDigitChars 10 text.toList 0

theorem number_toString (id : ℕ) : number (toString id) = id := by
  rw [number, Nat.toString_eq_repr, Nat.toList_repr, Nat.ofDigitChars_ten_toDigits]

theorem number_padded (text : String) : number (padded text) = number text := by
  simp only [number, padded]
  split_ifs
  · rfl
  · rw [String.toList_append, String.toList_ofList, Nat.ofDigitChars_append,
      Nat.ofDigitChars_replicate_zero, Nat.mul_zero]

/-- **Events with different ids have different paths.** -/
theorem eventId_eq_of_filePath {s : Hdf5EventStorage} {m m' : EventMetaData} {i j : ℕ}
    (hm : m.eventId = some i) (hm' : m'.eventId = some j)
    (h : s.getFilePathForEvent m = s.getFilePathForEvent m') : i = j := by
  rw [getFilePathForEvent, getFilePathForEvent, String.append_left_inj,
    String.append_right_inj, hm, hm'] at h
  calc
    i = number (padded (eventIdText (some i))) := by
      rw [number_padded, eventIdText, number_toString]
    _ = number (padded (eventIdText (some j))) := by rw [h]
    _ = j := by rw [number_padded, eventIdText, number_toString]

end Hdf5EventStorage

/-! ## Signals -/

/-- The slots of a `boost::signals2::signal` with their groups, in the order in
    which they are called. -/
structure Signal (σ β : Type) where
  slots : List (ℕ × (σ → β → Res Fault σ Unit)) := []

namespace Signal

/-- A slot comes behind those of its own group. -/
def connect (s : Signal σ β) (group : ℕ) (slot : σ → β → Res Fault σ Unit) : Signal σ β :=
  ⟨s.slots.takeWhile (fun x => decide (x.1 ≤ group)) ++
    (group, slot) :: s.slots.dropWhile fun x => decide (x.1 ≤ group)⟩

/-- An exception ends the emission. -/
def emit (s : Signal σ β) (t : σ) (b : β) : Res Fault σ Unit :=
  s.slots.foldl (fun r x => r.bind fun t _ => x.2 t b) (.ok t ())

end Signal

/-! ## Handlers -/

/-- What the handlers act on.  `pushed` and `stored` record what reached
    `pushEvent`, and the files that were written. -/
structure App (α F : Type) where
  classifier : DataClassifier F := {}
  events : List (Event α) := []
  pushed : List (Event α) := []
  stored : List String := []

namespace App

/-- It writes a line to the log. -/
def onEventDetected (a : App α F) (_event : Event α) : Res Fault (App α F) Unit := .ok a ()

def storeEvent (canCreate : Bool) (a : App α F) (event : Event α) : Res Fault (App α F) Unit :=
  if canCreate then
    .ok { a with stored := a.stored ++
      [({} : Hdf5EventStorage).getFilePathForEvent event.eventMetaData] } ()
  else .fault .exception a

/-- `SmartApp::onEventDetected` -/
def pushEvent (a : App α F) (event : Event α) : Res Fault (App α F) Unit :=
  .ok { a with events := a.events ++ [event], pushed := a.pushed ++ [event] } ()

/-- The constructor of the app connects its slot before `connectEvents` does. -/
def eventDetected (canCreate : Bool) : Signal (App α F) (Event α) :=
  ((({} : Signal (App α F) (Event α)).connect 500 pushEvent).connect 0 onEventDetected).connect 1
    (storeEvent canCreate)

/-- The label is dereferenced. -/
def onEventClassified (features : EventFeatures F) : Except Fault Unit :=
  if features.eventMetaData.label = none then .error .undefined else .ok ()

/-- The state after a call that returns. -/
def returned : Res Fault σ β → Option σ
  | .ok s _ => some s
  | _ => none

variable [FloatArith F]

/-- The classifier's thread processes the last event. -/
def run (lib : Libraries α F) (a : App α F) : Option (App α F) := do
  let event ← a.events.getLast?
  let c ← returned (a.classifier.processOneEvent lib event)
  let published := c.classified.drop a.classifier.classified.length
  if published.all fun f => (onEventClassified f).isOk then
    some { a with classifier := c, events := a.events.dropLast }
  else none

end App

/-! ## The pipeline -/

/-- The detector and what its events reach. -/
abbrev Pipeline (α F : Type) := EventDetector F × App α F

namespace Pipeline

inductive Action (α : Type) where
  | workOnDataPoints (md : DynamicStreamMetaData) (dataPoints : List α) (id : ℤ) (canCreate : Bool)
  | run
  | addLabelById (id : ℕ) (label : ℚ)
  | reclassify (id : ℕ)

variable [FloatArith F] [DataPoint α F]

def step (C : CppInt) (lib : Libraries α F) (s : Pipeline α F) :
    Action α → Option (Pipeline α F)
  | .workOnDataPoints md dataPoints id canCreate =>
    DataClassifier.caught (EventDetector.workOnDataPoints C md
      (App.eventDetected canCreate).emit s dataPoints id)
  | .run => (s.2.run lib).map fun a => (s.1, a)
  | .addLabelById id label =>
    (App.returned (s.2.classifier.addLabelById id label)).map fun c =>
      (s.1, { s.2 with classifier := c })
  | .reclassify id =>
    (App.returned (s.2.classifier.reclassify lib id)).map fun c =>
      (s.1, { s.2 with classifier := c })

def Steps (C : CppInt) (lib : Libraries α F) (s : Pipeline α F) (a : Action α)
    (s' : Pipeline α F) : Prop :=
  s.step C lib a = some s'

end Pipeline

/-! ## What an event does -/

/-- The slots run in the order of their groups: the event is stored, then pushed. -/
theorem App.emit_eventDetected (canCreate : Bool) (a : App α F) (event : Event α) :
    (App.eventDetected canCreate).emit a event =
      if canCreate then
        .ok { a with
          events := a.events ++ [event]
          pushed := a.pushed ++ [event]
          stored := a.stored ++
            [({} : Hdf5EventStorage).getFilePathForEvent event.eventMetaData] } ()
      else .fault .exception a := by
  cases canCreate <;> rfl

end SmartScreen
