/-
  Events (`EventMetaData.h`, `Event.h`).
-/
import SmartScreen.Stream.MetaData

namespace SmartScreen

variable {α : Type}

/-- `EventMetaData`: ids are `unsigned long`s; labels and certainties are only
    compared and copied. -/
structure EventMetaData where
  eventTime : TimeType := none
  eventId : Option ℕ := none
  label : Option ℚ := none
  classificationCertainty : ℚ := 0
  powerMetaData : PowerMetaData := {}
deriving DecidableEq

structure Event (α : Type) where
  eventData : List α := []
  eventMetaData : EventMetaData := {}
deriving DecidableEq

namespace Event

/-- `Event::createEvent`; the id of the meta data is overwritten. -/
def createEvent (metaData : EventMetaData) (dataPoints : List α) (eventId : Option ℕ := none) :
    Event α :=
  ⟨dataPoints, { metaData with eventId := eventId }⟩

/-- The position of `event_begin()` in the event data. -/
def eventBegin (e : Event α) : ℤ := e.eventMetaData.powerMetaData.before

end Event

end SmartScreen
