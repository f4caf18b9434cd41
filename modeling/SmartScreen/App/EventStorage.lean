/-
  The file names of stored events (`EventStorage.h`), beside those of
  `Hdf5EventStorage`.

  Both storages pad the text of an id to seven characters; an event without an id
  gets a text that is not a number.
-/
import SmartScreen.App.EventHandlers
import SmartScreen.Lib.NumberText

namespace SmartScreen

open Hdf5EventStorage

variable {α : Type}

structure EventStorage where
  eventDirectory : String := "events/"

namespace EventStorage

def uuidToString (uuid : Option ℕ) : String :=
  let padWidth := 7
  let result := match uuid with
    | some id => toString id
    | none => "no_id"
  if padWidth < result.length then result
  else String.ofList (List.replicate (padWidth - result.length) '0') ++ result

def createFilePath (s : EventStorage) (uuid : ℕ) : String :=
  s.eventDirectory ++ "/event_" ++ uuidToString (some uuid) ++ ".archive"

/-- The file that `storeEventDataToCSV` writes. -/
def csvFilePath (s : EventStorage) (toStore : Event α) : String :=
  s.eventDirectory ++ "/event_" ++ uuidToString toStore.eventMetaData.eventId ++ ".csv"

/-! ## The padded text -/

/-- **Both storages write the same text for an id.** -/
theorem uuidToString_eq (uuid : Option ℕ) : uuidToString uuid = padded (eventIdText uuid) := by
  cases uuid <;> rfl

/-- A number is padded with digits. -/
theorem isDigit_of_mem_padded {id : ℕ} {c : Char}
    (h : c ∈ (padded (eventIdText (some id))).toList) : c.isDigit = true := by
  have htext : ∀ c ∈ (toString id).toList, c.isDigit = true := by
    intro c hc
    rw [Nat.toString_eq_repr, Nat.toList_repr] at hc
    exact NumberText.isDigit_of_mem_toDigits hc
  rw [padded, eventIdText] at h
  split_ifs at h
  · exact htext c h
  · rw [String.toList_append, String.toList_ofList, List.mem_append] at h
    rcases h with h | h
    · rw [List.eq_of_mem_replicate h]
      rfl
    · exact htext c h

/-- The padded text of no id is not a number. -/
theorem padded_some_ne_none (id : ℕ) :
    padded (eventIdText (some id)) ≠ padded (eventIdText none) := by
  intro h
  have hn : 'n' ∈ (padded (eventIdText none)).toList := by decide
  rw [← h] at hn
  exact absurd (isDigit_of_mem_padded hn) (by decide)

/-- **The padded text determines the id.** -/
theorem padded_eventIdText_injective : Function.Injective fun id => padded (eventIdText id) := by
  intro id id' h
  cases id with
  | none =>
    cases id' with
    | none => rfl
    | some j => exact absurd h.symm (padded_some_ne_none j)
  | some i =>
    cases id' with
    | none => exact absurd h (padded_some_ne_none i)
    | some j =>
      calc
        some i = some (number (padded (eventIdText (some i)))) := by
          rw [number_padded, eventIdText, number_toString]
        _ = some (number (padded (eventIdText (some j)))) := congrArg (some ∘ number) h
        _ = some j := by rw [number_padded, eventIdText, number_toString]

theorem uuidToString_injective : Function.Injective uuidToString := by
  intro id id' h
  rw [uuidToString_eq, uuidToString_eq] at h
  exact padded_eventIdText_injective h

end EventStorage

/-! ## Paths -/

/-- **Storage paths are injective.**  Two ids have the same text only if they are
    equal, and so have the files that the two storages write; both write the same
    text for an id. -/
theorem storage_paths_injective :
    Function.Injective EventStorage.uuidToString ∧
    (∀ s : EventStorage, Function.Injective s.createFilePath) ∧
    (∀ (s : EventStorage) (α : Type) (e e' : Event α), s.csvFilePath e = s.csvFilePath e' →
      e.eventMetaData.eventId = e'.eventMetaData.eventId) ∧
    (∀ (s : Hdf5EventStorage) (m m' : EventMetaData),
      s.getFilePathForEvent m = s.getFilePathForEvent m' → m.eventId = m'.eventId) ∧
    ∀ id, EventStorage.uuidToString id = padded (eventIdText id) := by
  refine ⟨EventStorage.uuidToString_injective, ?_, ?_, ?_, EventStorage.uuidToString_eq⟩
  · intro s i j h
    rw [EventStorage.createFilePath, EventStorage.createFilePath, String.append_left_inj,
      String.append_right_inj] at h
    exact Option.some.inj (EventStorage.uuidToString_injective h)
  · intro s α e e' h
    rw [EventStorage.csvFilePath, EventStorage.csvFilePath, String.append_left_inj,
      String.append_right_inj] at h
    exact EventStorage.uuidToString_injective h
  · intro s m m' h
    rw [getFilePathForEvent, getFilePathForEvent, String.append_left_inj,
      String.append_right_inj] at h
    exact EventStorage.padded_eventIdText_injective h

end SmartScreen
