/-
  Detection in chunk after chunk while no event is detected.

  `quietThrough` is the detector after a sequence of chunks, if it has detected an event
  in none of them; it depends on the RMS values only, so a detector that waits for
  different data behaves alike (`detectEvent_congr`).
-/
import SmartScreen.Detector.EventDetector

namespace SmartScreen

namespace EventDetector

variable {α F : Type} [FloatArith F] [DataPoint α F]

/-- Detection in the chunks in turn: the detector after them, if no event is
    detected. -/
def quietThrough (m : PowerMetaData) : EventDetector F → List (List α) → Option (EventDetector F)
  | d, [] => some d
  | d, c :: cs =>
    match detectEvent m d c with
    | .ok (d', false) => quietThrough m d' cs
    | _ => none

theorem quietThrough_append (m : PowerMetaData) (d : EventDetector F) (cs cs' : List (List α)) :
    quietThrough m d (cs ++ cs') = (quietThrough m d cs).bind fun d' => quietThrough m d' cs' := by
  induction cs generalizing d with
  | nil => rfl
  | cons c cs ih =>
    simp only [List.cons_append, quietThrough]
    split
    · exact ih _
    · rfl

/-- Detection does not look at the pending request. -/
theorem detectEvent_congr (m : PowerMetaData) (d : EventDetector F) (id : ℤ)
    (dataPoints : List α) :
    detectEvent m (d.setRequested id) dataPoints =
      (detectEvent m d dataPoints).map fun db => (db.1.setRequested id, db.2) := by
  by_cases h₁ : dataPoints.length < m.dataPointsPerPeriod
  · simp [detectEvent, h₁, Except.map]
  by_cases h₂ : (dataPoints.length : ℤ) < d.compareAfter
  · simp [detectEvent, setRequested, h₁, h₂, Except.map]
  by_cases h₃ :
      (d.previousRms ++ [Algorithms.rootMeanSquareOfAmpere dataPoints]).length < numberOfRms
  · by_cases h₄ : m.dataPointsPerPeriod * numberOfRms < dataPoints.length <;>
      simp only [detectEvent, initializePreviousRms, setRequested, h₁, h₂, h₃, h₄, if_true,
        if_false, Except.map]
  · simp only [detectEvent, setRequested, h₁, h₂, h₃, if_false]
    split <;> rfl

/-- Detection changes the RMS values only. -/
theorem detectEvent_keeps {m : PowerMetaData} {d d' : EventDetector F} {dataPoints : List α}
    {b : Bool} (h : detectEvent m d dataPoints = .ok (d', b)) :
    d'.compareAfter = d.compareAfter ∧ d'.detectedAnEvent = d.detectedAnEvent := by
  unfold detectEvent initializePreviousRms at h
  dsimp only at h
  split_ifs at h
  · cases h; exact ⟨rfl, rfl⟩
  · cases h
  · split at h <;> cases h <;> exact ⟨rfl, rfl⟩

theorem quietThrough_keeps {m : PowerMetaData} {d d' : EventDetector F} {cs : List (List α)}
    (h : quietThrough m d cs = some d') :
    d'.compareAfter = d.compareAfter ∧ d'.detectedAnEvent = d.detectedAnEvent := by
  induction cs generalizing d with
  | nil => cases h; exact ⟨rfl, rfl⟩
  | cons c cs ih =>
    simp only [quietThrough] at h
    split at h
    · rename_i d₁ hdetect
      obtain ⟨hca, hd⟩ := detectEvent_keeps hdetect
      obtain ⟨hca', hd'⟩ := ih h
      exact ⟨hca'.trans hca, hd'.trans hd⟩
    · cases h

/-- What is quiet is quiet up to an earlier chunk. -/
theorem quietThrough_mono {m : PowerMetaData} {d d' : EventDetector F} {chunk : ℕ → List α}
    {j J : ℕ} (hj : j ≤ J) (h : quietThrough m d ((List.range J).map chunk) = some d') :
    (quietThrough m d ((List.range j).map chunk)).isSome := by
  obtain ⟨k, rfl⟩ := Nat.exists_eq_add_of_le hj
  rw [List.range_add, List.map_append, quietThrough_append] at h
  cases hq : quietThrough m d ((List.range j).map chunk) with
  | none => rw [hq] at h; cases h
  | some => rfl

/-- One more chunk. -/
theorem quietThrough_succ (m : PowerMetaData) (d : EventDetector F) (chunk : ℕ → List α) (j : ℕ) :
    quietThrough m d ((List.range (j + 1)).map chunk) =
      (quietThrough m d ((List.range j).map chunk)).bind fun d' => quietThrough m d' [chunk j] := by
  rw [List.range_succ, List.map_append, quietThrough_append]
  rfl

end EventDetector

end SmartScreen
