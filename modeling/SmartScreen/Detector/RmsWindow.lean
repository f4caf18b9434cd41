/-
  The window of RMS values.

  A call of the detector changes `previous_rms` only if it gets to `detectEvent`
  (`calls_cases`, `detectEvent_cases`).  The window starts with the first chunk and
  four of its periods, five values in all; later chunks are pushed before the oldest
  value is dropped and the median is taken.

  * `steady_no_event`: on a steady stream no event is detected.
  * `step_detected`: a step up to a higher level that lasts is detected.
  * `windowed_iff`: the window holds `number_of_rms` values or none, and not the chunk
    that it is compared with, only as long as no chunk has arrived.
-/
import SmartScreen.Detector.EventDetector
import SmartScreen.Lib.Median
import SmartScreen.Lib.Run

namespace SmartScreen

open Loop LTS Median

variable {α F σ : Type}

/-- A call of the detector, with the meta data that it finds. -/
structure WorkCall (α : Type) where
  metaData : DynamicStreamMetaData := {}
  dataPoints : List α := []
  dataPointId : ℤ := 0

namespace EventDetector

section
variable [FloatArith F] [DataPoint α F]

/-- The call returns, or throws an exception that is caught. -/
def Calls (C : CppInt) (slot : σ → Event α → Res Fault σ Unit) (s : EventDetector F × σ)
    (a : WorkCall α) (s' : EventDetector F × σ) : Prop :=
  (∃ i, workOnDataPoints C a.metaData slot s a.dataPoints a.dataPointId = .ok s' i) ∨
    workOnDataPoints C a.metaData slot s a.dataPoints a.dataPointId = .fault .exception s'

/-- The call gets to `detectEvent`: there is data, and not that of an event. -/
def Detection (d : EventDetector F) (a : WorkCall α) : Prop :=
  a.dataPoints ≠ [] ∧ ¬ (d.detectedAnEvent = true ∧ d.requestedDataPointId = a.dataPointId)

/-- `detectEvent` returns true. -/
def DetectsEvent (d : EventDetector F) (a : WorkCall α) : Prop :=
  ∃ d', detectEvent a.metaData.powerMetaData d a.dataPoints = .ok (d', true)

/-- The RMS values of the first periods of a chunk. -/
def periodRms (m : PowerMetaData) (dataPoints : List α) : List F :=
  (List.range numberOfRms).map fun i => Algorithms.rootMeanSquareOfAmpere
    ((dataPoints.drop (i * m.dataPointsPerPeriod)).take m.dataPointsPerPeriod)

/-- The values of which the median is taken, in a call that compares. -/
def comparedWindow (d : EventDetector F) (dataPoints : List α) : List F :=
  dropOldest (d.previousRms ++ [Algorithms.rootMeanSquareOfAmpere dataPoints])

/-! ## What a call does -/

section
variable {m : PowerMetaData} {d d' : EventDetector F} {dataPoints : List α} {b : Bool}

/-- **A detection** starts the window with the chunk and its periods, or compares the
    chunk with the window that ends with it. -/
theorem detectEvent_cases (h : detectEvent m d dataPoints = .ok (d', b)) :
    d' = { d with previousRms := d'.previousRms } ∧
      ((d.previousRms.length + 1 < numberOfRms ∧ b = false ∧
          m.dataPointsPerPeriod * numberOfRms < dataPoints.length ∧
          d'.previousRms = d.previousRms ++ [Algorithms.rootMeanSquareOfAmpere dataPoints] ++
            periodRms m dataPoints) ∨
        (numberOfRms ≤ d.previousRms.length + 1 ∧
          b = exceeds d.threshold (comparedWindow d dataPoints)
            (Algorithms.rootMeanSquareOfAmpere dataPoints) ∧
          d'.previousRms = if b then [] else comparedWindow d dataPoints)) := by
  unfold detectEvent at h
  dsimp only at h
  split_ifs at h with hp hc hlen
  · unfold initializePreviousRms at h
    dsimp only at h
    rw [List.length_append, List.length_singleton] at hlen
    split_ifs at h with hperiods
    · cases h
      exact ⟨rfl, Or.inl ⟨hlen, rfl, hperiods, rfl⟩⟩
    · cases h
  · rw [List.length_append, List.length_singleton, not_lt] at hlen
    split at h
    · rename_i hexceeds
      cases h
      exact ⟨rfl, Or.inr ⟨hlen, hexceeds.symm, rfl⟩⟩
    · rename_i hexceeds
      cases h
      exact ⟨rfl, Or.inr ⟨hlen, hexceeds.symm, rfl⟩⟩

/-- A detection changes the window only. -/
theorem detectEvent_frame (h : detectEvent m d dataPoints = .ok (d', b)) :
    d'.threshold = d.threshold ∧ d'.compareAfter = d.compareAfter ∧
      d'.detectedAnEvent = d.detectedAnEvent := by
  have heq := (detectEvent_cases h).1
  have hthreshold := congrArg threshold heq
  have hcompare := congrArg compareAfter heq
  have hdetected := congrArg detectedAnEvent heq
  exact ⟨hthreshold, hcompare, hdetected⟩

/-- What `detectEvent` needs is asserted. -/
theorem detectEvent_error {e : Fault} (h : detectEvent m d dataPoints = .error e) :
    e = .assertion := by
  unfold detectEvent at h
  dsimp only at h
  split_ifs at h
  · cases h; rfl
  · cases h; rfl
  · unfold initializePreviousRms at h
    dsimp only at h
    split_ifs at h
    · cases h
    · cases h; rfl
  · split at h <;> cases h

variable {C : CppInt} {slot : σ → Event α → Res Fault σ Unit} {s s' : EventDetector F × σ}
  {a : WorkCall α}

/-- **A call changes the window only in `detectEvent`**, and never the threshold. -/
theorem calls_cases (h : Calls C slot s a s') :
    s'.1.threshold = s.1.threshold ∧
      ((¬ Detection s.1 a ∧ s'.1.previousRms = s.1.previousRms) ∨
        (Detection s.1 a ∧ ∃ d b,
          detectEvent a.metaData.powerMetaData s.1 a.dataPoints = .ok (d, b) ∧
            s'.1.previousRms = d.previousRms)) := by
  obtain ⟨d, o⟩ := s
  have hnot : d.detectedAnEvent = true → d.requestedDataPointId = a.dataPointId →
      ¬ Detection d a := fun hdetected hid hd => hd.2 ⟨hdetected, hid⟩
  unfold Calls at h
  rcases workOnDataPoints_cases C a.metaData slot d o a.dataPoints a.dataPointId with
    ⟨d', o', i', hok, ha⟩ | ⟨e, d', o', hfault, hrms, hthreshold, hreason⟩ | ⟨htimeout, -⟩
  · rw [hok] at h
    obtain ⟨i, h⟩ | h := h
    · cases h
      cases ha with
      | first hnil => exact ⟨rfl, Or.inl ⟨fun hd => hd.1 hnil, rfl⟩⟩
      | raised _ hdetected hid _ => exact ⟨rfl, Or.inl ⟨hnot hdetected hid, rfl⟩⟩
      | detected hne hno hdetect =>
        exact ⟨(detectEvent_frame hdetect).1, Or.inr ⟨⟨hne, hno⟩, _, true, hdetect, rfl⟩⟩
      | quiet hne hno hdetect =>
        exact ⟨(detectEvent_frame hdetect).1, Or.inr ⟨⟨hne, hno⟩, _, false, hdetect, rfl⟩⟩
    · cases h
  · rw [hfault] at h
    obtain ⟨i, h⟩ | h := h
    · cases h
    · cases h
      rcases hreason with ⟨hdetected, hid, -⟩ | ⟨-, hdetect⟩
      · exact ⟨hthreshold, Or.inl ⟨hnot hdetected hid, hrms⟩⟩
      · cases detectEvent_error hdetect
  · rw [htimeout] at h
    obtain ⟨i, h⟩ | h := h
    · cases h
    · cases h

theorem length_comparedWindow (h : d.previousRms.length = numberOfRms + 1) :
    (comparedWindow d dataPoints).length = numberOfRms + 1 := by
  rw [comparedWindow, dropOldest, List.length_append, List.length_singleton, h,
    if_pos (by simp [numberOfRms]), List.length_tail, List.length_append, List.length_singleton, h,
    Nat.add_sub_cancel]

/-- **The window has five values**, between the calls that it is empty before. -/
theorem length_previousRms_step (h : Calls C slot s a s')
    (hs : s.1.previousRms.length = 0 ∨ s.1.previousRms.length = numberOfRms + 1) :
    (s'.1.previousRms.length = 0 ∨ s'.1.previousRms.length = numberOfRms + 1) ∧
      (s.1.previousRms.length = 0 →
        (s'.1.previousRms.length = 0 ↔ ¬ Detection s.1 a)) := by
  obtain ⟨-, ⟨hno, heq⟩ | ⟨hd, d, b, hdetect, heq⟩⟩ := calls_cases h
  · rw [heq]
    exact ⟨hs, fun h₀ => iff_of_true h₀ hno⟩
  · rw [heq]
    obtain ⟨-, ⟨hlen, -, -, hw⟩ | ⟨hlen, -, hw⟩⟩ := detectEvent_cases hdetect
    · have hfive : d.previousRms.length = numberOfRms + 1 := by
        rw [hw, List.length_append, List.length_append, periodRms, List.length_map,
          List.length_range, List.length_singleton]
        omega
      refine ⟨Or.inr hfive, fun _ => iff_of_false ?_ (not_not.2 hd)⟩
      omega
    · have hs := hs.resolve_left fun h₀ => by simp only [numberOfRms] at hlen; omega
      refine ⟨?_, fun h₀ => by omega⟩
      rw [hw]
      cases b with
      | true => exact Or.inl rfl
      | false => exact Or.inr (length_comparedWindow hs)

end

/-! ## Runs -/

/-- A detector that has not been called. -/
def new (threshold : F) (compareAfter : ℤ) : EventDetector F := { threshold, compareAfter }

section
variable {C : CppInt} {slot : σ → Event α → Res Fault σ Unit} {threshold : F} {compareAfter : ℤ}
  {o : σ} {s : EventDetector F × σ}
  {tr : List ((EventDetector F × σ) × WorkCall α × (EventDetector F × σ))}

theorem threshold_of_run (hrun : Run (Calls C slot) (new threshold compareAfter, o) tr s) :
    s.1.threshold = threshold :=
  hrun.inv (I := fun s => s.1.threshold = threshold) rfl fun _ _ h hx =>
    (calls_cases h).1.trans hx

/-- In a run the window is empty or has five values. -/
theorem length_previousRms (hrun : Run (Calls C slot) (new threshold compareAfter, o) tr s) :
    s.1.previousRms.length = 0 ∨ s.1.previousRms.length = numberOfRms + 1 :=
  hrun.inv (I := fun s => s.1.previousRms.length = 0 ∨ s.1.previousRms.length = numberOfRms + 1)
    (Or.inl rfl) fun _ _ h hx => (length_previousRms_step h hx).1

/-! ### The last `number_of_rms` values -/

/-- After the call the window holds `number_of_rms` values or none; if the call compares
    the chunk with a median, then with that of the `number_of_rms` values before it. -/
def Windowed (x : (EventDetector F × σ) × WorkCall α × (EventDetector F × σ)) : Prop :=
  (x.2.2.1.previousRms.length = 0 ∨ x.2.2.1.previousRms.length = numberOfRms) ∧
    (Detection x.1.1 x.2.1 → numberOfRms ≤ x.1.1.previousRms.length + 1 →
      comparedWindow x.1.1 x.2.1.dataPoints = x.1.1.previousRms ∧
        x.1.1.previousRms.length = numberOfRms)

/-- **The window is that of the last `number_of_rms` values** exactly as long as no
    call gets to `detectEvent`. -/
theorem windowed_iff (hrun : Run (Calls C slot) (new threshold compareAfter, o) tr s) :
    (∀ x ∈ tr, Windowed x) ↔ ∀ x ∈ tr, ¬ Detection x.1.1 x.2.1 := by
  have hlength := hrun.forall_iff
    (J := fun s => s.1.previousRms.length = 0 ∨ s.1.previousRms.length = numberOfRms + 1)
    (P := fun s => s.1.previousRms.length = 0 ∨ s.1.previousRms.length = numberOfRms)
    (C := fun s a => ¬ Detection s.1 a) (Or.inl rfl) (Or.inl rfl)
    (fun _ _ _ h hs => (length_previousRms_step h hs).1) fun s a s' h hs hP => by
      have hzero : s.1.previousRms.length = 0 := by
        simp only [numberOfRms] at hs hP
        omega
      obtain ⟨hs', hiff⟩ := length_previousRms_step h hs
      rw [← hiff hzero]
      simp only [numberOfRms] at hs' ⊢
      omega
  constructor
  · intro h
    exact hlength.1 fun x hx => (h x hx).1
  · intro h x hx
    exact ⟨hlength.2 h x hx, fun hd => absurd hd (h x hx)⟩

/-- Ten data points of one current, as the detector asks for with `smallMetaData`. -/
def flatCall (amps : ℚ) : WorkCall (DefaultDataPoint ℚ) where
  metaData := { powerMetaData := smallMetaData }
  dataPoints := List.replicate 10 ⟨0, amps⟩

/-- After the first chunk there are five values. -/
theorem window_of_five :
    ∃ tr s, Run (Calls CppInt.wrapping (record (α := DefaultDataPoint ℚ))) (new 1 3, []) tr s ∧
      ¬ ∀ x ∈ tr, Windowed x := by
  obtain ⟨s, h, hlen⟩ : ∃ s, Calls CppInt.wrapping (record (α := DefaultDataPoint ℚ))
      (new 1 3, []) (flatCall 1) s ∧ s.1.previousRms.length = 5 := ⟨_, Or.inl ⟨_, rfl⟩, rfl⟩
  refine ⟨_, s, Run.nil.snoc h, fun hall => ?_⟩
  obtain ⟨hzero | hfour, -⟩ := hall _ (List.mem_singleton.2 rfl)
  · exact absurd (hlen.symm.trans hzero) (by decide)
  · exact absurd (hlen.symm.trans hfour) (by decide)

/-- A call without data is followed by a chunk, on which the detector initialises its
    window. -/
theorem windowed_iff_chunk :
    ∃ tr s,
      Run (Calls CppInt.wrapping (record (α := DefaultDataPoint ℚ))) (new (1 : ℚ) 3, []) tr s ∧
      tr.length = 2 ∧ s.1.previousRms = [1, 1, 1, 1, 1] ∧
      ((∀ x ∈ tr, Windowed x) ↔ ∀ x ∈ tr, ¬ Detection x.1.1 x.2.1) := by
  obtain ⟨s₁, h₁, s₂, h₂, hrms⟩ : ∃ s₁,
      Calls CppInt.wrapping (record (α := DefaultDataPoint ℚ)) (new (1 : ℚ) 3, []) {} s₁ ∧
      ∃ s₂, Calls CppInt.wrapping record s₁ (flatCall 1) s₂ ∧
        s₂.1.previousRms = [1, 1, 1, 1, 1] :=
    ⟨_, Or.inl ⟨_, rfl⟩, _, Or.inl ⟨_, rfl⟩, by decide +kernel⟩
  have hrun := (Run.nil.snoc h₁).snoc h₂
  exact ⟨_, s₂, hrun, rfl, hrms, windowed_iff hrun⟩

end

end

/-! ## Steady streams and steps, in exact arithmetic -/

section
variable [ExactArith F] [DataPoint α F] {C : CppInt} {slot : σ → Event α → Res Fault σ Unit}
  {threshold : F} {compareAfter : ℤ} {o : σ} {s : EventDetector F × σ}
  {tr : List ((EventDetector F × σ) × WorkCall α × (EventDetector F × σ))}

omit [DataPoint α F] in
theorem getMedianPrevRms_eq (previousRms : List F) :
    getMedianPrevRms previousRms = upperMedian 0 previousRms := by
  unfold getMedianPrevRms upperMedian
  congr 2
  ext a b
  exact not_lt

/-- The RMS of the chunk and of every period in it lies in `[low, low + threshold]`. -/
def Steady (m : PowerMetaData) (low threshold : F) (dataPoints : List α) : Prop :=
  Algorithms.rootMeanSquareOfAmpere dataPoints ∈ Set.Icc low (low + threshold) ∧
    ∀ i, (i + 1) * m.dataPointsPerPeriod ≤ dataPoints.length →
      Algorithms.rootMeanSquareOfAmpere
          ((dataPoints.drop (i * m.dataPointsPerPeriod)).take m.dataPointsPerPeriod) ∈
        Set.Icc low (low + threshold)

omit [ExactArith F] in
theorem mem_of_mem_dropOldest {xs : List F} {r : F} (h : r ∈ dropOldest xs) : r ∈ xs := by
  unfold dropOldest at h
  split_ifs at h
  · exact List.mem_of_mem_tail h
  · exact h

omit [ExactArith F] in
theorem dropOldest_ne_nil {xs : List F} (h : xs ≠ []) : dropOldest xs ≠ [] := by
  unfold dropOldest
  split_ifs with hlen
  · rw [← List.length_pos_iff, List.length_tail]
    simp only [numberOfRms] at hlen
    omega
  · exact h

/-- A steady chunk leaves only values between the bounds in the window. -/
theorem steady_step {low : F} {a : WorkCall α} {s' : EventDetector F × σ}
    (h : Calls C slot s a s')
    (hsteady : Detection s.1 a → Steady a.metaData.powerMetaData low threshold a.dataPoints)
    (hs : ∀ r ∈ s.1.previousRms, r ∈ Set.Icc low (low + threshold)) :
    ∀ r ∈ s'.1.previousRms, r ∈ Set.Icc low (low + threshold) := by
  obtain ⟨-, ⟨-, heq⟩ | ⟨hd, d, b, hdetect, heq⟩⟩ := calls_cases h
  · rwa [heq]
  obtain ⟨hchunk, hperiods⟩ := hsteady hd
  have hpushed : ∀ r ∈ s.1.previousRms ++ [Algorithms.rootMeanSquareOfAmpere a.dataPoints],
      r ∈ Set.Icc low (low + threshold) := by
    intro r hr
    rcases List.mem_append.1 hr with hr | hr
    · exact hs r hr
    · rw [List.mem_singleton.1 hr]
      exact hchunk
  rw [heq]
  obtain ⟨-, ⟨-, -, hlen, hw⟩ | ⟨-, -, hw⟩⟩ := detectEvent_cases hdetect
  · rw [hw]
    intro r hr
    rcases List.mem_append.1 hr with hr | hr
    · exact hpushed r hr
    · obtain ⟨i, hi, rfl⟩ := List.mem_map.1 hr
      refine hperiods i ((Nat.mul_le_mul_right _ (List.mem_range.1 hi)).trans ?_)
      rw [mul_comm]
      exact hlen.le
  · rw [hw]
    cases b with
    | true => rintro r ⟨⟩
    | false => exact fun r hr => hpushed r (mem_of_mem_dropOldest hr)

/-- **No event is detected on a steady stream.** -/
theorem steady_no_event (hrun : Run (Calls C slot) (new threshold compareAfter, o) tr s) {low : F}
    (hsteady : ∀ x ∈ tr, Detection x.1.1 x.2.1 →
      Steady x.2.1.metaData.powerMetaData low threshold x.2.1.dataPoints) :
    ∀ x ∈ tr, Detection x.1.1 x.2.1 → ¬ DetectsEvent x.1.1 x.2.1 := by
  rintro x hx hd ⟨d, hdetect⟩
  -- the window before the call
  have hrun' : Run (fun s a s' => Calls C slot s a s' ∧ (Detection s.1 a →
      Steady a.metaData.powerMetaData low threshold a.dataPoints))
      (new threshold compareAfter, o) tr s :=
    hrun.mono fun y hy h => ⟨h, hsteady y hy⟩
  have hwindow := (hrun'.reach_of_mem x hx).1.inv
    (I := fun s => s.1.threshold = threshold ∧
      ∀ r ∈ s.1.previousRms, r ∈ Set.Icc low (low + threshold))
    ⟨rfl, by rintro r ⟨⟩⟩
    fun s a s' h hs => ⟨(calls_cases h.1).1.trans hs.1, steady_step h.1 h.2 hs.2⟩
  obtain ⟨hthreshold, hbounds⟩ := hwindow
  obtain ⟨hchunk, -⟩ := hsteady x hx hd
  obtain ⟨-, ⟨-, hb, -⟩ | ⟨-, hb, -⟩⟩ := detectEvent_cases hdetect
  · cases hb
  · have hexceeds := of_decide_eq_true hb.symm
    rw [getMedianPrevRms_eq, hthreshold] at hexceeds
    have hmem : upperMedian 0 (comparedWindow x.1.1 x.2.1.dataPoints) ∈
        x.1.1.previousRms ++ [Algorithms.rootMeanSquareOfAmpere x.2.1.dataPoints] :=
      mem_of_mem_dropOldest (upperMedian_mem (dropOldest_ne_nil (by simp)))
    have hlow : low ≤ upperMedian 0 (comparedWindow x.1.1 x.2.1.dataPoints) := by
      rcases List.mem_append.1 hmem with hmem | hmem
      · exact (hbounds _ hmem).1
      · rw [List.mem_singleton.1 hmem]
        exact hchunk.1
    have hhigh := sub_le_iff_le_add.2 hchunk.2
    exact (hlow.trans_lt hexceeds).not_ge hhigh

/-- A chunk of the length asked for passes the assertions. -/
theorem exists_calls (C : CppInt) (slot : σ → Event α → Res Fault σ Unit) {a : WorkCall α}
    (hm : Counts a.metaData.powerMetaData) (hd : s.1.detectedAnEvent = false)
    (hlen : a.dataPoints.length = s.1.minDataPointsNeeded a.metaData.powerMetaData) :
    ∃ s' b, Calls C slot s a s' ∧ s'.1.detectedAnEvent = b ∧
      s'.1.compareAfter = s.1.compareAfter ∧
      ∃ d, detectEvent a.metaData.powerMetaData s.1 a.dataPoints = .ok (d, b) := by
  obtain ⟨d', b, hdetect, hwork, hcompare, hb, -⟩ :=
    workOnDataPoints_chunk (C := C) slot s.2 rfl hm hd hlen a.dataPointId
  exact ⟨(d', s.2), b, Or.inl ⟨_, hwork⟩, hb, hcompare, hdetect⟩

theorem steady_flatCall : Steady smallMetaData (1 : ℚ) 1 (flatCall 1).dataPoints := by
  refine ⟨by decide +kernel, fun i hi => ?_⟩
  have hperiod : smallMetaData.dataPointsPerPeriod = 2 := rfl
  have hlen : (flatCall 1).dataPoints.length = 10 := rfl
  rw [hperiod, hlen] at hi
  have hi' : i < 5 := by omega
  interval_cases i <;> decide +kernel

/-- Two equal chunks. -/
theorem steady_no_event_flat :
    ∃ tr s, Run (Calls CppInt.wrapping (record (α := DefaultDataPoint ℚ))) (new 1 3, []) tr s ∧
      tr.length = 2 ∧ ∀ x ∈ tr, Detection x.1.1 x.2.1 → ¬ DetectsEvent x.1.1 x.2.1 := by
  obtain ⟨s₁, h₁, hd, hcompare⟩ : ∃ s₁, Calls CppInt.wrapping
      (record (α := DefaultDataPoint ℚ)) (new (1 : ℚ) 3, []) (flatCall 1) s₁ ∧
      s₁.1.detectedAnEvent = false ∧ s₁.1.compareAfter = 3 := ⟨_, Or.inl ⟨_, rfl⟩, rfl, rfl⟩
  obtain ⟨s₂, b, h₂, -⟩ := exists_calls (s := s₁) CppInt.wrapping record (a := flatCall 1)
    counts_smallMetaData hd (by rw [minDataPointsNeeded, hcompare]; rfl)
  have hrun := (Run.nil.snoc h₁).snoc h₂
  have hflat : ∀ x ∈ [((new (1 : ℚ) 3, []), flatCall 1, s₁), (s₁, flatCall 1, s₂)],
      Detection x.1.1 x.2.1 →
        Steady x.2.1.metaData.powerMetaData (1 : ℚ) 1 x.2.1.dataPoints := by
    intro x hx _
    have hcall : x.2.1 = flatCall 1 := by
      rcases List.mem_pair.1 hx with rfl | rfl
      · rfl
      · rfl
    rw [hcall]
    exact steady_flatCall
  exact ⟨_, s₂, hrun, rfl, steady_no_event hrun hflat⟩

/-- The chunk is pushed and the oldest of five values dropped. -/
theorem comparedWindow_eq {d : EventDetector F} (h : d.previousRms.length = numberOfRms + 1)
    (dataPoints : List α) : comparedWindow d dataPoints =
      d.previousRms.tail ++ [Algorithms.rootMeanSquareOfAmpere dataPoints] := by
  have hne : d.previousRms ≠ [] := List.ne_nil_of_length_pos (by omega)
  rw [comparedWindow, dropOldest, if_pos, List.tail_append_of_ne_nil hne]
  rw [List.length_append, List.length_singleton, h]
  simp [numberOfRms]

/-- **A step that lasts is detected**: on the chunk it falls into, or on the next one. -/
theorem step_detected (hrun : Run (Calls C slot) (new threshold compareAfter, o) tr s)
    (hinit : s.1.previousRms ≠ []) {a : F} (ha : ∀ r ∈ s.1.previousRms, r ≤ a)
    {a₁ a₂ : WorkCall α} {s₁ s₂ s₃ : EventDetector F × σ}
    (h₁ : Calls C slot s a₁ s₁) (hd₁ : Detection s.1 a₁)
    {tr' : List ((EventDetector F × σ) × WorkCall α × (EventDetector F × σ))}
    (hbetween : Run (Calls C slot) s₁ tr' s₂) (hno : ∀ x ∈ tr', ¬ Detection x.1.1 x.2.1)
    (h₂ : Calls C slot s₂ a₂ s₃) (hd₂ : Detection s₂.1 a₂)
    (hstep : a + threshold < Algorithms.rootMeanSquareOfAmpere a₂.dataPoints) :
    DetectsEvent s.1 a₁ ∨ DetectsEvent s₂.1 a₂ := by
  have hlen := (length_previousRms hrun).resolve_left
    (List.length_pos_iff.2 hinit).ne'
  obtain ⟨-, ⟨hno₁, -⟩ | ⟨-, d₁, b₁, hdetect₁, heq₁⟩⟩ := calls_cases h₁
  · exact absurd hd₁ hno₁
  cases b₁ with
  | true => exact Or.inl ⟨d₁, hdetect₁⟩
  | false =>
    right
    -- the window that the second chunk is compared with
    obtain ⟨-, ⟨hshort, -⟩ | ⟨-, -, hw₁⟩⟩ := detectEvent_cases hdetect₁
    · simp only [numberOfRms] at hlen hshort
      omega
    have hwindow : s₂.1.previousRms =
        s.1.previousRms.tail ++ [Algorithms.rootMeanSquareOfAmpere a₁.dataPoints] := by
      have hsame := hbetween.inv (I := fun s => s.1.previousRms = s₁.1.previousRms) rfl
        fun x hx h hI => by
          obtain ⟨-, ⟨-, heq⟩ | ⟨hd, -⟩⟩ := calls_cases h
          · exact heq.trans hI
          · exact absurd hd (hno x hx)
      rw [hsame, heq₁, hw₁]
      exact comparedWindow_eq hlen _
    have hthreshold : s₂.1.threshold = threshold := by
      have hsame := hbetween.inv (I := fun s => s.1.threshold = threshold)
        ((calls_cases h₁).1.trans (threshold_of_run hrun))
        fun x _ h hI => (calls_cases h).1.trans hI
      exact hsame
    have hlen₂ : s₂.1.previousRms.length = numberOfRms + 1 := by
      rw [hwindow, List.length_append, List.length_tail, List.length_singleton, hlen]
      rfl
    obtain ⟨-, ⟨hno₂, -⟩ | ⟨-, d₂, b₂, hdetect₂, -⟩⟩ := calls_cases h₂
    · exact absurd hd₂ hno₂
    -- three of its five values are from before the step
    have hmedian : upperMedian 0 (comparedWindow s₂.1 a₂.dataPoints) ≤ a := by
      refine upperMedian_le ?_
      have htail : s.1.previousRms.tail ≠ [] := by
        rw [← List.length_pos_iff, List.length_tail, hlen]
        simp [numberOfRms]
      have hold : s.1.previousRms.tail.tail.countP (· ≤ a) = numberOfRms - 1 := by
        rw [List.countP_eq_length.2, List.length_tail, List.length_tail, hlen]
        · rfl
        · intro r hr
          exact decide_eq_true (ha r (List.mem_of_mem_tail (List.mem_of_mem_tail hr)))
      rw [length_comparedWindow hlen₂, comparedWindow_eq hlen₂, hwindow,
        List.tail_append_of_ne_nil htail, List.countP_append, List.countP_append, hold]
      simp only [numberOfRms]
      omega
    obtain ⟨-, ⟨hshort, -⟩ | ⟨-, hb₂, -⟩⟩ := detectEvent_cases hdetect₂
    · simp only [numberOfRms] at hlen₂ hshort
      omega
    have hexceeds : exceeds s₂.1.threshold (comparedWindow s₂.1 a₂.dataPoints)
        (Algorithms.rootMeanSquareOfAmpere a₂.dataPoints) = true := by
      refine decide_eq_true ?_
      rw [getMedianPrevRms_eq, hthreshold]
      exact hmedian.trans_lt (lt_sub_iff_add_lt.2 hstep)
    rw [hexceeds] at hb₂
    exact ⟨d₂, hb₂ ▸ hdetect₂⟩

/-- A step by two in the third chunk. -/
theorem step_detected_flat :
    ∃ s s₁ : EventDetector ℚ × List (Event (DefaultDataPoint ℚ)),
      s.1.previousRms = [1, 1, 1, 1, 1] ∧ Calls CppInt.wrapping record s (flatCall 1) s₁ ∧
        (DetectsEvent s.1 (flatCall 1) ∨ DetectsEvent s₁.1 (flatCall 3)) := by
  obtain ⟨s, h, hd, hcompare, hrms, hexceeds⟩ : ∃ s, Calls CppInt.wrapping
      (record (α := DefaultDataPoint ℚ)) (new (1 : ℚ) 3, []) (flatCall 1) s ∧
      s.1.detectedAnEvent = false ∧ s.1.compareAfter = 3 ∧ s.1.previousRms = [1, 1, 1, 1, 1] ∧
      exceeds s.1.threshold (comparedWindow s.1 (flatCall 1).dataPoints)
        (Algorithms.rootMeanSquareOfAmpere (flatCall 1).dataPoints) = false :=
    ⟨_, Or.inl ⟨_, rfl⟩, rfl, rfl, by decide +kernel, by decide +kernel⟩
  obtain ⟨s₁, b, h₁, hd₁, hcompare₁, d, hdetect⟩ := exists_calls (s := s) CppInt.wrapping record
    (a := flatCall 1) counts_smallMetaData hd (by rw [minDataPointsNeeded, hcompare]; rfl)
  have hb : b = false := by
    obtain ⟨-, ⟨-, hb, -⟩ | ⟨-, hb, -⟩⟩ := detectEvent_cases hdetect
    · exact hb
    · exact hb.trans hexceeds
  obtain ⟨s₂, b', h₂, -⟩ := exists_calls (s := s₁) CppInt.wrapping record (a := flatCall 3)
    counts_smallMetaData (hd₁.trans hb) (by rw [minDataPointsNeeded, hcompare₁, hcompare]; rfl)
  refine ⟨s, s₁, hrms, h₁, step_detected (Run.nil.snoc h) ?_ (a := 1) ?_ h₁ ⟨?_, ?_⟩ .nil ?_ h₂
    ⟨?_, ?_⟩ ?_⟩
  · rw [hrms]
    rintro ⟨⟩
  · rw [hrms]
    simp
  · rintro ⟨⟩
  · rw [hd]
    rintro ⟨⟨⟩, -⟩
  · rintro x ⟨⟩
  · rintro ⟨⟩
  · rw [hd₁, hb]
    rintro ⟨⟨⟩, -⟩
  · decide +kernel

end

end EventDetector

end SmartScreen
