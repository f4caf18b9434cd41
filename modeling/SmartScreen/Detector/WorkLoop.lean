/-
  The loop of `executeWorkerWhileDataInBuffer` with a detector.

  A detection makes the detector read backwards, to the data of the event.  It then
  goes on behind the chunk in which the event was detected, so the position where it
  will be general again (`Ranked`) increases; a request without data, which there is
  when events have no data points, is followed by one with data at the same place.

  * `Answer` (`EventDetector.lean`) is what a call does.
  * `Ranked.answer`: every call that answers lowers the rank.
  * `work_loop_ends`: the loop ends in every state; what a detector asks for is inside
    the buffer then, if it was before, and only a listener can throw.
-/
import SmartScreen.Detector.RmsWindow
import SmartScreen.Stream.Rounds

namespace SmartScreen

open Loop LTS DataStreamDistributor

variable {α F σ S : Type}

namespace EventDetector

/-! ## What the detector asks for -/

section
variable [FloatArith F] [DataPoint α F] {m : PowerMetaData} {d d' : EventDetector F}
  {i i' : NextReadInfos} {dataPoints : List α} {id pos : ℤ} {k : ℕ}

omit [FloatArith F] in
theorem one_le_minDataPointsNeeded (hm : Counts m) (d : EventDetector F) :
    1 ≤ d.minDataPointsNeeded m := by
  have hM := cast_minDataPointsNeeded m d
  have hp := hm.period
  omega

/-- In front of a call: anywhere; or with the request for the data of an event; or with
    such a request that starts before the buffer, and an empty window.  `bufferEnd` is
    the end of the buffer. -/
inductive Ranked (m : PowerMetaData) (pos bufferEnd : ℤ) :
    ℕ → EventDetector F → NextReadInfos → Prop
  | general {d : EventDetector F} {i : NextReadInfos} :
      Ranked m pos bufferEnd (4 * (bufferEnd + 1 - max i.nextReadLocation pos).toNat +
        2 * (1 - i.readNumber) + d.detectedAnEvent.toNat) d i
  | pending {d : EventDetector F} {i : NextReadInfos} : d.detectedAnEvent = true →
      d.requestedDataPointId = i.nextReadLocation → pos ≤ i.nextReadLocation →
      (i.readNumber = 0 → m.before = 0) →
      Ranked m pos bufferEnd
        (4 * (bufferEnd + 1 - (i.nextReadLocation + m.before + m.ofEvent)).toNat + 1 +
          (1 - i.readNumber)) d i
  | beforeBuffer {d : EventDetector F} {i : NextReadInfos} : d.detectedAnEvent = true →
      d.requestedDataPointId = i.nextReadLocation → i.nextReadLocation < pos →
      i.readNumber ≠ 0 → d.previousRms = [] →
      Ranked m pos bufferEnd (4 * (bufferEnd - (pos + m.before + m.ofEvent)).toNat + 2) d i

/-- The number of data points of an event is zero only if both counts are. -/
theorem Counts.before_eq_zero (hm : Counts m) (h : sizeOfInt m.eventLength = 0) :
    m.before = 0 ∧ m.ofEvent = 0 := by
  have hle := hm.le_sizeOfInt_eventLength.1
  have hb := hm.before
  have ho := hm.ofEvent
  omega

/-- **Every call lowers the rank.** -/
theorem Ranked.answer {bufferEnd : ℤ} (hm : Counts m) (h : Ranked m pos bufferEnd k d i)
    (hlen : dataPoints.length = i.readNumber)
    (hend : max i.nextReadLocation pos + i.readNumber ≤ bufferEnd)
    (ha : Answer m d dataPoints (max i.nextReadLocation pos) d' i') :
    ∃ k', k' < k ∧ Ranked m pos bufferEnd k' d' i' := by
  have hp := hm.period
  have hb := hm.before
  have ho := hm.ofEvent
  have hnone : dataPoints = [] ↔ i.readNumber = 0 := by rw [← hlen, List.length_eq_zero_iff]
  cases h with
  | general =>
    have hdetected := Bool.toNat_le d.detectedAnEvent
    cases ha with
    | first hnil =>
      have hM := one_le_minDataPointsNeeded hm d
      have hread := hnone.1 hnil
      refine ⟨_, ?_, .general⟩
      simp only [getFirstDetectionPeriod, request, setRequested_detectedAnEvent]
      omega
    | raised hne hd _ _ =>
      have hread := mt hnone.2 hne
      have hM := one_le_minDataPointsNeeded hm { d with detectedAnEvent := false }
      refine ⟨_, ?_, .general⟩
      simp only [getDataAfterEvent, request, setRequested_detectedAnEvent, hd, Bool.toNat_true,
        Bool.toNat_false]
      omega
    | @detected d₁ hne _ hdetect =>
      -- the request for the data of the event is in the buffer, or starts before it
      have hread := mt hnone.2 hne
      have hzero := hm.before_eq_zero
      by_cases hpos : pos ≤ max i.nextReadLocation pos - m.before + m.dataPointsPerPeriod
      · refine ⟨_, ?_, .pending rfl rfl hpos fun h => (hzero h).1⟩
        simp only [getEventData, request]
        omega
      · have hempty : d₁.previousRms = [] := by
          obtain ⟨-, ⟨-, hb, -⟩ | ⟨-, -, hw⟩⟩ := detectEvent_cases hdetect
          · cases hb
          · exact hw
        refine ⟨_, ?_, .beforeBuffer rfl rfl (not_le.1 hpos) (fun h => ?_) hempty⟩
        · omega
        · have hbefore := (hzero h).1
          omega
    | @quiet d₁ hne _ hdetect =>
      have hread := mt hnone.2 hne
      have hM := one_le_minDataPointsNeeded hm d₁
      have hdetected₁ := Bool.toNat_le d₁.detectedAnEvent
      refine ⟨_, ?_, .general⟩
      simp only [getNextDetectionPeriod, request, setRequested_detectedAnEvent]
      omega
  | pending hd hid hpos hbefore =>
    cases ha with
    | first hnil =>
      have hM := one_le_minDataPointsNeeded hm d
      have hread := hnone.1 hnil
      have hzero := hbefore hread
      refine ⟨_, ?_, .pending hd rfl ?_ fun _ => hzero⟩
      · simp only [getFirstDetectionPeriod, request]
        omega
      · simp only [getFirstDetectionPeriod, request]
        omega
    | raised hne _ _ _ =>
      have hM := one_le_minDataPointsNeeded hm { d with detectedAnEvent := false }
      refine ⟨_, ?_, .general⟩
      simp only [getDataAfterEvent, request, setRequested_detectedAnEvent, Bool.toNat_false]
      omega
    | detected _ hno _ => exact absurd ⟨hd, hid.trans (max_eq_left hpos).symm⟩ hno
    | quiet _ hno _ => exact absurd ⟨hd, hid.trans (max_eq_left hpos).symm⟩ hno
  | beforeBuffer hd hid hpos hread hempty =>
    cases ha with
    | first hnil => exact absurd (hnone.1 hnil) hread
    | raised _ _ hid' _ =>
      rw [hid, max_eq_right hpos.le] at hid'
      exact absurd hid' hpos.ne
    | detected _ _ hdetect =>
      -- the window is empty, so nothing is detected
      obtain ⟨-, ⟨-, hb, -⟩ | ⟨hlong, -, -⟩⟩ := detectEvent_cases hdetect
      · cases hb
      · rw [hempty] at hlong
        simp [numberOfRms] at hlong
    | @quiet d₁ _ _ hdetect =>
      have hM := one_le_minDataPointsNeeded hm d₁
      have hd₁ : d₁.detectedAnEvent = true := (detectEvent_frame hdetect).2.2.trans hd
      refine ⟨_, ?_, .pending hd₁ rfl ?_ fun h => ?_⟩
      · simp only [getNextDetectionPeriod, request]
        omega
      · simp only [getNextDetectionPeriod, request]
        omega
      · simp only [getNextDetectionPeriod, request] at h
        omega

/-! ## Requests of a detector that is handed what it asks for -/

/-- A detection chunk, with the data before it kept; the data of an event; or, when
    events have no data points, a chunk to raise the event with. -/
inductive Requests (m : PowerMetaData) : EventDetector F → NextReadInfos → Prop
  | chunk {d : EventDetector F} {i : NextReadInfos} : d.detectedAnEvent = false →
      (i.keepNumber : ℤ) = m.before → i.readNumber = d.minDataPointsNeeded m → Requests m d i
  | eventData {d : EventDetector F} {i : NextReadInfos} : d.detectedAnEvent = true →
      d.requestedDataPointId = i.nextReadLocation → i.keepNumber = 0 →
      i.readNumber = sizeOfInt m.eventLength → Requests m d i
  | emptyEvent {d : EventDetector F} {i : NextReadInfos} : d.detectedAnEvent = true →
      d.requestedDataPointId = i.nextReadLocation → m.before = 0 → m.ofEvent = 0 →
      i.keepNumber = 0 → i.readNumber = d.minDataPointsNeeded m → Requests m d i

/-- The next request is of the same kinds; it starts behind what had to be kept, and
    not behind what was handed over. -/
theorem Requests.answer (hm : Counts m) (h : Requests m d i)
    (hlen : dataPoints.length = i.readNumber)
    (ha : Answer m d dataPoints i.nextReadLocation d' i') :
    Requests m d' i' ∧ i.firstNeeded ≤ i'.firstNeeded ∧ i'.nextReadLocation ≤ i.readEnd := by
  have hp := hm.period
  have hb := hm.before
  have ho := hm.ofEvent
  have hkeep := hm.sizeOfInt_before
  unfold NextReadInfos.firstNeeded NextReadInfos.readEnd
  cases h with
  | chunk hd hbefore hread =>
    have hM := one_le_minDataPointsNeeded hm d
    have hcast := cast_minDataPointsNeeded m d
    have hne : dataPoints ≠ [] := List.ne_nil_of_length_pos (by omega)
    cases ha with
    | first hnil => exact absurd hnil hne
    | raised _ hd' _ _ => rw [hd] at hd'; cases hd'
    | @detected d₁ _ _ hdetect =>
      refine ⟨.eventData rfl rfl rfl rfl, ?_, ?_⟩ <;> simp only [getEventData, request] <;> omega
    | @quiet d₁ _ _ hdetect =>
      obtain ⟨-, hcompare, hdetected⟩ := detectEvent_frame hdetect
      have hM₁ : d₁.minDataPointsNeeded m = d.minDataPointsNeeded m := by
        unfold minDataPointsNeeded
        rw [hcompare]
      refine ⟨.chunk (hdetected.trans hd) ?_ rfl, ?_, ?_⟩ <;>
        simp only [getNextDetectionPeriod, request, hM₁] <;> omega
  | eventData hd hid hkeep₀ hread =>
    have hsum := hm.le_sizeOfInt_eventLength.1
    cases ha with
    | first hnil =>
      obtain ⟨hb₀, ho₀⟩ := hm.before_eq_zero (by rw [← hread, ← hlen, hnil, List.length_nil])
      refine ⟨.emptyEvent hd rfl hb₀ ho₀ ?_ rfl, ?_, ?_⟩ <;>
        simp only [getFirstDetectionPeriod, request] <;> omega
    | raised _ _ _ _ =>
      refine ⟨.chunk rfl ?_ rfl, ?_, ?_⟩ <;> simp only [getDataAfterEvent, request] <;> omega
    | detected _ hno _ => exact absurd ⟨hd, hid⟩ hno
    | quiet _ hno _ => exact absurd ⟨hd, hid⟩ hno
  | emptyEvent hd hid hb₀ ho₀ hkeep₀ hread =>
    have hM := one_le_minDataPointsNeeded hm d
    have hne : dataPoints ≠ [] := List.ne_nil_of_length_pos (by omega)
    cases ha with
    | first hnil => exact absurd hnil hne
    | raised _ _ _ _ =>
      refine ⟨.chunk rfl ?_ rfl, ?_, ?_⟩ <;> simp only [getDataAfterEvent, request] <;> omega
    | detected _ hno _ => exact absurd ⟨hd, hid⟩ hno
    | quiet _ hno _ => exact absurd ⟨hd, hid⟩ hno

/-- **A detector that is handed what it asks for** answers, unless its listener does
    not. -/
theorem Requests.works (C : CppInt) {md : DynamicStreamMetaData}
    {slot : σ → Event α → Res Fault σ Unit} (hslot : ∀ o event, slot o event ≠ .timeout) (o : σ)
    (hm : Counts md.powerMetaData) (h : Requests md.powerMetaData d i)
    (hlen : dataPoints.length = i.readNumber) :
    (∃ d' o' i', workOnDataPoints C md slot (d, o) dataPoints i.nextReadLocation =
        .ok (d', o') i' ∧ Answer md.powerMetaData d dataPoints i.nextReadLocation d' i') ∨
      ∃ e s event o', slot o event = .fault e o' ∧
        workOnDataPoints C md slot (d, o) dataPoints i.nextReadLocation = .fault e s := by
  have hp := hm.period
  rcases workOnDataPoints_cases C md slot d o dataPoints i.nextReadLocation with
    h | ⟨e, d', o', hfault, -, -, hreason⟩ | ⟨-, event, htimeout⟩
  · exact Or.inl h
  · rcases hreason with ⟨hd, -, ⟨event, o', hevent⟩ | hcreate⟩ | ⟨hno, hdetect⟩
    · exact Or.inr ⟨e, _, event, o', hevent, hfault⟩
    · -- the data suffices for the event
      have hle : md.powerMetaData.eventLength.toInt ≤ dataPoints.length := by
        rw [hlen]
        cases h with
        | chunk hd' _ _ => rw [hd'] at hd; cases hd
        | eventData _ _ _ hread =>
          rw [hread]
          exact hm.le_sizeOfInt_eventLength.2
        | emptyEvent _ _ hb₀ ho₀ _ _ =>
          rcases toInt_add_of_nonneg hm.before hm.ofEvent with hsum | ⟨-, hneg⟩
          all_goals
            simp only [PowerMetaData.eventLength, PowerMetaData.before,
              PowerMetaData.ofEvent] at *
            omega
      obtain ⟨event, hok, -⟩ := createEvent_ok (C := C) i.nextReadLocation hp hle
      rw [hok] at hcreate
      cases hcreate
    · -- the chunk is as long as asserted
      cases h with
      | chunk _ _ hread =>
        obtain ⟨rms, b, hok⟩ := detectEvent_ok (d := d) hp (hlen.trans hread)
        rw [hok] at hdetect
        cases hdetect
      | eventData hd hid _ _ => exact absurd ⟨hd, hid⟩ hno
      | emptyEvent hd hid _ _ _ _ => exact absurd ⟨hd, hid⟩ hno
  · exact absurd htimeout (hslot o event)

end

/-! ## The loop -/

section
variable [FloatArith F] [DataPoint α F]

/-- The detector as a worker that finds the meta data `mds n` at its `n`-th call. -/
def detector (C : CppInt) (mds : ℕ → DynamicStreamMetaData)
    (slot : σ → Event α → Res Fault σ Unit) : DataStreamWorker α (ℕ × EventDetector F × σ) :=
  withMetaData (fun md => workOnDataPoints C md slot) mds

/-- The slot is handed what it asks for, and the worker answers. -/
def Handed (W : DataStreamWorker α S) (x : Slot S) (dataPoints : List α) (x' : Slot S) : Prop :=
  dataPoints.length = x.readInfos.readNumber ∧
    callWorker W x dataPoints x.readInfos.nextReadLocation = .ok x' ()

/-- A slot of a detector that was added to a distributor, and handed what it asked for
    any number of times. -/
def Reached (C : CppInt) (mds : ℕ → DynamicStreamMetaData) (slot : σ → Event α → Res Fault σ Unit)
    (x : Slot (ℕ × EventDetector F × σ)) : Prop :=
  ∃ (threshold : F) (compareAfter : ℤ) (o : σ) (n : ℕ) (id : ℤ) (s : ℕ × EventDetector F × σ)
    (i : NextReadInfos), detector C mds slot (n, new threshold compareAfter, o) [] id = .ok s i ∧
      Reach (Handed (detector C mds slot)) ⟨s, i⟩ x

variable {C : CppInt} {mds : ℕ → DynamicStreamMetaData} {m : PowerMetaData}
  {slot : σ → Event α → Res Fault σ Unit} {x x' : Slot (ℕ × EventDetector F × σ)}
  {dataPoints : List α} {id : ℤ}

/-- The call of a slot is a call of the detector in it. -/
theorem callWorker_detector (x : Slot (ℕ × EventDetector F × σ)) (dataPoints : List α) (id : ℤ) :
    callWorker (detector C mds slot) x dataPoints id =
      match workOnDataPoints C (mds x.worker.1) slot x.worker.2 dataPoints id with
      | .ok s i => .ok ⟨(x.worker.1 + 1, s), i⟩ ()
      | .fault e s => .fault e ⟨(x.worker.1 + 1, s), x.readInfos⟩
      | .timeout => .timeout := by
  unfold callWorker detector withMetaData
  dsimp only
  cases workOnDataPoints C (mds x.worker.1) slot x.worker.2 dataPoints id <;> rfl

/-- What an answering call of a slot does. -/
theorem answer_of_callWorker (hmds : ∀ n, (mds n).powerMetaData = m)
    (h : callWorker (detector C mds slot) x dataPoints id = .ok x' ()) :
    Answer m x.worker.2.1 dataPoints id x'.worker.2.1 x'.readInfos := by
  obtain ⟨⟨n, d, o⟩, i⟩ := x
  rw [callWorker_detector] at h
  rcases workOnDataPoints_cases C (mds n) slot d o dataPoints id with
    ⟨d', o', i', hok, ha⟩ | ⟨e, d', o', hfault, -⟩ | ⟨htimeout, -⟩
  · rw [hok] at h
    cases h
    rwa [hmds n] at ha
  · rw [hfault] at h
    cases h
  · rw [htimeout] at h
    cases h

/-- A call of a slot comes back if the listener does. -/
theorem callWorker_ne_timeout (hslot : ∀ o event, slot o event ≠ .timeout) :
    callWorker (detector C mds slot) x dataPoints id ≠ .timeout := by
  obtain ⟨⟨n, d, o⟩, i⟩ := x
  rw [callWorker_detector]
  rcases workOnDataPoints_cases C (mds n) slot d o dataPoints id with
    ⟨d', o', i', hok, -⟩ | ⟨e, d', o', hfault, -⟩ | ⟨-, event, htimeout⟩
  · rw [hok]
    rintro ⟨⟩
  · rw [hfault]
    rintro ⟨⟩
  · exact absurd htimeout (hslot o event)

theorem Reached.requests (hmds : ∀ n, (mds n).powerMetaData = m) (hm : Counts m)
    (h : Reached C mds slot x) : Requests m x.worker.2.1 x.readInfos := by
  obtain ⟨threshold, compareAfter, o, n, id, s, i, hadd, hreach⟩ := h
  refine hreach.inv (I := fun x => Requests m x.worker.2.1 x.readInfos) ?_ ?_
  · unfold detector withMetaData at hadd
    dsimp only at hadd
    rw [workOnDataPoints_nil, hmds n] at hadd
    cases hadd
    refine .chunk rfl ?_ rfl
    have hb := hm.before
    simp only [getFirstDetectionPeriod, request, hm.sizeOfInt_before]
    omega
  · rintro x dataPoints x' ⟨hlen, hcall⟩ hx
    exact (hx.answer hm hlen (answer_of_callWorker hmds hcall)).1

/-- **The work loop of a detector ends**, whatever the detector and the buffer are, if
    its listeners do.  If the detector is reached by handing it what it asks for, and
    what it asks for and keeps is inside the buffer, only a listener can throw. -/
theorem work_loop_ends (hmds : ∀ n, (mds n).powerMetaData = m) (hm : Counts m)
    (hslot : ∀ o event, slot o event ≠ .timeout) (pos : ℤ) (dataQueue : List α)
    (x : Slot (ℕ × EventDetector F × σ)) :
    Ends (fun n => executeWorkerWhileDataInBuffer (detector C mds slot) pos dataQueue n x)
        (fun _ => True) ∧
      (Reached C mds slot x → pos ≤ x.readInfos.firstNeeded →
        x.readInfos.nextReadLocation ≤ pos + dataQueue.length →
        Ends (fun n => executeWorkerWhileDataInBuffer (detector C mds slot) pos dataQueue n x)
          fun e => ∃ o event o', slot o event = .fault e o') := by
  have hsteady := steady_executeWorkerRound (detector C mds slot) pos dataQueue
  constructor
  · refine ends_whileTrue hsteady
      (I := fun k x => Ranked m pos (pos + dataQueue.length) k x.worker.2.1 x.readInfos) ?_ .general
    intro k x hx
    rcases executeWorkerRound_cases (detector C mds slot) pos dataQueue x with
      ⟨hstop, -⟩ | ⟨-, hfault⟩ | ⟨dataPoints, hlen, hend, hcall⟩
    · exact Or.inr (Or.inl ⟨x, 0, hstop⟩)
    · exact Or.inl ⟨_, _, ⟨0, hfault⟩, trivial⟩
    · cases hwork : callWorker (detector C mds slot) x dataPoints
          (max x.readInfos.nextReadLocation pos) with
      | ok x' u =>
        rw [hwork] at hcall
        obtain ⟨k', hk, hx'⟩ := hx.answer hm hlen hend (answer_of_callWorker hmds hwork)
        exact Or.inr (Or.inr ⟨k', x', hk, hx', 0, hcall⟩)
      | fault e x' =>
        rw [hwork] at hcall
        exact Or.inl ⟨e, x', ⟨0, hcall⟩, trivial⟩
      | timeout => exact absurd hwork (callWorker_ne_timeout hslot)
  · intro hreached hkeep hinside
    obtain ⟨k, hk⟩ : ∃ k, Ranked m pos (pos + dataQueue.length) k x.worker.2.1 x.readInfos :=
      ⟨_, .general⟩
    refine ends_whileTrue hsteady
      (I := fun k x => Ranked m pos (pos + dataQueue.length) k x.worker.2.1 x.readInfos ∧
        Requests m x.worker.2.1 x.readInfos ∧ pos ≤ x.readInfos.firstNeeded ∧
        x.readInfos.nextReadLocation ≤ pos + dataQueue.length) ?_
      ⟨hk, hreached.requests hmds hm, hkeep, hinside⟩
    rintro k ⟨⟨n, d, o⟩, i⟩ ⟨hx, hrequests, hkeep, hinside⟩
    rcases executeWorkerRound_cases (detector C mds slot) pos dataQueue ⟨(n, d, o), i⟩ with
      ⟨hstop, -⟩ | ⟨hbehind, -⟩ | ⟨dataPoints, hlen, hend, hcall⟩
    · exact Or.inr (Or.inl ⟨_, 0, hstop⟩)
    · exact absurd hinside (not_le.2 hbehind)
    -- the request is inside the buffer
    dsimp only at hx hrequests hkeep hinside hlen hend hcall
    have hmax : max i.nextReadLocation pos = i.nextReadLocation := by
      unfold NextReadInfos.firstNeeded at hkeep
      omega
    rw [hmax, callWorker_detector] at hcall
    rcases Requests.works C hslot o (by rwa [hmds n]) (by rwa [hmds n]) hlen with
      ⟨d', o', i', hok, ha⟩ | ⟨e, s, event, o', hthrow, hfault⟩
    · rw [hmds n] at ha
      obtain ⟨k', hk, hx'⟩ := hx.answer hm hlen hend (by rwa [hmax])
      obtain ⟨hrequests', hfirst, hnext⟩ := hrequests.answer hm hlen ha
      refine Or.inr (Or.inr ⟨k', ⟨(n + 1, d', o'), i'⟩, hk, ⟨hx', hrequests', ?_, ?_⟩, 0, ?_⟩)
      · exact hkeep.trans hfirst
      · rw [hmax] at hend
        exact hnext.trans hend
      · rw [hcall, hok]
        rfl
    · refine Or.inl ⟨e, ⟨(n + 1, s), i⟩, ⟨0, ?_⟩, o, event, o', hthrow⟩
      rw [hcall, hfault]
      rfl

/-- A detector that was just added, on a current that rises twice: it reads back to each
    of the two events, and goes on behind them until the buffer ends. -/
theorem work_loop_ends_small :
    let W := detector CppInt.wrapping (fun _ => { powerMetaData := smallMetaData }) record
    ∃ x x' : Slot (ℕ × EventDetector ℚ × List (Event (DefaultDataPoint ℚ))),
      x.worker.2.2 = [] ∧ x.readInfos.readNumber = 10 ∧
        (∃ n b, executeWorkerWhileDataInBuffer W 0 risingCurrent n x = .ok x' b) ∧
        x'.worker.2.2.map Event.eventData = [.replicate 2 ⟨0, 10⟩, .replicate 2 ⟨0, 20⟩] ∧
        Ends (fun n => executeWorkerWhileDataInBuffer W 0 risingCurrent n x) fun e =>
          ∃ (o : List (Event (DefaultDataPoint ℚ))) (event : _) (o' : _),
            record o event = .fault e o' := by
  intro W
  obtain ⟨s, i, hs⟩ : ∃ s i, W (0, new 1 3, []) [] 0 = .ok s i := ⟨_, _, rfl⟩
  obtain ⟨x', b, hr, hx'⟩ := Res.exists_of_state?
    (r := executeWorkerWhileDataInBuffer W 0 risingCurrent 9 ⟨s, i⟩)
    (f := fun x => x.worker.2.2.map Event.eventData)
    (c := [.replicate 2 ⟨0, 10⟩, .replicate 2 ⟨0, 20⟩]) (by cases hs; decide +kernel)
  refine ⟨⟨s, i⟩, x', ?_, ?_, ⟨9, b, hr⟩, hx', (work_loop_ends (fun _ => rfl)
    counts_smallMetaData (fun o event => ?_) 0 _ _).2 ⟨1, 3, [], 0, 0, s, i, hs, .refl _⟩ ?_ ?_⟩
  · cases hs
    rfl
  · cases hs
    rfl
  · rintro ⟨⟩
  · cases hs
    decide
  · cases hs
    decide

end

end EventDetector

end SmartScreen
