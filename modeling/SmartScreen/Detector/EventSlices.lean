/-
  Which slices the detector sees and which it raises, when it is the only worker
  of a distributor.

  The calls after the first one form a `History`: detection chunks follow each
  other without a gap; a chunk in which an event is detected is followed by the
  call that raises it, and detection goes on at the end of the event
  (`event_slices_exact`).
-/
import SmartScreen.Detector.EventDetector
import SmartScreen.Stream.DistributorSpec

namespace SmartScreen

open Loop Window DataStreamDistributor

variable {α F : Type}

namespace EventDetector

/-- The number of calls, the detector, the events raised. -/
abbrev Recording (α F : Type) := ℕ × EventDetector F × List (Event α)

section
variable [FloatArith F] [DataPoint α F] (C : CppInt) (mds : ℕ → DynamicStreamMetaData)
  (m : PowerMetaData) (l : List α)

/-- The detector with the record of its events, finding the meta data `mds n` at
    its `n`-th call. -/
def recordingDetector : DataStreamWorker α (Recording α F) :=
  withMetaData (fun md => workOnDataPoints C md record) mds

/-- The call does not throw and raises the events `es`. -/
def Raises (c : Call α (Recording α F)) (es : List (Event α)) : Prop :=
  ∃ s i, recordingDetector C mds c.state c.dataPoints c.dataPointId = .ok s i ∧
    s.2.2 = c.state.2.2 ++ es

/-- A call with the detection chunk at `P`; `b` is whether an event is detected. -/
structure DetectionCall (compareAfter : ℤ) (P : ℕ) (c : Call α (Recording α F)) (b : Bool) :
    Prop where
  dataPointId : c.dataPointId = P
  dataPoints : c.dataPoints = slice l P (P + c.dataPoints.length)
  length : (c.dataPoints.length : ℤ) =
    max (4 * m.dataPointsPerPeriod : ℤ) compareAfter + m.dataPointsPerPeriod
  detects : ∃ d, detectEvent m c.state.2.1 c.dataPoints = .ok (d, b)
  raises : Raises C mds c []

/-- The call after the detection of an event in the chunk at `P`. -/
structure EventCall (P : ℕ) (c : Call α (Recording α F)) : Prop where
  before_le : m.before ≤ P
  le_length : P + m.dataPointsPerPeriod + m.ofEvent ≤ l.length
  raises : ∃ e, Raises C mds c [e] ∧
    e.eventData = slice l (P + m.dataPointsPerPeriod - m.before.toNat)
      (P + m.dataPointsPerPeriod + m.ofEvent.toNat) ∧
    c.dataPointId + e.eventBegin = P + m.dataPointsPerPeriod

/-- What the detector waits for: the detection chunk at `P`, or the data of the
    event detected in the chunk at `P`. -/
inductive Phase where
  | detecting (P : ℕ)
  | eventPending (P : ℕ)

/-- The calls after the first one, with the positions of the chunks whose events
    have been raised. -/
inductive History (compareAfter : ℤ) :
    List (Call α (Recording α F)) → List ℕ → Phase → Prop
  | start : History compareAfter [] [] (.detecting m.before.toNat)
  | quiet {cs : List (Call α (Recording α F))} {Ps : List ℕ} {P : ℕ}
      {c : Call α (Recording α F)} : History compareAfter cs Ps (.detecting P) →
      DetectionCall C mds m l compareAfter P c false →
      History compareAfter (cs ++ [c]) Ps (.detecting (P + c.dataPoints.length))
  | detected {cs : List (Call α (Recording α F))} {Ps : List ℕ} {P : ℕ}
      {c : Call α (Recording α F)} : History compareAfter cs Ps (.detecting P) →
      DetectionCall C mds m l compareAfter P c true →
      History compareAfter (cs ++ [c]) Ps (.eventPending P)
  | raised {cs : List (Call α (Recording α F))} {Ps : List ℕ} {P : ℕ}
      {c : Call α (Recording α F)} : History compareAfter cs Ps (.eventPending P) →
      EventCall C mds m l P c →
      History compareAfter (cs ++ [c]) (Ps ++ [P])
        (.detecting (P + m.dataPointsPerPeriod + m.ofEvent.toNat))

end

section
variable [FloatArith F] [DataPoint α F] {C : CppInt} {mds : ℕ → DynamicStreamMetaData}
  {m : PowerMetaData} {l : List α} {compareAfter : ℤ}

def Phase.position : Phase → ℕ
  | .detecting P => P
  | .eventPending P => P

/-- Detection goes on behind every event part. -/
theorem History.le_position {cs : List (Call α (Recording α F))} {Ps : List ℕ} {phase : Phase}
    (h : History C mds m l compareAfter cs Ps phase) :
    ∀ P ∈ Ps, P + m.dataPointsPerPeriod + m.ofEvent.toNat ≤ phase.position := by
  induction h with
  | start => simp
  | quiet _ _ ih => intro P hP; exact (ih P hP).trans (Nat.le_add_right _ _)
  | detected _ _ ih => exact ih
  | raised _ _ ih =>
    intro P hP
    rcases List.mem_append.1 hP with hP | hP
    · have := ih P hP
      simp only [Phase.position] at this ⊢; omega
    · rw [List.mem_singleton] at hP
      subst hP; exact le_rfl

/-- The event parts are disjoint and increasing. -/
theorem History.pairwise {cs : List (Call α (Recording α F))} {Ps : List ℕ} {phase : Phase}
    (h : History C mds m l compareAfter cs Ps phase) :
    Ps.Pairwise fun P P' => P + m.dataPointsPerPeriod + m.ofEvent.toNat ≤ P' := by
  induction h with
  | start => exact .nil
  | quiet _ _ ih => exact ih
  | detected _ _ ih => exact ih
  | raised h _ ih =>
    rw [List.pairwise_append]
    refine ⟨ih, List.pairwise_singleton _ _, fun P hP P' hP' => ?_⟩
    rw [List.mem_singleton] at hP'
    subst hP'; exact h.le_position P hP

/-! ## The phases of the detector -/

/-- The slot of the detector in a phase; `k` bounds the calls that are left. -/
def InPhase (m : PowerMetaData) (l : List α) (compareAfter : ℤ) (k : ℕ)
    (x : Slot (Traced α (Recording α F))) (phase : Phase) : Prop :=
  let d := x.worker.worker.2.1
  d.compareAfter = compareAfter ∧ phase.position ≤ l.length ∧ m.before ≤ phase.position ∧
    match phase with
    | .detecting P => d.detectedAnEvent = false ∧ k = 2 * (l.length - P) + 1 ∧
        x.readInfos = ⟨m.before.toNat, d.minDataPointsNeeded m, P⟩
    | .eventPending P => d.detectedAnEvent = true ∧ k = 2 * (l.length - P) ∧
        P + d.minDataPointsNeeded m ≤ l.length ∧
        d.requestedDataPointId = P - m.before + m.dataPointsPerPeriod ∧
        x.readInfos = ⟨0, (m.before + m.ofEvent).toNat, P - m.before + m.dataPointsPerPeriod⟩

/-- The slot of the detector after any number of calls. -/
def Detecting (C : CppInt) (mds : ℕ → DynamicStreamMetaData) (m : PowerMetaData) (l : List α)
    (compareAfter : ℤ) (k : ℕ) (x : Slot (Traced α (Recording α F))) : Prop :=
  ∃ c₀ cs Ps phase, x.worker.calls = c₀ :: cs ∧ c₀.dataPoints = [] ∧ Raises C mds c₀ [] ∧
    History C mds m l compareAfter cs Ps phase ∧ InPhase m l compareAfter k x phase

/-! ## Serving the detector -/

variable {n : ℕ} {d d' : EventDetector F} {log log' : List (Event α)}
  {i i' : NextReadInfos}

/-- A call of the detector, seen by the distributor and by the record. -/
theorem serve_recordingDetector (calls : List (Call α (Recording α F)))
    (h : workOnDataPoints C (mds n) record (d, log) (i.slice l) i.nextReadLocation =
      .ok (d', log') i') :
    serve (traced (recordingDetector C mds)) l ⟨⟨(n, d, log), calls⟩, i⟩ =
      .ok ⟨⟨(n + 1, d', log'), calls ++ [⟨(n, d, log), i.nextReadLocation, i.slice l⟩]⟩, i'⟩
        () := by
  simp only [serve, callWorker, traced, recordingDetector, withMetaData, h, Res.lift_ok]

theorem raises_of_workOnDataPoints {dataPoints : List α} {id : ℤ} {es : List (Event α)}
    (h : workOnDataPoints C (mds n) record (d, log) dataPoints id = .ok (d', log ++ es) i') :
    Raises C mds ⟨(n, d, log), id, dataPoints⟩ es :=
  ⟨(n + 1, d', log ++ es), i', by simp only [recordingDetector, withMetaData, h, Res.lift_ok], rfl⟩

section
variable {c₀ : Call α (Recording α F)} {cs : List (Call α (Recording α F))} {Ps : List ℕ} {P k : ℕ}

/-- A chunk in which nothing is detected, or a detection. -/
theorem goesOn_detecting (hmds : ∀ n, (mds n).powerMetaData = m) (hm : Counts m)
    (hsum : 0 < m.eventLength.toInt) (hc₀ : c₀.dataPoints = []) (hr₀ : Raises C mds c₀ [])
    (hh : History C mds m l compareAfter cs Ps (.detecting P))
    (hx : InPhase m l compareAfter k ⟨⟨(n, d, log), c₀ :: cs⟩, i⟩ (.detecting P))
    (hend : i.readEnd ≤ l.length) :
    GoesOn (traced (recordingDetector C mds)) l 0 (Detecting C mds m l compareAfter) k
      ⟨⟨(n, d, log), c₀ :: cs⟩, i⟩ := by
  simp only [InPhase] at hx
  obtain ⟨rfl, hP, hB, hd, rfl, rfl⟩ := hx
  have hb := hm.before
  have ho := hm.ofEvent
  have hM := cast_minDataPointsNeeded m d
  have hp := hm.period
  obtain ⟨-, hsize⟩ := hm.eventLength_eq hsum
  simp only [NextReadInfos.readEnd, Phase.position] at hend hB hP
  have hPM : P + d.minDataPointsNeeded m ≤ l.length := by omega
  have hlen : (slice l P (P + d.minDataPointsNeeded m)).length = d.minDataPointsNeeded m := by
    rw [length_slice_of_le hPM]; omega
  obtain ⟨d', b, hdet, hwork, hca, hd', hreq⟩ :=
    workOnDataPoints_chunk (C := C) record log (hmds n) hm hd hlen P
  rw [hsize] at hwork
  have hserve := serve_recordingDetector (c₀ :: cs)
    (i := ⟨m.before.toNat, d.minDataPointsNeeded m, P⟩) hwork
  have hraises : Raises C mds ⟨(n, d, log), P, slice l P (P + d.minDataPointsNeeded m)⟩ [] :=
    raises_of_workOnDataPoints (by rw [List.append_nil]; exact hwork)
  have hcall : DetectionCall C mds m l d.compareAfter P
      ⟨(n, d, log), P, slice l P (P + d.minDataPointsNeeded m)⟩ b :=
    ⟨rfl, by simp only [hlen], by simp only [hlen]; exact hM, hdet, hraises⟩
  cases b with
  | false =>
    have hh' := hh.quiet hcall
    simp only [hlen] at hh'
    refine ⟨_, _, hserve, ⟨c₀, _, Ps, _, rfl, hc₀, hr₀, hh', hca, ?_, ?_, hd', rfl, ?_⟩,
      ?_, ?_, ?_⟩
    · simp only [Phase.position]; omega
    · simp only [Phase.position]; omega
    · simp only [minDataPointsNeeded, hca]; rfl
    · omega
    · simp only [Bool.false_eq_true, if_false, Slot.low, NextReadInfos.firstNeeded]; omega
    · simp only [Bool.false_eq_true, if_false, NextReadInfos.readEnd]; omega
  | true =>
    refine ⟨_, _, hserve, ⟨c₀, _, Ps, _, rfl, hc₀, hr₀, hh.detected hcall, hca, hP, hB, hd', rfl,
      ?_, hreq rfl, rfl⟩, ?_, ?_, ?_⟩
    · simp only [minDataPointsNeeded, hca]; exact hPM
    · omega
    · simp only [if_true, Slot.low, NextReadInfos.firstNeeded]; omega
    · simp only [if_true, NextReadInfos.readEnd]; omega

/-- The data of an event. -/
theorem goesOn_eventPending (hmds : ∀ n, (mds n).powerMetaData = m) (hm : Counts m)
    (hsum : 0 < m.eventLength.toInt) (hc₀ : c₀.dataPoints = []) (hr₀ : Raises C mds c₀ [])
    (hh : History C mds m l compareAfter cs Ps (.eventPending P))
    (hx : InPhase m l compareAfter k ⟨⟨(n, d, log), c₀ :: cs⟩, i⟩ (.eventPending P))
    (hend : i.readEnd ≤ l.length) :
    GoesOn (traced (recordingDetector C mds)) l 0 (Detecting C mds m l compareAfter) k
      ⟨⟨(n, d, log), c₀ :: cs⟩, i⟩ := by
  simp only [InPhase] at hx
  obtain ⟨rfl, hP, hB, hd, rfl, hPM, hid, rfl⟩ := hx
  have hb := hm.before
  have ho := hm.ofEvent
  have hM := cast_minDataPointsNeeded m d
  have hp := hm.period
  obtain ⟨hlength, -⟩ := hm.eventLength_eq hsum
  simp only [NextReadInfos.readEnd, Phase.position] at hend hB hP
  have hPO : P + m.dataPointsPerPeriod + m.ofEvent.toNat ≤ l.length := by omega
  have hslice : (⟨0, (m.before + m.ofEvent).toNat, P - m.before + m.dataPointsPerPeriod⟩ :
      NextReadInfos).slice l = slice l (P + m.dataPointsPerPeriod - m.before.toNat)
        (P + m.dataPointsPerPeriod + m.ofEvent.toNat) := by
    simp only [NextReadInfos.slice]; congr 1 <;> omega
  have hlen := length_slice_of_le (a := P + m.dataPointsPerPeriod - m.before.toNat) hPO
  rw [← hslice] at hlen
  obtain ⟨d', _, e, hwork, ⟨⟩, hdata, hbegin, hca, hd'⟩ :=
    workOnDataPoints_eventData (C := C) (hmds n) hm (record_ok log) hd
      (List.ne_nil_of_length_pos (by omega)) (by omega : m.eventLength.toInt ≤
        ((⟨0, (m.before + m.ofEvent).toNat, P - m.before + m.dataPointsPerPeriod⟩ :
          NextReadInfos).slice l).length)
  rw [hid] at hwork
  have hserve := serve_recordingDetector (c₀ :: cs) hwork
  have hcall : EventCall C mds m l P ⟨(n, d, log), P - m.before + m.dataPointsPerPeriod, _⟩ :=
    ⟨hB, by omega, e, raises_of_workOnDataPoints hwork, hdata.trans hslice,
      by simp only [hbegin]; omega⟩
  refine ⟨_, _, hserve, ⟨c₀, _, _, _, rfl, hc₀, hr₀, hh.raised hcall, hca, ?_, ?_, hd', rfl, ?_⟩,
    ?_, ?_, ?_⟩
  · simp only [Phase.position]; omega
  · simp only [Phase.position]; omega
  · simp only [minDataPointsNeeded, hca]; congr 1; omega
  · omega
  · simp only [Slot.low, NextReadInfos.firstNeeded]; omega
  · simp only [NextReadInfos.readEnd]; omega

end

/-- The detector is orderly. -/
theorem orderly_detecting (hmds : ∀ n, (mds n).powerMetaData = m) (hm : Counts m)
    (hsum : 0 < m.eventLength.toInt) :
    Orderly (traced (recordingDetector C mds)) l 0 (Detecting C mds m l compareAfter) where
  nonneg := by
    rintro k x ⟨_, _, _, phase, -, -, -, -, -, -, hB, hx⟩
    have hb := hm.before
    cases phase with
    | detecting P => rw [hx.2.2]; exact Int.natCast_nonneg P
    | eventPending P => rw [hx.2.2.2.2]; simp only [Phase.position] at hB ⊢; omega
  le := by
    rintro k x ⟨_, _, _, phase, -, -, -, -, -, hP, hB, hx⟩
    have hb := hm.before
    have hM := cast_minDataPointsNeeded m x.worker.worker.2.1
    cases phase with
    | detecting P => rw [hx.2.2]; exact Int.ofNat_le.2 hP
    | eventPending P => rw [hx.2.2.2.2]; have := hx.2.2.1; simp only; omega
  reach_le := Nat.zero_le _
  serves := by
    rintro k ⟨⟨⟨n, d, log⟩, calls⟩, i⟩ ⟨c₀, cs, Ps, phase, hcalls, hc₀, hr₀, hh, hx⟩ hend
    simp only at hcalls
    subst hcalls
    cases phase with
    | detecting P => exact goesOn_detecting hmds hm hsum hc₀ hr₀ hh hx hend
    | eventPending P => exact goesOn_eventPending hmds hm hsum hc₀ hr₀ hh hx hend

end

/-! ## Event slices -/

/-- **Event slices are exact.**  The detector is added to a distributor and is
    its only worker; the counts of its meta data do not change.  After any number
    of passes its calls form a `History`, event parts are disjoint and
    increasing, and the next pass does not throw. -/
theorem event_slices_exact [FloatArith F] [DataPoint α F] (C : CppInt)
    (mds : ℕ → DynamicStreamMetaData) {m : PowerMetaData} (hmds : ∀ n, (mds n).powerMetaData = m)
    (hm : Counts m) (hsum : 0 < m.eventLength.toInt) (threshold : F) (compareAfter : ℤ)
    (l : List α) (hl : m.before ≤ l.length) :
    ∃ d₀, addWorker (traced (recordingDetector C mds)) {}
        ⟨(0, { threshold := threshold, compareAfter := compareAfter }, []), []⟩ = .ok d₀ () ∧
      ∀ dq, Passes C (traced (recordingDetector C mds)) (d₀, l) dq →
        (∃ x c₀ cs Ps phase, dq.1.slots = [x] ∧ x.worker.calls = c₀ :: cs ∧
          c₀.dataPoints = [] ∧ Raises C mds c₀ [] ∧
          History C mds m l compareAfter cs Ps phase ∧
          Ps.Pairwise fun P P' => P + m.dataPointsPerPeriod < P' + m.dataPointsPerPeriod ∧
            P + m.dataPointsPerPeriod + m.ofEvent.toNat ≤ P' + m.dataPointsPerPeriod) ∧
        ∃ dq' b, Returns (fun n =>
          loopWorkersOnce C (traced (recordingDetector C mds)) popRemaining n dq) dq' b := by
  have hb := hm.before
  have hp := hm.period
  have hI : Orderly (traced (recordingDetector C mds)) l 0 (Detecting C mds m l compareAfter) :=
    orderly_detecting hmds hm hsum
  -- the slot after the first call
  let det : EventDetector F := { threshold := threshold, compareAfter := compareAfter }
  let c₀ : Call α (Recording α F) := ⟨(0, det, []), 0, []⟩
  let x₀ : Slot (Traced α (Recording α F)) := ⟨⟨(1, (det.getFirstDetectionPeriod m 0).1, []), [c₀]⟩,
    (det.getFirstDetectionPeriod m 0).2⟩
  have hwork : workOnDataPoints C (mds 0) record (det, ([] : List (Event α))) [] 0 =
      .ok ((det.getFirstDetectionPeriod m 0).1, []) (det.getFirstDetectionPeriod m 0).2 := by
    rw [workOnDataPoints_nil, hmds 0]
  have hx₀ : Detecting C mds m l compareAfter (2 * (l.length - m.before.toNat) + 1) x₀ := by
    refine ⟨c₀, [], [], _, rfl, rfl, raises_of_workOnDataPoints hwork, .start, rfl, ?_, ?_, rfl,
      rfl, ?_⟩
    · simp only [Phase.position]; omega
    · simp only [Phase.position]; omega
    · simp only [x₀, getFirstDetectionPeriod, request, hm.sizeOfInt_before, minDataPointsNeeded]
      congr 1; omega
  have hadd : addWorker (traced (recordingDetector C mds)) {} ⟨(0, det, []), []⟩ =
      .ok ⟨[x₀], 0, []⟩ () := by
    simp only [addWorker, traced, recordingDetector, withMetaData, hwork, Res.lift_ok]
    rfl
  have hh := (holds_start 0 (Detecting C mds m l compareAfter) l).append hx₀ (Nat.zero_le _)
    ((hI.nonneg hx₀).trans (NextReadInfos.nextReadLocation_le _))
  refine ⟨⟨[x₀], 0, []⟩, hadd, fun dq hpasses => ?_⟩
  obtain ⟨w, k, hdq, hlen⟩ := hpasses.holds hI hh (by simp)
  obtain ⟨x, hx⟩ := List.length_eq_one_iff.1 hlen
  obtain ⟨ks, hks, -⟩ := hdq.slots
  rw [hx] at hks
  obtain ⟨k', ks', ⟨⟨c, cs, Ps, phase, hcalls, hc, hr, hhist, -⟩, -⟩, -⟩ :=
    List.forall₂_cons_left_iff.1 hks
  refine ⟨⟨x, c, cs, Ps, phase, hx, hcalls, hc, hr, hhist, hhist.pairwise.imp ?_⟩, ?_⟩
  · intro P P' h; omega
  · obtain ⟨w', k'', d', q', b, hr', -⟩ := returns_loopWorkersOnce C hI hdq (by rw [hx]; simp)
    exact ⟨(d', q'), b, hr'⟩

/-- The detector on a current that rises twice: both events are raised. -/
theorem event_slices_exact_small :
    let W := traced (recordingDetector CppInt.wrapping fun _ => ⟨0, none, smallMetaData⟩)
    ∃ d₀ dq x c₀ cs Ps phase,
      addWorker W {} ⟨(0, { threshold := (1 : ℚ), compareAfter := 3 }, []), []⟩ = .ok d₀ () ∧
      Passes CppInt.wrapping W (d₀, risingCurrent) dq ∧ dq.1.slots = [x] ∧
      x.worker.worker.2.2.map Event.eventData =
        [slice risingCurrent 12 14, slice risingCurrent 25 27] ∧
      x.worker.calls = c₀ :: cs ∧ cs.map Call.dataPointId = [1, 11, 12, 14, 24, 25] ∧
      History CppInt.wrapping (fun _ => ⟨0, none, smallMetaData⟩) smallMetaData risingCurrent 3 cs
        Ps phase ∧
      Ps.Pairwise fun P P' => P + 2 < P' + 2 ∧ P + 2 + 1 ≤ P' + 2 := by
  obtain ⟨d₀, h₀, h⟩ := event_slices_exact CppInt.wrapping (fun _ => ⟨0, none, smallMetaData⟩)
    (m := smallMetaData) (fun _ => rfl) counts_smallMetaData (by decide) 1 3 risingCurrent
    (by decide)
  obtain ⟨dq, b, hr, hdq⟩ := Res.exists_of_state? (r := whileTrue (loopWorkersOnce CppInt.wrapping
      (traced (recordingDetector CppInt.wrapping fun _ => ⟨0, none, smallMetaData⟩)) popRemaining) 9
      (d₀, risingCurrent))
    (f := fun dq => dq.1.slots.map fun x => (x.worker.worker.2.2.map Event.eventData,
      x.worker.calls.map Call.dataPointId))
    (c := [([slice risingCurrent 12 14, slice risingCurrent 25 27], [0, 1, 11, 12, 14, 24, 25])])
    (by cases h₀; decide +kernel)
  have hpasses := passes_of_whileTrue ⟨9, hr⟩
  obtain ⟨⟨x, c₀, cs, Ps, phase, hx, hcalls, -, -, hh, hpw⟩, -⟩ := h dq hpasses
  simp only [hx, hcalls, List.map_cons, List.map_nil, List.cons.injEq, Prod.mk.injEq,
    and_true] at hdq
  exact ⟨d₀, dq, x, c₀, cs, Ps, phase, h₀, hpasses, hx, hdq.1, hcalls, hdq.2.2, hh, hpw⟩

end EventDetector

end SmartScreen
