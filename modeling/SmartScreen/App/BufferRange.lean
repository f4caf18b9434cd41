/-
  The requests of the smart app.

  Once the meta data is fixed, the detector's requests run through the phases of
  `DetectorAt` and the metric provider's through whole seconds (`MetricAt`), both
  of which are orderly (`orderly_appAt`).  Only the first requests may start behind the
  end of the stream (`holds_appStart`, `read_appStart`).
-/
import SmartScreen.App.SmartApp

namespace SmartScreen

open Loop Window DataStreamDistributor EventDetector

variable {α F σ : Type}

/-! ## The requests of the detector -/

/-- The requests of the detector on a stream of `L` data points; at most `k` are
    still served.  With both counts zero the data of an event is empty, and the
    detector takes the next chunk for it. -/
inductive DetectorAt (m : PowerMetaData) (L : ℕ) (d : EventDetector F) : ℕ → NextReadInfos → Prop
  | detecting {P : ℕ} : d.detectedAnEvent = false → m.before ≤ P + m.dataPointsPerPeriod → P ≤ L →
      DetectorAt m L d (3 * (L - P) + 1) ⟨m.before.toNat, d.minDataPointsNeeded m, P⟩
  | eventPending {P : ℕ} : d.detectedAnEvent = true →
      d.requestedDataPointId = P - m.before + m.dataPointsPerPeriod →
      m.before ≤ P + m.dataPointsPerPeriod → P + m.dataPointsPerPeriod ≤ L →
      DetectorAt m L d (3 * (L - P))
        ⟨0, sizeOfInt m.eventLength, P - m.before + m.dataPointsPerPeriod⟩
  | emptyEvent {P : ℕ} : d.detectedAnEvent = true → d.requestedDataPointId = P →
      m.before = 0 → m.ofEvent = 0 → P ≤ L →
      DetectorAt m L d (3 * (L - P) + 2) ⟨m.before.toNat, d.minDataPointsNeeded m, P⟩

section
variable {m : PowerMetaData} {l : List α} {d : EventDetector F} {k : ℕ} {i : NextReadInfos}

theorem minDataPointsNeeded_congr {d d' : EventDetector F} (h : d'.compareAfter = d.compareAfter)
    (m : PowerMetaData) : d'.minDataPointsNeeded m = d.minDataPointsNeeded m := by
  simp only [minDataPointsNeeded, h]

theorem DetectorAt.detecting_of {L N : ℕ} {d d' : EventDetector F} {z : ℤ}
    (hca : d'.compareAfter = d.compareAfter) (hd : d'.detectedAnEvent = false) (hz : z = N)
    (hB : m.before ≤ N + m.dataPointsPerPeriod) (hN : N ≤ L) :
    DetectorAt m L d' (3 * (L - N) + 1) ⟨m.before.toNat, d.minDataPointsNeeded m, z⟩ := by
  rw [hz, ← minDataPointsNeeded_congr hca m]
  exact .detecting hd hB hN

theorem DetectorAt.nonneg {L : ℕ} (h : DetectorAt m L d k i) :
    0 ≤ i.nextReadLocation := by
  cases h with
  | detecting => exact Int.natCast_nonneg _
  | eventPending _ _ h => simp only; omega
  | emptyEvent => exact Int.natCast_nonneg _

theorem DetectorAt.le (hm : Counts m) {L : ℕ} (h : DetectorAt m L d k i) :
    i.nextReadLocation ≤ L := by
  have hb := hm.before
  cases h with
  | detecting _ _ h => exact Int.ofNat_le.2 h
  | eventPending _ _ _ h => simp only; omega
  | emptyEvent _ _ _ _ h => exact Int.ofNat_le.2 h

variable [FloatArith F] [DataPoint α F] {C : CppInt} {md : DynamicStreamMetaData}
  {slot : σ → Event α → Res Fault σ Unit}

theorem length_readInfos_slice {i : NextReadInfos} (h₀ : 0 ≤ i.nextReadLocation)
    (hend : i.readEnd ≤ l.length) : (i.slice l).length = i.readNumber := by
  rw [NextReadInfos.readEnd] at hend
  rw [NextReadInfos.slice, length_slice_of_le (by omega)]
  omega

/-- A request of the detector is served and leads to the next one. -/
theorem DetectorAt.serve (hm : Counts m) (hmd : md.powerMetaData = m)
    (hslot : ∀ o e, ∃ o', slot o e = .ok o' ()) (h : DetectorAt m l.length d k i)
    (hend : i.readEnd ≤ l.length) (o : σ) :
    ∃ k' i' d' o', workOnDataPoints C md slot (d, o) (i.slice l) i.nextReadLocation =
        .ok (d', o') i' ∧ DetectorAt m l.length d' k' i' ∧ k' < k ∧
      i.firstNeeded.toNat ≤ i'.firstNeeded.toNat ∧ i'.nextReadLocation ≤ i.readEnd := by
  have hb := hm.before
  have ho := hm.ofEvent
  have hp := hm.period
  have hM := cast_minDataPointsNeeded m d
  have hlen := length_readInfos_slice (h.nonneg) hend
  obtain ⟨hE₁, hE₂⟩ := hm.le_sizeOfInt_eventLength
  cases h with
  | @detecting P hd hB hP =>
    obtain ⟨d', b, -, hwork, hca, hd', hreq⟩ :=
      workOnDataPoints_chunk (C := C) slot o hmd hm hd hlen P
    simp only [NextReadInfos.readEnd] at hend
    cases b with
    | false =>
      refine ⟨_, _, d', o, hwork, .detecting_of (N := P + d.minDataPointsNeeded m) hca hd' ?_ ?_ ?_,
        ?_, ?_, ?_⟩
      · exact (Nat.cast_add _ _).symm
      · omega
      · omega
      · omega
      · simp only [Bool.false_eq_true, if_false, NextReadInfos.firstNeeded]; omega
      · simp only [Bool.false_eq_true, if_false, NextReadInfos.readEnd]; omega
    | true =>
      refine ⟨_, _, d', o, hwork, .eventPending hd' (hreq rfl) hB (by omega), by omega, ?_, ?_⟩
      · simp only [if_true, NextReadInfos.firstNeeded]; omega
      · simp only [if_true, NextReadInfos.readEnd]; omega
  | @eventPending P hd hid hB hP =>
    simp only [NextReadInfos.readEnd] at hend
    by_cases hE : sizeOfInt m.eventLength = 0
    · -- no data points make the call look like the first one
      have hnil := List.length_eq_zero_iff.1 (hlen.trans hE)
      rw [hnil, workOnDataPoints_nil, hmd]
      refine ⟨3 * (l.length - (P + m.dataPointsPerPeriod)) + 2, _, _, o, rfl, ?_, ?_, ?_, ?_⟩
      · have hP' : (P : ℤ) - m.before + m.dataPointsPerPeriod + m.before =
            ((P + m.dataPointsPerPeriod : ℕ) : ℤ) := by omega
        simp only [getFirstDetectionPeriod, request, hm.sizeOfInt_before, hP']
        exact .emptyEvent hd rfl (by omega) (by omega) hP
      · omega
      · simp only [getFirstDetectionPeriod, request, hm.sizeOfInt_before,
          NextReadInfos.firstNeeded]; omega
      · simp only [getFirstDetectionPeriod, request, NextReadInfos.readEnd]; omega
    · obtain ⟨d', o', e, hwork, -, -, -, hca, hd'⟩ := workOnDataPoints_eventData (C := C) hmd hm
        (hslot o) hd (List.ne_nil_of_length_pos (by rw [hlen]; exact Nat.pos_of_ne_zero hE))
        (by rw [hlen]; exact hE₂)
      rw [hid] at hwork
      refine ⟨_, _, d', o', hwork, .detecting_of
        (N := P + m.dataPointsPerPeriod + m.ofEvent.toNat) hca hd' ?_ ?_ ?_, ?_, ?_, ?_⟩
      · omega
      · omega
      · omega
      · omega
      · simp only [NextReadInfos.firstNeeded]; omega
      · simp only [NextReadInfos.readEnd]; omega
  | @emptyEvent P hd hid hB hO hP =>
    simp only [NextReadInfos.readEnd] at hend
    have hzero : m.eventLength.toInt ≤ 0 := by
      rcases toInt_add_of_nonneg hb ho with he | ⟨-, hneg⟩
      · exact le_of_eq
          (he.trans (by simp only [PowerMetaData.before, PowerMetaData.ofEvent] at *; omega))
      · exact hneg.le
    obtain ⟨d', o', e, hwork, -, -, -, hca, hd'⟩ := workOnDataPoints_eventData (C := C) hmd hm
      (hslot o) hd (List.ne_nil_of_length_pos (by simp only at hlen; omega))
      (hzero.trans (Int.natCast_nonneg ((⟨m.before.toNat, d.minDataPointsNeeded m, P⟩ :
        NextReadInfos).slice l).length))
    rw [hid] at hwork
    refine ⟨_, _, d', o', hwork, .detecting_of (N := P) hca hd' ?_ ?_ hP, ?_, ?_, ?_⟩
    · omega
    · omega
    · omega
    · simp only [NextReadInfos.firstNeeded]; omega
    · simp only [NextReadInfos.readEnd]; omega

end

/-! ## The workers of the app -/

/-- The requests of the metric provider: whole seconds. -/
def MetricAt (m : PowerMetaData) (L k : ℕ) (i : NextReadInfos) : Prop :=
  ∃ N : ℕ, i = ⟨0, m.sampleRate, N⟩ ∧ N ≤ L ∧ k = L - N

/-- The requests of the workers of the app. -/
def AppAt (m : PowerMetaData) (l : List α) (k : ℕ) (x : Slot (AppWorker F σ)) : Prop :=
  match x.worker with
  | .eventDetector s => DetectorAt m l.length s.1 k x.readInfos
  | .metricProvider _ => MetricAt m l.length k x.readInfos

section
variable [FloatArith F] [DataPoint α F] {C : CppInt} {md : DynamicStreamMetaData}
  {slot : σ → Event α → Res Fault σ Unit} {m : PowerMetaData} {l : List α} {k : ℕ}
  {i : NextReadInfos}

theorem MetricAt.serve (hm : Counts m) (hmd : md.powerMetaData = m) (h : MetricAt m l.length k i)
    (hend : i.readEnd ≤ l.length) (s : MetricProvider) :
    ∃ k' i', MetricProvider.workOnDataPoints md s (i.slice l) i.nextReadLocation = .ok s i' ∧
      MetricAt m l.length k' i' ∧ k' < k ∧ i.firstNeeded.toNat ≤ i'.firstNeeded.toNat ∧
      i'.nextReadLocation ≤ i.readEnd := by
  obtain ⟨N, rfl, hN, rfl⟩ := h
  have hs := hm.sampleRate_pos
  have hlen := length_readInfos_slice (i := ⟨0, m.sampleRate, N⟩) (Int.natCast_nonneg N) hend
  simp only [NextReadInfos.readEnd] at hend
  subst hmd
  refine ⟨_, _, MetricProvider.workOnDataPoints_ok _ (Or.inr hlen),
    ⟨N + md.powerMetaData.sampleRate, ?_, by omega, rfl⟩, by omega, ?_, ?_⟩
  · simp [MetricProvider.nextPeriod, MetricProvider.numberOfDataPointsFetched]
  · simp only [MetricProvider.nextPeriod, NextReadInfos.firstNeeded]; omega
  · simp only [MetricProvider.nextPeriod, MetricProvider.numberOfDataPointsFetched,
      NextReadInfos.readEnd]; omega

theorem serve_eventDetector {d d' : EventDetector F} {o o' : σ} {i' : NextReadInfos}
    (h : EventDetector.workOnDataPoints C md slot (d, o) (i.slice l) i.nextReadLocation =
      .ok (d', o') i') :
    serve (AppWorker.workOnDataPoints C md slot) l ⟨.eventDetector (d, o), i⟩ =
      .ok ⟨.eventDetector (d', o'), i'⟩ () := by
  simp only [serve, callWorker, AppWorker.workOnDataPoints, h, Res.lift_ok]

theorem serve_metricProvider {s s' : MetricProvider} {i' : NextReadInfos}
    (h : MetricProvider.workOnDataPoints md s (i.slice l) i.nextReadLocation = .ok s' i') :
    serve (AppWorker.workOnDataPoints C md slot) l ⟨.metricProvider s, i⟩ =
      .ok ⟨.metricProvider s', i'⟩ () := by
  simp only [serve, callWorker, AppWorker.workOnDataPoints, h, Res.lift_ok]

/-- **The workers of the app are orderly.** -/
theorem orderly_appAt (hm : Counts m) (hmd : md.powerMetaData = m)
    (hslot : ∀ o e, ∃ o', slot o e = .ok o' ()) (C : CppInt) (l : List α) :
    Orderly (AppWorker.workOnDataPoints (F := F) C md slot) l 0 (AppAt m l) where
  nonneg := by
    rintro k ⟨⟨s⟩ | ⟨s⟩, i⟩ h
    · exact DetectorAt.nonneg h
    · obtain ⟨N, rfl, -⟩ := h
      exact Int.natCast_nonneg N
  le := by
    rintro k ⟨⟨s⟩ | ⟨s⟩, i⟩ h
    · exact DetectorAt.le hm h
    · obtain ⟨N, rfl, hN, -⟩ := h
      exact Int.ofNat_le.2 hN
  reach_le := Nat.zero_le _
  serves := by
    rintro k ⟨⟨d, o⟩ | ⟨s⟩, i⟩ h hend
    · obtain ⟨k', i', d', o', hwork, h', hk, hlow, hnext⟩ :=
        DetectorAt.serve (C := C) hm hmd hslot h hend o
      exact ⟨k', _, serve_eventDetector hwork, h', hk, hlow, hnext.trans (le_max_left _ _)⟩
    · obtain ⟨k', i', hwork, h', hk, hlow, hnext⟩ := MetricAt.serve hm hmd h hend s
      exact ⟨k', _, serve_metricProvider hwork, h', hk, hlow, hnext.trans (le_max_left _ _)⟩

/-- The distributor after the constructor of the app. -/
def appStart (m : PowerMetaData) (d : EventDetector F) (o : σ) (p : MetricProvider) :
    DataStreamDistributor α (AppWorker F σ) where
  slots := [⟨.eventDetector ((d.getFirstDetectionPeriod m 0).1, o),
      (d.getFirstDetectionPeriod m 0).2⟩, ⟨.metricProvider p, MetricProvider.nextPeriod m 0⟩]

omit [FloatArith F] [DataPoint α F] in
theorem forall_mem_appStart {m : PowerMetaData} {d : EventDetector F} {o : σ} {p : MetricProvider}
    {P : Slot (AppWorker F σ) → Prop} :
    (∀ x ∈ (appStart m d o p : DataStreamDistributor α (AppWorker F σ)).slots, P x) ↔
      P ⟨.eventDetector ((d.getFirstDetectionPeriod m 0).1, o),
        (d.getFirstDetectionPeriod m 0).2⟩ ∧
      P ⟨.metricProvider p, MetricProvider.nextPeriod m 0⟩ := by
  simp [appStart]

theorem smartApp_eq (d : EventDetector F) (o : σ) (p : MetricProvider) :
    smartApp C md slot (d, o) p = .ok (appStart md.powerMetaData d o p) () := by
  simp only [smartApp, addWorker, AppWorker.workOnDataPoints, workOnDataPoints_nil,
    MetricProvider.workOnDataPoints_ok _ (Or.inl rfl), Res.lift_ok, Res.bind_ok]
  rfl

end

/-! ## The start of the app -/

section
variable {C : CppInt} {md : DynamicStreamMetaData} {l : List α}

theorem detectorAt_first (hm : Counts md.powerMetaData)
    (hl : md.powerMetaData.before ≤ l.length) (d : EventDetector F)
    (hd : d.detectedAnEvent = false) :
    DetectorAt md.powerMetaData l.length (d.getFirstDetectionPeriod md.powerMetaData 0).1
      (3 * (l.length - md.powerMetaData.before.toNat) + 1)
      (d.getFirstDetectionPeriod md.powerMetaData 0).2 := by
  have hb := hm.before
  simp only [getFirstDetectionPeriod, request, hm.sizeOfInt_before]
  exact .detecting_of rfl hd (by omega) (by omega) (by omega)

theorem metricAt_first {m : PowerMetaData} {L : ℕ} (hs : m.sampleRate ≤ L) :
    MetricAt m L (L - m.sampleRate) (MetricProvider.nextPeriod m 0) :=
  ⟨m.sampleRate, by simp [MetricProvider.nextPeriod, MetricProvider.numberOfDataPointsFetched], hs,
    rfl⟩

/-- The invariant of the passes at the start, for what holds of the first requests. -/
theorem holds_appStart_of {I : ℕ → Slot (AppWorker F σ) → Prop} {m : PowerMetaData}
    (d : EventDetector F) (o : σ) (p : MetricProvider) (l : List α) {k k' : ℕ}
    (hd : I k ⟨.eventDetector ((d.getFirstDetectionPeriod m 0).1, o),
      (d.getFirstDetectionPeriod m 0).2⟩)
    (hp : I k' ⟨.metricProvider p, MetricProvider.nextPeriod m 0⟩) :
    Holds 0 I (start l) (k + (k' + 0)) (appStart m d o p) l := by
  refine ⟨rfl, rfl, rfl, ⟨[_, _], .cons ⟨hd, Nat.zero_le _⟩ (.cons ⟨hp, Nat.zero_le _⟩ .nil), rfl⟩,
    Or.inr ⟨_, List.mem_cons_of_mem _ (List.mem_singleton.2 rfl), ?_, ?_⟩⟩ <;>
  simp only [Window.start, MetricProvider.nextPeriod, NextReadInfos.readEnd] <;> omega

/-- The first requests start inside the stream. -/
theorem holds_appStart (hm : Counts md.powerMetaData) (hl : md.powerMetaData.before ≤ l.length)
    (hs : md.powerMetaData.sampleRate ≤ l.length) (d : EventDetector F)
    (hd : d.detectedAnEvent = false) (o : σ) (p : MetricProvider) :
    ∃ k, Holds 0 (AppAt md.powerMetaData l) (start l) k (appStart md.powerMetaData d o p) l :=
  ⟨_, holds_appStart_of (I := AppAt md.powerMetaData l) d o p l (detectorAt_first hm hl d hd)
    (metricAt_first hs)⟩

/-- What the first pass reads of a stream that is too short for one of the first
    requests: all of it. -/
theorem read_appStart (C : CppInt) (hm : Counts md.powerMetaData)
    (h : (l.length : ℤ) < md.powerMetaData.before ∨ l.length < md.powerMetaData.sampleRate)
    (d : EventDetector F) (o : σ) (p : MetricProvider) :
    readBufferForNextRun C popRemaining (appStart md.powerMetaData d o p, l) =
      .ok ({ (appStart md.powerMetaData d o p : DataStreamDistributor α (AppWorker F σ)) with
        currentGlobalBufferPos := 0, dataQueue := l }, []) () := by
  have hb := hm.before
  have hh : Holds 0 (fun _ _ => True) (start l) (0 + (0 + 0)) (appStart md.powerMetaData d o p) l :=
    holds_appStart_of d o p l trivial trivial
  obtain ⟨w, hlo, -, hread, hcover, -⟩ := readBufferForNextRun_eq C (Nat.zero_le _) hh (by
    simp [appStart])
  have h₁ := hcover _ (List.mem_cons_self ..)
  have h₂ := hcover _ (List.mem_cons_of_mem _ (List.mem_singleton.2 rfl))
  have hle := w.hi_le
  simp only [getFirstDetectionPeriod, request, MetricProvider.nextPeriod,
    MetricProvider.numberOfDataPointsFetched, NextReadInfos.readEnd] at h₁ h₂
  have hhi : w.hi = l.length := by omega
  have hlo : w.lo = 0 := hlo
  rw [hread, Window.data, Window.rest, hhi, hlo]
  simp [slice, appStart]

end

end SmartScreen
