/-
  The start order of the app: the workers are added with the default meta data,
  then the configuration is stored, then data flows (`nofare_app`, `Init.h`).

  The first requests are made with the default meta data and served under the
  configuration.  `StartAt` follows the requests from there; a call goes wrong if
  the first chunk is too short for the configured period, if the configured
  second is not the default one, or if an event is detected before there are
  enough data points in front of it (`start_order_safe_iff`).
-/
import SmartScreen.App.BufferRange
import SmartScreen.Detector.QuietChunks

namespace SmartScreen

open Loop Window DataStreamDistributor EventDetector

variable {α F σ : Type}

/-! ## Detection in the first chunks -/

section
variable [FloatArith F] [DataPoint α F]

/-- The `j`-th detection chunk while no event is detected: the first one has the
    length asked for with the default meta data. -/
def startChunk (m : PowerMetaData) (d : EventDetector F) (l : List α) (j : ℕ) : List α :=
  if j = 0 then slice l 0 1000
  else slice l (j * d.minDataPointsNeeded m) ((j + 1) * d.minDataPointsNeeded m)

/-- No event is detected in a chunk that starts too early: the data points stored
    before the event would start before the stream. -/
def NoEarlyEvent (m : PowerMetaData) (d : EventDetector F) (l : List α) : Prop :=
  ∀ J : ℕ, ((J * d.minDataPointsNeeded m : ℕ) : ℤ) + m.dataPointsPerPeriod < m.before →
    (J + 1) * d.minDataPointsNeeded m ≤ l.length →
      (quietThrough m d ((List.range (J + 1)).map (startChunk m d l))).isSome

/-- When the start order is safe. -/
structure StartSafe (m : PowerMetaData) (d : EventDetector F) (l : List α) : Prop where
  sampleRate : m.sampleRate = 12000
  period : 4 * m.dataPointsPerPeriod < 1000
  noEarlyEvent : NoEarlyEvent m d l

end

/-! ## The requests from the start -/

/-- The detector as the app constructs it. -/
abbrev defaultDetector (threshold : F) : EventDetector F := { threshold := threshold }

/-- The request of the `j`-th chunk under the configuration. -/
def chunkSlot (m : PowerMetaData) (t : F) (d : EventDetector F) (o : σ) (j : ℕ) :
    Slot (AppWorker F σ) :=
  ⟨.eventDetector (d, o), ⟨m.before.toNat, (defaultDetector t).minDataPointsNeeded m,
    (j * (defaultDetector t).minDataPointsNeeded m : ℕ)⟩⟩

/-- The requests of the workers of the app after the start; at most `k` are still
    served. -/
inductive StartAt [FloatArith F] [DataPoint α F] (m : PowerMetaData) (t : F) (l : List α) :
    ℕ → Slot (AppWorker F σ) → Prop
  | first (id : ℤ) {o : σ} : StartAt m t l (4 * l.length + 4)
      ⟨.eventDetector ((defaultDetector t).setRequested id, o), ⟨0, 1000, 0⟩⟩
  | early {j : ℕ} {id : ℤ} {d : EventDetector F} {o : σ} : 1 ≤ j →
      4 * m.dataPointsPerPeriod < 1000 →
      quietThrough m (defaultDetector t)
        ((List.range j).map (startChunk m (defaultDetector t) l)) = some d →
      d.compareAfter = 800 → d.detectedAnEvent = false →
      ((j * (defaultDetector t).minDataPointsNeeded m : ℕ) : ℤ) + m.dataPointsPerPeriod < m.before →
      j * (defaultDetector t).minDataPointsNeeded m ≤ l.length →
      StartAt m t l (3 * l.length + 3 + (l.length - j * (defaultDetector t).minDataPointsNeeded m))
        (chunkSlot m t (d.setRequested id) o j)
  | late {d : EventDetector F} {o : σ} {k : ℕ} {i : NextReadInfos} :
      4 * m.dataPointsPerPeriod < 1000 → NoEarlyEvent m (defaultDetector t) l →
      DetectorAt m l.length d k i → StartAt m t l k ⟨.eventDetector (d, o), i⟩
  | firstSecond {p : MetricProvider} : StartAt m t l (l.length + 1)
      ⟨.metricProvider p, ⟨0, 12000, 12000⟩⟩
  | second {p : MetricProvider} {k : ℕ} {i : NextReadInfos} : m.sampleRate = 12000 →
      MetricAt m l.length k i → StartAt m t l k ⟨.metricProvider p, i⟩

section
variable [FloatArith F] [DataPoint α F] {m : PowerMetaData} {t : F} {l : List α} {k : ℕ}
  {x : Slot (AppWorker F σ)}

theorem StartAt.nonneg (h : StartAt m t l k x) : 0 ≤ x.readInfos.nextReadLocation := by
  cases h with
  | first => exact le_rfl
  | early => exact Int.natCast_nonneg _
  | late _ _ h => exact h.nonneg
  | firstSecond => simp
  | second _ h => obtain ⟨N, rfl, -⟩ := h; exact Int.natCast_nonneg N

theorem StartAt.le (hm : Counts m) (hl : 24000 ≤ l.length) (h : StartAt m t l k x) :
    x.readInfos.nextReadLocation ≤ l.length := by
  cases h with
  | first => simp
  | early _ _ _ _ _ _ h => exact Int.ofNat_le.2 h
  | late _ _ h => exact h.le hm
  | firstSecond => simp only; omega
  | second _ h => obtain ⟨N, rfl, h, -⟩ := h; exact Int.ofNat_le.2 h

/-- The first chunk fills the deque of RMS values, if it is long enough. -/
theorem detectEvent_first {dataPoints : List α} (hlen : dataPoints.length = 1000) :
    (4 * m.dataPointsPerPeriod < 1000 →
      ∃ previousRms, detectEvent m (defaultDetector t) dataPoints =
      .ok ({ defaultDetector t with previousRms := previousRms }, false)) ∧
    (¬ 4 * m.dataPointsPerPeriod < 1000 →
      detectEvent m (defaultDetector t) dataPoints = .error .assertion) := by
  have hca : ¬ (dataPoints.length : ℤ) < 800 := by omega
  constructor <;> intro hp
  · have h₁ : ¬ dataPoints.length < m.dataPointsPerPeriod := by omega
    have h₂ : m.dataPointsPerPeriod * 4 < dataPoints.length := by omega
    simp [detectEvent, initializePreviousRms, numberOfRms, h₁, hca, h₂, Except.map]
  · have h₂ : ¬ m.dataPointsPerPeriod * 4 < dataPoints.length := by omega
    by_cases h₁ : dataPoints.length < m.dataPointsPerPeriod <;>
      simp [detectEvent, initializePreviousRms, numberOfRms, h₁, hca, h₂, Except.map]

/-- The request after `j + 1` chunks without an event. -/
theorem StartAt.next {j : ℕ} (id : ℤ) {d : EventDetector F} {o : σ}
    (hp : 4 * m.dataPointsPerPeriod < 1000)
    (hq : quietThrough m (defaultDetector t)
      ((List.range (j + 1)).map (startChunk m (defaultDetector t) l)) = some d)
    (hca : d.compareAfter = 800) (hd : d.detectedAnEvent = false)
    (hj : (j + 1) * (defaultDetector t).minDataPointsNeeded m ≤ l.length) :
    ∃ k, k ≤ 3 * l.length + 3 + (l.length - (j + 1) * (defaultDetector t).minDataPointsNeeded m) ∧
      StartAt m t l k (chunkSlot m t (d.setRequested id) o (j + 1)) := by
  by_cases hB : (((j + 1) * (defaultDetector t).minDataPointsNeeded m : ℕ) : ℤ) +
      m.dataPointsPerPeriod < m.before
  · exact ⟨_, le_rfl, .early (by omega) hp hq hca hd hB hj⟩
  · have hno : NoEarlyEvent m (defaultDetector t) l := by
      intro J hJ _
      refine quietThrough_mono (J := j + 1) ?_ hq
      by_contra hlt
      have := Nat.mul_le_mul_right ((defaultDetector t).minDataPointsNeeded m)
        (show j + 1 ≤ J by omega)
      omega
    exact ⟨_, by omega, .late hp hno (.detecting_of (d := defaultDetector t) hca hd rfl
      (not_lt.1 hB) hj)⟩

variable {C : CppInt} {md : DynamicStreamMetaData}

/-- How a chunk without an event is served. -/
theorem serve_quiet (hmd : md.powerMetaData = m) (hm : Counts m) {d d' : EventDetector F} (id : ℤ)
    {o : List (Event α)} {i : NextReadInfos} (hd : d.detectedAnEvent = false)
    (hne : i.slice l ≠ []) (h : detectEvent m d (i.slice l) = .ok (d', false)) {j : ℕ}
    (hM : d'.compareAfter = 800)
    (hj : i.nextReadLocation + (defaultDetector t).minDataPointsNeeded m =
      ((j * (defaultDetector t).minDataPointsNeeded m : ℕ) : ℤ)) :
    ∃ id', serve (AppWorker.workOnDataPoints C md record) l
      ⟨.eventDetector (d.setRequested id, o), i⟩ =
        .ok (chunkSlot m t (d'.setRequested id') o j) () := by
  subst hmd
  have hcongr := detectEvent_congr md.powerMetaData d id (i.slice l)
  rw [h] at hcongr
  refine ⟨(j * (defaultDetector t).minDataPointsNeeded md.powerMetaData : ℕ), serve_eventDetector
    ((workOnDataPoints_detect (d := d.setRequested id) record o _ hne hd hcongr).trans ?_)⟩
  simp only [Bool.false_eq_true, if_false, getNextDetectionPeriod, request, hm.sizeOfInt_before,
    minDataPointsNeeded_congr (d := defaultDetector t)
      (show (d'.setRequested id).compareAfter = (defaultDetector t).compareAfter from hM), hj]
  rfl

theorem serve_first (hmd : md.powerMetaData = m) (hm : Counts m) (hl : 24000 ≤ l.length) {id : ℤ}
    {o : List (Event α)} {x : Slot (AppWorker F (List (Event α)))}
    (hx : x = ⟨.eventDetector ((defaultDetector t).setRequested id, o), ⟨0, 1000, 0⟩⟩) :
    (¬ StartSafe m (defaultDetector t) l ∧
      GoesWrong (AppWorker.workOnDataPoints C md record) l x) ∨
      GoesOn (AppWorker.workOnDataPoints C md record) l 24000 (StartAt m t l) (4 * l.length + 4)
        x := by
  have hM := cast_minDataPointsNeeded m (defaultDetector t)
  simp only at hM
  have hpos := hm.period
  have hlen : ((⟨0, 1000, 0⟩ : NextReadInfos).slice l).length = 1000 :=
    length_readInfos_slice le_rfl (by simp only [NextReadInfos.readEnd]; omega)
  have hne : (⟨0, 1000, 0⟩ : NextReadInfos).slice l ≠ [] := List.ne_nil_of_length_pos (by omega)
  have hdet := detectEvent_first (m := m) (t := t) hlen
  by_cases hp : 4 * m.dataPointsPerPeriod < 1000
  · right
    obtain ⟨rms, hdet⟩ := hdet.1 hp
    obtain ⟨id', hserve⟩ := serve_quiet (C := C) (t := t) (o := o) (j := 0 + 1) hmd hm
      id rfl hne hdet rfl (by simp)
    have hq : quietThrough m (defaultDetector t)
        ((List.range (0 + 1)).map (startChunk m (defaultDetector t) l)) =
          some { defaultDetector t with previousRms := rms } := by
      have hchunk : startChunk m (defaultDetector t) l 0 = (⟨0, 1000, 0⟩ : NextReadInfos).slice l :=
        rfl
      simp [List.range_succ, hchunk, quietThrough, hdet]
    obtain ⟨k', hk', hstart⟩ := StartAt.next (o := o) id' hp hq rfl rfl (by omega)
    refine ⟨k', _, hx ▸ hserve, hstart, by omega, hx ▸ Nat.zero_le _, ?_⟩
    simp only [chunkSlot]; omega
  · left
    refine ⟨fun h => hp h.period, Or.inl ⟨.assertion, x, ?_⟩⟩
    have hcongr := detectEvent_congr m (defaultDetector t) id
      ((⟨0, 1000, 0⟩ : NextReadInfos).slice l)
    rw [hdet.2 hp] at hcongr
    subst hmd
    simp only [hx, serve, callWorker, AppWorker.workOnDataPoints,
      workOnDataPoints_detect_error (d := (defaultDetector t).setRequested id) hne rfl hcongr,
      Res.lift]

theorem serve_early (hmd : md.powerMetaData = m) (hm : Counts m) {j : ℕ} {id : ℤ}
    {d : EventDetector F} {o : List (Event α)} (hj : 1 ≤ j) (hp : 4 * m.dataPointsPerPeriod < 1000)
    (hq : quietThrough m (defaultDetector t)
      ((List.range j).map (startChunk m (defaultDetector t) l)) = some d)
    (hca : d.compareAfter = 800) (hd : d.detectedAnEvent = false)
    (hB : ((j * (defaultDetector t).minDataPointsNeeded m : ℕ) : ℤ) + m.dataPointsPerPeriod <
      m.before) {x : Slot (AppWorker F (List (Event α)))}
    (hx : x = chunkSlot m t (d.setRequested id) o j) (hend : x.readInfos.readEnd ≤ l.length) :
    (¬ StartSafe m (defaultDetector t) l ∧
      GoesWrong (AppWorker.workOnDataPoints C md record) l x) ∨
      GoesOn (AppWorker.workOnDataPoints C md record) l 24000 (StartAt m t l)
        (3 * l.length + 3 + (l.length - j * (defaultDetector t).minDataPointsNeeded m)) x := by
  have hM := cast_minDataPointsNeeded m (defaultDetector t)
  have hMd : d.minDataPointsNeeded m = (defaultDetector t).minDataPointsNeeded m :=
    minDataPointsNeeded_congr hca m
  have hpos := hm.period
  have hlen : (x.readInfos.slice l).length = (defaultDetector t).minDataPointsNeeded m := by
    subst hx; exact length_readInfos_slice (Int.natCast_nonneg _) hend
  have hne : x.readInfos.slice l ≠ [] := List.ne_nil_of_length_pos (by omega)
  have hj' : (j + 1) * (defaultDetector t).minDataPointsNeeded m =
      j * (defaultDetector t).minDataPointsNeeded m + (defaultDetector t).minDataPointsNeeded m :=
    Nat.succ_mul _ _
  have hend' : (j + 1) * (defaultDetector t).minDataPointsNeeded m ≤ l.length := by
    simp only [hx, chunkSlot, NextReadInfos.readEnd] at hend
    omega
  have hchunk : startChunk m (defaultDetector t) l j = x.readInfos.slice l := by
    rw [startChunk, if_neg (by omega), Nat.succ_mul, hx]
    rfl
  obtain ⟨rms, b, hdet⟩ := detectEvent_ok (d := d) hpos (hlen.trans hMd.symm)
  have hq' : quietThrough m (defaultDetector t)
      ((List.range (j + 1)).map (startChunk m (defaultDetector t) l)) =
        if b then none else some { d with previousRms := rms } := by
    rw [List.range_succ, List.map_append, quietThrough_append, hq]
    simp only [Option.bind_some, List.map_cons, List.map_nil, quietThrough, hchunk, hdet]
    cases b <;> rfl
  subst hx
  cases b with
  | false =>
    right
    obtain ⟨id', hserve⟩ := serve_quiet (C := C) (t := t) (o := o) (j := j + 1) hmd hm
      id hd hne hdet hca (by simp only [chunkSlot]; omega)
    obtain ⟨k', hk', hstart⟩ := StartAt.next (o := o) id' hp hq' hca hd hend'
    refine ⟨k', _, hserve, hstart, by omega, ?_, ?_⟩
    · simp only [chunkSlot, Slot.low, NextReadInfos.firstNeeded]; omega
    · simp only [chunkSlot, NextReadInfos.readEnd]; omega
  | true =>
    left
    refine ⟨fun h => ?_, ?_⟩
    · have := h.noEarlyEvent j hB hend'
      rw [hq'] at this
      cases this
    · subst hmd
      have hcongr := detectEvent_congr md.powerMetaData d id ((chunkSlot md.powerMetaData t
        (d.setRequested id) o j).readInfos.slice l)
      rw [hdet] at hcongr
      refine Or.inr ⟨_, serve_eventDetector (workOnDataPoints_detect (d := d.setRequested id) record
        o _ hne hd hcongr), ?_⟩
      simp only [if_true, getEventData, request]
      have hloc :
          (chunkSlot md.powerMetaData t (d.setRequested id) o j).readInfos.nextReadLocation =
            ((j * (defaultDetector t).minDataPointsNeeded md.powerMetaData : ℕ) : ℤ) := rfl
      omega

theorem serve_firstSecond (hmd : md.powerMetaData = m) {p : MetricProvider} {N : ℕ}
    (hN : N = 12000) {x : Slot (AppWorker F (List (Event α)))}
    (hx : x = ⟨.metricProvider p, ⟨0, N, N⟩⟩) (hend : x.readInfos.readEnd ≤ l.length) :
    (¬ StartSafe m (defaultDetector t) l ∧
      GoesWrong (AppWorker.workOnDataPoints C md record) l x) ∨
      GoesOn (AppWorker.workOnDataPoints C md record) l 24000 (StartAt m t l) (l.length + 1) x := by
  subst hx hmd
  have hlen : ((⟨0, N, N⟩ : NextReadInfos).slice l).length = N :=
    length_readInfos_slice (Int.natCast_nonneg N) hend
  have hpos : 0 < N := by omega
  simp only [NextReadInfos.readEnd] at hend
  by_cases hs : md.powerMetaData.sampleRate = N
  · have hwork := MetricProvider.workOnDataPoints_ok (s := p) N
      (Or.inr (hlen.trans hs.symm))
    refine Or.inr ⟨l.length - (N + N), _, serve_metricProvider hwork, .second (hs.trans hN)
      ⟨N + N, ?_, ?_, rfl⟩, ?_, ?_, ?_⟩
    · simp [MetricProvider.nextPeriod, MetricProvider.numberOfDataPointsFetched, hs]
    · omega
    · omega
    · simp only [Slot.low, NextReadInfos.firstNeeded, MetricProvider.nextPeriod]; omega
    · simp only [NextReadInfos.readEnd, MetricProvider.nextPeriod,
        MetricProvider.numberOfDataPointsFetched, hs]; omega
  · refine Or.inl ⟨fun h => hs (h.sampleRate.trans hN.symm), Or.inl ⟨.assertion,
      ⟨.metricProvider p, ⟨0, N, N⟩⟩, ?_⟩⟩
    have hwork := MetricProvider.workOnDataPoints_assertion (s := p) N
      (List.ne_nil_of_length_pos (by rw [hlen]; exact hpos)) (hlen.trans_ne (Ne.symm hs))
    simp only [serve, callWorker, AppWorker.workOnDataPoints, hwork, Res.lift]

/-- **A call after the start goes on**, or goes wrong because the start order is
    not safe. -/
theorem StartAt.serve (hmd : md.powerMetaData = m) (hm : Counts m) (hl : 24000 ≤ l.length)
    {x : Slot (AppWorker F (List (Event α)))} (h : StartAt m t l k x)
    (hend : x.readInfos.readEnd ≤ l.length) :
    (¬ StartSafe m (defaultDetector t) l ∧
      GoesWrong (AppWorker.workOnDataPoints C md record) l x) ∨
      GoesOn (AppWorker.workOnDataPoints C md record) l 24000 (StartAt m t l) k x := by
  cases h with
  | first => exact serve_first hmd hm hl rfl
  | early hj hp hq hca hd hB _ => exact serve_early hmd hm hj hp hq hca hd hB rfl hend
  | @late d o k i hp hno h =>
    obtain ⟨k', i', d', o', hwork, h', hk, hlow, hnext⟩ :=
      DetectorAt.serve (C := C) hm hmd record_ok h hend o
    exact Or.inr ⟨k', _, serve_eventDetector hwork, .late hp hno h', hk, hlow,
      hnext.trans (le_max_left _ _)⟩
  | firstSecond => exact serve_firstSecond hmd rfl rfl hend
  | @second p k i hs h =>
    obtain ⟨k', i', hwork, h', hk, hlow, hnext⟩ := MetricAt.serve hm hmd h hend p
    exact Or.inr ⟨k', _, serve_metricProvider hwork, .second hs h', hk, hlow,
      hnext.trans (le_max_left _ _)⟩

theorem careful_startAt (hmd : md.powerMetaData = m) (hm : Counts m) (hl : 24000 ≤ l.length)
    (C : CppInt) :
    Careful (AppWorker.workOnDataPoints C md record) l 24000 (StartAt (F := F) m t l) where
  nonneg h := h.nonneg
  le h := h.le hm hl
  reach_le := hl
  serves h hend := (h.serve hmd hm hl hend).imp_left And.right

theorem orderly_startAt (hmd : md.powerMetaData = m) (hm : Counts m) (hl : 24000 ≤ l.length)
    (C : CppInt) (hsafe : StartSafe m (defaultDetector t) l) :
    Orderly (AppWorker.workOnDataPoints C md record) l 24000 (StartAt (F := F) m t l) where
  nonneg h := h.nonneg
  le h := h.le hm hl
  reach_le := hl
  serves h hend := (h.serve hmd hm hl hend).resolve_left fun h' => h'.1 hsafe

/-- Where the requests of both workers go beyond the stream, the start order was
    safe. -/
theorem StartAt.startSafe_of_end (hl : 24000 ≤ l.length) {k' : ℕ}
    {d : EventDetector F × List (Event α)} {p : MetricProvider} {i i' : NextReadInfos}
    (h : StartAt m t l k ⟨.eventDetector d, i⟩)
    (h' : StartAt m t l k' (⟨.metricProvider p, i'⟩ : Slot (AppWorker F (List (Event α)))))
    (hend : (l.length : ℤ) < i.readEnd) (hend' : (l.length : ℤ) < i'.readEnd) :
    StartSafe m (defaultDetector t) l := by
  have hs : m.sampleRate = 12000 := by
    cases h' with
    | firstSecond => simp only [NextReadInfos.readEnd] at hend'; omega
    | second hs _ => exact hs
  generalize hx : (⟨.eventDetector d, i⟩ : Slot (AppWorker F (List (Event α)))) = x at h
  cases h with
  | first =>
    cases hx
    simp only [NextReadInfos.readEnd] at hend; omega
  | @early j id d₁ o hj hp hq hca hd hB hjl =>
    cases hx
    refine ⟨hs, hp, fun J hJ hJl => quietThrough_mono (J := j) ?_ hq⟩
    by_contra hlt
    have := Nat.mul_le_mul_right ((defaultDetector t).minDataPointsNeeded m)
      (show j + 1 ≤ J + 1 by omega)
    rw [Nat.succ_mul j] at this
    simp only [NextReadInfos.readEnd] at hend
    omega
  | late hp hno _ => exact ⟨hs, hp, hno⟩
  | firstSecond => cases hx
  | second => cases hx

/-! ## The start order -/

/-- A worker of the app stays a worker of its class. -/
theorem path_eventDetector {W : EventDetector F × List (Event α)} {i : NextReadInfos}
    {x : Slot (AppWorker F (List (Event α)))}
    (h : Path (AppWorker.workOnDataPoints C md record) l ⟨.eventDetector W, i⟩ x) :
    ∃ s i', x = ⟨.eventDetector s, i'⟩ := by
  induction h with
  | refl => exact ⟨_, _, rfl⟩
  | tail _ hs ih =>
    obtain ⟨s, i', rfl⟩ := ih
    obtain ⟨-, hs⟩ := hs
    simp only [serve, callWorker, AppWorker.workOnDataPoints] at hs
    cases hwork : EventDetector.workOnDataPoints C md record s (i'.slice l) i'.nextReadLocation with
    | ok => simp only [hwork, Res.lift_ok] at hs; cases hs; exact ⟨_, _, rfl⟩
    | fault | timeout => simp only [hwork, Res.lift] at hs; cases hs

theorem path_metricProvider {p : MetricProvider} {i : NextReadInfos}
    {x : Slot (AppWorker F (List (Event α)))}
    (h : Path (AppWorker.workOnDataPoints C md record) l ⟨.metricProvider p, i⟩ x) :
    ∃ p' i', x = ⟨.metricProvider p', i'⟩ := by
  induction h with
  | refl => exact ⟨_, _, rfl⟩
  | tail _ hs ih =>
    obtain ⟨p', i', rfl⟩ := ih
    obtain ⟨-, hs⟩ := hs
    simp only [serve, callWorker, AppWorker.workOnDataPoints] at hs
    cases hwork : MetricProvider.workOnDataPoints md p' (i'.slice l) i'.nextReadLocation with
    | ok => simp only [hwork, Res.lift_ok] at hs; cases hs; exact ⟨_, _, rfl⟩
    | fault | timeout => simp only [hwork, Res.lift] at hs; cases hs

theorem holds_startAt (p : MetricProvider) :
    ∃ k, Holds 24000 (StartAt m t l) (start l) k
      (appStart {} (defaultDetector t) ([] : List (Event α)) p :
        DataStreamDistributor α (AppWorker F (List (Event α)))) l := by
  refine ⟨_, rfl, rfl, rfl, ⟨[_, _], .cons ⟨.first 0, Nat.zero_le _⟩
    (.cons ⟨.firstSecond, Nat.zero_le _⟩ .nil), rfl⟩,
    Or.inr ⟨_, List.mem_cons_of_mem _ (List.mem_singleton.2 rfl), ?_, ?_⟩⟩
  · simp only [Window.start, MetricProvider.nextPeriod, MetricProvider.numberOfDataPointsFetched,
      NextReadInfos.readEnd]
    omega
  · simp only [MetricProvider.nextPeriod, MetricProvider.numberOfDataPointsFetched,
      NextReadInfos.readEnd]
    omega

/-- The next pass returns, so no assertion fails and nothing is thrown, and no
    request that it evaluates starts before the buffer. -/
def Safe {S : Type} (C : CppInt) (W : DataStreamWorker α S)
    (dq : DataStreamDistributor α S × List α) : Prop :=
  (∀ d' y, LoopEvaluatesAt C W popRemaining dq d' y →
    d'.currentGlobalBufferPos ≤ y.readInfos.nextReadLocation) ∧
  ∃ dq' b, Returns (fun n => loopWorkersOnce C W popRemaining n dq) dq' b

theorem Safe.not_passWrong {S : Type} {W : DataStreamWorker α S}
    {dq : DataStreamDistributor α S × List α} (h : Safe C W dq) : ¬ PassWrong C W dq := by
  obtain ⟨heval, dq', b, hr⟩ := h
  rintro (⟨e, s, hf⟩ | ⟨d', y, hy, hneg⟩)
  · exact hf.not_returns (steady_loopWorkersOnce W C popRemaining dq) hr
  · exact absurd (heval d' y hy) (not_le.2 hneg)

/-- If all passes are safe, then so was the start order. -/
theorem startSafe_of_safe (hmd : md.powerMetaData = m) (hm : Counts m) (hl : 24000 ≤ l.length)
    (p : MetricProvider)
    (h : ∀ dq, Passes C (AppWorker.workOnDataPoints C md record)
        ((appStart {} (defaultDetector t) [] p, l) :
          DataStreamDistributor α (AppWorker F (List (Event α))) × List α) dq →
      Safe C (AppWorker.workOnDataPoints C md record) dq) :
    StartSafe m (defaultDetector t) l := by
  obtain ⟨k, hh⟩ := holds_startAt (m := m) (t := t) (l := l) p
  rcases loopWorkers_or C (careful_startAt hmd hm hl C) hh (by simp [appStart]) with
    ⟨-, dq, hpasses, hwrong⟩ | ⟨w, k', d, q, b, hd, -, hpath, hend⟩
  · exact absurd hwrong (h dq hpasses).not_passWrong
  · -- the slots at the end are still those of the detector and of the metric provider
    obtain ⟨x, ys, hx, hpath, hslots⟩ := List.forall₂_cons_left_iff.1 hpath
    obtain ⟨y, zs, hy, hpath', rfl⟩ := List.forall₂_cons_left_iff.1 hpath
    obtain rfl := List.forall₂_nil_left_iff.1 hpath'
    obtain ⟨ks, hks, -⟩ := hd.slots
    rw [hslots] at hks hend
    obtain ⟨k₁, ks, ⟨hx', -⟩, hks, -⟩ := List.forall₂_cons_left_iff.1 hks
    obtain ⟨k₂, ks, ⟨hy', -⟩, -, -⟩ := List.forall₂_cons_left_iff.1 hks
    obtain ⟨s, i, rfl⟩ := path_eventDetector hx
    obtain ⟨p', i', rfl⟩ := path_metricProvider hy
    exact hx'.startSafe_of_end hl hy' (hend _ (List.mem_cons_self ..))
      (hend _ (List.mem_cons_of_mem _ (List.mem_cons_self ..)))

end

/-- **When the start order is safe.**  The app is constructed with the default
    meta data, then the configuration `m` is stored, then the stream flows.  In
    every pass all assertions hold, nothing is thrown and no request starts
    before the buffer iff the configured sample rate is the default one, periods
    are short enough for the first chunk, and no event is detected before the
    stream has the data points in front of it. -/
theorem start_order_safe_iff [FloatArith F] [DataPoint α F] (C : CppInt)
    (md : DynamicStreamMetaData) (hmd : md.powerMetaData = {}) (m : PowerMetaData)
    (hf : 1 ≤ m.frequency) (hs : m.frequency ≤ m.sampleRate) (hb : 0 ≤ m.before)
    (ho : 0 ≤ m.ofEvent) (threshold : F) (p : MetricProvider) (l : List α)
    (hl : 24000 ≤ l.length) :
    ∃ d₀, smartApp C md record ({ threshold := threshold }, []) p = .ok d₀ () ∧
      ((∀ dq, Passes C (AppWorker.workOnDataPoints C (md.setFixedPowerMetaData m) record)
          (d₀, l) dq →
        Safe C (AppWorker.workOnDataPoints C (md.setFixedPowerMetaData m) record) dq) ↔
      StartSafe m { threshold := threshold } l) := by
  have hm : Counts m := ⟨PowerMetaData.dataPointsPerPeriod_pos hf hs, hb, ho⟩
  have hmd' : (md.setFixedPowerMetaData m).powerMetaData = m := rfl
  refine ⟨appStart {} (defaultDetector threshold) [] p, by rw [smartApp_eq, hmd], fun h =>
    startSafe_of_safe hmd' hm hl p h, fun hsafe dq hpasses => ?_⟩
  have hI := orderly_startAt hmd' hm hl C hsafe
  obtain ⟨k, hh⟩ := holds_startAt (m := m) (t := threshold) (l := l) p
  obtain ⟨w, k', hdq, -⟩ := hpasses.holds hI hh (by simp [appStart])
  have hne := hpasses.slots_ne_nil hI hh (by simp [appStart])
  refine ⟨fun d' y hy => ?_, ?_⟩
  · obtain ⟨w', k'', hpos, -, hy⟩ := hy.atHead C hI hdq hne
    rw [hpos]
    exact hy.lo_le_next hI.careful
  · obtain ⟨w', k'', d', q', b, hr, -⟩ := returns_loopWorkersOnce C hI hdq hne
    exact ⟨(d', q'), b, hr⟩

/-- With 16000 data points a second, the metric provider's first assertion
    fails. -/
theorem start_order_unsafe_sampleRate :
    ∃ d₀, smartApp CppInt.wrapping {} record ({ threshold := (0 : ℚ) }, []) ⟨0, 0⟩ = .ok d₀ () ∧
      ¬ ∀ dq, Passes CppInt.wrapping (AppWorker.workOnDataPoints CppInt.wrapping
          (DynamicStreamMetaData.setFixedPowerMetaData {} ⟨16000, 50, 230, 16000, 1, 0⟩) record)
          (d₀, List.replicate 24000 (⟨0, 0⟩ : DefaultDataPoint ℚ)) dq →
        Safe CppInt.wrapping (AppWorker.workOnDataPoints CppInt.wrapping
          (DynamicStreamMetaData.setFixedPowerMetaData {} ⟨16000, 50, 230, 16000, 1, 0⟩) record)
          dq := by
  refine ⟨_, smartApp_eq _ _ _, fun h => ?_⟩
  have hsafe := startSafe_of_safe (m := ⟨16000, 50, 230, 16000, 1, 0⟩) rfl
    ⟨by decide, by decide, by decide⟩
    (by rw [List.length_replicate]) ⟨0, 0⟩ h
  exact absurd hsafe.sampleRate (by decide)

/-- A configuration with 12000 data points a second, on a steady stream. -/
theorem start_order_safe_iff_steady :
    ∃ d₀, smartApp CppInt.wrapping {} record ({ threshold := (0 : ℚ) }, []) ⟨0, 0⟩ = .ok d₀ () ∧
      ((∀ dq, Passes CppInt.wrapping (AppWorker.workOnDataPoints CppInt.wrapping
          (DynamicStreamMetaData.setFixedPowerMetaData {} { dataPointsStoredOfEvent := 1 }) record)
          (d₀, List.replicate 24000 (⟨0, 0⟩ : DefaultDataPoint ℚ)) dq →
        Safe CppInt.wrapping (AppWorker.workOnDataPoints CppInt.wrapping
          (DynamicStreamMetaData.setFixedPowerMetaData {} { dataPointsStoredOfEvent := 1 })
          record) dq) ↔
      StartSafe { dataPointsStoredOfEvent := 1 } { threshold := (0 : ℚ) }
        (List.replicate 24000 (⟨0, 0⟩ : DefaultDataPoint ℚ))) :=
  start_order_safe_iff CppInt.wrapping {} rfl { dataPointsStoredOfEvent := 1 } (by decide)
    (by decide) (by decide) (by decide) (0 : ℚ) ⟨0, 0⟩ _ (by rw [List.length_replicate])

end SmartScreen
