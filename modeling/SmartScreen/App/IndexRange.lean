/-
  Buffer accesses of the smart app are in range.

  Two things go wrong (`indices_inRange_iff`).  The first requests may start behind the
  end of the stream: then the index difference in `executeWorkerWhileDataInBuffer` wraps.
  And the `int` sum of the configured counts may wrap: then the data of an event fits into
  no buffer, and the accesses are in range only as long as no event is detected.  While the
  stream is quiet the detector goes from chunk to chunk (`QuietAt`).
-/
import SmartScreen.App.BufferRange
import SmartScreen.Detector.QuietChunks
import SmartScreen.Stream.InRange

namespace SmartScreen

open Loop Window DataStreamDistributor EventDetector

variable {α F σ : Type}

/-! ## The chunks of a quiet stream -/

section
variable [FloatArith F] [DataPoint α F] (m : PowerMetaData) (d₀ : EventDetector F) (l : List α)

/-- The `j`-th detection chunk while no event is detected. -/
def detectionChunk (j : ℕ) : List α :=
  slice l (m.before.toNat + j * d₀.minDataPointsNeeded m)
    (m.before.toNat + (j + 1) * d₀.minDataPointsNeeded m)

/-- No event is detected in the chunks of the stream. -/
def QuietStream : Prop :=
  ∀ J, m.before.toNat + (J + 1) * d₀.minDataPointsNeeded m ≤ l.length →
    (quietThrough m d₀ ((List.range (J + 1)).map (detectionChunk m d₀ l))).isSome

/-- The detector waits for the `j`-th chunk, no event was detected in those before it. -/
structure QuietAt (j : ℕ) (d : EventDetector F) (i : NextReadInfos) : Prop where
  quiet : ∃ id d', quietThrough m d₀ ((List.range j).map (detectionChunk m d₀ l)) = some d' ∧
    d = d'.setRequested id
  readInfos : i = ⟨m.before.toNat, d₀.minDataPointsNeeded m,
    (m.before.toNat + j * d₀.minDataPointsNeeded m : ℕ)⟩
  le : m.before.toNat + j * d₀.minDataPointsNeeded m ≤ l.length

end

section
variable [FloatArith F] [DataPoint α F] {m : PowerMetaData} {d₀ d : EventDetector F} {l : List α}
  {j : ℕ} {i : NextReadInfos} {C : CppInt} {md : DynamicStreamMetaData}

theorem quietAt_first (hm : Counts m) (hl : m.before ≤ l.length) :
    QuietAt m d₀ l 0 (d₀.getFirstDetectionPeriod m 0).1 (d₀.getFirstDetectionPeriod m 0).2 := by
  have hb := hm.before
  refine ⟨⟨_, d₀, rfl, rfl⟩, ?_, by omega⟩
  simp only [getFirstDetectionPeriod, request, hm.sizeOfInt_before, NextReadInfos.mk.injEq,
    true_and]
  omega

theorem QuietAt.slice_eq (h : QuietAt m d₀ l j d i) : i.slice l = detectionChunk m d₀ l j := by
  rw [h.readInfos, NextReadInfos.slice, detectionChunk, Int.toNat_natCast, Nat.succ_mul,
    Nat.add_assoc]

/-- **A chunk is served**: it is quiet, or the data of an event is asked for. -/
theorem QuietAt.serve (hm : Counts m) (hmd : md.powerMetaData = m)
    (hd₀ : d₀.detectedAnEvent = false) (h : QuietAt m d₀ l j d i) (hend : i.readEnd ≤ l.length)
    (slot : σ → Event α → Res Fault σ Unit) (o : σ) :
    ∃ d' i', EventDetector.workOnDataPoints C md slot (d, o) (i.slice l) i.nextReadLocation =
        .ok (d', o) i' ∧
      (QuietAt m d₀ l (j + 1) d' i' ∨
        (quietThrough m d₀ ((List.range (j + 1)).map (detectionChunk m d₀ l)) = none ∧
          i'.readNumber = sizeOfInt m.eventLength)) := by
  subst hmd
  have hslice := h.slice_eq
  obtain ⟨⟨id, d₁, hq, rfl⟩, rfl, -⟩ := h
  obtain ⟨hca, hd₁⟩ := quietThrough_keeps hq
  have hM := cast_minDataPointsNeeded md.powerMetaData d₀
  have hp := hm.period
  have hmul : (j + 1) * d₀.minDataPointsNeeded md.powerMetaData =
      j * d₀.minDataPointsNeeded md.powerMetaData + d₀.minDataPointsNeeded md.powerMetaData :=
    Nat.succ_mul _ _
  have hlen := length_readInfos_slice (Int.natCast_nonneg _) hend
  rw [hslice] at hlen ⊢
  simp only [NextReadInfos.readEnd] at hend hlen
  obtain ⟨rms, b, hdet⟩ := detectEvent_ok hp
    (hlen.trans (minDataPointsNeeded_congr hca md.powerMetaData).symm)
  have hsucc := quietThrough_succ md.powerMetaData d₀ (detectionChunk md.powerMetaData d₀ l) j
  rw [hq] at hsucc
  have hdet' := detectEvent_congr md.powerMetaData d₁ id (detectionChunk md.powerMetaData d₀ l j)
  rw [hdet] at hdet'
  have hne : detectionChunk md.powerMetaData d₀ l j ≠ [] := List.ne_nil_of_length_pos (by omega)
  refine ⟨_, _, workOnDataPoints_detect (C := C) (d := d₁.setRequested id) slot o _ hne
    (hd₁.trans hd₀) hdet', ?_⟩
  cases b with
  | false =>
    refine Or.inl ⟨⟨_, { d₁ with previousRms := rms }, hsucc.trans ?_, rfl⟩, ?_, by omega⟩
    · simp [quietThrough, hdet]
    have hM₁ := minDataPointsNeeded_congr (show ({ d₁ with previousRms := rms }.setRequested id :
      EventDetector F).compareAfter = d₀.compareAfter from hca) md.powerMetaData
    simp only [Bool.false_eq_true, if_false, getNextDetectionPeriod, request, hm.sizeOfInt_before,
      hM₁, NextReadInfos.mk.injEq, true_and]
    omega
  | true => exact Or.inr ⟨hsucc.trans (by simp [quietThrough, hdet]), rfl⟩

end

/-! ## The sizes of the buffer -/

section
variable {m : PowerMetaData} {d₀ : EventDetector F} {l : List α} {k maxSize : ℕ}
  {x : Slot (AppWorker F σ)}

/-- More than a worker of the app ever reads at once, if no number has wrapped. -/
def maxRead (m : PowerMetaData) (d₀ : EventDetector F) : ℕ :=
  max (max (d₀.minDataPointsNeeded m) m.sampleRate) (m.before + m.ofEvent).toNat

/-- The detector of a slot compares as `d₀` does. -/
def Compares (d₀ : EventDetector F) (x : Slot (AppWorker F σ)) : Prop :=
  match x.worker with
  | .eventDetector s => s.1.compareAfter = d₀.compareAfter
  | .metricProvider _ => True

/-- What the app reads if the sum of the counts does not wrap. -/
theorem bound_appAt (hm : Counts m) (hsum : m.before + m.ofEvent < 2 ^ 31)
    (hx : AppAt m l k x ∧ Compares d₀ x) :
    x.readInfos.readNumber ≤ maxRead m d₀ ∧ x.readInfos.keepNumber ≤ m.before.toNat := by
  obtain ⟨hx, hca⟩ := hx
  have hE := hm.sizeOfInt_eventLength hsum
  obtain ⟨⟨d, o⟩ | ⟨s⟩, i⟩ := x
  · have hM : d.minDataPointsNeeded m = d₀.minDataPointsNeeded m := minDataPointsNeeded_congr hca m
    cases hx with
    | detecting => exact ⟨by simp only [maxRead]; omega, le_rfl⟩
    | eventPending => exact ⟨by simp only [maxRead]; omega, Nat.zero_le _⟩
    | emptyEvent => exact ⟨by simp only [maxRead]; omega, le_rfl⟩
  · obtain ⟨N, rfl, -⟩ := hx
    exact ⟨by simp only [maxRead]; omega, Nat.zero_le _⟩

/-- The first requests end inside the buffer that there is room for. -/
theorem endsWithin_appStart (hm : Counts m) (d : EventDetector F) (o : σ) (p : MetricProvider)
    (hroom : 2 * maxRead m d + m.before.toNat ≤ maxSize) :
    EndsWithin maxSize (appStart m d o p : DataStreamDistributor α (AppWorker F σ)) := by
  have hb := hm.before
  refine forall_mem_appStart.2 ⟨?_, ?_⟩
  · simp only [appStart, getFirstDetectionPeriod, request, NextReadInfos.readEnd, maxRead] at *
    omega
  · simp only [appStart, MetricProvider.nextPeriod, MetricProvider.numberOfDataPointsFetched,
      NextReadInfos.readEnd, maxRead] at *
    omega

end

/-! ## The app on a quiet stream -/

/-- The requests of the workers of the app on a quiet stream. -/
def AppQuiet [FloatArith F] [DataPoint α F] (m : PowerMetaData) (d₀ : EventDetector F) (l : List α)
    (k : ℕ) (x : Slot (AppWorker F σ)) : Prop :=
  match x.worker with
  | .eventDetector s => ∃ j, k = l.length - (m.before.toNat + j * d₀.minDataPointsNeeded m) ∧
      QuietAt m d₀ l j s.1 x.readInfos
  | .metricProvider _ => MetricAt m l.length k x.readInfos

section
variable [FloatArith F] [DataPoint α F] {m : PowerMetaData} {d₀ : EventDetector F} {l : List α}
  {C : CppInt} {md : DynamicStreamMetaData} {slot : σ → Event α → Res Fault σ Unit} {k : ℕ}
  {x x' : Slot (AppWorker F σ)}

variable (slot) in
/-- **Serving a quiet slot** leads to a quiet one, or to a request for the data of an event. -/
theorem AppQuiet.serve (hm : Counts m) (hmd : md.powerMetaData = m)
    (hd₀ : d₀.detectedAnEvent = false) (hx : AppQuiet m d₀ l k x)
    (hend : x.readInfos.readEnd ≤ l.length) :
    ∃ x', serve (AppWorker.workOnDataPoints C md slot) l x = .ok x' () ∧
      ((∃ k', AppQuiet m d₀ l k' x' ∧ k' < k ∧ x.low ≤ x'.low ∧
          x'.readInfos.nextReadLocation ≤ x.readInfos.readEnd) ∨
        (¬ QuietStream m d₀ l ∧ x'.readInfos.readNumber = sizeOfInt m.eventLength)) := by
  have hM := cast_minDataPointsNeeded m d₀
  have hp := hm.period
  obtain ⟨⟨d, o⟩ | ⟨s⟩, i⟩ := x
  · obtain ⟨j, rfl, hx⟩ := hx
    have hmul : (j + 1) * d₀.minDataPointsNeeded m =
      j * d₀.minDataPointsNeeded m + d₀.minDataPointsNeeded m := Nat.succ_mul _ _
    obtain ⟨d', i', hwork, hnext⟩ := hx.serve (C := C) hm hmd hd₀ hend slot o
    refine ⟨_, serve_eventDetector hwork, ?_⟩
    have hi := hx.readInfos
    simp only at hi hend
    rw [hi] at hend
    simp only [NextReadInfos.readEnd] at hend
    rcases hnext with hx' | ⟨hnone, hnumber⟩
    · have hi' := hx'.readInfos
      refine Or.inl ⟨_, ⟨j + 1, rfl, hx'⟩, ?_, ?_, ?_⟩
      · omega
      · simp only [Slot.low, hi, hi', NextReadInfos.firstNeeded]; omega
      · simp only [hi, hi', NextReadInfos.readEnd]; omega
    · refine Or.inr ⟨fun hquiet => ?_, hnumber⟩
      have := hquiet j (by omega)
      rw [hnone] at this
      cases this
  · obtain ⟨k', i', hwork, hx', hk, hlow, hnext⟩ := MetricAt.serve hm hmd hx hend s
    exact ⟨_, serve_metricProvider hwork, Or.inl ⟨k', hx', hk, hlow, hnext⟩⟩

variable (slot) in
/-- On a quiet stream the workers of the app are orderly. -/
theorem orderly_appQuiet (hm : Counts m) (hmd : md.powerMetaData = m)
    (hd₀ : d₀.detectedAnEvent = false) (hquiet : QuietStream m d₀ l) :
    Orderly (AppWorker.workOnDataPoints C md slot) l 0 (AppQuiet m d₀ l) where
  nonneg := by
    rintro k ⟨⟨s⟩ | ⟨s⟩, i⟩ h
    · obtain ⟨j, -, -, rfl, -⟩ := h
      exact Int.natCast_nonneg _
    · obtain ⟨N, rfl, -⟩ := h
      exact Int.natCast_nonneg N
  le := by
    rintro k ⟨⟨s⟩ | ⟨s⟩, i⟩ h
    · obtain ⟨j, -, -, rfl, hle⟩ := h
      exact Int.ofNat_le.2 hle
    · obtain ⟨N, rfl, hN, -⟩ := h
      exact Int.ofNat_le.2 hN
  reach_le := Nat.zero_le _
  serves := by
    intro k x h hend
    obtain ⟨x', hs, ⟨k', hx', hk, hlow, hnext⟩ | ⟨hnot, -⟩⟩ := h.serve (C := C) slot hm hmd
      hd₀ hend
    · exact ⟨k', x', hs, hx', hk, hlow, hnext.trans (le_max_left _ _)⟩
    · exact absurd hquiet hnot

/-- What it reads of a quiet stream. -/
theorem bound_appQuiet (hx : AppQuiet m d₀ l k x) :
    x.readInfos.readNumber ≤ maxRead m d₀ ∧ x.readInfos.keepNumber ≤ m.before.toNat := by
  obtain ⟨⟨d, o⟩ | ⟨s⟩, i⟩ := x
  · obtain ⟨j, -, -, rfl, -⟩ := hx
    exact ⟨by simp only [maxRead]; omega, le_rfl⟩
  · obtain ⟨N, rfl, -⟩ := hx
    exact ⟨by simp only [maxRead]; omega, Nat.zero_le _⟩

theorem Compares.serve (hx : Compares d₀ x)
    (h : serve (AppWorker.workOnDataPoints C md slot) l x = .ok x' ()) : Compares d₀ x' := by
  obtain ⟨⟨d, o⟩ | ⟨s⟩, i⟩ := x
  · rcases workOnDataPoints_cases C md slot d o (i.slice l) i.nextReadLocation with
      ⟨d', o', i', hwork, ha⟩ | ⟨e, d', o', hwork, -⟩ | ⟨hwork, -⟩
    · rw [serve_eventDetector hwork] at h
      cases h
      refine Eq.trans ?_ hx
      cases ha with
      | first => rfl
      | raised => rfl
      | detected _ _ hdet => exact (detectEvent_keeps hdet).1
      | quiet _ _ hdet => exact (detectEvent_keeps hdet).1
    · simp [SmartScreen.serve, callWorker, AppWorker.workOnDataPoints, hwork, Res.lift] at h
    · simp [SmartScreen.serve, callWorker, AppWorker.workOnDataPoints, hwork, Res.lift] at h
  · simp only [SmartScreen.serve, callWorker, AppWorker.workOnDataPoints] at h
    cases hwork : MetricProvider.workOnDataPoints md s (i.slice l) i.nextReadLocation with
    | ok s' i' => rw [hwork] at h; cases h; trivial
    | fault => rw [hwork] at h; cases h
    | timeout => rw [hwork] at h; cases h

variable {maxSize : ℕ}

/-- A stream that is too short for one of the first requests makes the index too
    large. -/
theorem not_inRange_appStart (hm : Counts md.powerMetaData)
    (hslot : ∀ o e, ∃ o', slot o e = .ok o' ()) (d : EventDetector F)
    (hd : d.detectedAnEvent = false) (o : σ) (p : MetricProvider)
    (h : (l.length : ℤ) < md.powerMetaData.before ∨ l.length < md.powerMetaData.sampleRate) :
    ¬ InRange C (AppWorker.workOnDataPoints C md slot) maxSize
        (appStart md.powerMetaData d o p, l) := by
  rintro ⟨hrange, -, -⟩
  have hread := read_appStart C hm h d o p
  have hb := hm.before
  by_cases hB : (l.length : ℤ) < md.powerMetaData.before
  · have := hrange _ _ ⟨[], [], _, _, [], false, hread, rfl, ⟨0, rfl⟩, _, .refl, .refl⟩
    simp only [getIndexInLocalBufferforRead_eq, getFirstDetectionPeriod, request] at this
    omega
  · -- the detector runs to the end of the stream, then the metric provider is tested
    let w : Window l := ⟨0, l.length, Nat.zero_le _, le_rfl⟩
    have hdata : w.data = l := by simp [w, Window.data, slice]
    have hI := orderly_appAt (F := F) hm rfl hslot C l
    have hhead : AtHead (AppAt md.powerMetaData l) w
        (3 * (l.length - md.powerMetaData.before.toNat) + 1)
        ⟨.eventDetector ((d.getFirstDetectionPeriod md.powerMetaData 0).1, o),
          (d.getFirstDetectionPeriod md.powerMetaData 0).2⟩ :=
      ⟨detectorAt_first hm (not_lt.1 hB) d hd, Nat.zero_le _, by
        simp only [getFirstDetectionPeriod, request, w]; omega⟩
    rcases runWorker_or hI.careful (Nat.zero_le _) hhead with ⟨hm', -⟩ | ⟨k', x', b, hr, -⟩
    · exact hI.not_misstep hm'
    rw [hdata] at hr
    have hret := (returns_forEach (steady_runWorker _ _ _)).2 ⟨[(x', b)], .cons hr .nil, rfl, rfl⟩
    have := hrange _ _ ⟨[], [_], _, [], _, _, hread, rfl, hret, _, .refl, .refl⟩
    simp only [getIndexInLocalBufferforRead_eq, MetricProvider.nextPeriod,
      MetricProvider.numberOfDataPointsFetched] at this
    omega

/-- A pass leaves quiet slots quiet, if the sum of the counts wraps and the next pass is in
    range too: the data of an event fits into no buffer. -/
theorem appQuiet_of_returns (hm : Counts m) (hmd : md.powerMetaData = m)
    (hslot : ∀ o e, ∃ o', slot o e = .ok o' ()) (hd₀ : d₀.detectedAnEvent = false)
    (hsum : 2 ^ 31 ≤ m.before + m.ofEvent) (hmax : maxSize < 2 ^ 63) {w w' : Window l} {k' : ℕ}
    {d d' : DataStreamDistributor α (AppWorker F σ)} {q q' : List α} {b : Bool}
    (h : Holds 0 (AppAt m l) w k d q) (hd : d.slots ≠ []) (hfits : EndsWithin maxSize d)
    (hpass : Returns (fun n => loopWorkersOnce C (AppWorker.workOnDataPoints C md slot)
      popRemaining n (d, q)) (d', q') b)
    (h' : Holds 0 (AppAt m l) w' k' d' q') (hfits' : EndsWithin maxSize d')
    (hquiet : ∀ x ∈ d.slots, ∃ k, AppQuiet m d₀ l k x) :
    ∀ x ∈ d'.slots, ∃ k, AppQuiet m d₀ l k x := by
  have hI := orderly_appAt (F := F) hm hmd hslot C l
  obtain ⟨d₁, ys, hread, hret, hfree⟩ := returns_loopWorkersOnce_cases hpass
  obtain ⟨hslots, hlen⟩ := length_le_of_read h hd hI.reach_le hfits hread
  obtain ⟨hys, -⟩ := freeUnusedBuffer_cases hfree
  intro y hy
  obtain ⟨x, hx, hat, hxy, -⟩ :=
    stop_of_mem hread (List.append_nil _).symm hret (y := y) (by dsimp only at hys; rwa [← hys])
  -- a slot stays quiet, or it asks for more than any buffer can hold
  have hy' : (∃ k, AppQuiet m d₀ l k y) ∨ 2 ^ 64 - 2 ^ 31 ≤ y.readInfos.readNumber := by
    refine hxy.inv (I := fun y => (∃ k, AppQuiet m d₀ l k y) ∨
      2 ^ 64 - 2 ^ 31 ≤ y.readInfos.readNumber) (Or.inl (hquiet x (hslots ▸ hx))) ?_
    rintro t t' ht hIt hround
    obtain ⟨w₁, k₁, hpos, hdata, hhead⟩ := (hat t ht).atHead C hI h hd
    rw [hpos, hdata, executeWorkerRound_eq hI.careful hhead] at hround
    by_cases hend : t.readInfos.readEnd ≤ w₁.hi
    swap
    · rw [if_neg hend] at hround
      cases hround
    rw [if_pos hend] at hround
    have hlo := hhead.lo_le_next hI.careful
    have hhi := w₁.hi_le
    rw [hdata, length_data] at hlen
    rcases hIt with ⟨k₂, hIt⟩ | hmuch
    · obtain ⟨t₂, hs, ht₂⟩ := hIt.serve (C := C) slot hm hmd hd₀ (by omega)
      rw [hs] at hround
      cases hround
      rcases ht₂ with ⟨k₃, ht₃, -⟩ | ⟨-, hnumber⟩
      · exact Or.inl ⟨k₃, ht₃⟩
      · exact Or.inr (by rw [hnumber]; exact hm.wrapped_le_sizeOfInt hsum)
    · simp only [NextReadInfos.readEnd] at hend
      omega
  refine hy'.resolve_right fun hmuch => ?_
  obtain ⟨ks, hks, -⟩ := h'.slots
  obtain ⟨k₁, hI', hlow⟩ := exists_of_forall₂ hks hy
  have hle := hfits' y hy
  have hlow' := hI.careful.low_le hI'
  have hpos := h'.pos
  simp only [NextReadInfos.readEnd] at hle
  omega

/-- **Passes that are in range detect no event**, if the sum of the counts wraps. -/
theorem appQuiet_of_passes (hm : Counts m) (hmd : md.powerMetaData = m)
    (hslot : ∀ o e, ∃ o', slot o e = .ok o' ()) (hd₀ : d₀.detectedAnEvent = false)
    (hsum : 2 ^ 31 ≤ m.before + m.ofEvent) (hmax : maxSize < 2 ^ 63) {w : Window l}
    {d : DataStreamDistributor α (AppWorker F σ)} {q : List α} (h : Holds 0 (AppAt m l) w k d q)
    (hd : d.slots ≠ []) (hfirst : ∀ x ∈ d.slots, ∃ k, AppQuiet m d₀ l k x)
    (hrange : ∀ dq, Passes C (AppWorker.workOnDataPoints C md slot) (d, q) dq →
      InRange C (AppWorker.workOnDataPoints C md slot) maxSize dq)
    {dq : DataStreamDistributor α (AppWorker F σ) × List α}
    (hp : Passes C (AppWorker.workOnDataPoints C md slot) (d, q) dq) :
    ∀ x ∈ dq.1.slots, ∃ k, AppQuiet m d₀ l k x := by
  have hI := orderly_appAt (F := F) hm hmd hslot C l
  have hfits : ∀ {dq}, Passes C (AppWorker.workOnDataPoints C md slot) (d, q) dq →
      ∃ (w : Window l) (k : ℕ), Holds 0 (AppAt m l) w k dq.1 dq.2 ∧ dq.1.slots ≠ [] ∧
        EndsWithin maxSize dq.1 := by
    intro dq hp
    obtain ⟨w₁, k₁, h₁, -⟩ := hp.holds hI h hd
    have hne := hp.slots_ne_nil hI h hd
    exact ⟨w₁, k₁, h₁, hne, (h₁.resizeFits_iff C hne).1 (hrange dq hp).resizeFits⟩
  have hinv : Passes C (AppWorker.workOnDataPoints C md slot) (d, q) dq ∧
      ∀ x ∈ dq.1.slots, ∃ k, AppQuiet m d₀ l k x := by
    refine hp.inv (I := fun dq => Passes C (AppWorker.workOnDataPoints C md slot) (d, q) dq ∧
      ∀ x ∈ dq.1.slots, ∃ k, AppQuiet m d₀ l k x) ⟨.refl _, hfirst⟩ ?_
    rintro ⟨d₁, q₁⟩ b ⟨d₂, q₂⟩ hpass ⟨hp₁, hquiet⟩
    have hp₂ : Passes C (AppWorker.workOnDataPoints C md slot) (d, q) (d₂, q₂) := hp₁.next hpass
    obtain ⟨w₁, k₁, h₁, hne₁, hfits₁⟩ := hfits hp₁
    obtain ⟨w₂, k₂, h₂, -, hfits₂⟩ := hfits hp₂
    exact ⟨hp₂,
      appQuiet_of_returns hm hmd hslot hd₀ hsum hmax h₁ hne₁ hfits₁ hpass h₂ hfits₂ hquiet⟩
  exact hinv.2

/-- A detector stays a detector. -/
theorem eventDetector_of_path (h : Path (AppWorker.workOnDataPoints C md slot) l x x')
    (hx : ∃ s, x.worker = .eventDetector s) : ∃ s, x'.worker = .eventDetector s := by
  induction h with
  | refl => exact hx
  | @tail y z _ hstep ih =>
    obtain ⟨s, hs⟩ := ih
    obtain ⟨y, i⟩ := y
    subst hs
    have hserve := hstep.2
    simp only [SmartScreen.serve, callWorker, AppWorker.workOnDataPoints] at hserve
    cases hwork : EventDetector.workOnDataPoints C md slot s (i.slice l) i.nextReadLocation with
    | ok s' i' => rw [hwork] at hserve; cases hserve; exact ⟨s', rfl⟩
    | fault => rw [hwork] at hserve; cases hserve
    | timeout => rw [hwork] at hserve; cases hserve

/-- If all passes are in range and the sum of the counts wraps, the stream is quiet. -/
theorem quietStream_of_inRange (hm : Counts m) (hmd : md.powerMetaData = m)
    (hslot : ∀ o e, ∃ o', slot o e = .ok o' ()) (hd₀ : d₀.detectedAnEvent = false)
    (hsum : 2 ^ 31 ≤ m.before + m.ofEvent) (hmax : maxSize < 2 ^ 63) (hl : m.before ≤ l.length)
    (hs : m.sampleRate ≤ l.length) (o : σ) (p : MetricProvider)
    (hrange : ∀ dq, Passes C (AppWorker.workOnDataPoints C md slot) (appStart m d₀ o p, l) dq →
      InRange C (AppWorker.workOnDataPoints C md slot) maxSize dq) : QuietStream m d₀ l := by
  subst hmd
  have hI := orderly_appAt (F := F) hm rfl hslot C l
  obtain ⟨k, hh⟩ := holds_appStart hm hl hs d₀ hd₀ o p
  have hne : (appStart md.powerMetaData d₀ o p : DataStreamDistributor α _).slots ≠ [] := by
    simp [appStart]
  have hfirst : ∀ x ∈ (appStart md.powerMetaData d₀ o p : DataStreamDistributor α _).slots,
      ∃ k, AppQuiet md.powerMetaData d₀ l k x :=
    forall_mem_appStart.2 ⟨⟨_, 0, rfl, quietAt_first hm hl⟩, _, metricAt_first hs⟩
  obtain ⟨d', q', b, hret, hpath, hend⟩ := returns_loopWorkers C hI hh hne
  have hquiet := appQuiet_of_passes hm rfl hslot hd₀ hsum hmax hh hne hfirst hrange
    (passes_of_whileTrue hret)
  -- the detector has come to the last chunk
  obtain ⟨x, xs, hx, -, hslots⟩ := List.forall₂_cons_left_iff.1 hpath
  have hmem : x ∈ d'.slots := by simp [hslots]
  obtain ⟨s, hs⟩ := eventDetector_of_path hx ⟨_, rfl⟩
  obtain ⟨k', hk'⟩ := hquiet x hmem
  have hend := hend x hmem
  simp only [AppQuiet, hs] at hk'
  obtain ⟨j, -, ⟨id, d₁, hq, -⟩, hi, -⟩ := hk'
  intro J hJ
  refine quietThrough_mono (?_ : J + 1 ≤ j) hq
  by_contra hlt
  have hmul := Nat.mul_le_mul_right (d₀.minDataPointsNeeded md.powerMetaData)
    (show j + 1 ≤ J + 1 by omega)
  have hsucc : (j + 1) * d₀.minDataPointsNeeded md.powerMetaData =
    j * d₀.minDataPointsNeeded md.powerMetaData + d₀.minDataPointsNeeded md.powerMetaData :=
      Nat.succ_mul _ _
  rw [hi] at hend
  simp only [NextReadInfos.readEnd] at hend
  omega

end

/-! ## When buffer accesses are in range -/

/-- **When buffer accesses are in range.**  The meta data of the app is fixed
    before its workers are added, and a deque has room for what the workers ask for.  In every
    pass over a stream every index stays inside the buffer and the pass returns iff the stream
    has the data points stored before an event and those of a second, and the number of data
    points of an event does not overflow or the detector finds none. -/
theorem indices_inRange_iff [FloatArith F] [DataPoint α F] (C : CppInt) (maxSize : ℕ)
    (hmax : maxSize < 2 ^ 63) (md : DynamicStreamMetaData) (hf : 1 ≤ md.powerMetaData.frequency)
    (hs : md.powerMetaData.frequency ≤ md.powerMetaData.sampleRate)
    (hb : 0 ≤ md.powerMetaData.before) (ho : 0 ≤ md.powerMetaData.ofEvent) (threshold : F)
    (compareAfter : ℤ) (p : MetricProvider) (l : List α) :
    let det : EventDetector F := { threshold := threshold, compareAfter := compareAfter }
    2 * maxRead md.powerMetaData det + md.powerMetaData.before.toNat ≤ maxSize →
    ∃ d₀, smartApp C md record (det, []) p = .ok d₀ () ∧
      ((∀ dq, Passes C (AppWorker.workOnDataPoints C md record) (d₀, l) dq →
          InRange C (AppWorker.workOnDataPoints C md record) maxSize dq) ↔
        md.powerMetaData.before ≤ l.length ∧ md.powerMetaData.sampleRate ≤ l.length ∧
          (md.powerMetaData.before + md.powerMetaData.ofEvent < 2 ^ 31 ∨
            QuietStream md.powerMetaData det l)) := by
  intro det hroom
  have hm : Counts md.powerMetaData := ⟨PowerMetaData.dataPointsPerPeriod_pos hf hs, hb, ho⟩
  refine ⟨_, smartApp_eq _ _ _, fun h => ?_, fun ⟨hl, hl', hcount⟩ dq hpasses => ?_⟩
  · have hlong : md.powerMetaData.before ≤ l.length ∧ md.powerMetaData.sampleRate ≤ l.length := by
      by_contra hshort
      have hshort : (l.length : ℤ) < md.powerMetaData.before ∨
          l.length < md.powerMetaData.sampleRate := by omega
      exact not_inRange_appStart hm record_ok _ rfl _ _ hshort (h _ (.refl _))
    refine ⟨hlong.1, hlong.2, or_iff_not_imp_left.2 fun hsum => ?_⟩
    exact quietStream_of_inRange hm rfl record_ok rfl (not_lt.1 hsum) hmax hlong.1 hlong.2 _ _ h
  · have hne : (appStart md.powerMetaData det [] p :
        DataStreamDistributor α (AppWorker F (List (Event α)))).slots ≠ [] := by simp [appStart]
    have hfirst := endsWithin_appStart (α := α) hm det ([] : List (Event α)) p hroom
    rcases hcount with hsum | hquiet
    · have hI := (orderly_appAt (F := F) hm rfl record_ok C l).and
        fun _ _ (hx : Compares det _) => hx.serve
      have hh := holds_appStart_of
        (I := fun k x => AppAt md.powerMetaData l k x ∧ Compares det x) det ([] : List (Event α)) p
        l ⟨detectorAt_first hm hl det rfl, rfl⟩ ⟨metricAt_first hl', trivial⟩
      exact inRange_of_orderly C hI (fun _ _ => bound_appAt hm hsum) hroom hh hne hfirst hpasses
    · have hI := orderly_appQuiet (C := C) record hm rfl rfl hquiet
      have hh := holds_appStart_of (I := AppQuiet md.powerMetaData det l) det
        ([] : List (Event α)) p l ⟨0, rfl, quietAt_first hm hl⟩ (metricAt_first hl')
      exact inRange_of_orderly C hI (fun _ _ => bound_appQuiet) hroom hh hne hfirst hpasses

/-- On an empty stream the index of the metric provider is 12000, the buffer is
    empty. -/
theorem indices_notInRange_empty :
    ∃ d₀, smartApp CppInt.wrapping {} record ({ threshold := (0 : ℚ) }, []) ⟨0, 0⟩ = .ok d₀ () ∧
      ∀ maxSize, ¬ ∀ dq, Passes CppInt.wrapping
          (AppWorker.workOnDataPoints CppInt.wrapping {} record)
          (d₀, ([] : List (DefaultDataPoint ℚ))) dq →
        InRange CppInt.wrapping (AppWorker.workOnDataPoints CppInt.wrapping {} record)
          maxSize dq := by
  refine ⟨_, smartApp_eq _ _ _, fun maxSize h => ?_⟩
  exact not_inRange_appStart ⟨by decide, by decide, by decide⟩ record_ok _ rfl _ _
    (Or.inr (by decide)) (h _ (.refl _))

/-- Periods of two data points and a current that rises twice: the passes come to the end of
    the stream, behind both events. -/
theorem indices_inRange_iff_small :
    let W := AppWorker.workOnDataPoints CppInt.wrapping { powerMetaData := smallMetaData } record
    ∃ d₀, smartApp CppInt.wrapping { powerMetaData := smallMetaData } record
        ({ threshold := (1 : ℚ), compareAfter := 3 }, []) ⟨0, 0⟩ = .ok d₀ () ∧
      (∀ dq, Passes CppInt.wrapping W (d₀, risingCurrent) dq →
        InRange CppInt.wrapping W (2 ^ 60) dq) ∧
      ∃ dq, Passes CppInt.wrapping W (d₀, risingCurrent) dq ∧
        dq.1.slots.map Slot.readInfos = [⟨1, 10, 27⟩, ⟨0, 2, 34⟩] := by
  obtain ⟨d₀, h₀, h⟩ := indices_inRange_iff CppInt.wrapping (2 ^ 60) (by decide)
    { powerMetaData := smallMetaData } (by decide) (by decide) (by decide) (by decide) (1 : ℚ) 3
    ⟨0, 0⟩ risingCurrent (by decide)
  obtain ⟨dq, b, hr, hdq⟩ := Res.exists_of_state? (r := whileTrue (loopWorkersOnce CppInt.wrapping
      (AppWorker.workOnDataPoints CppInt.wrapping { powerMetaData := smallMetaData } record)
      popRemaining) 20 (d₀, risingCurrent))
    (f := fun dq => dq.1.slots.map Slot.readInfos)
    (c := [⟨1, 10, 27⟩, ⟨0, 2, 34⟩]) (by rw [smartApp_eq] at h₀; cases h₀; decide +kernel)
  have hinRange := h.2 ⟨by decide, by decide, Or.inl (by decide)⟩
  exact ⟨d₀, h₀, hinRange, dq, passes_of_whileTrue ⟨20, hr⟩, hdq⟩

end SmartScreen
