/-
  Passes whose buffer accesses are in range.

  The indices of such a pass lie inside the buffer, the size to which it resizes the
  buffer is one that a deque can have, and it returns (`InRange`).

  * `Holds.resizeFits_iff`: the new size reaches from the front of the buffer to the end of
    the last request;
  * `inRange_of_orderly`: orderly workers that read at most `R` data points at once and keep
    at most `K` never need more than `2 * R + K`.
-/
import SmartScreen.Stream.BufferBound
import SmartScreen.Stream.DistributorSpec

namespace SmartScreen

open Loop Window

variable {α S : Type}

namespace DataStreamDistributor

/-- The size to which the next pass resizes the buffer is at most `maxSize`, the
    `max_size()` of the deque.  Otherwise `resize` throws a `length_error`, or the sum of the
    sizes has wrapped. -/
def ResizeFits (C : CppInt) (maxSize : ℕ) (d : DataStreamDistributor α S) : Prop :=
  ∀ needed n, d.dataPointsNeededForNextRun = some needed → C.toSize needed = some n →
    d.dataQueue.length + n ≤ maxSize

/-- The next pass returns; it resizes the buffer to a size that a deque can have, and the
    difference of buffer size and index does not wrap where it is evaluated. -/
structure InRange (C : CppInt) (W : DataStreamWorker α S) (maxSize : ℕ)
    (dq : DataStreamDistributor α S × List α) : Prop where
  index_le : ∀ d' y, LoopEvaluatesAt C W popRemaining dq d' y →
    getIndexInLocalBufferforRead d'.currentGlobalBufferPos y.readInfos ≤ d'.dataQueue.length
  resizeFits : ResizeFits C maxSize dq.1
  returns : ∃ dq' b, Returns (fun n => loopWorkersOnce C W popRemaining n dq) dq' b

section
variable {C : CppInt} {W : DataStreamWorker α S} {l : List α} {r : ℕ} {I : ℕ → Slot S → Prop}
  {w : Window l} {k maxSize R K : ℕ} {d : DataStreamDistributor α S} {q : List α}
  {dq dq' : DataStreamDistributor α S × List α}

/-- No request ends more than `B` data points behind the front of the buffer. -/
def EndsWithin (B : ℕ) (d : DataStreamDistributor α S) : Prop :=
  ∀ x ∈ d.slots, x.readInfos.readEnd ≤ d.currentGlobalBufferPos + B

/-- The new size reaches from the front of the buffer to the end of the last request. -/
theorem Holds.resizeFits_iff (C : CppInt) (h : Holds r I w k d q) (hd : d.slots ≠ []) :
    ResizeFits C maxSize d ↔ EndsWithin maxSize d := by
  obtain ⟨x, hx, hmax, ⟨hge, -⟩, hneeded⟩ := h.dataPointsNeeded hd
  have hsize := C.toSize_of_nonneg (Int.sub_nonneg.2 hge)
  have hlen : d.dataQueue.length = w.hi - w.lo := by rw [h.data, length_data]
  have hw := w.lo_le
  have hpos := h.pos
  constructor
  · intro hfits y hy
    have hle := hfits _ _ hneeded hsize
    have hy := hmax y hy
    omega
  · rintro hwithin needed n hneeded' hn
    rw [hneeded] at hneeded'
    cases hneeded'
    rw [hsize] at hn
    cases hn
    have hle := hwithin x hx
    omega

/-- What was read fits. -/
theorem length_le_of_read (h : Holds r I w k d q) (hd : d.slots ≠ []) (hrl : r ≤ l.length)
    (hfits : EndsWithin maxSize d) {d₁ : DataStreamDistributor α S} {q₁ : List α}
    (hread : readBufferForNextRun C popRemaining (d, q) = .ok (d₁, q₁) ()) :
    d₁.slots = d.slots ∧ d₁.dataQueue.length ≤ maxSize := by
  obtain ⟨w', hlo, -, hread', -, x, hx, hhi⟩ := readBufferForNextRun_eq C hrl h hd
  rw [hread'] at hread
  cases hread
  refine ⟨rfl, ?_⟩
  have hle := hfits x hx
  have hpos := h.pos
  rw [length_data]
  omega

/-- What a pass leaves of a slot: its request starts inside what was read and ends behind it. -/
theorem stopped_of_mem (hI : Orderly W l r I) (h : Holds r I w k d q) (hd : d.slots ≠ [])
    {d₁ : DataStreamDistributor α S} {q₁ : List α} {ys : List (Slot S)} {b : Bool}
    (hread : readBufferForNextRun C popRemaining (d, q) = .ok (d₁, q₁) ())
    (hret : Returns (fun n => forEach (runWorker W d₁.currentGlobalBufferPos d₁.dataQueue) n
      d₁.slots) ys b) {y : Slot S} (hy : y ∈ ys) :
    (∃ k', I k' y) ∧
      y.readInfos.nextReadLocation ≤ d₁.currentGlobalBufferPos + d₁.dataQueue.length ∧
      d₁.currentGlobalBufferPos + d₁.dataQueue.length < y.readInfos.readEnd := by
  obtain ⟨x, -, hat, hy, hstop⟩ := stop_of_mem hread (List.append_nil _).symm hret hy
  obtain ⟨w', k', hpos, hdata, hhead⟩ := (hat y hy).atHead C hI h hd
  have hend := lt_readEnd_of_stop hstop (by rw [hpos]; exact hhead.lo_le_next hI.careful)
  have hle := hhead.le_hi
  have hw' := w'.lo_le
  refine ⟨⟨k', hhead.inv⟩, ?_, hend⟩
  rw [hpos, hdata, length_data]
  omega

/-- **A pass keeps the requests together**: a request ends at most one read behind the
    buffer, and the buffer starts where some request does. -/
theorem endsWithin_of_returns (hI : Orderly W l r I)
    (hbound : ∀ k x, I k x → x.readInfos.readNumber ≤ R ∧ x.readInfos.keepNumber ≤ K)
    (h : Holds r I w k d q) (hd : d.slots ≠ []) {b : Bool}
    (hpass : Returns (fun n => loopWorkersOnce C W popRemaining n (d, q)) dq' b) :
    EndsWithin (2 * R + K) dq'.1 := by
  obtain ⟨d₁, ys, hread, hret, hfree⟩ := returns_loopWorkersOnce_cases hpass
  obtain ⟨hslots, -, x₀, hx₀, -, hpos, -⟩ := freeUnusedBuffer_cases hfree
  dsimp only at hslots hx₀ hpos
  intro y hy
  rw [hslots] at hy
  obtain ⟨⟨k₀, hI₀⟩, -, hend₀⟩ := stopped_of_mem hI h hd hread hret hx₀
  obtain ⟨⟨k', hI'⟩, hle, -⟩ := stopped_of_mem hI h hd hread hret hy
  obtain ⟨hR₀, hK₀⟩ := hbound _ _ hI₀
  obtain ⟨hR, -⟩ := hbound _ _ hI'
  have hfront : x₀.readInfos.firstNeeded ≤ dq'.1.currentGlobalBufferPos := by
    rw [hpos]
    exact le_max_left _ _
  simp only [NextReadInfos.readEnd, NextReadInfos.firstNeeded] at hend₀ hfront ⊢
  omega

/-- So do any number of passes. -/
theorem endsWithin_of_passes (hI : Orderly W l r I)
    (hbound : ∀ k x, I k x → x.readInfos.readNumber ≤ R ∧ x.readInfos.keepNumber ≤ K)
    (hroom : 2 * R + K ≤ maxSize) (h : Holds r I w k d q) (hd : d.slots ≠ [])
    (hfirst : EndsWithin maxSize d) (hp : Passes C W (d, q) dq) : EndsWithin maxSize dq.1 := by
  have hinv : Passes C W (d, q) dq ∧ EndsWithin maxSize dq.1 := by
    refine hp.inv (I := fun dq => Passes C W (d, q) dq ∧ EndsWithin maxSize dq.1)
      ⟨.refl _, hfirst⟩ ?_
    rintro ⟨d₁, q₁⟩ b dq₂ hpass ⟨hp₁, -⟩
    obtain ⟨w₁, k₁, h₁, -⟩ := hp₁.holds hI h hd
    refine ⟨hp₁.next hpass, fun y hy => ?_⟩
    have := endsWithin_of_returns hI hbound h₁ (hp₁.slots_ne_nil hI h hd) hpass y hy
    omega
  exact hinv.2

/-- **The accesses of orderly workers are in range**, if the deque has room for two of their
    reads and what they keep. -/
theorem inRange_of_orderly (C : CppInt) (hI : Orderly W l r I)
    (hbound : ∀ k x, I k x → x.readInfos.readNumber ≤ R ∧ x.readInfos.keepNumber ≤ K)
    (hroom : 2 * R + K ≤ maxSize) (h : Holds r I w k d q) (hd : d.slots ≠ [])
    (hfirst : EndsWithin maxSize d) (hp : Passes C W (d, q) dq) : InRange C W maxSize dq := by
  have hwithin := endsWithin_of_passes hI hbound hroom h hd hfirst hp
  obtain ⟨w', k', hdq, -⟩ := hp.holds hI h hd
  have hne := hp.slots_ne_nil hI h hd
  refine ⟨fun d' y hy => ?_, (hdq.resizeFits_iff C hne).2 hwithin, ?_⟩
  · obtain ⟨w₁, k₁, hpos, hdata, hy⟩ := hy.atHead C hI hdq hne
    rw [hpos, hdata]
    exact hy.index_le hI.careful
  · obtain ⟨w₁, k₁, d', q', b, hr, -⟩ := returns_loopWorkersOnce C hI hdq hne
    exact ⟨(d', q'), b, hr⟩

end

end DataStreamDistributor

end SmartScreen
