/-
  How large the shared buffer gets.

  The calls of `loopWorkersOnce` may return or leave with an exception, which the
  main loop catches, and the queue may deliver what it likes.  A worker is left with
  a request that does not end inside the buffer, and the buffer is freed up to the
  first data point still needed.

  * `Moves` is a step of the main loop, `Sound` its invariant;
  * `buffer_bounded`: the buffer is smaller than the range one worker asks for.
-/
import SmartScreen.Stream.Refinement

namespace SmartScreen

open Loop

variable {α S Q : Type}

namespace DataStreamDistributor

/-! ## Steps of the main loop -/

/-- The queue, with a record of the data points it has delivered. -/
def delivering (pop : Q → ℕ → List α × Q) (q : Q × List α) (n : ℕ) : List α × (Q × List α) :=
  let (dataPoints, q') := pop q.1 n
  (dataPoints, q', q.2 ++ dataPoints)

/-- The contract of `NextReadInfos` in the calls of a pass: no answer asks for data
    in front of what the request before it has kept, nor to keep such data. -/
def KeepsContract (C : CppInt) (W : DataStreamWorker α S) (pop : Q → ℕ → List α × Q)
    (dq : DataStreamDistributor α S × Q) : Prop :=
  ∀ d' y y', LoopEvaluatesAt C W pop dq d' y →
    executeWorkerRound W d'.currentGlobalBufferPos d'.dataQueue y = .ok y' true →
      y.readInfos.firstNeeded ≤ y'.readInfos.firstNeeded

/-- A worker that obeys the contract is added; the queue changes; a pass returns, or
    leaves with an exception. -/
inductive Moves (C : CppInt) (W : DataStreamWorker α S) (pop : Q → ℕ → List α × Q) :
    DataStreamDistributor α S × (Q × List α) → DataStreamDistributor α S × (Q × List α) → Prop
  | add {d d' : DataStreamDistributor α S} {q : Q × List α} {s : S} :
      addWorker W d s = .ok d' () →
      (∀ s' i, W s [] d.currentGlobalBufferPos = .ok s' i →
        d.currentGlobalBufferPos ≤ i.firstNeeded) →
      Moves C W pop (d, q) (d', q)
  | queue {d : DataStreamDistributor α S} {q q' : Q} {stream : List α} :
      Moves C W pop (d, q, stream) (d, q', stream)
  | returns {dq dq' : DataStreamDistributor α S × (Q × List α)} {b : Bool} :
      KeepsContract C W (delivering pop) dq →
      Returns (fun n => loopWorkersOnce C W (delivering pop) n dq) dq' b →
      Moves C W pop dq dq'
  | throws {dq dq' : DataStreamDistributor α S × (Q × List α)} :
      KeepsContract C W (delivering pop) dq →
      Faults (fun n => loopWorkersOnce C W (delivering pop) n dq) .exception dq' →
      Moves C W pop dq dq'

/-- A distributor that was started without workers, on any queue. -/
def Reached (C : CppInt) (W : DataStreamWorker α S) (pop : Q → ℕ → List α × Q)
    (dq : DataStreamDistributor α S × (Q × List α)) : Prop :=
  ∃ q, Relation.ReflTransGen (Moves C W pop) ({}, q, []) dq

/-! ## The passes -/

section
variable {C : CppInt} {W : DataStreamWorker α S} {pop : Q → ℕ → List α × Q}
  {dq : DataStreamDistributor α S × Q}

/-- What a worker asks for while it runs does not lie in front of its first request. -/
theorem KeepsContract.firstNeeded_le (h : KeepsContract C W pop dq) {d₁ : DataStreamDistributor α S}
    {x y : Slot S}
    (hx : ∀ t, EvaluatesAt W d₁.currentGlobalBufferPos d₁.dataQueue x t →
      LoopEvaluatesAt C W pop dq d₁ t)
    (hy : EvaluatesAt W d₁.currentGlobalBufferPos d₁.dataQueue x y) :
    x.readInfos.firstNeeded ≤ y.readInfos.firstNeeded :=
  hy.inv (I := fun y => x.readInfos.firstNeeded ≤ y.readInfos.firstNeeded) le_rfl
    fun t t' ht hle hround => hle.trans (h d₁ t t' (hx t ht) hround)

/-- Freeing ends at the first data point that is still needed, or at the front. -/
theorem freeUnusedBuffer_cases {d d' : DataStreamDistributor α S}
    (h : freeUnusedBuffer d = .ok d' ()) :
    d'.slots = d.slots ∧
      d'.currentGlobalBufferPos + d'.dataQueue.length =
        d.currentGlobalBufferPos + d.dataQueue.length ∧
      ∃ x ∈ d.slots, (∀ y ∈ d.slots, x.readInfos.firstNeeded ≤ y.readInfos.firstNeeded) ∧
        d'.currentGlobalBufferPos = max x.readInfos.firstNeeded d.currentGlobalBufferPos ∧
        d'.dataQueue = d.dataQueue.drop
          (d'.currentGlobalBufferPos - d.currentGlobalBufferPos).toNat := by
  unfold freeUnusedBuffer at h
  cases hmin : (d.slots.map fun x => x.readInfos.firstNeeded).min? with
  | none =>
    simp only [hmin] at h
    cases h
  | some m =>
    obtain ⟨hmem, hle⟩ := List.min?_eq_some_iff.1 hmin
    obtain ⟨x, hx, rfl⟩ := List.mem_map.1 hmem
    have hleast : ∀ y ∈ d.slots, x.readInfos.firstNeeded ≤ y.readInfos.firstNeeded :=
      fun y hy => hle _ (List.mem_map_of_mem hy)
    simp only [hmin] at h
    split_ifs at h with hfront herase
    · cases h
      refine ⟨rfl, rfl, x, hx, hleast, (max_eq_right hfront).symm, ?_⟩
      rw [Int.sub_self, Int.toNat_zero, List.drop_zero]
    · cases h
      refine ⟨rfl, ?_, x, hx, hleast, (max_eq_left (not_le.1 hfront).le).symm, rfl⟩
      dsimp only
      rw [List.length_drop]
      omega

end

/-! ## The invariant of the main loop -/

/-- The buffer shows what was delivered, from its front on, and no slot needs what lies
    in front of it. -/
structure Sound (dq : DataStreamDistributor α S × (Q × List α)) : Prop where
  nonneg : 0 ≤ dq.1.currentGlobalBufferPos
  le : dq.1.currentGlobalBufferPos ≤ dq.2.2.length
  data : dq.1.dataQueue = dq.2.2.drop dq.1.currentGlobalBufferPos.toNat
  kept : ∀ x ∈ dq.1.slots, dq.1.currentGlobalBufferPos ≤ x.readInfos.firstNeeded

section
variable {C : CppInt} {W : DataStreamWorker α S} {pop : Q → ℕ → List α × Q}
  {dq dq' : DataStreamDistributor α S × (Q × List α)} {d d₁ : DataStreamDistributor α S}
  {q₁ : Q × List α}

/-- Reading appends to the buffer what the queue delivers, or changes nothing. -/
theorem readBufferForNextRun_cases (C : CppInt) (pop : Q → ℕ → List α × Q)
    (dq : DataStreamDistributor α S × (Q × List α)) :
    (∃ q dataPoints, readBufferForNextRun C (delivering pop) dq =
        .ok ({ dq.1 with dataQueue := dq.1.dataQueue ++ dataPoints }, q, dq.2.2 ++ dataPoints) ()) ∨
      ∃ e, readBufferForNextRun C (delivering pop) dq = .fault e dq := by
  unfold readBufferForNextRun
  split
  · exact Or.inr ⟨_, rfl⟩
  · split
    · exact Or.inr ⟨_, rfl⟩
    · split_ifs
      · refine Or.inl ⟨dq.2.1, [], ?_⟩
        rw [List.append_nil, List.append_nil]
      · exact Or.inr ⟨_, rfl⟩
      · exact Or.inl ⟨_, _, rfl⟩

theorem slots_readBufferForNextRun
    (hread : readBufferForNextRun C (delivering pop) dq = .ok (d₁, q₁) ()) :
    d₁.slots = dq.1.slots := by
  rcases readBufferForNextRun_cases C pop dq with ⟨q, dataPoints, heq⟩ | ⟨e, heq⟩
  · rw [heq] at hread
    cases hread
    rfl
  · rw [heq] at hread
    cases hread

theorem Sound.read (h : Sound dq)
    (hread : readBufferForNextRun C (delivering pop) dq = .ok (d₁, q₁) ()) :
    Sound (d₁, q₁) ∧
      ∃ dataPoints, d₁ = { dq.1 with dataQueue := dq.1.dataQueue ++ dataPoints } := by
  rcases readBufferForNextRun_cases C pop dq with ⟨q, dataPoints, heq⟩ | ⟨e, heq⟩
  · rw [heq] at hread
    cases hread
    have hle := h.le
    have hnonneg := h.nonneg
    refine ⟨⟨h.nonneg, ?_, ?_, h.kept⟩, dataPoints, rfl⟩
    · dsimp only
      rw [List.length_append]
      omega
    · dsimp only
      rw [h.data, List.drop_append_of_le_length (by omega)]
  · rw [heq] at hread
    cases hread

theorem Sound.free (h : Sound (d, q₁)) (hfree : freeUnusedBuffer d = .ok d₁ ()) :
    Sound (d₁, q₁) := by
  obtain ⟨hslots, hend, x, -, hleast, hpos, hdata⟩ := freeUnusedBuffer_cases hfree
  have hle := h.le
  have hnonneg := h.nonneg
  have hlen := congrArg List.length h.data
  dsimp only at hle hnonneg hlen
  rw [List.length_drop] at hlen
  refine ⟨?_, ?_, ?_, fun y hy => ?_⟩
  · dsimp only
    omega
  · dsimp only
    omega
  · dsimp only
    rw [hdata, h.data, List.drop_drop]
    congr 1
    dsimp only
    omega
  · dsimp only at hy ⊢
    rw [hslots] at hy
    rw [hpos]
    exact max_le (hleast y hy) (h.kept y hy)

/-- In front of the loops, in them and behind them no slot needs what lies in front of
    the buffer. -/
theorem Sound.kept_of_mem (h : Sound dq) (hkeeps : KeepsContract C W (delivering pop) dq)
    (hread : readBufferForNextRun C (delivering pop) dq = .ok (d₁, q₁) ())
    {xs zs ys : List (Slot S)} {c : Bool} (hslots : d₁.slots = xs ++ zs)
    (hret : Returns (fun n => forEach (runWorker W d₁.currentGlobalBufferPos d₁.dataQueue) n xs)
      ys c) : ∀ y ∈ ys, d₁.currentGlobalBufferPos ≤ y.readInfos.firstNeeded := by
  intro y hy
  obtain ⟨x, hx, hat, hxy, -⟩ := stop_of_mem hread hslots hret hy
  exact ((h.read hread).1.kept x hx).trans (hkeeps.firstNeeded_le hat hxy)

theorem Sound.returns (h : Sound dq) (hkeeps : KeepsContract C W (delivering pop) dq) {b : Bool}
    (hpass : Returns (fun n => loopWorkersOnce C W (delivering pop) n dq) dq' b) : Sound dq' := by
  obtain ⟨d₁, ys, hread, hret, hfree⟩ := returns_loopWorkersOnce_cases hpass
  have h₁ := (h.read hread).1
  have hkept := h.kept_of_mem hkeeps hread (by rw [List.append_nil]) hret
  exact Sound.free (d := { d₁ with slots := ys }) ⟨h₁.nonneg, h₁.le, h₁.data, hkept⟩ hfree

theorem Sound.throws (h : Sound dq) (hkeeps : KeepsContract C W (delivering pop) dq)
    (hpass : Faults (fun n => loopWorkersOnce C W (delivering pop) n dq) .exception dq') :
    Sound dq' := by
  rcases faults_loopWorkersOnce_cases hpass with hread |
    ⟨d₁, xs, x, zs, ys, c, y, x', hread, hslots, hret, hy, hround, heq⟩ | he
  · rcases readBufferForNextRun_cases C pop dq with ⟨q, dataPoints, heq⟩ | ⟨e, heq⟩
    · rw [heq] at hread
      cases hread
    · rw [heq] at hread
      cases hread
      exact h
  · have h₁ := (h.read hread).1
    obtain ⟨d', q'⟩ := dq'
    dsimp only at heq hread h₁
    rw [heq]
    refine ⟨h₁.nonneg, h₁.le, h₁.data, fun z hz => ?_⟩
    rcases List.mem_append.1 hz with hz | hz
    · exact h.kept_of_mem hkeeps hread hslots hret z hz
    rcases List.mem_cons.1 hz with rfl | hz
    · -- the request that could not be served
      rw [readInfos_of_fault hround]
      have hx : x ∈ d₁.slots := by simp [hslots]
      refine (h₁.kept x hx).trans (hkeeps.firstNeeded_le (fun t ht => ?_) hy)
      exact ⟨_, xs, x, zs, ys, c, hread, hslots, hret, ht⟩
    · exact h₁.kept z (by simp [hslots, hz])
  · cases he

/-- **The invariant of the main loop.** -/
theorem Reached.sound (h : Reached C W pop dq) : Sound dq := by
  obtain ⟨q, h⟩ := h
  induction h with
  | refl => exact ⟨le_rfl, le_rfl, rfl, by rintro x ⟨⟩⟩
  | tail _ hmove ih =>
    cases hmove with
    | @add d d' q s hadd hfirst =>
      unfold addWorker at hadd
      split at hadd
      · rename_i s' i hwork
        cases hadd
        refine ⟨ih.nonneg, ih.le, ih.data, fun x hx => ?_⟩
        rcases List.mem_append.1 hx with hx | hx
        · exact ih.kept x hx
        · rw [List.mem_singleton.1 hx]
          exact hfirst s' i hwork
      · cases hadd
      · cases hadd
    | queue => exact ⟨ih.nonneg, ih.le, ih.data, ih.kept⟩
    | returns hkeeps hpass => exact ih.returns hkeeps hpass
    | throws hkeeps hpass => exact ih.throws hkeeps hpass

/-! ## The bound -/

/-- **The buffer stays bounded.**  After a pass it has fewer data points than a worker
    with the smallest first needed data point asks to keep and to read, and at least one
    data point is missing for the next pass. -/
theorem buffer_bounded (hreached : Reached C W pop dq)
    (hkeeps : KeepsContract C W (delivering pop) dq) {b : Bool}
    (hpass : Returns (fun n => loopWorkersOnce C W (delivering pop) n dq) dq' b) :
    (∀ x ∈ dq'.1.slots,
        (∀ y ∈ dq'.1.slots, x.readInfos.firstNeeded ≤ y.readInfos.firstNeeded) →
        dq'.1.dataQueue.length < x.readInfos.readNumber + x.readInfos.keepNumber) ∧
      ∃ needed, dq'.1.dataPointsNeededForNextRun = some needed ∧ 1 ≤ needed ∧
        C.toSize needed = some needed.toNat := by
  obtain ⟨d₁, ys, hread, hret, hfree⟩ := returns_loopWorkersOnce_cases hpass
  obtain ⟨hslots, hend, x₀, hx₀, hleast₀, hpos, -⟩ := freeUnusedBuffer_cases hfree
  have hkept := hreached.sound.kept_of_mem hkeeps hread (by rw [List.append_nil]) hret
  -- every worker has stopped
  have hstop : ∀ y ∈ ys,
      d₁.currentGlobalBufferPos + d₁.dataQueue.length < y.readInfos.readEnd := by
    intro y hy
    obtain ⟨-, -, -, -, hround⟩ := stop_of_mem hread (by rw [List.append_nil]) hret hy
    refine lt_readEnd_of_stop hround ((hkept y hy).trans ?_)
    unfold NextReadInfos.firstNeeded
    omega
  dsimp only at hslots hend hx₀ hleast₀ hpos
  rw [hslots]
  constructor
  · intro x hx hleast
    have hlt := hstop x hx
    have hfront : x.readInfos.firstNeeded ≤ dq'.1.currentGlobalBufferPos := by
      rw [hpos]
      exact (hleast x₀ hx₀).trans (le_max_left _ _)
    unfold NextReadInfos.readEnd at hlt
    unfold NextReadInfos.firstNeeded at hfront
    omega
  · obtain ⟨m, hm⟩ : ∃ m, (dq'.1.slots.map fun x => x.readInfos.readEnd).max? = some m := by
      rw [← Option.isSome_iff_exists, List.isSome_max?_iff, hslots]
      exact List.ne_nil_of_mem (List.mem_map_of_mem hx₀)
    have hle : x₀.readInfos.readEnd ≤ m := by
      refine (List.max?_eq_some_iff.1 hm).2 _ ?_
      rw [hslots]
      exact List.mem_map_of_mem hx₀
    have hlt := hstop x₀ hx₀
    have hneeded : dq'.1.dataPointsNeededForNextRun =
        some (m - dq'.1.dataQueue.length - dq'.1.currentGlobalBufferPos) := by
      rw [dataPointsNeededForNextRun, hm, Option.map_some]
    have hone : 1 ≤ m - dq'.1.dataQueue.length - dq'.1.currentGlobalBufferPos := by omega
    exact ⟨_, hneeded, hone, C.toSize_of_nonneg (by omega)⟩

/-- **Workers that never go back** in front of what they have kept, whatever they are
    handed, obey the contract in every pass. -/
theorem keepsContract_of_inv {I : Slot S → Prop} (h : ∀ x ∈ dq.1.slots, I x)
    (hstep : ∀ x x' dataPoints id, I x → callWorker W x dataPoints id = .ok x' () →
      I x' ∧ x.readInfos.firstNeeded ≤ x'.readInfos.firstNeeded) :
    KeepsContract C W (delivering pop) dq := by
  rintro d' y y' ⟨q', xs, x, zs, ys, b, hread, hslots, -, hy⟩ hround
  have hx : I x := by
    refine h x ?_
    rw [← slots_readBufferForNextRun hread, hslots]
    simp
  have hinv : I y := hy.inv hx fun t t' _ hIt ht => by
    obtain ⟨dataPoints, id, hcall⟩ := callWorker_of_round ht
    exact (hstep _ _ _ _ hIt hcall).1
  obtain ⟨dataPoints, id, hcall⟩ := callWorker_of_round hround
  exact (hstep _ _ _ _ hinv hcall).2

end

/-- Counting workers obey the contract in every pass. -/
theorem keepsContract_simpleCountingWorker {C : CppInt} {pop : Q → ℕ → List α × Q}
    {dq : DataStreamDistributor α (ℕ × ℤ) × (Q × List α)}
    (h : ∀ x ∈ dq.1.slots, x.readInfos = ⟨0, x.worker.1, x.worker.2⟩) :
    KeepsContract C simpleCountingWorker (delivering pop) dq := by
  refine keepsContract_of_inv h ?_
  rintro x x' dataPoints id hx ⟨⟩
  refine ⟨rfl, ?_⟩
  rw [hx]
  simp [NextReadInfos.firstNeeded]

/-- Two workers that read three and two data points at a time. -/
theorem buffer_bounded_counting :
    ∃ dq : DataStreamDistributor ℕ (ℕ × ℤ) × (List ℕ × List ℕ), dq.1.slots.length = 2 ∧
      dq.1.dataQueue = [2] ∧
      (∀ x ∈ dq.1.slots, (∀ y ∈ dq.1.slots, x.readInfos.firstNeeded ≤ y.readInfos.firstNeeded) →
        dq.1.dataQueue.length < x.readInfos.readNumber + x.readInfos.keepNumber) ∧
      ∃ needed, dq.1.dataPointsNeededForNextRun = some needed ∧ 1 ≤ needed ∧
        CppInt.wrapping.toSize needed = some needed.toNat := by
  have hreached : Reached CppInt.wrapping simpleCountingWorker popRemaining
      (({ slots := [⟨(3, 0), ⟨0, 3, 0⟩⟩, ⟨(2, 0), ⟨0, 2, 0⟩⟩] } : DataStreamDistributor ℕ (ℕ × ℤ)),
        List.range 5, []) := by
    refine ⟨_, .tail (.tail .refl (.add (s := (3, 0)) rfl ?_)) (.add (s := (2, 0)) rfl ?_)⟩
    · rintro s' i ⟨⟩
      exact le_rfl
    · rintro s' i ⟨⟩
      exact le_rfl
  refine ⟨_, ?_, ?_, buffer_bounded hreached (keepsContract_simpleCountingWorker ?_)
    (b := true) ⟨3, rfl⟩⟩
  · rfl
  · rfl
  · simp

end DataStreamDistributor

end SmartScreen
