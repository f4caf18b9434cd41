/-
  How the loops over the workers end.

  A round stops, calls the worker, or reads outside the buffer
  (`executeWorkerRound_cases`).  What every round keeps holds wherever the loop
  condition is evaluated (`EvaluatesAt.inv`), and where the loops of a worker end, that
  condition is false (`evaluatesAt_of_runWorker`).

  * `returns_loopWorkersOnce_cases` and `faults_loopWorkersOnce_cases` say how a pass ends.
-/
import SmartScreen.Stream.Distributor

namespace SmartScreen

open Loop

variable {α S Q : Type}

namespace DataStreamDistributor

/-! ## One worker -/

section
variable {W : DataStreamWorker α S} {pos : ℤ} {dataQueue : List α} {x x' y : Slot S}

/-- **A round** stops at a request that does not end inside the buffer, reads outside
    the buffer, or calls the worker with as much data as it asked for. -/
theorem executeWorkerRound_cases (W : DataStreamWorker α S) (pos : ℤ) (dataQueue : List α)
    (x : Slot S) :
    (executeWorkerRound W pos dataQueue x = .ok x false ∧
        (pos ≤ x.readInfos.nextReadLocation → pos + dataQueue.length < x.readInfos.readEnd)) ∨
      (pos + dataQueue.length < x.readInfos.nextReadLocation ∧
        executeWorkerRound W pos dataQueue x = .fault .undefined x) ∨
      ∃ dataPoints, dataPoints.length = x.readInfos.readNumber ∧
        max x.readInfos.nextReadLocation pos + x.readInfos.readNumber ≤ pos + dataQueue.length ∧
        executeWorkerRound W pos dataQueue x =
          (callWorker W x dataPoints (max x.readInfos.nextReadLocation pos)).bind
            fun x' _ => .ok x' true := by
  have hid : pos + (getIndexInLocalBufferforRead pos x.readInfos : ℕ) =
      max x.readInfos.nextReadLocation pos := by
    rw [getIndexInLocalBufferforRead_eq]
    omega
  unfold executeWorkerRound executeWorkerOnce NextReadInfos.readEnd
  dsimp only
  split_ifs with hread hidx
  · right; right
    rw [sizeSub_of_le hidx] at hread ⊢
    refine ⟨_, ?_, ?_, by rw [hid]⟩
    · rw [List.length_take, List.length_drop]
      omega
    · omega
  · right; left
    exact ⟨by omega, rfl⟩
  · left
    refine ⟨rfl, fun hpos => ?_⟩
    by_cases hidx : getIndexInLocalBufferforRead pos x.readInfos ≤ dataQueue.length
    · rw [sizeSub_of_le hidx] at hread
      omega
    · omega

theorem eq_of_stop (h : executeWorkerRound W pos dataQueue x = .ok x' false) : x' = x := by
  rcases executeWorkerRound_cases W pos dataQueue x with
    ⟨hstop, -⟩ | ⟨-, hfault⟩ | ⟨dataPoints, -, -, hcall⟩
  · rw [hstop] at h
    cases h
    rfl
  · rw [hfault] at h
    cases h
  · rw [hcall] at h
    obtain ⟨_, _, -, h⟩ := Res.bind_eq_ok.1 h
    cases h

/-- **A worker stops at a request that does not end inside the buffer.** -/
theorem lt_readEnd_of_stop (h : executeWorkerRound W pos dataQueue x = .ok x' false)
    (hpos : pos ≤ x.readInfos.nextReadLocation) :
    pos + dataQueue.length < x.readInfos.readEnd := by
  rcases executeWorkerRound_cases W pos dataQueue x with
    ⟨-, hend⟩ | ⟨-, hfault⟩ | ⟨dataPoints, -, -, hcall⟩
  · exact hend hpos
  · rw [hfault] at h
    cases h
  · rw [hcall] at h
    obtain ⟨_, _, -, h⟩ := Res.bind_eq_ok.1 h
    cases h

/-- A round that goes on is a call of the worker. -/
theorem callWorker_of_round (h : executeWorkerRound W pos dataQueue x = .ok x' true) :
    ∃ dataPoints id, callWorker W x dataPoints id = .ok x' () := by
  rcases executeWorkerRound_cases W pos dataQueue x with
    ⟨hstop, -⟩ | ⟨-, hfault⟩ | ⟨dataPoints, -, -, hcall⟩
  · rw [hstop] at h
    cases h
  · rw [hfault] at h
    cases h
  · rw [hcall] at h
    obtain ⟨_, ⟨⟩, hwork, h⟩ := Res.bind_eq_ok.1 h
    cases h
    exact ⟨dataPoints, _, hwork⟩

/-- A round leaves the request at which it faults. -/
theorem readInfos_of_fault {e : Fault}
    (h : executeWorkerRound W pos dataQueue x = .fault e x') : x'.readInfos = x.readInfos := by
  rcases executeWorkerRound_cases W pos dataQueue x with
    ⟨hstop, -⟩ | ⟨-, hfault⟩ | ⟨dataPoints, -, -, hcall⟩
  · rw [hstop] at h
    cases h
  · rw [hfault] at h
    cases h
    rfl
  · rw [hcall] at h
    rcases Res.bind_eq_fault.1 h with hwork | ⟨_, _, -, h⟩
    · unfold callWorker at hwork
      split at hwork <;> cases hwork
      rfl
    · cases h

/-- What holds of a slot and is kept by its rounds holds wherever the loop condition
    is evaluated. -/
theorem EvaluatesAt.inv {I : Slot S → Prop} (h : EvaluatesAt W pos dataQueue x y) (hx : I x)
    (hI : ∀ y y', EvaluatesAt W pos dataQueue x y → I y →
      executeWorkerRound W pos dataQueue y = .ok y' true → I y') : I y := by
  obtain ⟨z, hz, hzy⟩ := h
  have hrounds : ∀ {t u : Slot S}, Heads (executeWorkerWhileDataInBuffer W pos dataQueue) x t →
      I t → Heads (fun _ => executeWorkerRound W pos dataQueue) t u → I u := by
    intro t u ht hIt hu
    induction hu with
    | refl => exact hIt
    | next hu hret ih => exact hI _ _ ⟨t, ht, hu⟩ ih (returns_const.1 hret)
  refine hrounds hz ?_ hzy
  clear hzy
  induction hz with
  | refl => exact hx
  | next ht hret ih =>
    obtain ⟨u, hu, hstop⟩ := hret.heads_of_whileTrue
    obtain rfl := eq_of_stop (returns_const.1 hstop)
    exact hrounds ht ih hu

/-- Where the loops of a worker end, their condition was evaluated and is false. -/
theorem evaluatesAt_of_runWorker {b : Bool}
    (h : Returns (fun n => runWorker W pos dataQueue n x) x' b) :
    EvaluatesAt W pos dataQueue x x' ∧ executeWorkerRound W pos dataQueue x' = .ok x' false := by
  obtain ⟨z, hz, hstop⟩ := h.heads_of_whileTrue
  obtain ⟨-, hround⟩ | ⟨hb, -⟩ := hstop.of_whileTrue
  · have hround := returns_const.1 hround
    obtain rfl := eq_of_stop hround
    exact ⟨⟨_, hz, .refl⟩, hround⟩
  · cases hb

theorem evaluatesAt_of_faults {e : Fault}
    (h : Faults (fun n => runWorker W pos dataQueue n x) e x') :
    ∃ y, EvaluatesAt W pos dataQueue x y ∧ executeWorkerRound W pos dataQueue y = .fault e x' := by
  obtain ⟨z, hz, hfault⟩ := h.heads_of_whileTrue
  obtain ⟨y, hy, hround⟩ := hfault.heads_of_whileTrue
  exact ⟨y, ⟨z, hz, hy⟩, faults_const.1 hround⟩

/-- A fault in a round is one of the loops. -/
theorem EvaluatesAt.faults {e : Fault} (h : EvaluatesAt W pos dataQueue x y)
    (hround : executeWorkerRound W pos dataQueue y = .fault e x') :
    Faults (fun n => runWorker W pos dataQueue n x) e x' := by
  obtain ⟨z, hz, hzy⟩ := h
  exact .whileTrue_of_heads (steady_executeWorkerWhileDataInBuffer W _ _) hz
    (.whileTrue_of_heads (steady_executeWorkerRound W _ _) hzy ⟨0, hround⟩)

end

/-! ## How a pass ends -/

section
variable {C : CppInt} {W : DataStreamWorker α S} {pop : Q → ℕ → List α × Q}
  {dq dq' : DataStreamDistributor α S × Q}

/-- A pass returns after all workers have stopped and the buffer was freed. -/
theorem returns_loopWorkersOnce_cases {b : Bool}
    (h : Returns (fun n => loopWorkersOnce C W pop n dq) dq' b) :
    ∃ d₁ ys, readBufferForNextRun C pop dq = .ok (d₁, dq'.2) () ∧
      Returns (fun n => forEach (runWorker W d₁.currentGlobalBufferPos d₁.dataQueue) n d₁.slots)
        ys b ∧
      freeUnusedBuffer { d₁ with slots := ys } = .ok dq'.1 () := by
  obtain ⟨⟨d₁, q₁⟩, ⟨⟩, hread, h⟩ := h.of_bind
  obtain ⟨⟨d₂, q₂⟩, c, hworkers, h⟩ := h.of_bind
  obtain ⟨⟨d₃, q₃⟩, ⟨⟩, hfree, h⟩ := h.of_bind
  obtain ⟨d₂', hrun, hd₂⟩ := returns_lift.1 hworkers
  obtain ⟨rfl, rfl⟩ := Prod.mk.inj hd₂
  obtain ⟨ys, hforEach, rfl⟩ := returns_lift.1 hrun
  obtain ⟨d₃', hfreed, hd₃⟩ := returns_lift.1 hfree
  obtain ⟨rfl, rfl⟩ := Prod.mk.inj hd₃
  cases returns_const.1 h
  exact ⟨d₁, ys, returns_const.1 hread, hforEach, returns_const.1 hfreed⟩

/-- A pass faults when it reads, in a round of a worker after those before it have
    stopped, or because it frees more than there is. -/
theorem faults_loopWorkersOnce_cases {e : Fault}
    (h : Faults (fun n => loopWorkersOnce C W pop n dq) e dq') :
    readBufferForNextRun C pop dq = .fault e dq' ∨
      (∃ d₁ xs x zs ys c y x', readBufferForNextRun C pop dq = .ok (d₁, dq'.2) () ∧
        d₁.slots = xs ++ x :: zs ∧
        Returns (fun n => forEach (runWorker W d₁.currentGlobalBufferPos d₁.dataQueue) n xs) ys c ∧
        EvaluatesAt W d₁.currentGlobalBufferPos d₁.dataQueue x y ∧
        executeWorkerRound W d₁.currentGlobalBufferPos d₁.dataQueue y = .fault e x' ∧
        dq'.1 = { d₁ with slots := ys ++ x' :: zs }) ∨
      e = .undefined := by
  rcases h.of_bind with hread | ⟨⟨d₁, q₁⟩, ⟨⟩, hread, h⟩
  · exact Or.inl (faults_const.1 hread)
  rcases h.of_bind with hworkers | ⟨⟨d₂, q₂⟩, c, -, h⟩
  · obtain ⟨d₂, hrun, rfl⟩ := hworkers.of_lift
    obtain ⟨zs', hforEach, rfl⟩ := hrun.of_lift
    obtain ⟨xs, x, zs, ys, c, x', hslots, rfl, hret, hfault⟩ :=
      hforEach.of_forEach (steady_runWorker W _ _)
    obtain ⟨y, hy, hround⟩ := evaluatesAt_of_faults hfault
    exact Or.inr (Or.inl ⟨d₁, xs, x, zs, ys, c, y, x', returns_const.1 hread, hslots, hret, hy,
      hround, rfl⟩)
  · rcases h.of_bind with hfree | ⟨_, _, -, h⟩
    · obtain ⟨d₃, hfreed, -⟩ := hfree.of_lift
      have hfree := faults_const.1 hfreed
      unfold freeUnusedBuffer at hfree
      dsimp only at hfree
      split at hfree
      · cases hfree
        exact Or.inr (Or.inr rfl)
      · split_ifs at hfree
        cases hfree
        exact Or.inr (Or.inr rfl)
    · cases faults_const.1 h

/-- A slot that the loops have left was evaluated in the pass, and its worker has stopped. -/
theorem stop_of_mem {d₁ : DataStreamDistributor α S} {q₁ : Q} {xs zs ys : List (Slot S)} {c : Bool}
    (hread : readBufferForNextRun C pop dq = .ok (d₁, q₁) ()) (hslots : d₁.slots = xs ++ zs)
    (hret : Returns (fun n => forEach (runWorker W d₁.currentGlobalBufferPos d₁.dataQueue) n xs)
      ys c) {y : Slot S} (hy : y ∈ ys) :
    ∃ x ∈ d₁.slots, (∀ t, EvaluatesAt W d₁.currentGlobalBufferPos d₁.dataQueue x t →
        LoopEvaluatesAt C W pop dq d₁ t) ∧
      EvaluatesAt W d₁.currentGlobalBufferPos d₁.dataQueue x y ∧
      executeWorkerRound W d₁.currentGlobalBufferPos d₁.dataQueue y = .ok y false := by
  obtain ⟨xs₁, x, xs₂, ys₁, c₁, b, rfl, hret₁, hrun⟩ :=
    hret.of_mem_forEach (steady_runWorker W _ _) hy
  obtain ⟨hat, hstop⟩ := evaluatesAt_of_runWorker hrun
  refine ⟨x, by simp [hslots], fun t ht => ?_, hat, hstop⟩
  exact ⟨q₁, xs₁, x, xs₂ ++ zs, ys₁, c₁, hread, by simpa using hslots, hret₁, ht⟩

end

end DataStreamDistributor

end SmartScreen
