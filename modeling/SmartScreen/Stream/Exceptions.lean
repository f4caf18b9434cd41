/-
  A worker that throws.

  The exception leaves `loopWorkersOnce`, which skips the workers behind and does not
  free the buffer; the main loop calls `loopWorkersOnce` again.  The buffer and the
  requests are as before, so the worker is offered the same data points again, if
  that call can read and comes to it.  To read, some request has to reach to the end of the
  buffer: if the first worker has made the buffer longer than it needs to be by now, there
  may be none, and the number of data points needed is negative.  To come to the worker, no
  worker in front may throw at what has been read.

  * `Comes` says where a pass calls which worker, `Offers` with which data points;
  * `not_derailed_iff`: when the next pass goes on as if nothing had happened.
-/
import SmartScreen.Stream.BufferBound

namespace SmartScreen

open Loop

variable {α S Q : Type}

namespace DataStreamDistributor

/-! ## Calls -/

/-- A pass from `dq` comes to worker `k`: its slot is `y`, and `dq₁` are the
    distributor and the queue. -/
def Comes (C : CppInt) (W : DataStreamWorker α S) (pop : Q → ℕ → List α × Q)
    (dq dq₁ : DataStreamDistributor α S × Q) (k : ℕ) (y : Slot S) : Prop :=
  ∃ d xs x zs ys b, readBufferForNextRun C pop dq = .ok (d, dq₁.2) () ∧
    d.slots = xs ++ x :: zs ∧ xs.length = k ∧
    Returns (fun n => forEach (runWorker W d.currentGlobalBufferPos d.dataQueue) n xs) ys b ∧
    EvaluatesAt W d.currentGlobalBufferPos d.dataQueue x y ∧
    dq₁.1 = { d with slots := ys ++ y :: zs }

/-- With the request `i` a worker is called with `dataPoints` at the id `id`. -/
structure Offers (d : DataStreamDistributor α S) (i : NextReadInfos) (dataPoints : List α)
    (id : ℤ) : Prop where
  inBuffer : getIndexInLocalBufferforRead d.currentGlobalBufferPos i + i.readNumber ≤
    d.dataQueue.length
  dataPoints_eq : dataPoints = (d.dataQueue.drop
    (getIndexInLocalBufferforRead d.currentGlobalBufferPos i)).take i.readNumber
  id_eq : id = d.currentGlobalBufferPos + getIndexInLocalBufferforRead d.currentGlobalBufferPos i

/-- A pass from `dq` comes to worker `k` with the slot `y`, and calls it with `dataPoints` at
    the id `id`. -/
def OffersFirst (C : CppInt) (W : DataStreamWorker α S) (pop : Q → ℕ → List α × Q)
    (dq : DataStreamDistributor α S × Q) (k : ℕ) (y : Slot S) (dataPoints : List α) (id : ℤ) :
    Prop :=
  ∃ dq₁, Comes C W pop dq dq₁ k y ∧ Offers dq₁.1 y.readInfos dataPoints id

/-- The workers in front of worker `k` do not throw at what a pass from `dq` reads: their loops
    end. -/
def FrontStops (C : CppInt) (W : DataStreamWorker α S) (pop : Q → ℕ → List α × Q)
    (dq : DataStreamDistributor α S × Q) (k : ℕ) : Prop :=
  ∀ d q, readBufferForNextRun C pop dq = .ok (d, q) () → ∃ ys b,
    Returns (fun n => forEach (runWorker W d.currentGlobalBufferPos d.dataQueue) n (d.slots.take k))
      ys b

section
variable {W : DataStreamWorker α S} {d : DataStreamDistributor α S} {x : Slot S}
  {i : NextReadInfos} {dataPoints : List α} {id : ℤ}

/-- What a request offers, the worker is called with in the next round. -/
theorem Offers.round (h : Offers d x.readInfos dataPoints id) (W : DataStreamWorker α S) :
    executeWorkerRound W d.currentGlobalBufferPos d.dataQueue x =
      (callWorker W x dataPoints id).bind fun x' _ => .ok x' true := by
  have hin := h.inBuffer
  have hidx : getIndexInLocalBufferforRead d.currentGlobalBufferPos x.readInfos ≤
      d.dataQueue.length := by omega
  have hread : x.readInfos.readNumber ≤ sizeSub d.dataQueue.length
      (getIndexInLocalBufferforRead d.currentGlobalBufferPos x.readInfos) := by
    rw [sizeSub_of_le hidx]
    omega
  unfold executeWorkerRound executeWorkerOnce
  dsimp only
  rw [if_pos hread, if_pos hidx, min_eq_left hread, ← h.dataPoints_eq, ← h.id_eq]

/-- More data points at the end of the buffer do not change what is offered. -/
theorem Offers.append (h : Offers d i dataPoints id) (more : List α) (slots : List (Slot S)) :
    Offers { d with slots := slots, dataQueue := d.dataQueue ++ more } i dataPoints id := by
  have hin := h.inBuffer
  refine ⟨?_, ?_, h.id_eq⟩
  · dsimp only
    rw [List.length_append]
    omega
  · dsimp only
    rw [h.dataPoints_eq, List.drop_append_of_le_length (by omega),
      List.take_append_of_le_length]
    rw [List.length_drop]
    omega

/-- What is offered ends inside the buffer. -/
theorem Offers.readEnd_le (h : Offers d i dataPoints id) :
    i.readEnd ≤ d.currentGlobalBufferPos + d.dataQueue.length := by
  have hin := h.inBuffer
  rw [getIndexInLocalBufferforRead_eq] at hin
  unfold NextReadInfos.readEnd
  omega

end

/-! ## The next read -/

section
variable {d : DataStreamDistributor α S}

/-- The number of data points needed is not negative iff some request reaches to the
    end of the buffer. -/
theorem needed_nonneg_iff :
    (∃ needed, d.dataPointsNeededForNextRun = some needed ∧ 0 ≤ needed) ↔
      ∃ x ∈ d.slots, d.currentGlobalBufferPos + d.dataQueue.length ≤ x.readInfos.readEnd := by
  constructor
  · rintro ⟨needed, hneeded, hnonneg⟩
    obtain ⟨m, hm, rfl⟩ := Option.map_eq_some_iff.1 hneeded
    obtain ⟨x, hx, rfl⟩ := List.mem_map.1 (List.max?_eq_some_iff.1 hm).1
    exact ⟨x, hx, by omega⟩
  · rintro ⟨x, hx, hle⟩
    have hmem : x.readInfos.readEnd ∈ d.slots.map fun x => x.readInfos.readEnd :=
      List.mem_map_of_mem hx
    obtain ⟨m, hm⟩ := Option.isSome_iff_exists.1
      (List.isSome_max?_iff.2 (List.ne_nil_of_mem hmem))
    have hmax := (List.max?_eq_some_iff.1 hm).2 _ hmem
    exact ⟨_, by rw [dataPointsNeededForNextRun, hm, Option.map_some], by omega⟩

/-- A number that is not negative can be read. -/
theorem readBufferForNextRun_of_nonneg (C : CppInt) (pop : Q → ℕ → List α × Q) {needed : ℤ}
    (hneeded : d.dataPointsNeededForNextRun = some needed) (hnonneg : 0 ≤ needed)
    (q : Q × List α) :
    ∃ q' more, readBufferForNextRun C (delivering pop) (d, q) =
      .ok ({ d with dataQueue := d.dataQueue ++ more }, q') () := by
  unfold readBufferForNextRun
  simp only [hneeded, C.toSize_of_nonneg hnonneg]
  split_ifs with hzero hneg
  · exact ⟨q, [], by rw [List.append_nil]⟩
  · exact absurd hnonneg (not_le.2 hneg)
  · exact ⟨_, _, rfl⟩

end

/-! ## After the exception -/

theorem set_append_cons {β : Type} {xs zs : List β} {x : β} {k : ℕ} (h : xs.length = k) (y : β) :
    (xs ++ x :: zs).set k y = xs ++ y :: zs := by
  rw [List.set_append_right _ _ h.le, h, Nat.sub_self, List.set_cons_zero]

section
variable {C : CppInt} {W : DataStreamWorker α S} {pop : Q → ℕ → List α × Q}
  {dq dq₁ : DataStreamDistributor α S × (Q × List α)} {k : ℕ} {y : Slot S} {s : S}
  {dataPoints : List α} {id : ℤ}

/-- The exception of a worker leaves the pass. -/
theorem Comes.faults (h : Comes C W (delivering pop) dq dq₁ k y)
    (hoffers : Offers dq₁.1 y.readInfos dataPoints id) {e : Fault}
    (hthrows : W y.worker dataPoints id = .fault e s) :
    Faults (fun n => loopWorkersOnce C W (delivering pop) n dq) e
      ({ dq₁.1 with slots := dq₁.1.slots.set k ⟨s, y.readInfos⟩ }, dq₁.2) := by
  obtain ⟨d₁, q₁⟩ := dq₁
  obtain ⟨d, xs, x, zs, ys, b, hread, hslots, rfl, hret, hy, rfl⟩ := h
  have hround : executeWorkerRound W d.currentGlobalBufferPos d.dataQueue y =
      .fault e ⟨s, y.readInfos⟩ := by
    have hround := hoffers.round W
    dsimp only at hround
    rw [hround]
    unfold callWorker
    rw [hthrows]
    rfl
  -- the slots of the workers in front are left as their loops have left them
  dsimp only
  rw [set_append_cons (hret.length_forEach (steady_runWorker W _ _))]
  have hall : Faults (fun n => executeWorkers W n d) e
      { d with slots := ys ++ ⟨s, y.readInfos⟩ :: zs } := by
    refine Faults.lift _ (s := ys ++ ⟨s, y.readInfos⟩ :: zs) ?_
    rw [hslots]
    exact Faults.forEach (steady_runWorker W _ _) zs hret (hy.faults hround)
  refine .bind_next (.const _) ?_ ⟨0, hread⟩ (hall.lift (·, q₁)).bind
  exact .bind (.lift _ (steady_executeWorkers W _)) fun _ _ => .const _

/-- **A worker that throws does not derail the distributor** exactly if it is not the
    first, or its request or one of a worker behind it reaches to the end of the buffer, and
    the workers in front of it do not throw in their turn at what the queue `q` delivers next.
    Then the buffer shows the stream from its front on, the request is as before, the number of
    data points needed is not negative, and the next pass offers the worker the same data points
    again. -/
theorem not_derailed_iff (hreached : Reached C W pop dq)
    (hkeeps : KeepsContract C W (delivering pop) dq)
    (hcomes : Comes C W (delivering pop) dq dq₁ k y)
    (hoffers : Offers dq₁.1 y.readInfos dataPoints id)
    (hthrows : W y.worker dataPoints id = .fault .exception s) :
    ∃ dq', Faults (fun n => loopWorkersOnce C W (delivering pop) n dq) .exception dq' ∧
      ∀ q, (Sound dq' ∧ dq'.1.slots[k]? = some ⟨s, y.readInfos⟩ ∧
          (∃ needed, dq'.1.dataPointsNeededForNextRun = some needed ∧ 0 ≤ needed) ∧
          OffersFirst C W (delivering pop) (dq'.1, q, dq'.2.2) k ⟨s, y.readInfos⟩ dataPoints id) ↔
        ((k ≠ 0 ∨
            dq₁.1.currentGlobalBufferPos + dq₁.1.dataQueue.length = y.readInfos.readEnd ∨
            ∃ z ∈ dq₁.1.slots.drop (k + 1),
              dq₁.1.currentGlobalBufferPos + dq₁.1.dataQueue.length ≤ z.readInfos.readEnd) ∧
          FrontStops C W (delivering pop) (dq'.1, q, dq'.2.2) k) := by
  have hfaults := hcomes.faults hoffers hthrows
  refine ⟨_, hfaults, fun q => ?_⟩
  have hsound := hreached.sound.throws hkeeps hfaults
  obtain ⟨d₁, q₁⟩ := dq₁
  obtain ⟨d, xs, x, zs, ys, b, hread, hslots, rfl, hret, hy, rfl⟩ := hcomes
  have hlen := hret.length_forEach (steady_runWorker W _ _)
  have hdrop : (ys ++ y :: zs).drop (xs.length + 1) = zs := by
    rw [← hlen, List.drop_append, List.drop_of_length_le (by omega)]
    simp
  have hend := hoffers.readEnd_le
  dsimp only at hend hsound ⊢
  rw [set_append_cons hlen] at hsound ⊢
  rw [hdrop, needed_nonneg_iff]
  have hget : (ys ++ ⟨s, y.readInfos⟩ :: zs)[xs.length]? = some ⟨s, y.readInfos⟩ := by
    rw [← hlen, List.getElem?_append_right le_rfl, Nat.sub_self, List.getElem?_cons_zero]
  have htake : (ys ++ ⟨s, y.readInfos⟩ :: zs).take xs.length = ys := by
    rw [← hlen, List.take_left]
  constructor
  · rintro ⟨-, -, ⟨z, hz, hle⟩, dq₂, ⟨d₂, xs₂, x₂, zs₂, ys₂, b₂, hread₂, hslots₂, hk, hret₂, -⟩, -⟩
    constructor
    · rcases List.mem_append.1 hz with hz | hz
      · have hpos := List.length_pos_of_mem hz
        exact Or.inl (by omega)
      rcases List.mem_cons.1 hz with rfl | hz
      · exact Or.inr (Or.inl (le_antisymm hle hend))
      · exact Or.inr (Or.inr ⟨z, hz, hle⟩)
    · -- that the pass comes to the worker is the end of the loops in front of it
      intro d₃ q₃ hread₃
      rw [hread₂] at hread₃
      cases hread₃
      rw [hslots₂, ← hk, List.take_left]
      exact ⟨ys₂, b₂, hret₂⟩
  · rintro ⟨hcond, hfront⟩
    have hreach : ∃ z ∈ ys ++ ⟨s, y.readInfos⟩ :: zs,
        d.currentGlobalBufferPos + d.dataQueue.length ≤ z.readInfos.readEnd := by
      rcases hcond with hk | heq | ⟨z, hz, hle⟩
      · -- the worker in front has stopped
        obtain ⟨z, hz⟩ := List.exists_mem_of_length_pos (by omega : 0 < ys.length)
        obtain ⟨-, -, -, -, hstop⟩ := stop_of_mem hread hslots hret hz
        have hkept := hreached.sound.kept_of_mem hkeeps hread hslots hret z hz
        refine ⟨z, List.mem_append_left _ hz, (lt_readEnd_of_stop hstop (hkept.trans ?_)).le⟩
        exact z.readInfos.firstNeeded_le
      · exact ⟨_, List.mem_append_right _ List.mem_cons_self, heq.le⟩
      · exact ⟨z, List.mem_append_right _ (List.mem_cons_of_mem _ hz), hle⟩
    refine ⟨hsound, hget, hreach, ?_⟩
    obtain ⟨needed, hneeded, hnonneg⟩ := (needed_nonneg_iff
      (d := { d with slots := ys ++ ⟨s, y.readInfos⟩ :: zs })).2 hreach
    obtain ⟨q', more, hread'⟩ := readBufferForNextRun_of_nonneg C pop hneeded hnonneg (q, q₁.2)
    obtain ⟨ys', b', hret'⟩ := hfront _ _ hread'
    dsimp only at hret'
    rw [htake] at hret'
    exact ⟨(_, q'), ⟨_, ys, ⟨s, y.readInfos⟩, zs, ys', b', hread', rfl, hlen, hret',
      ⟨_, .refl, .refl⟩, rfl⟩, hoffers.append more _⟩

end

/-! ## A smaller request -/

/-- A worker that reads three data points, then the first of them once more; at that
    request it throws. -/
def rereadingWorker : DataStreamWorker α ℕ := fun calls _ _ =>
  match calls with
  | 0 => .ok 1 ⟨0, 3, 0⟩
  | 1 => .ok 2 ⟨0, 1, 0⟩
  | n => .fault .exception n

theorem keepsContract_rereadingWorker {C : CppInt} {pop : Q → ℕ → List α × Q}
    {dq : DataStreamDistributor α ℕ × (Q × List α)}
    (h : ∀ x ∈ dq.1.slots, x.readInfos.firstNeeded = 0) :
    KeepsContract C rereadingWorker (delivering pop) dq := by
  refine keepsContract_of_inv h ?_
  intro x x' dataPoints id hx hcall
  have hx' : x'.readInfos.firstNeeded = 0 := by
    unfold callWorker rereadingWorker at hcall
    rcases hcalls : x.worker with _ | _ | n
    · rw [hcalls] at hcall
      cases hcall
      rfl
    · rw [hcalls] at hcall
      cases hcall
      rfl
    · rw [hcalls] at hcall
      cases hcall
  exact ⟨hx', by rw [hx, hx']⟩

/-- The worker throws at its second request, which is in the middle of the buffer; then
    no more data can be read. -/
theorem smaller_request_derails :
    ∃ (dq dq₁ dq' : DataStreamDistributor ℕ ℕ × (List ℕ × List ℕ)) (y : Slot ℕ)
      (dataPoints : List ℕ) (id : ℤ),
      Reached CppInt.wrapping rereadingWorker popRemaining dq ∧
        KeepsContract CppInt.wrapping rereadingWorker (delivering popRemaining) dq ∧
        Comes CppInt.wrapping rereadingWorker (delivering popRemaining) dq dq₁ 0 y ∧
        Offers dq₁.1 y.readInfos dataPoints id ∧
        rereadingWorker y.worker dataPoints id = .fault .exception y.worker ∧
        Faults (fun n => loopWorkersOnce CppInt.wrapping rereadingWorker (delivering popRemaining)
          n dq) .exception dq' ∧
        dq'.1.dataPointsNeededForNextRun = some (-2) ∧
        ∀ q, ∃ e, readBufferForNextRun CppInt.wrapping (delivering popRemaining)
          (dq'.1, q, dq'.2.2) = .fault e (dq'.1, q, dq'.2.2) := by
  have hreached : Reached CppInt.wrapping rereadingWorker popRemaining
      (({ slots := [⟨1, ⟨0, 3, 0⟩⟩] } : DataStreamDistributor ℕ ℕ), List.range 9, []) := by
    refine ⟨_, .tail .refl (.add (s := 0) rfl ?_)⟩
    rintro s' i ⟨⟩
    exact le_rfl
  have hcomes : Comes CppInt.wrapping rereadingWorker (delivering popRemaining)
      (({ slots := [⟨1, ⟨0, 3, 0⟩⟩] } : DataStreamDistributor ℕ ℕ), List.range 9, [])
      (⟨[⟨2, ⟨0, 1, 0⟩⟩], 0, [0, 1, 2]⟩, [3, 4, 5, 6, 7, 8], [0, 1, 2]) 0 ⟨2, ⟨0, 1, 0⟩⟩ :=
    ⟨⟨[⟨1, ⟨0, 3, 0⟩⟩], 0, [0, 1, 2]⟩, [], _, [], [], false, rfl, rfl, rfl, ⟨0, rfl⟩,
      ⟨_, .refl, .next .refl ⟨0, rfl⟩⟩, rfl⟩
  refine ⟨_, _, _, _, [0], 0, hreached, keepsContract_rereadingWorker ?_, hcomes,
    ⟨by decide, rfl, rfl⟩, rfl, ⟨3, rfl⟩, rfl, fun q => ⟨.undefined, rfl⟩⟩
  simp [NextReadInfos.firstNeeded]

/-! ## A worker that throws at once -/

/-- A counting worker that throws at any data points, if `b`. -/
def throwingWorker : DataStreamWorker α (Bool × ℕ × ℤ) := fun (b, s) dataPoints id =>
  if b ∧ dataPoints ≠ [] then .fault .exception (b, s)
  else (simpleCountingWorker s dataPoints id).lift (b, ·)

theorem keepsContract_throwingWorker {C : CppInt} {pop : Q → ℕ → List α × Q}
    {dq : DataStreamDistributor α (Bool × ℕ × ℤ) × (Q × List α)}
    (h : ∀ x ∈ dq.1.slots, x.readInfos = ⟨0, x.worker.2.1, x.worker.2.2⟩) :
    KeepsContract C throwingWorker (delivering pop) dq := by
  refine keepsContract_of_inv h ?_
  rintro ⟨⟨b, s⟩, i⟩ x' dataPoints id hx hcall
  unfold callWorker throwingWorker at hcall
  dsimp only at hx hcall
  split_ifs at hcall
  cases hcall
  refine ⟨rfl, ?_⟩
  rw [hx]
  simp [NextReadInfos.firstNeeded]

/-- The second of two workers throws at its first three data points.  In the next pass the
    first worker reads two more data points, and the second one is offered the three again. -/
theorem not_derailed_second :
    ∃ dq' : DataStreamDistributor ℕ (Bool × ℕ × ℤ) × (List ℕ × List ℕ),
      dq'.2.1 = [3, 4, 5, 6, 7, 8] ∧ Sound dq' ∧
        dq'.1.slots[1]? = some ⟨(true, 3, 0), ⟨0, 3, 0⟩⟩ ∧
        (∃ needed, dq'.1.dataPointsNeededForNextRun = some needed ∧ 0 ≤ needed) ∧
        OffersFirst CppInt.wrapping throwingWorker (delivering popRemaining)
          (dq'.1, [3, 4, 5, 6, 7, 8], dq'.2.2) 1 ⟨(true, 3, 0), ⟨0, 3, 0⟩⟩ [0, 1, 2] 0 := by
  let slots : List (Slot (Bool × ℕ × ℤ)) :=
    [⟨(false, 2, 0), ⟨0, 2, 0⟩⟩, ⟨(true, 3, 0), ⟨0, 3, 0⟩⟩]
  have hreached : Reached CppInt.wrapping throwingWorker popRemaining
      (({ slots := slots } : DataStreamDistributor ℕ (Bool × ℕ × ℤ)), List.range 9, []) := by
    refine ⟨_, .tail (.tail .refl (.add (s := (false, 2, 0)) rfl ?_))
      (.add (s := (true, 3, 0)) rfl ?_)⟩
    · rintro s' i ⟨⟩
      exact le_rfl
    · rintro s' i ⟨⟩
      exact le_rfl
  have hcomes : Comes CppInt.wrapping throwingWorker (delivering popRemaining)
      (({ slots := slots } : DataStreamDistributor ℕ (Bool × ℕ × ℤ)), List.range 9, [])
      (⟨[⟨(false, 2, 2), ⟨0, 2, 2⟩⟩, ⟨(true, 3, 0), ⟨0, 3, 0⟩⟩], 0, [0, 1, 2]⟩,
        [3, 4, 5, 6, 7, 8], [0, 1, 2]) 1 ⟨(true, 3, 0), ⟨0, 3, 0⟩⟩ :=
    ⟨⟨slots, 0, [0, 1, 2]⟩, [_], _, [], [_], true, rfl, rfl, rfl, ⟨3, rfl⟩, ⟨_, .refl, .refl⟩, rfl⟩
  have hoffers : Offers (⟨[⟨(false, 2, 2), ⟨0, 2, 2⟩⟩, ⟨(true, 3, 0), ⟨0, 3, 0⟩⟩], 0, [0, 1, 2]⟩ :
      DataStreamDistributor ℕ (Bool × ℕ × ℤ)) ⟨0, 3, 0⟩ [0, 1, 2] 0 := ⟨by decide, rfl, rfl⟩
  obtain ⟨dq', hfaults, hiff⟩ := not_derailed_iff hreached
    (keepsContract_throwingWorker (by simp [slots])) hcomes hoffers rfl
  obtain ⟨-, rfl⟩ := hfaults.unique (steady_loopWorkersOnce _ _ _ _) (hcomes.faults hoffers rfl)
  refine ⟨_, rfl, (hiff _).2 ⟨Or.inl one_ne_zero, ?_⟩⟩
  -- the first worker reads the two data points that it asks for
  rintro d q hread
  cases hread
  exact ⟨_, true, 3, rfl⟩

end DataStreamDistributor

end SmartScreen
