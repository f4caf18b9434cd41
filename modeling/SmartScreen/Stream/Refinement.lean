/-
  The distributor refines running each worker alone.

  A `Session` adds workers and makes passes, in any order.  Whenever its passes
  are repeated until one returns false, this ends, and every worker has then
  seen the calls of its reference run (`loopWorkersOnce_refines`).
-/
import SmartScreen.Stream.DistributorSpec

namespace SmartScreen

open Loop Window DataStreamDistributor

variable {α S : Type}

/-- A distributor with its queue after workers were added and passes were made.
    The list has the workers with the ids they were added at. -/
inductive Session (C : CppInt) (W : DataStreamWorker α S) (l : List α) :
    List (S × ℤ) → DataStreamDistributor α (Traced α S) × List α → Prop
  | start : Session C W l [] ({}, l)
  | add {ws : List (S × ℤ)} {d d' : DataStreamDistributor α (Traced α S)} {q : List α} {s : S} :
      Session C W l ws (d, q) → addWorker (traced W) d ⟨s, []⟩ = .ok d' () →
      Session C W l (ws ++ [(s, d.currentGlobalBufferPos)]) (d', q)
  | loop {ws : List (S × ℤ)} {dq dq' : DataStreamDistributor α (Traced α S) × List α} {b : Bool} :
      Session C W l ws dq →
      Returns (fun n => loopWorkersOnce C (traced W) popRemaining n dq) dq' b →
      Session C W l ws dq'

section
variable {W : DataStreamWorker α S} {l : List α}

/-- The worker `p.1`, added at the id `p.2`, has come to the slot `x`. -/
def Started (W : DataStreamWorker α S) (l : List α) (p : S × ℤ) (x : Slot (Traced α S)) : Prop :=
  ∃ s' i, W p.1 [] p.2 = .ok s' i ∧ Path (traced W) l ⟨⟨s', [⟨p.1, p.2, []⟩]⟩, i⟩ x

theorem Started.trans {p : S × ℤ} {x y : Slot (Traced α S)} (h : Started W l p x)
    (h' : Path (traced W) l x y) : Started W l p y := by
  obtain ⟨s', i, hs, hp⟩ := h
  exact ⟨s', i, hs, hp.trans h'⟩

theorem Started.base {p : S × ℤ} {x : Slot (Traced α S)} (h : Started W l p x) :
    ∃ s' i, W p.1 [] p.2 = .ok s' i ∧ Path W l ⟨s', i⟩ x.base := by
  obtain ⟨s', i, hs, hp⟩ := h
  exact ⟨s', i, hs, hp.lift Slot.base fun _ _ h => (step_traced.1 h).1⟩

theorem Started.runsAlone {p : S × ℤ} {x : Slot (Traced α S)} (h : Started W l p x)
    (hx : (l.length : ℤ) < x.readInfos.readEnd) : RunsAlone W l p.1 p.2 x.worker.calls := by
  obtain ⟨s', i, hs, hp⟩ := h
  obtain ⟨calls, hr, hc⟩ := Reference.of_path hp hx
  exact ⟨s', i, calls, hs, hr, hc⟩

/-! ## Orderly workers -/

/-- The slots of workers that obey the contract; `k` calls of the reference run
    are left. -/
structure Obeying (W : DataStreamWorker α S) (l : List α) (k : ℕ) (x : Slot (Traced α S)) :
    Prop where
  contract : ∃ p : S × ℤ, Started W l p x ∧ ObeysContract W l p.1 p.2
  nonneg : 0 ≤ x.readInfos.firstNeeded
  le : x.readInfos.nextReadLocation ≤ l.length
  left : ∃ calls, Reference W l x.base calls ∧ calls.length = k

theorem orderly_obeying (W : DataStreamWorker α S) (l : List α) :
    Orderly (traced W) l 0 (Obeying W l) where
  nonneg h := h.nonneg.trans (NextReadInfos.firstNeeded_le _)
  le h := h.le
  reach_le := Nat.zero_le _
  serves := by
    intro k x h hend
    obtain ⟨p, hp, hc⟩ := h.contract
    obtain ⟨calls, hr, rfl⟩ := h.left
    cases hr with
    | stop hx => exact absurd hend (not_le.2 hx)
    | @serve _ y calls hs hr =>
      -- the slot after the step, with the call recorded
      let x' : Slot (Traced α S) := ⟨⟨y.worker, x.worker.calls ++ [x.base.call l]⟩, y.readInfos⟩
      have hs' : Step (traced W) l x x' := step_traced.2 ⟨hs, rfl⟩
      obtain ⟨s₀, i₀, h₀, hp₀⟩ := hp.base
      obtain ⟨hkeep, hnext⟩ := hc.next h₀ hp₀ hs
      have hkeep : x.readInfos.firstNeeded ≤ x'.readInfos.firstNeeded := hkeep
      have hnext : x'.readInfos.nextReadLocation ≤ x.readInfos.readEnd := hnext
      refine ⟨calls.length, x', hs'.2, ⟨⟨p, hp.trans (.single hs'), hc⟩, h.nonneg.trans hkeep,
        hnext.trans hend, calls, hr, rfl⟩, by simp, ?_, hnext.trans (le_max_left _ _)⟩
      simp only [Slot.low]; omega

/-- What every session keeps, if its workers obey the contract and have finite
    reference runs. -/
theorem Session.holds {C : CppInt} {ws : List (S × ℤ)}
    {dq : DataStreamDistributor α (Traced α S) × List α} (h : Session C W l ws dq)
    (hws : ∀ p ∈ ws, ObeysContract W l p.1 p.2 ∧ ∃ calls, RunsAlone W l p.1 p.2 calls) :
    ∃ (w : Window l) (k : ℕ), Holds 0 (Obeying W l) w k dq.1 dq.2 ∧
      List.Forall₂ (Started W l) ws dq.1.slots := by
  induction h with
  | start => exact ⟨_, 0, holds_start 0 _ l, .nil⟩
  | @add ws d d' q s _ ha ih =>
    obtain ⟨w, k, hd, hst⟩ := ih fun p hp => hws p (by simp [hp])
    obtain ⟨hc, _, s', i, calls, hs, hr, -⟩ := hws (s, d.currentGlobalBufferPos) (by simp)
    simp only [DataStreamDistributor.addWorker, traced, hs, Res.lift_ok, Res.ok.injEq, and_true]
      at ha
    subst ha
    obtain ⟨hfirst, hle⟩ := hc.first hs
    rw [hd.pos] at hfirst
    let x : Slot (Traced α S) := ⟨⟨s', [⟨s, d.currentGlobalBufferPos, []⟩]⟩, i⟩
    have hx : Started W l (s, d.currentGlobalBufferPos) x := ⟨s', i, hs, .refl⟩
    have hnonneg : 0 ≤ x.readInfos.firstNeeded := le_trans (Int.natCast_nonneg _) hfirst
    refine ⟨w, k + calls.length, hd.append (x := x) ⟨⟨_, hx, hc⟩, hnonneg, hle, calls, hr, rfl⟩
      ?_ ?_, List.rel_append hst (.cons hx .nil)⟩
    · have : (w.lo : ℤ) ≤ x.readInfos.firstNeeded := hfirst
      simp only [Slot.low]; omega
    · exact hnonneg.trans (x.readInfos.firstNeeded_le.trans x.readInfos.nextReadLocation_le)
  | @loop ws dq dq' b _ hr ih =>
    obtain ⟨w, k, hd, hst⟩ := ih hws
    by_cases hnil : dq.1.slots = []
    · -- without workers a pass has no meaning
      obtain ⟨_, hn⟩ := hr
      simp [loopWorkersOnce, readBufferForNextRun, dataPointsNeededForNextRun, hnil] at hn
    · obtain ⟨w', k', d', q', b', hr', hp⟩ :=
        returns_loopWorkersOnce C (orderly_obeying W l) hd hnil
      obtain ⟨rfl, -⟩ := hr.unique (steady_loopWorkersOnce (traced W) C popRemaining dq) hr'
      exact ⟨w', k', hp.holds, forall₂_trans (fun _ _ _ => .trans) hst hp.path⟩

end

/-! ## The worker of the distributor's tests -/

/-- `SimpleCountingWorker`, with its chunk size and the location of its request;
    it does not look at the ids it is given. -/
def simpleCountingWorker : DataStreamWorker α (ℕ × ℤ) := fun s dataPoints _ =>
  let next := s.2 + dataPoints.length
  .ok (s.1, next) ⟨0, s.1, next⟩

/-- Counting workers from the id 0 obey the contract. -/
theorem simpleCountingWorker_obeysContract (l : List α) (c : ℕ) :
    ObeysContract simpleCountingWorker l (c, 0) 0 where
  first := by
    rintro s' i ⟨⟩
    simp [NextReadInfos.firstNeeded]
  next := by
    rintro s' i x x' ⟨⟩ hp ⟨-, hs⟩
    have hx : x.worker.2 = x.readInfos.nextReadLocation := by
      induction hp with
      | refl => simp
      | tail _ ht => obtain ⟨-, ⟨⟩⟩ := ht; rfl
    cases hs
    have hlen := length_slice l x.readInfos.nextReadLocation.toNat
      (x.readInfos.nextReadLocation.toNat + x.readInfos.readNumber)
    simp only [NextReadInfos.firstNeeded, NextReadInfos.readEnd, NextReadInfos.slice, hx, hlen]
    omega

theorem simpleCountingWorker_step {l : List α} {c n : ℕ} (h : n + c ≤ l.length) :
    Step simpleCountingWorker l ⟨(c, (n : ℤ)), ⟨0, c, n⟩⟩
      ⟨(c, ((n + c : ℕ) : ℤ)), ⟨0, c, (n + c : ℕ)⟩⟩ := by
  have hlen : (Window.slice l n (n + c)).length = c := by rw [length_slice_of_le h]; omega
  refine ⟨by simp only [NextReadInfos.readEnd]; omega, ?_⟩
  simp [serve, callWorker, simpleCountingWorker, NextReadInfos.slice, hlen]

/-- A counting worker that asks for data points at all has a finite reference
    run. -/
theorem simpleCountingWorker_runsAlone (l : List α) {c : ℕ} (hc : 1 ≤ c) :
    ∃ calls, RunsAlone simpleCountingWorker l (c, 0) 0 calls := by
  suffices H : ∀ k n : ℕ, l.length ≤ n + k →
      ∃ calls, Reference simpleCountingWorker l ⟨(c, (n : ℤ)), ⟨0, c, n⟩⟩ calls by
    obtain ⟨calls, hr⟩ := H l.length 0 (by omega)
    exact ⟨_, (c, 0), ⟨0, c, 0⟩, calls, rfl, hr, rfl⟩
  intro k
  induction k with
  | zero =>
    intro n hn
    exact ⟨[], .stop (by simp only [NextReadInfos.readEnd]; omega)⟩
  | succ k ih =>
    intro n hn
    by_cases h : n + c ≤ l.length
    · obtain ⟨calls, hr⟩ := ih (n + c) (by omega)
      exact ⟨_, .serve (simpleCountingWorker_step h) hr⟩
    · exact ⟨[], .stop (by simp only [NextReadInfos.readEnd]; omega)⟩

/-! ## Refinement -/

/-- **The distributor refines running each worker alone.**  After any session
    whose workers obey the contract and have finite reference runs, repeating
    `loopWorkersOnce` until it returns false ends, and each worker has then been
    called exactly as if it had run alone on the whole stream. -/
theorem loopWorkersOnce_refines (C : CppInt) (W : DataStreamWorker α S) (l : List α)
    {ws : List (S × ℤ)} {dq : DataStreamDistributor α (Traced α S) × List α}
    (h : Session C W l ws dq) (hne : ws ≠ [])
    (hws : ∀ p ∈ ws, ObeysContract W l p.1 p.2 ∧ ∃ calls, RunsAlone W l p.1 p.2 calls) :
    ∃ dq' b, Returns (fun n => whileTrue (loopWorkersOnce C (traced W) popRemaining) n dq) dq' b ∧
      List.Forall₂ (fun p x => RunsAlone W l p.1 p.2 x.worker.calls) ws dq'.1.slots := by
  obtain ⟨w, k, hd, hst⟩ := h.holds hws
  have hslots : dq.1.slots ≠ [] := by
    intro hnil
    rw [hnil, List.forall₂_nil_right_iff] at hst
    exact hne hst
  obtain ⟨d', q', b, hr, hpath, hend⟩ := returns_loopWorkers C (orderly_obeying W l) hd hslots
  refine ⟨(d', q'), b, hr, ?_⟩
  have hpath' := ((List.forall₂_and_left _ _).2 ⟨hend, hpath.flip⟩).flip
  exact forall₂_trans (fun _ _ _ hx hy => (hx.trans hy.2).runsAlone hy.1) hst hpath'

/-- Two of the counting workers, added to an empty distributor. -/
theorem loopWorkersOnce_refines_counting :
    ∃ dq' b, Returns (fun n => whileTrue (loopWorkersOnce CppInt.wrapping
        (traced simpleCountingWorker) popRemaining) n
        (⟨[⟨⟨(2, 0), [⟨(2, 0), 0, []⟩]⟩, ⟨0, 2, 0⟩⟩, ⟨⟨(3, 0), [⟨(3, 0), 0, []⟩]⟩, ⟨0, 3, 0⟩⟩],
          0, []⟩, [10, 20, 30, 40, 50])) dq' b ∧
      List.Forall₂ (fun p x => RunsAlone simpleCountingWorker [10, 20, 30, 40, 50] p.1 p.2
        x.worker.calls) [((2, 0), 0), ((3, 0), 0)] dq'.1.slots := by
  have h₁ : Session CppInt.wrapping simpleCountingWorker [10, 20, 30, 40, 50] [((2, 0), 0)]
      (⟨[⟨⟨(2, 0), [⟨(2, 0), 0, []⟩]⟩, ⟨0, 2, 0⟩⟩], 0, []⟩, [10, 20, 30, 40, 50]) :=
    .add (s := (2, 0)) .start rfl
  have h₂ := h₁.add (s := (3, 0)) rfl
  refine loopWorkersOnce_refines CppInt.wrapping simpleCountingWorker [10, 20, 30, 40, 50]
    h₂ (by simp) ?_
  intro p hp
  rcases hp with _ | ⟨_, _ | ⟨_, ⟨⟩⟩⟩
  · exact ⟨simpleCountingWorker_obeysContract _ 2, simpleCountingWorker_runsAlone _ (by omega)⟩
  · exact ⟨simpleCountingWorker_obeysContract _ 3, simpleCountingWorker_runsAlone _ (by omega)⟩

end SmartScreen
