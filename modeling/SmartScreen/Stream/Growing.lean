/-
  Reference runs on a stream that grows.

  A worker that obeys the contract never asks for anything before the stream, so what it
  has been served on a stream it is also served on a longer one (`Started.append`).
-/
import SmartScreen.Stream.Refinement

namespace SmartScreen

open Window

variable {α S : Type} {W : DataStreamWorker α S} {l : List α} {p : S × ℤ}

theorem slice_append_of_le {a b : ℕ} (h : b ≤ l.length) (more : List α) :
    slice (l ++ more) a b = slice l a b := by
  rw [slice, slice]
  rcases Nat.le_total a l.length with ha | ha
  · rw [List.drop_append_of_le_length ha, List.take_append_of_le_length]
    rw [List.length_drop]
    omega
  · rw [Nat.sub_eq_zero_of_le (h.trans ha), List.take_zero, List.take_zero]

/-- What is served on a stream is served on a longer one. -/
theorem Step.append {x x' : Slot S} (h : Step W l x x') (hnonneg : 0 ≤ x.readInfos.nextReadLocation)
    (more : List α) : Step W (l ++ more) x x' := by
  obtain ⟨hend, hserve⟩ := h
  have hslice : x.readInfos.slice (l ++ more) = x.readInfos.slice l := by
    rw [NextReadInfos.readEnd] at hend
    exact slice_append_of_le (by omega) more
  refine ⟨hend.trans ?_, ?_⟩
  · rw [List.length_append]
    omega
  · rw [serve, hslice]
    exact hserve

/-- A worker that obeys the contract asks for nothing before the stream, and nothing
    behind its end. -/
theorem ObeysContract.bounds (hc : ObeysContract W l p.1 p.2) (hp : 0 ≤ p.2) {s' : S}
    {i : NextReadInfos} (hs : W p.1 [] p.2 = .ok s' i) {x : Slot S} (hx : Path W l ⟨s', i⟩ x) :
    0 ≤ x.readInfos.firstNeeded ∧ x.readInfos.nextReadLocation ≤ l.length := by
  induction hx with
  | refl =>
    obtain ⟨hfirst, hle⟩ := hc.first hs
    exact ⟨hp.trans hfirst, hle⟩
  | tail hpath hstep ih =>
    obtain ⟨hkeep, hnext⟩ := hc.next hs hpath hstep
    exact ⟨ih.1.trans hkeep, hnext.trans hstep.1⟩

theorem Started.append {x : Slot (Traced α S)} (hc : ObeysContract W l p.1 p.2) (hp : 0 ≤ p.2)
    (h : Started W l p x) (more : List α) : Started W (l ++ more) p x := by
  obtain ⟨s', i, hs, hpath⟩ := h
  refine ⟨s', i, hs, ?_⟩
  induction hpath with
  | refl => exact .refl
  | @tail y z hy hstep ih =>
    obtain ⟨s'', i', hs', hbase⟩ := Started.base ⟨s', i, hs, hy⟩
    have hnonneg : 0 ≤ y.readInfos.nextReadLocation :=
      (hc.bounds hp hs' hbase).1.trans (NextReadInfos.firstNeeded_le _)
    exact ih.tail (hstep.append hnonneg more)

/-- What is left of a reference run. -/
theorem Reference.of_reached {x y : Slot S} {calls : List (Call α S)} (h : Reference W l x calls)
    (hy : Path W l x y) : ∃ calls', Reference W l y calls' := by
  induction hy using Relation.ReflTransGen.head_induction_on generalizing calls with
  | refl => exact ⟨calls, h⟩
  | head hstep _ ih =>
    cases h with
    | stop hx => exact absurd hstep.1 (not_le.2 hx)
    | serve hstep' hr =>
      obtain rfl := hstep.unique hstep'
      exact ih hr

/-- A worker that obeys the contract and has a finite reference run, wherever it is. -/
theorem Started.obeying {x : Slot (Traced α S)} (hc : ObeysContract W l p.1 p.2) (hp : 0 ≤ p.2)
    (hr : ∃ calls, RunsAlone W l p.1 p.2 calls) (h : Started W l p x) :
    ∃ k, Obeying W l k x := by
  obtain ⟨s', i, hs, hpath⟩ := h.base
  obtain ⟨hnonneg, hle⟩ := hc.bounds hp hs hpath
  obtain ⟨_, s'', i', calls', hs', hr', -⟩ := hr
  rw [hs] at hs'
  cases hs'
  obtain ⟨calls, hcalls⟩ := hr'.of_reached hpath
  exact ⟨calls.length, ⟨p, h, hc⟩, hnonneg, hle, calls, hcalls, rfl⟩

/-- The calls that are recorded, and those of the rest of the reference run. -/
theorem Reference.of_path_append {x y : Slot (Traced α S)} {more : List (Call α S)}
    (h : Path (traced W) l x y) (hy : Reference W l y.base more) :
    ∃ calls, Reference W l x.base calls ∧ y.worker.calls ++ more = x.worker.calls ++ calls := by
  induction h using Relation.ReflTransGen.head_induction_on with
  | refl => exact ⟨more, hy, rfl⟩
  | head hs _ ih =>
    obtain ⟨calls, hr, hc⟩ := ih
    obtain ⟨hs, hc'⟩ := step_traced.1 hs
    exact ⟨_, .serve hs hr, by rw [hc, hc']; simp⟩

/-- The calls so far, and those of a reference run from here on. -/
theorem Started.runsAlone_of_reference {x : Slot (Traced α S)} {more : List (Call α S)}
    (h : Started W l p x) (hmore : Reference W l x.base more) :
    RunsAlone W l p.1 p.2 (x.worker.calls ++ more) := by
  obtain ⟨s', i, hs, hpath⟩ := h
  obtain ⟨calls, hcalls, heq⟩ := Reference.of_path_append hpath hmore
  exact ⟨s', i, calls, hs, hcalls, heq⟩

/-- What a worker has been called with is the start of its reference run. -/
theorem Started.runsAlone_append {x : Slot (Traced α S)}
    (hr : ∃ calls, RunsAlone W l p.1 p.2 calls) (h : Started W l p x) :
    ∃ more, RunsAlone W l p.1 p.2 (x.worker.calls ++ more) := by
  obtain ⟨s', i, hs, hbase⟩ := h.base
  obtain ⟨_, t, j, calls', ht, hr', -⟩ := hr
  rw [hs] at ht
  cases ht
  obtain ⟨more, hmore⟩ := hr'.of_reached hbase
  exact ⟨more, h.runsAlone_of_reference hmore⟩

end SmartScreen
