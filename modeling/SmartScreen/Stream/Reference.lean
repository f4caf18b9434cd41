/-
  What a worker of the distributor is to see: a reference that runs it alone on
  the whole stream.

  * `Step W l` serves one request out of the stream `l`; `Reference W l x calls`
    is the finite run of the worker in the slot `x` with its calls;
  * `RunsAlone W l s g calls` starts with the call that asks for the first
    request, at the id `g`;
  * `ObeysContract` is what the documentation of `NextReadInfos` asks of a
    worker, `Orderly` the form of it that the distributor needs.  Slots that are
    only `Careful` may leave it, by a fault or a request before the stream.
-/
import SmartScreen.Lib.Window
import SmartScreen.Stream.Distributor

namespace SmartScreen

open Loop Window DataStreamDistributor

variable {α S : Type}

/-! ## Serving from the whole stream -/

/-- The slice that a slot asks for. -/
def NextReadInfos.slice (i : NextReadInfos) (l : List α) : List α :=
  Window.slice l i.nextReadLocation.toNat (i.nextReadLocation.toNat + i.readNumber)

/-- Call the worker of a slot with the slice it asks for. -/
def serve (W : DataStreamWorker α S) (l : List α) (x : Slot S) : Res Fault (Slot S) Unit :=
  callWorker W x (x.readInfos.slice l) x.readInfos.nextReadLocation

/-- The call by which a slot is served. -/
def Slot.call (x : Slot S) (l : List α) : Call α S :=
  ⟨x.worker, x.readInfos.nextReadLocation, x.readInfos.slice l⟩

/-- The stream has all data points that the slot asks for, and the worker
    answers. -/
def Step (W : DataStreamWorker α S) (l : List α) (x x' : Slot S) : Prop :=
  x.readInfos.readEnd ≤ l.length ∧ serve W l x = .ok x' ()

/-- Any number of served requests. -/
abbrev Path (W : DataStreamWorker α S) (l : List α) : Slot S → Slot S → Prop :=
  Relation.ReflTransGen (Step W l)

/-- The reference run from a slot, with its calls: requests are served until the
    stream has too few data points. -/
inductive Reference (W : DataStreamWorker α S) (l : List α) : Slot S → List (Call α S) → Prop
  | stop {x : Slot S} : (l.length : ℤ) < x.readInfos.readEnd → Reference W l x []
  | serve {x x' : Slot S} {calls : List (Call α S)} :
      Step W l x x' → Reference W l x' calls → Reference W l x (x.call l :: calls)

/-- The worker `s`, added at the id `g`, is run alone: `calls` are all its calls. -/
def RunsAlone (W : DataStreamWorker α S) (l : List α) (s : S) (g : ℤ) (calls : List (Call α S)) :
    Prop :=
  ∃ s' i calls', W s [] g = .ok s' i ∧ Reference W l ⟨s', i⟩ calls' ∧ calls = ⟨s, g, []⟩ :: calls'

theorem Step.unique {W : DataStreamWorker α S} {l : List α} {x y z : Slot S} (hy : Step W l x y)
    (hz : Step W l x z) : y = z := by
  simpa [hy.2] using hz.2

/-- A reference run has one sequence of calls. -/
theorem Reference.unique {W : DataStreamWorker α S} {l : List α} {x : Slot S}
    {calls calls' : List (Call α S)} (h : Reference W l x calls) (h' : Reference W l x calls') :
    calls = calls' := by
  induction h generalizing calls' with
  | stop hx =>
    cases h' with
    | stop => rfl
    | serve hs _ => exact absurd hs.1 (not_le.2 hx)
  | serve hs _ ih =>
    cases h' with
    | stop hx => exact absurd hs.1 (not_le.2 hx)
    | serve hs' hr => obtain rfl := hs.unique hs'; rw [ih hr]

/-! ## The contract -/

/-- The contract of `NextReadInfos` for the worker `s` added at the id `g`: it
    asks for nothing before `g` or before what it asked to keep, and for nothing
    beyond the end of the slice it was served last. -/
structure ObeysContract (W : DataStreamWorker α S) (l : List α) (s : S) (g : ℤ) : Prop where
  first : ∀ {s' i}, W s [] g = .ok s' i → g ≤ i.firstNeeded ∧ i.nextReadLocation ≤ l.length
  next : ∀ {s' i x x'}, W s [] g = .ok s' i → Path W l ⟨s', i⟩ x → Step W l x x' →
    x.readInfos.firstNeeded ≤ x'.readInfos.firstNeeded ∧
      x'.readInfos.nextReadLocation ≤ x.readInfos.readEnd

/-- The part of the stream that a slot may still ask for starts here. -/
def Slot.low (x : Slot S) : ℕ := x.readInfos.firstNeeded.toNat

namespace NextReadInfos

theorem firstNeeded_le (i : NextReadInfos) : i.firstNeeded ≤ i.nextReadLocation := by
  simp only [firstNeeded]; omega

theorem nextReadLocation_le (i : NextReadInfos) : i.nextReadLocation ≤ i.readEnd := by
  simp only [readEnd]; omega

end NextReadInfos

section
variable (W : DataStreamWorker α S) (l : List α) (r : ℕ) (I : ℕ → Slot S → Prop)

/-- The worker leaves with a fault, or its next request starts before the stream. -/
def GoesWrong (x : Slot S) : Prop :=
  (∃ e x', serve W l x = .fault e x') ∨
    ∃ x', serve W l x = .ok x' () ∧ x'.readInfos.nextReadLocation < 0

/-- The worker answers with a request that starts where the buffer may reach: it
    always reaches up to `r`. -/
def GoesOn (k : ℕ) (x : Slot S) : Prop :=
  ∃ k' x', serve W l x = .ok x' () ∧ I k' x' ∧ k' < k ∧ x.low ≤ x'.low ∧
    x'.readInfos.nextReadLocation ≤ max x.readInfos.readEnd r

/-- The slots of `I k` lie inside the stream, never go back before `low` and are
    served at most `k` more times, until one goes wrong. -/
structure Careful : Prop where
  nonneg : ∀ {k x}, I k x → 0 ≤ x.readInfos.nextReadLocation
  le : ∀ {k x}, I k x → x.readInfos.nextReadLocation ≤ l.length
  reach_le : r ≤ l.length
  serves : ∀ {k x}, I k x → x.readInfos.readEnd ≤ l.length → GoesWrong W l x ∨ GoesOn W l r I k x

/-- The same of slots that do not go wrong. -/
structure Orderly : Prop where
  nonneg : ∀ {k x}, I k x → 0 ≤ x.readInfos.nextReadLocation
  le : ∀ {k x}, I k x → x.readInfos.nextReadLocation ≤ l.length
  reach_le : r ≤ l.length
  serves : ∀ {k x}, I k x → x.readInfos.readEnd ≤ l.length → GoesOn W l r I k x

end

section
variable {W : DataStreamWorker α S} {l : List α} {r : ℕ} {I : ℕ → Slot S → Prop}

theorem Orderly.careful (hI : Orderly W l r I) : Careful W l r I :=
  ⟨hI.nonneg, hI.le, hI.reach_le, fun h hend => Or.inr (hI.serves h hend)⟩

theorem Orderly.not_goesWrong (hI : Orderly W l r I) {k : ℕ} {x : Slot S} (h : I k x)
    (hend : x.readInfos.readEnd ≤ l.length) : ¬ GoesWrong W l x := by
  obtain ⟨k', x', hs, hx', -⟩ := hI.serves h hend
  rintro (⟨e, y, hy⟩ | ⟨y, hy, hneg⟩)
  · rw [hs] at hy; cases hy
  · rw [hs] at hy; cases hy
    exact absurd (hI.nonneg hx') (not_le.2 hneg)

/-- Some slot of the invariant goes wrong. -/
def Misstep (W : DataStreamWorker α S) (l : List α) (I : ℕ → Slot S → Prop) : Prop :=
  ∃ k x, I k x ∧ x.readInfos.readEnd ≤ l.length ∧ GoesWrong W l x

theorem Orderly.not_misstep (hI : Orderly W l r I) : ¬ Misstep W l I := by
  rintro ⟨k, x, hx, hend, hw⟩
  exact hI.not_goesWrong hx hend hw

/-- Orderly slots stay so together with what every served request keeps. -/
theorem Orderly.and {J : Slot S → Prop} (hI : Orderly W l r I)
    (hJ : ∀ x x', J x → serve W l x = .ok x' () → J x') :
    Orderly W l r fun k x => I k x ∧ J x where
  nonneg h := hI.nonneg h.1
  le h := hI.le h.1
  reach_le := hI.reach_le
  serves := by
    rintro k x ⟨hx, hJx⟩ hend
    obtain ⟨k', x', hs, hx', hk, hlow, hnext⟩ := hI.serves hx hend
    exact ⟨k', x', hs, ⟨hx', hJ x x' hJx hs⟩, hk, hlow, hnext⟩

theorem Careful.low_le (hI : Careful W l r I) {k : ℕ} {x : Slot S} (h : I k x) :
    (x.low : ℤ) ≤ x.readInfos.nextReadLocation := by
  have h₀ := hI.nonneg h
  have h₁ := x.readInfos.firstNeeded_le
  simp only [Slot.low]; omega

end

/-! ## Records -/

theorem step_traced {W : DataStreamWorker α S} {l : List α} {x x' : Slot (Traced α S)} :
    Step (traced W) l x x' ↔
      Step W l x.base x'.base ∧ x'.worker.calls = x.worker.calls ++ [x.base.call l] := by
  obtain ⟨⟨s, cs⟩, i⟩ := x
  obtain ⟨⟨s', cs'⟩, i'⟩ := x'
  simp only [Step, serve, callWorker, traced, Slot.base, Slot.call]
  cases W s (i.slice l) i.nextReadLocation with
  | ok => simp [eq_comm]; tauto
  | fault | timeout => simp [Res.lift]

/-- **What a worker has recorded when it is not served any more is its reference
    run.** -/
theorem Reference.of_path {W : DataStreamWorker α S} {l : List α} {x x' : Slot (Traced α S)}
    (h : Path (traced W) l x x') (hx' : (l.length : ℤ) < x'.readInfos.readEnd) :
    ∃ calls, Reference W l x.base calls ∧ x'.worker.calls = x.worker.calls ++ calls := by
  induction h using Relation.ReflTransGen.head_induction_on with
  | refl => exact ⟨[], .stop hx', by simp⟩
  | head hs _ ih =>
    obtain ⟨calls, hr, hc⟩ := ih
    obtain ⟨hs, hc'⟩ := step_traced.1 hs
    exact ⟨_, .serve hs hr, by rw [hc, hc']; simp⟩

end SmartScreen
