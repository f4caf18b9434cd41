/-
  `loopWorkersOnce` on a queue that holds the rest of a stream that has ended.

  The shared buffer is a `Window` of the stream.  Inside it a worker reads what
  the reference would hand it (`executeWorkerRound_eq`), so running a worker
  follows its reference run to the end of the window (`runWorker_or`).
  A pass extends the window to the last data point asked for, runs all workers
  and trims the window to the first data point still needed; `Holds` is the
  invariant of the passes and `loopWorkersOnce_or` their specification.  For
  careful slots each of these statements has the alternative that a worker goes
  wrong; for orderly ones it is excluded (`returns_loopWorkersOnce`).
-/
import SmartScreen.Lib.Run
import SmartScreen.Stream.Reference
import SmartScreen.Stream.Rounds

namespace SmartScreen

open Loop Window

variable {α S : Type}

namespace DataStreamDistributor

/-! ## Lists -/

theorem exists_of_forall₂ {β γ : Type*} {R : β → γ → Prop} {xs : List β} {ys : List γ}
    (h : List.Forall₂ R xs ys) {x : β} (hx : x ∈ xs) : ∃ y, R x y := by
  induction h with
  | nil => cases hx
  | cons hxy _ ih =>
    rcases List.mem_cons.1 hx with rfl | hx
    · exact ⟨_, hxy⟩
    · exact ih hx

theorem forall₂_trans {β γ δ : Type*} {R : β → γ → Prop} {T : γ → δ → Prop} {U : β → δ → Prop}
    (hU : ∀ x y z, R x y → T y z → U x z) {xs : List β} {ys : List γ} {zs : List δ}
    (h : List.Forall₂ R xs ys) (h' : List.Forall₂ T ys zs) : List.Forall₂ U xs zs := by
  induction h generalizing zs with
  | nil => cases h'; exact .nil
  | cons hxy _ ih =>
    obtain ⟨z, zs', hyz, hzs, rfl⟩ := List.forall₂_cons_left_iff.1 h'
    exact .cons (hU _ _ _ hxy hyz) (ih hzs)

theorem max?_eq_some (xs : List ℤ) (h : xs ≠ []) :
    ∃ m, xs.max? = some m ∧ m ∈ xs ∧ ∀ x ∈ xs, x ≤ m := by
  obtain ⟨m, hm⟩ := Option.isSome_iff_exists.1 (List.isSome_max?_iff.2 h)
  exact ⟨m, hm, (List.max?_eq_some_iff.1 hm).1, (List.max?_eq_some_iff.1 hm).2⟩

theorem min?_eq_some (xs : List ℤ) (h : xs ≠ []) :
    ∃ m, xs.min? = some m ∧ m ∈ xs ∧ ∀ x ∈ xs, m ≤ x := by
  obtain ⟨m, hm⟩ := Option.isSome_iff_exists.1 (List.isSome_min?_iff.2 h)
  exact ⟨m, hm, (List.min?_eq_some_iff.1 hm).1, (List.min?_eq_some_iff.1 hm).2⟩

section
variable {W : DataStreamWorker α S} {l : List α} {r : ℕ} {I : ℕ → Slot S → Prop} {w : Window l}
  {k : ℕ} {x x' : Slot S}

/-! ## One worker -/

/-- A slot in front of the loop condition of `executeWorkerWhileDataInBuffer`:
    its request starts inside the window. -/
structure AtHead (I : ℕ → Slot S → Prop) (w : Window l) (k : ℕ) (x : Slot S) : Prop where
  inv : I k x
  lo_le : w.lo ≤ x.low
  le_hi : x.readInfos.nextReadLocation ≤ w.hi

theorem AtHead.lo_le_next (hI : Careful W l r I) (h : AtHead I w k x) :
    (w.lo : ℤ) ≤ x.readInfos.nextReadLocation := by
  have h₁ := hI.low_le h.inv
  have h₂ := h.lo_le
  omega

theorem AtHead.index_eq (hI : Careful W l r I) (h : AtHead I w k x) :
    getIndexInLocalBufferforRead w.lo x.readInfos = x.readInfos.nextReadLocation.toNat - w.lo := by
  have h₁ := h.lo_le_next hI
  rw [getIndexInLocalBufferforRead_eq]
  omega

/-- The index of the request is inside the buffer. -/
theorem AtHead.index_le (hI : Careful W l r I) (h : AtHead I w k x) :
    getIndexInLocalBufferforRead w.lo x.readInfos ≤ w.data.length := by
  have h₁ := h.le_hi
  rw [h.index_eq hI, length_data]
  omega

/-- **A worker reads from the buffer what the reference hands it.** -/
theorem executeWorkerRound_eq (hI : Careful W l r I) (h : AtHead I w k x) :
    executeWorkerRound W w.lo w.data x =
      if x.readInfos.readEnd ≤ w.hi then (serve W l x).bind fun x' _ => .ok x' true
      else .ok x false := by
  have hlo := h.lo_le_next hI
  have hhi := h.le_hi
  have hidx := h.index_le hI
  have hguard : x.readInfos.readNumber ≤
      sizeSub w.data.length (getIndexInLocalBufferforRead w.lo x.readInfos) ↔
        x.readInfos.readEnd ≤ w.hi := by
    have hw := w.lo_le
    rw [sizeSub_of_le hidx, h.index_eq hI, length_data, NextReadInfos.readEnd]
    omega
  simp only [executeWorkerRound, hguard]
  split_ifs with hend
  · have hread : (w.data.drop (getIndexInLocalBufferforRead w.lo x.readInfos)).take
        (min x.readInfos.readNumber
          (sizeSub w.data.length (getIndexInLocalBufferforRead w.lo x.readInfos))) =
        x.readInfos.slice l := by
      rw [min_eq_left (hguard.2 hend), h.index_eq hI, NextReadInfos.slice]
      refine w.read_data (by omega) ?_
      rw [NextReadInfos.readEnd] at hend
      omega
    have hid : (w.lo : ℤ) + (getIndexInLocalBufferforRead w.lo x.readInfos : ℕ) =
        x.readInfos.nextReadLocation := by
      rw [h.index_eq hI]; omega
    rw [executeWorkerOnce, if_pos hidx]
    simp only [hread, hid, serve]
  · rfl

/-- What the loops make of a slot: its requests that end inside the window have
    been served, and the value is whether there was one. -/
structure Done (W : DataStreamWorker α S) (I : ℕ → Slot S → Prop) (w : Window l) (k : ℕ)
    (x : Slot S) (k' : ℕ) (x' : Slot S) (b : Bool) : Prop where
  head : AtHead I w k' x'
  lt_readEnd : (w.hi : ℤ) < x'.readInfos.readEnd
  path : Path W l x x'
  value : (b = true ∧ k' < k) ∨ (b = false ∧ x' = x ∧ k' = k)

/-- Running the worker faults or comes to a request before the stream. -/
def RunsWrong (W : DataStreamWorker α S) (pos : ℤ) (dataQueue : List α) (x : Slot S) : Prop :=
  (∃ e y, Faults (fun n => executeWorkerWhileDataInBuffer W pos dataQueue n x) e y) ∨
    ∃ y, Heads (fun _ => executeWorkerRound W pos dataQueue) x y ∧
      y.readInfos.nextReadLocation < 0

/-- A request that ends inside the window is served, or the worker goes wrong. -/
theorem AtHead.serve (hI : Careful W l r I) (hr : r ≤ w.hi) (h : AtHead I w k x)
    (hend : x.readInfos.readEnd ≤ w.hi) :
    (Misstep W l I ∧ RunsWrong W w.lo w.data x) ∨
      ∃ k' x', AtHead I w k' x' ∧ k' < k ∧ Step W l x x' ∧
        executeWorkerRound W w.lo w.data x = .ok x' true := by
  have hw := w.hi_le
  have hl : x.readInfos.readEnd ≤ l.length := by omega
  have hround := executeWorkerRound_eq hI h
  rw [if_pos hend] at hround
  rcases hI.serves h.inv hl with hwrong | ⟨k', x', hs, hx', hk, hlow, hnext⟩
  · refine Or.inl ⟨⟨k, x, h.inv, hl, hwrong⟩, ?_⟩
    rcases hwrong with ⟨e, y, hs⟩ | ⟨y, hs, hneg⟩
    · exact Or.inl ⟨e, y, .whileTrue ⟨0, by simp [hround, hs]⟩⟩
    · exact Or.inr ⟨y, .next .refl ⟨0, by simp [hround, hs]⟩, hneg⟩
  · refine Or.inr ⟨k', x', ⟨hx', h.lo_le.trans hlow, ?_⟩, hk, ⟨hl, hs⟩, by rw [hround, hs]; rfl⟩
    exact hnext.trans (max_le hend (Int.ofNat_le.2 hr))

theorem executeWorkerWhileDataInBuffer_or (hI : Careful W l r I) (hr : r ≤ w.hi)
    (h : AtHead I w k x) :
    (Misstep W l I ∧ RunsWrong W w.lo w.data x) ∨
      ∃ k' x' b, Returns (fun n => executeWorkerWhileDataInBuffer W w.lo w.data n x) x' b ∧
        Done W I w k x k' x' b := by
  induction k using Nat.strong_induction_on generalizing x with
  | _ k ih =>
    by_cases hend : x.readInfos.readEnd ≤ w.hi
    · rcases h.serve hI hr hend with hwrong | ⟨k₁, x₁, h₁, hk₁, hs, hr₁⟩
      · exact Or.inl hwrong
      · have hret : Returns (fun _ => executeWorkerRound W w.lo w.data x) x₁ true := ⟨0, hr₁⟩
        rcases ih k₁ hk₁ h₁ with ⟨hm, hwrong⟩ | ⟨k', x', b, hr', hd⟩
        · refine Or.inl ⟨hm, hwrong.imp ?_ ?_⟩
          · rintro ⟨e, y, hy⟩
            exact ⟨e, y, .whileTrue_next (steady_executeWorkerRound W _ _) hret hy⟩
          · rintro ⟨y, hy, hneg⟩
            exact ⟨y, (Heads.next .refl hret).trans hy, hneg⟩
        · refine Or.inr ⟨k', x', true, ?_, hd.head, hd.lt_readEnd, .head hs hd.path,
            Or.inl ⟨rfl, ?_⟩⟩
          · exact .whileTrue_next (steady_executeWorkerRound W _ _) hret hr'
          · obtain ⟨-, hk⟩ | ⟨-, -, hk⟩ := hd.value <;> omega
    · refine Or.inr ⟨k, x, false, ?_, h, not_le.1 hend, .refl, Or.inr ⟨rfl, rfl, rfl⟩⟩
      refine Returns.whileTrue_stop ⟨0, ?_⟩
      rw [executeWorkerRound_eq hI h, if_neg hend]

theorem executeWorkerWhileDataInBuffer_stop (hI : Careful W l r I) (h : AtHead I w k x)
    (hend : (w.hi : ℤ) < x.readInfos.readEnd) :
    Returns (fun n => executeWorkerWhileDataInBuffer W w.lo w.data n x) x false := by
  refine Returns.whileTrue_stop ⟨0, ?_⟩
  rw [executeWorkerRound_eq hI h, if_neg (not_le.2 hend)]

/-- **A worker runs to the end of the window**, or goes wrong. -/
theorem runWorker_or (hI : Careful W l r I) (hr : r ≤ w.hi) (h : AtHead I w k x) :
    (Misstep W l I ∧ RunsWrong W w.lo w.data x) ∨
      ∃ k' x' b, Returns (fun n => runWorker W w.lo w.data n x) x' b ∧ Done W I w k x k' x' b := by
  refine (executeWorkerWhileDataInBuffer_or hI hr h).imp_right ?_
  rintro ⟨k', x', b, hr', hd⟩
  refine ⟨k', x', b, ?_, hd⟩
  have hstop := executeWorkerWhileDataInBuffer_stop hI hd.head hd.lt_readEnd
  cases b with
  | false => exact .whileTrue_stop hr'
  | true =>
    exact .whileTrue_next (steady_executeWorkerWhileDataInBuffer W _ _) hr' (.whileTrue_stop hstop)

/-- Wherever the loop condition of `executeWorkerWhileDataInBuffer` is
    evaluated, the request starts inside the window. -/
theorem EvaluatesAt.atHead (hI : Orderly W l r I) (hr : r ≤ w.hi) (h : AtHead I w k x) {y : Slot S}
    (hy : EvaluatesAt W w.lo w.data x y) : ∃ k', AtHead I w k' y := by
  refine hy.inv (I := fun z => ∃ k', AtHead I w k' z) ⟨k, h⟩ ?_
  rintro t t' - ⟨k', ht⟩ hround
  by_cases hend : t.readInfos.readEnd ≤ w.hi
  · rcases ht.serve hI.careful hr hend with ⟨hm, -⟩ | ⟨k'', x'', h'', -, -, hr'⟩
    · exact absurd hm hI.not_misstep
    · rw [hr'] at hround
      cases hround
      exact ⟨k'', h''⟩
  · rw [executeWorkerRound_eq hI.careful ht, if_neg hend] at hround
    cases hround

/-! ## All workers -/

/-- What `executeWorkers` makes of the slots `xs`, as a list of the slots with
    the values of `runWorker`. -/
structure AllDone (W : DataStreamWorker α S) (I : ℕ → Slot S → Prop) (w : Window l)
    (ks : List ℕ) (xs : List (Slot S)) (ks' : List ℕ) (ps : List (Slot S × Bool)) : Prop where
  returns : List.Forall₂
    (fun x p => Returns (fun n => runWorker W w.lo w.data n x) p.1 p.2) xs ps
  heads : List.Forall₂ (fun x k => AtHead I w k x) (ps.map Prod.fst) ks'
  lt_readEnd : ∀ y ∈ ps.map Prod.fst, (w.hi : ℤ) < y.readInfos.readEnd
  path : List.Forall₂ (Path W l) xs (ps.map Prod.fst)
  value : (ps.any Prod.snd = true ∧ ks'.sum < ks.sum) ∨
    (ps.any Prod.snd = false ∧ ps.map Prod.fst = xs ∧ ks'.sum = ks.sum)

theorem AllDone.cons {ks ks' : List ℕ} {xs : List (Slot S)} {ps : List (Slot S × Bool)} {k' : ℕ}
    {b : Bool} (hr : Returns (fun n => runWorker W w.lo w.data n x) x' b)
    (hd : Done W I w k x k' x' b) (hps : AllDone W I w ks xs ks' ps) :
    AllDone W I w (k :: ks) (x :: xs) (k' :: ks') ((x', b) :: ps) where
  returns := .cons hr hps.returns
  heads := .cons hd.head hps.heads
  lt_readEnd := by
    simp only [List.map_cons, List.mem_cons, forall_eq_or_imp]
    exact ⟨hd.lt_readEnd, hps.lt_readEnd⟩
  path := .cons hd.path hps.path
  value := by
    simp only [List.any_cons, List.map_cons, List.sum_cons]
    obtain ⟨rfl, hk⟩ | ⟨rfl, rfl, rfl⟩ := hd.value <;>
      obtain ⟨hv, hks⟩ | ⟨hv, hm, hks⟩ := hps.value <;> simp only [hv]
    · exact Or.inl ⟨rfl, by omega⟩
    · exact Or.inl ⟨rfl, by omega⟩
    · exact Or.inl ⟨rfl, by omega⟩
    · exact Or.inr ⟨rfl, by rw [hm], by omega⟩

/-- All workers run to the end of the window, or one goes wrong after those in
    front of it have returned. -/
theorem allDone_or (hI : Careful W l r I) (hr : r ≤ w.hi) {ks : List ℕ} {xs : List (Slot S)}
    (h : List.Forall₂ (fun x k => AtHead I w k x) xs ks) :
    (Misstep W l I ∧ ∃ ys z zs, ∃ ps : List (Slot S × Bool), xs = ys ++ z :: zs ∧
      RunsWrong W w.lo w.data z ∧
      List.Forall₂ (fun x p => Returns (fun n => runWorker W w.lo w.data n x) p.1 p.2) ys ps) ∨
      ∃ ks' ps, AllDone W I w ks xs ks' ps := by
  induction h with
  | nil => exact Or.inr ⟨[], [], .nil, .nil, by simp, .nil, Or.inr ⟨rfl, rfl, rfl⟩⟩
  | @cons x k xs ks hx _ ih =>
    rcases runWorker_or hI hr hx with ⟨hm, hwrong⟩ | ⟨k', x', b, hret, hd⟩
    · exact Or.inl ⟨hm, [], x, xs, [], rfl, hwrong, .nil⟩
    · rcases ih with ⟨hm, ys, z, zs, ps, rfl, hwrong, hys⟩ | ⟨ks', ps, hps⟩
      · exact Or.inl ⟨hm, x :: ys, z, zs, (x', b) :: ps, rfl, hwrong, .cons hret hys⟩
      · exact Or.inr ⟨_, _, .cons hret hd hps⟩

end

/-! ## The passes -/

section
variable {W : DataStreamWorker α S} {l : List α} {r : ℕ} {I : ℕ → Slot S → Prop} {w : Window l}
  {k : ℕ} {d : DataStreamDistributor α S} {q : List α}

/-- The invariant between two passes: the buffer shows a window of the stream,
    the queue holds what lies behind it, and the slots, served at most `k` more
    times, do not need what lies before it.  Some slot wants to read on, and to
    read up to `r`. -/
structure Holds (r : ℕ) (I : ℕ → Slot S → Prop) (w : Window l) (k : ℕ)
    (d : DataStreamDistributor α S) (q : List α) : Prop where
  pos : d.currentGlobalBufferPos = w.lo
  data : d.dataQueue = w.data
  rest : q = w.rest
  slots : ∃ ks, List.Forall₂ (fun x k => I k x ∧ w.lo ≤ x.low) d.slots ks ∧ ks.sum = k
  reached : (d.slots = [] ∧ w.hi = 0) ∨
    ∃ x ∈ d.slots, (w.hi : ℤ) ≤ x.readInfos.readEnd ∧ (r : ℤ) ≤ x.readInfos.readEnd

theorem holds_start (r : ℕ) (I : ℕ → Slot S → Prop) (l : List α) : Holds r I (start l) 0 {} l where
  pos := rfl
  data := (data_start l).symm
  rest := (rest_start l).symm
  slots := ⟨[], .nil, rfl⟩
  reached := Or.inl ⟨rfl, rfl⟩

/-- What holds of the slots can be added. -/
theorem Holds.and {J : Slot S → Prop} (h : Holds r I w k d q) (hJ : ∀ x ∈ d.slots, J x) :
    Holds r (fun k x => I k x ∧ J x) w k d q where
  pos := h.pos
  data := h.data
  rest := h.rest
  slots := by
    obtain ⟨ks, hks, hsum⟩ := h.slots
    refine ⟨ks, ((List.forall₂_and_left _ _).2 ⟨hJ, hks⟩).imp ?_, hsum⟩
    rintro x k ⟨hx, hk, hlow⟩
    exact ⟨⟨hk, hx⟩, hlow⟩
  reached := h.reached

/-- A worker is added whose first request is not before the buffer. -/
theorem Holds.append (h : Holds r I w k d q) {x : Slot S} {k' : ℕ} (hx : I k' x)
    (hlow : w.lo ≤ x.low) (hr : (r : ℤ) ≤ x.readInfos.readEnd) :
    Holds r I w (k + k') { d with slots := d.slots ++ [x] } q where
  pos := h.pos
  data := h.data
  rest := h.rest
  slots := by
    obtain ⟨ks, hks, rfl⟩ := h.slots
    exact ⟨ks ++ [k'], List.rel_append hks (.cons ⟨hx, hlow⟩ .nil), by simp⟩
  reached := by
    obtain ⟨-, hw⟩ | ⟨y, hy, hw⟩ := h.reached
    · exact Or.inr ⟨x, by simp, by omega, hr⟩
    · exact Or.inr ⟨y, by simp [hy], hw⟩

/-- What the next pass needs is what lies between the end of the buffer and the request that
    ends last. -/
theorem Holds.dataPointsNeeded (h : Holds r I w k d q) (hd : d.slots ≠ []) :
    ∃ x ∈ d.slots, (∀ y ∈ d.slots, y.readInfos.readEnd ≤ x.readInfos.readEnd) ∧
      ((w.hi : ℤ) ≤ x.readInfos.readEnd ∧ (r : ℤ) ≤ x.readInfos.readEnd) ∧
      d.dataPointsNeededForNextRun = some (x.readInfos.readEnd - w.hi) := by
  obtain ⟨m, hm, hmem, hmax⟩ := max?_eq_some (d.slots.map fun x => x.readInfos.readEnd)
    (by simpa using hd)
  simp only [List.mem_map, forall_exists_index, and_imp, forall_apply_eq_imp_iff₂] at hmem hmax
  obtain ⟨x, hx, rfl⟩ := hmem
  refine ⟨x, hx, hmax, ?_, ?_⟩
  · obtain ⟨hnil, -⟩ | ⟨y, hy, hle, hry⟩ := h.reached
    · exact absurd hnil hd
    · exact ⟨hle.trans (hmax y hy), hry.trans (hmax y hy)⟩
  · have hw := w.lo_le
    rw [dataPointsNeededForNextRun, hm, h.data, h.pos, length_data, Option.map_some]
    congr 1; omega

/-- Reading moves the end of the window to the last data point asked for, or to
    the end of the stream. -/
theorem readBufferForNextRun_eq (C : CppInt) (hrl : r ≤ l.length) (h : Holds r I w k d q)
    (hd : d.slots ≠ []) :
    ∃ w' : Window l, w'.lo = w.lo ∧ r ≤ w'.hi ∧
      readBufferForNextRun C popRemaining (d, q) =
        .ok ({ d with dataQueue := w'.data }, w'.rest) () ∧
      (∀ x ∈ d.slots, min x.readInfos.readEnd l.length ≤ w'.hi) ∧
      ∃ x ∈ d.slots, (w'.hi : ℤ) = min x.readInfos.readEnd l.length := by
  obtain ⟨x, hx, hmax, hge, hneeded⟩ := h.dataPointsNeeded hd
  have hw := w.lo_le
  have hl := w.hi_le
  refine ⟨w.extend (x.readInfos.readEnd - w.hi).toNat, rfl, ?_, ?_, fun y hy => ?_, x, hx, ?_⟩
  · simp only [hi_extend]; omega
  · rw [readBufferForNextRun, hneeded]
    simp only [C.toSize_of_nonneg (Int.sub_nonneg.2 hge.1)]
    split_ifs with h₀ hneg
    · have hn : (x.readInfos.readEnd - w.hi).toNat = 0 := by omega
      rw [hn, ← data_extend, ← rest_extend, ← h.data, h.rest]
      simp
    · exact absurd hneg (not_lt.2 (Int.sub_nonneg.2 hge.1))
    · simp only [popRemaining, h.data, h.rest, data_extend, rest_extend]
  · have := hmax y hy
    simp only [hi_extend]; omega
  · simp only [hi_extend]; omega

/-- Freeing moves the front of the window to the first data point still needed. -/
theorem freeUnusedBuffer_eq (hpos : d.currentGlobalBufferPos = w.lo) (hdata : d.dataQueue = w.data)
    {ks : List ℕ} (h : List.Forall₂ (fun x k => AtHead I w k x) d.slots ks) (hd : d.slots ≠ []) :
    ∃ w' : Window l, w'.hi = w.hi ∧
      freeUnusedBuffer d = .ok ⟨d.slots, w'.lo, w'.data⟩ () ∧ ∀ x ∈ d.slots, w'.lo ≤ x.low := by
  obtain ⟨m, hm, hmem, hmin⟩ := min?_eq_some (d.slots.map fun x => x.readInfos.firstNeeded)
    (by simpa using hd)
  simp only [List.mem_map, forall_exists_index, and_imp, forall_apply_eq_imp_iff₂] at hmem hmin
  have hlow : ∀ x ∈ d.slots, w.lo ≤ x.low ∧ x.readInfos.nextReadLocation ≤ w.hi := by
    intro x hx
    obtain ⟨k, hk⟩ := exists_of_forall₂ h hx
    exact ⟨hk.lo_le, hk.le_hi⟩
  simp only [freeUnusedBuffer, hm, hpos]
  split_ifs with hle herase
  · exact ⟨w, rfl, by rw [← hpos, ← hdata], fun x hx => (hlow x hx).1⟩
  · have hk : (m - w.lo).toNat ≤ w.hi - w.lo := by rwa [hdata, length_data] at herase
    refine ⟨w.trim _ hk, rfl, ?_, fun x hx => ?_⟩
    · have hm' : m = ((w.lo + (m - w.lo).toNat : ℕ) : ℤ) := by omega
      rw [data_trim, hdata]
      simp only [Window.trim]
      rw [← hm']
    · have := hmin x hx
      simp only [Window.trim, Slot.low]; omega
  · obtain ⟨x, hx, rfl⟩ := hmem
    have h₁ := (hlow x hx).2
    have h₂ := x.readInfos.firstNeeded_le
    have h₃ := w.lo_le
    rw [hdata, length_data] at herase
    omega

/-- In front of the loops over the workers, every request starts inside the
    window that was read. -/
theorem Holds.atHead (hI : Careful W l r I) (h : Holds r I w k d q) {w' : Window l}
    (hlo : w'.lo = w.lo) (hcover : ∀ x ∈ d.slots, min x.readInfos.readEnd l.length ≤ w'.hi) :
    ∃ ks, List.Forall₂ (fun x k => AtHead I w' k x) d.slots ks ∧ ks.sum = k := by
  obtain ⟨ks, hks, hsum⟩ := h.slots
  refine ⟨ks, ((List.forall₂_and_left _ _).2 ⟨hcover, hks⟩).imp ?_, hsum⟩
  rintro x k ⟨hx, hkx, hlow⟩
  exact ⟨hkx, hlo ▸ hlow, (le_min x.readInfos.nextReadLocation_le (hI.le hkx)).trans hx⟩

/-- What a pass makes of a distributor. -/
structure Pass (W : DataStreamWorker α S) (r : ℕ) (I : ℕ → Slot S → Prop) (k : ℕ)
    (d : DataStreamDistributor α S) (w' : Window l) (k' : ℕ) (d' : DataStreamDistributor α S)
    (q' : List α) (b : Bool) : Prop where
  holds : Holds r I w' k' d' q'
  path : List.Forall₂ (Path W l) d.slots d'.slots
  value : (b = true ∧ k' < k) ∨ (b = false ∧ d'.slots = d.slots ∧ k' = k ∧
    ∀ x ∈ d'.slots, (l.length : ℤ) < x.readInfos.readEnd)

theorem Pass.slots_ne_nil {w' : Window l} {k' : ℕ} {d' : DataStreamDistributor α S} {q' : List α}
    {b : Bool} (h : Pass W r I k d w' k' d' q' b) (hd : d.slots ≠ []) : d'.slots ≠ [] := by
  intro hnil
  have hlen := h.path.length_eq
  rw [hnil] at hlen
  exact hd (List.length_eq_zero_iff.1 hlen)

/-- The pass faults, or a request is found that starts before the buffer. -/
def PassWrong (C : CppInt) (W : DataStreamWorker α S) (dq : DataStreamDistributor α S × List α) :
    Prop :=
  (∃ e s, Faults (fun n => loopWorkersOnce C W popRemaining n dq) e s) ∨
    ∃ d' y, LoopEvaluatesAt C W popRemaining dq d' y ∧
      y.readInfos.nextReadLocation < d'.currentGlobalBufferPos

/-- **A pass returns and keeps the invariant**, or goes wrong.  If no worker was
    executed, the stream is too short for all of them. -/
theorem loopWorkersOnce_or (C : CppInt) (hI : Careful W l r I) (h : Holds r I w k d q)
    (hd : d.slots ≠ []) :
    (Misstep W l I ∧ PassWrong C W (d, q)) ∨
      ∃ (w' : Window l) (k' : ℕ) (d' : DataStreamDistributor α S) (q' : List α) (b : Bool),
        Returns (fun n => loopWorkersOnce C W popRemaining n (d, q)) (d', q') b ∧
          Pass W r I k d w' k' d' q' b := by
  obtain ⟨w₁, hlo, hr₁, hread, hcover, x₀, hx₀, hw₁⟩ := readBufferForNextRun_eq C hI.reach_le h hd
  obtain ⟨ks, hks, rfl⟩ := h.atHead hI hlo hcover
  have hsteady := steady_runWorker W (w₁.lo : ℤ) w₁.data
  have htail : ∀ dq : DataStreamDistributor α S × List α, Steady fun n =>
      ((executeWorkers W n dq.1).lift (·, dq.2)).bind fun dq b =>
        ((freeUnusedBuffer dq.1).lift (·, dq.2)).bind fun dq _ =>
          (.ok dq b : Res Fault (DataStreamDistributor α S × List α) Bool) := fun _ =>
    .bind (.lift _ (steady_executeWorkers W _)) fun _ _ => .const _
  rcases allDone_or hI hr₁ hks with ⟨hm, ys, z, zs, ps, hslots, hwrong, hys⟩ | ⟨ks', ps, hps⟩
  · refine Or.inl ⟨hm, ?_⟩
    have hret := (returns_forEach hsteady).2 ⟨ps, hys, rfl, rfl⟩
    rcases hwrong with ⟨e, y, hy⟩ | ⟨y, hy, hneg⟩
    · -- the fault of the worker is the fault of the pass
      obtain ⟨s, hrun⟩ : ∃ s, Faults (fun n => executeWorkers W n { d with dataQueue := w₁.data })
          e s := by
        refine ⟨_, Faults.lift _ (s := ps.map Prod.fst ++ y :: zs) ?_⟩
        simp only [h.pos, ← hlo, hslots]
        exact Faults.forEach hsteady zs hret hy.whileTrue
      exact Or.inl ⟨e, _, .bind_next (.const _) (htail _) ⟨0, hread⟩ (hrun.lift _).bind⟩
    · refine Or.inr ⟨{ d with dataQueue := w₁.data }, y, ⟨w₁.rest, ys, z, zs, ps.map Prod.fst,
        ps.any Prod.snd, hread, hslots, ?_, z, .refl, ?_⟩, ?_⟩
      · simp only [h.pos, ← hlo]; exact hret
      · simp only [h.pos, ← hlo]; exact hy
      · simp only [h.pos]; omega
  · right
    -- the distributor after the loops over the workers
    let d₂ : DataStreamDistributor α S := ⟨ps.map Prod.fst, w.lo, w₁.data⟩
    have hrun : Returns (fun n => executeWorkers W n { d with dataQueue := w₁.data }) d₂
        (ps.any Prod.snd) := by
      refine returns_lift.2 ⟨ps.map Prod.fst, ?_, by simp only [d₂, h.pos]⟩
      simp only [h.pos, ← hlo]
      exact (returns_forEach hsteady).2 ⟨ps, hps.returns, rfl, rfl⟩
    have hd₂ : d₂.slots ≠ [] := by
      intro hnil
      have hlen := hps.path.length_eq
      rw [show ps.map Prod.fst = [] from hnil] at hlen
      exact hd (List.length_eq_zero_iff.1 hlen)
    obtain ⟨w', hhi, hfree, hlow⟩ := freeUnusedBuffer_eq (w := w₁) (d := d₂) (by simp [d₂, hlo])
      rfl hps.heads hd₂
    refine ⟨w', ks'.sum, ⟨d₂.slots, w'.lo, w'.data⟩, w₁.rest, ps.any Prod.snd, ?_, ?_, hps.path, ?_⟩
    · refine .bind (.const _) (htail _) ⟨0, hread⟩ (.bind (k := fun _ dq b =>
        ((freeUnusedBuffer dq.1).lift (·, dq.2)).bind fun dq _ => .ok dq b) ?_ (.const _)
          (returns_lift.2 ⟨d₂, hrun, rfl⟩) ⟨0, ?_⟩)
      · exact .lift _ (steady_executeWorkers W _)
      · simp [hfree]
    · refine ⟨rfl, rfl, by rw [Window.rest, Window.rest, hhi], ⟨ks', ?_, rfl⟩, Or.inr ?_⟩
      · exact ((List.forall₂_and_left _ _).2 ⟨hlow, hps.heads⟩).imp fun _ _ h => ⟨h.2.inv, h.1⟩
      · obtain ⟨x, hx⟩ := List.exists_mem_of_ne_nil _ hd₂
        have := hps.lt_readEnd x hx
        exact ⟨x, hx, by omega, by omega⟩
    · obtain ⟨hv, hk⟩ | ⟨hv, hm, hk⟩ := hps.value
      · exact Or.inl ⟨hv, hk⟩
      · refine Or.inr ⟨hv, hm, hk, fun x hx => ?_⟩
        have h₁ := hps.lt_readEnd x hx
        have h₂ := hps.lt_readEnd x₀ (hm ▸ hx₀)
        -- the window ends where `x₀` wants it to, unless the stream does
        omega

/-- A pass over orderly slots does not go wrong. -/
theorem returns_loopWorkersOnce (C : CppInt) (hI : Orderly W l r I) (h : Holds r I w k d q)
    (hd : d.slots ≠ []) :
    ∃ (w' : Window l) (k' : ℕ) (d' : DataStreamDistributor α S) (q' : List α) (b : Bool),
      Returns (fun n => loopWorkersOnce C W popRemaining n (d, q)) (d', q') b ∧
        Pass W r I k d w' k' d' q' b :=
  (loopWorkersOnce_or C hI.careful h hd).resolve_left fun hm => hI.not_misstep hm.1

/-- Wherever a pass evaluates the loop condition of
    `executeWorkerWhileDataInBuffer`, the request starts inside the buffer. -/
theorem LoopEvaluatesAt.atHead (C : CppInt) (hI : Orderly W l r I) (h : Holds r I w k d q)
    (hd : d.slots ≠ []) {d' : DataStreamDistributor α S} {y : Slot S}
    (hy : LoopEvaluatesAt C W popRemaining (d, q) d' y) :
    ∃ (w' : Window l) (k' : ℕ), d'.currentGlobalBufferPos = w'.lo ∧ d'.dataQueue = w'.data ∧
      AtHead I w' k' y := by
  obtain ⟨q', xs, x, zs, ys, b, hread', hslots, -, hy⟩ := hy
  obtain ⟨w₁, hlo, hr₁, hread, hcover, -⟩ := readBufferForNextRun_eq C hI.reach_le h hd
  obtain ⟨ks, hks, -⟩ := h.atHead hI.careful hlo hcover
  rw [hread] at hread'
  simp only [Res.ok.injEq, Prod.mk.injEq, and_true] at hread'
  obtain ⟨rfl, rfl⟩ := hread'
  obtain ⟨k', hx⟩ := exists_of_forall₂ hks (show x ∈ d.slots by rw [hslots]; simp)
  rw [h.pos, ← hlo] at hy
  obtain ⟨k'', hy'⟩ := hy.atHead hI hr₁ hx
  exact ⟨w₁, k'', by rw [h.pos, hlo], rfl, hy'⟩

/-- Any number of passes that return. -/
def Passes (C : CppInt) (W : DataStreamWorker α S) :
    DataStreamDistributor α S × List α → DataStreamDistributor α S × List α → Prop :=
  LTS.Reach fun dq b dq' => Returns (fun n => loopWorkersOnce C W popRemaining n dq) dq' b

/-- The passes of `while (loopWorkersOnce())`. -/
theorem passes_of_whileTrue {C : CppInt} {dq dq' : DataStreamDistributor α S × List α} {b : Bool}
    (h : Returns (fun n => whileTrue (loopWorkersOnce C W popRemaining) n dq) dq' b) :
    Passes C W dq dq' := by
  obtain ⟨dq₁, hheads, hstop⟩ := h.heads_of_whileTrue
  have hpasses : Passes C W dq dq₁ := by
    clear hstop
    induction hheads with
    | refl => exact .refl _
    | next _ hret ih => exact ih.next hret
  exact hpasses.next hstop

/-- **Repeating the passes ends**, when the stream is too short for all workers,
    or a pass goes wrong. -/
theorem loopWorkers_or (C : CppInt) (hI : Careful W l r I) (h : Holds r I w k d q)
    (hd : d.slots ≠ []) :
    (Misstep W l I ∧ ∃ dq, Passes C W (d, q) dq ∧ PassWrong C W dq) ∨
      ∃ w' k' d' q' b, Holds r I (w' : Window l) k' d' q' ∧
        Returns (fun n => whileTrue (loopWorkersOnce C W popRemaining) n (d, q)) (d', q') b ∧
        List.Forall₂ (Path W l) d.slots d'.slots ∧
        ∀ x ∈ d'.slots, (l.length : ℤ) < x.readInfos.readEnd := by
  induction k using Nat.strong_induction_on generalizing w d q with
  | _ k ih =>
    rcases loopWorkersOnce_or C hI h hd with ⟨hm, hwrong⟩ | ⟨w', k', d', q', b, hr, hp⟩
    · exact Or.inl ⟨hm, _, .refl _, hwrong⟩
    obtain ⟨rfl, hk⟩ | ⟨rfl, -, -, hend⟩ := hp.value
    · rcases ih k' hk hp.holds (hp.slots_ne_nil hd) with
        ⟨hm, dq, hpasses, hwrong⟩ | ⟨w'', k'', d'', q'', b, hh, hr', hpath, hend⟩
      · obtain ⟨tr, htr⟩ := hpasses
        exact Or.inl ⟨hm, dq, ⟨_, LTS.Run.cons hr htr⟩, hwrong⟩
      · refine Or.inr ⟨w'', k'', d'', q'', true, hh, ?_, ?_, hend⟩
        · exact .whileTrue_next (steady_loopWorkersOnce W C _) hr hr'
        · exact forall₂_trans (fun _ _ _ => .trans) hp.path hpath
    · exact Or.inr ⟨w', k', d', q', false, hp.holds, .whileTrue_stop hr, hp.path, hend⟩

theorem returns_loopWorkers (C : CppInt) (hI : Orderly W l r I) (h : Holds r I w k d q)
    (hd : d.slots ≠ []) :
    ∃ d' q' b, Returns (fun n => whileTrue (loopWorkersOnce C W popRemaining) n (d, q)) (d', q') b ∧
      List.Forall₂ (Path W l) d.slots d'.slots ∧
      ∀ x ∈ d'.slots, (l.length : ℤ) < x.readInfos.readEnd := by
  rcases loopWorkers_or C hI.careful h hd with ⟨hm, -⟩ | ⟨-, -, d', q', b, -, h'⟩
  · exact absurd hm hI.not_misstep
  · exact ⟨d', q', b, h'⟩

/-- **The invariant of the passes.** -/
theorem Passes.holds {C : CppInt} (hI : Orderly W l r I) (h : Holds r I w k d q) (hd : d.slots ≠ [])
    {dq : DataStreamDistributor α S × List α} (hp : Passes C W (d, q) dq) :
    ∃ (w' : Window l) (k' : ℕ), Holds r I w' k' dq.1 dq.2 ∧
      dq.1.slots.length = d.slots.length := by
  refine hp.inv (I := fun dq => ∃ (w' : Window l) (k' : ℕ), Holds r I w' k' dq.1 dq.2 ∧
    dq.1.slots.length = d.slots.length) ⟨w, k, h, rfl⟩ ?_
  rintro ⟨d₁, q₁⟩ b dq₂ hr ⟨w₁, k₁, h₁, hlen⟩
  have hd₁ : d₁.slots ≠ [] := by
    intro hnil
    rw [show d₁.slots = [] from hnil, List.length_nil, eq_comm, List.length_eq_zero_iff] at hlen
    exact hd hlen
  obtain ⟨w', k', d', q', b', hr', hp'⟩ := returns_loopWorkersOnce C hI h₁ hd₁
  obtain ⟨rfl, -⟩ := hr.unique (steady_loopWorkersOnce W C popRemaining (d₁, q₁)) hr'
  exact ⟨w', k', hp'.holds, by rw [← hlen]; exact hp'.path.length_eq.symm⟩

/-- No worker is lost. -/
theorem Passes.slots_ne_nil {C : CppInt} (hI : Orderly W l r I) (h : Holds r I w k d q)
    (hd : d.slots ≠ []) {dq : DataStreamDistributor α S × List α} (hp : Passes C W (d, q) dq) :
    dq.1.slots ≠ [] := by
  obtain ⟨-, -, -, hlen⟩ := hp.holds hI h hd
  exact List.ne_nil_of_length_pos (hlen ▸ List.length_pos_iff.2 hd)

end

end DataStreamDistributor

end SmartScreen
