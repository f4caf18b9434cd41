/-
  The nearest of finitely many points.

  The points are the numbers below `n`, each with a distance from the query.

  * `Nearest`: the `k` nearest points.
  * `Finds`: what an exact search finds that excludes some of the points, and puts
    the point 0 where it finds too few.
  * `Finds.nearest_iff`: if those that it excludes are the closest ones, it finds the
    nearest points iff it excludes none.
  * `search` is such a search; `squaredDistance` is a distance.
  * `NearestUpTo`: what a search finds that need not be exact.
-/
import Mathlib.Tactic

namespace Neighbors

/-! ## Searching -/

section
variable {γ : Type*} [LinearOrder γ]

/-- `found` are `k` different points, and no other point is closer than one of them. -/
structure Nearest (n k : ℕ) (d : ℕ → γ) (found : List ℕ) : Prop where
  length : found.length = k
  nodup : found.Nodup
  lt : ∀ i ∈ found, i < n
  le : ∀ i ∈ found, ∀ j < n, j ∉ found → d i ≤ d j

variable (excluded : ℕ → Prop) [DecidablePred excluded]

/-- The points that are not excluded. -/
def candidates (n : ℕ) : List ℕ := (List.range n).filter fun i => ¬ excluded i

/-- As many of the candidates as there are, up to `k`, with no other candidate closer;
    in any order, filled up with the point 0. -/
def Finds (n k : ℕ) (d : ℕ → γ) (found : List ℕ) : Prop :=
  ∃ is : List ℕ, found.Perm (is ++ List.replicate (k - is.length) 0) ∧ is.Nodup ∧
    is.length = min k (candidates excluded n).length ∧ (∀ i ∈ is, i ∈ candidates excluded n) ∧
    ∀ i ∈ is, ∀ j ∈ candidates excluded n, j ∉ is → d i ≤ d j

variable {excluded} {n k : ℕ} {d : ℕ → γ} {found : List ℕ}

theorem mem_candidates {i : ℕ} : i ∈ candidates excluded n ↔ i < n ∧ ¬ excluded i := by
  simp [candidates]

theorem nodup_candidates : (candidates excluded n).Nodup := List.nodup_range.filter _

/-- Excluding at most the point 0 leaves all others. -/
theorem le_length_candidates (h : ∀ i < n, excluded i → i = 0) :
    n ≤ (candidates excluded n).length + 1 := by
  have hsub : List.range n ⊆ 0 :: candidates excluded n := by
    intro i hi
    have hlt := List.mem_range.1 hi
    by_cases hex : excluded i
    · rw [h i hlt hex]
      exact List.mem_cons_self
    · exact List.mem_cons_of_mem _ (mem_candidates.2 ⟨hlt, hex⟩)
  have hle := (List.nodup_range.subperm hsub).length_le
  rwa [List.length_range, List.length_cons] at hle

theorem length_candidates (h : ∀ i < n, ¬ excluded i) : (candidates excluded n).length = n := by
  have hall : candidates excluded n = List.range n := by
    rw [candidates, List.filter_eq_self]
    intro i hi
    exact decide_eq_true (h i (List.mem_range.1 hi))
  rw [hall, List.length_range]

/-- **A search that excludes the closest points** finds the nearest ones only if it
    excludes none. -/
theorem Finds.nearest_iff (h : Finds excluded n k d found) (hk : 2 ≤ k) (hn : k < n)
    (hd : ∀ i < n, excluded i → ∀ j < n, ¬ excluded j → d i < d j) :
    Nearest n k d found ↔ ∀ i < n, ¬ excluded i := by
  obtain ⟨is, hperm, hnodup, hlen, hmem, hle⟩ := h
  constructor
  · intro hnearest i hi hex
    have hfound : ∀ j, j ∈ found ↔ j ∈ is ∨ (k - is.length ≠ 0 ∧ j = 0) := by
      intro j
      rw [hperm.mem_iff, List.mem_append, List.mem_replicate]
    rcases is.eq_nil_or_concat with rfl | ⟨js, j, rfl⟩
    · -- only the point 0 is found, and that twice
      have htwice := (hperm.nodup_iff).1 hnearest.nodup
      rw [List.nil_append, List.nodup_replicate, List.length_nil] at htwice
      omega
    · -- a candidate is found; what is excluded is closer, so it is found as well
      have hj : j ∈ js.concat j := by simp
      obtain ⟨hjn, hjex⟩ := mem_candidates.1 (hmem j hj)
      have hall : ∀ i < n, excluded i → i ∈ found := by
        intro i hi hex
        by_contra hno
        exact (hnearest.le j ((hfound j).2 (Or.inl hj)) i hi hno).not_gt (hd i hi hex j hjn hjex)
      have hzero : ∀ i < n, excluded i → k - (js.concat j).length ≠ 0 ∧ i = 0 := by
        intro i hi hex
        rcases (hfound i).1 (hall i hi hex) with his | hfill
        · exact absurd hex (mem_candidates.1 (hmem i his)).2
        · exact hfill
      have hcount := le_length_candidates fun i hi hex => (hzero i hi hex).2
      have hfill := (hzero i hi hex).1
      omega
  · intro hnone
    rw [length_candidates hnone, min_eq_left hn.le] at hlen
    rw [hlen, Nat.sub_self, List.replicate_zero, List.append_nil] at hperm
    refine ⟨hperm.length_eq.trans hlen, hperm.nodup_iff.2 hnodup, fun i hi => ?_,
      fun i hi j hj hno => ?_⟩
    · exact (mem_candidates.1 (hmem i (hperm.mem_iff.1 hi))).1
    · exact hle i (hperm.mem_iff.1 hi) j (mem_candidates.2 ⟨hj, hnone j hj⟩)
        fun his => hno (hperm.mem_iff.2 his)

/-- Sort the candidates by their distance. -/
def search (excluded : ℕ → Prop) [DecidablePred excluded] (n k : ℕ) (d : ℕ → γ) : List ℕ :=
  let is := ((candidates excluded n).insertionSort fun i j => d i ≤ d j).take k
  is ++ List.replicate (k - is.length) 0

theorem finds_search : Finds excluded n k d (search excluded n k d) := by
  have hperm := List.perm_insertionSort (fun i j => d i ≤ d j) (candidates excluded n)
  have hsplit := List.take_append_drop k
    ((candidates excluded n).insertionSort fun i j => d i ≤ d j)
  have hsorted : ((candidates excluded n).insertionSort fun i j => d i ≤ d j).Pairwise
      fun i j => d i ≤ d j :=
    List.pairwise_insertionSort (r := fun i j => d i ≤ d j) _
  refine ⟨_, List.Perm.refl _, ?_, ?_, fun i hi => ?_, fun i hi j hj hno => ?_⟩
  · exact (hperm.nodup_iff.2 nodup_candidates).sublist (List.take_sublist ..)
  · rw [List.length_take, hperm.length_eq]
  · exact hperm.mem_iff.1 (List.mem_of_mem_take hi)
  · rw [← hsplit, List.pairwise_append] at hsorted
    have hj' := hperm.mem_iff.2 hj
    rw [← hsplit, List.mem_append] at hj'
    exact hsorted.2.2 i hi j (hj'.resolve_left hno)

end

/-! ## Searching up to a factor -/

section
variable {K : Type*} [Mul K] [LE K] {eligible : ℕ → Prop} {d : ℕ → K} {c : K} {n k : ℕ}
  {is : List ℕ}

/-- The nearest of the eligible points: all of them, or `k` of them with no other one
    closer by more than the factor `c`. -/
structure NearestUpTo (eligible : ℕ → Prop) (d : ℕ → K) (c : K) (n k : ℕ) (is : List ℕ) :
    Prop where
  nodup : is.Nodup
  length_le : is.length ≤ k
  mem : ∀ i ∈ is, i < n ∧ eligible i
  others : ∀ j < n, eligible j → j ∉ is → is.length = k ∧ ∀ i ∈ is, d i ≤ d j * c

theorem NearestUpTo.congr (h : NearestUpTo eligible d c n k is) {eligible' : ℕ → Prop}
    {d' : ℕ → K} (hel : ∀ i < n, eligible i ↔ eligible' i) (hd : ∀ i < n, d i = d' i) :
    NearestUpTo eligible' d' c n k is := by
  refine ⟨h.nodup, h.length_le, fun i hi => ?_, fun j hj hel' hno => ?_⟩
  · obtain ⟨hlt, hi⟩ := h.mem i hi
    exact ⟨hlt, (hel i hlt).1 hi⟩
  · obtain ⟨hlen, hle⟩ := h.others j hj ((hel j hj).2 hel') hno
    refine ⟨hlen, fun i hi => ?_⟩
    rw [← hd i (h.mem i hi).1, ← hd j hj]
    exact hle i hi

end

/-- **Without a factor** the search is exact. -/
theorem NearestUpTo.finds {K : Type*} [MulOneClass K] [LinearOrder K] {excluded : ℕ → Prop}
    [DecidablePred excluded] {d : ℕ → K} {n k : ℕ} {is found : List ℕ}
    (h : NearestUpTo (fun i => ¬ excluded i) d 1 n k is)
    (hfound : found.Perm (is ++ List.replicate (k - is.length) 0)) :
    Finds excluded n k d found := by
  have hmem : ∀ i ∈ is, i ∈ candidates excluded n := fun i hi => mem_candidates.2 (h.mem i hi)
  have hle := (h.nodup.subperm hmem).length_le
  refine ⟨is, hfound, h.nodup, ?_, hmem, ?_⟩
  · refine le_antisymm (le_min h.length_le hle) ?_
    by_contra hlt
    rw [not_le, lt_min_iff] at hlt
    -- a candidate that has not been found
    obtain ⟨j, hj, hno⟩ : ∃ j ∈ candidates excluded n, j ∉ is := by
      by_contra hall
      push Not at hall
      exact hlt.2.not_ge (nodup_candidates.subperm hall).length_le
    obtain ⟨hjn, hjex⟩ := mem_candidates.1 hj
    exact hlt.1.ne (h.others j hjn hjex hno).1
  · intro i hi j hj hno
    obtain ⟨hjn, hjex⟩ := mem_candidates.1 hj
    have hdist := (h.others j hjn hjex hno).2 i hi
    rwa [mul_one] at hdist

/-! ## Distances -/

section
variable {K : Type*} [Ring K] [LinearOrder K] [IsStrictOrderedRing K]

/-- The square of the Euclidean distance, over the coordinates that both points have. -/
def squaredDistance (xs ys : List K) : K :=
  (List.zipWith (fun x y => (x - y) * (x - y)) xs ys).sum

omit [LinearOrder K] [IsStrictOrderedRing K] in
theorem squaredDistance_cons (x y : K) (xs ys : List K) :
    squaredDistance (x :: xs) (y :: ys) = (x - y) * (x - y) + squaredDistance xs ys := by
  simp [squaredDistance]

theorem squaredDistance_nonneg (xs ys : List K) : 0 ≤ squaredDistance xs ys := by
  induction xs generalizing ys with
  | nil => simp [squaredDistance]
  | cons x xs ih =>
    cases ys with
    | nil => simp [squaredDistance]
    | cons y ys =>
      rw [squaredDistance_cons]
      exact add_nonneg (mul_self_nonneg _) (ih ys)

/-- Only equal points have the distance 0. -/
theorem squaredDistance_eq_zero {xs ys : List K} (h : xs.length ≤ ys.length) :
    squaredDistance xs ys = 0 ↔ xs = ys.take xs.length := by
  induction xs generalizing ys with
  | nil => simp [squaredDistance]
  | cons x xs ih =>
    cases ys with
    | nil => simp at h
    | cons y ys =>
      have hrest := ih (Nat.le_of_succ_le_succ h)
      rw [squaredDistance_cons,
        add_eq_zero_iff_of_nonneg (mul_self_nonneg _) (squaredDistance_nonneg xs ys),
        mul_self_eq_zero, sub_eq_zero, hrest, List.length_cons, List.take_succ_cons,
        List.cons.injEq]

theorem squaredDistance_pos {xs ys : List K} (h : xs.length ≤ ys.length)
    (hne : xs ≠ ys.take xs.length) : 0 < squaredDistance xs ys :=
  (squaredDistance_nonneg xs ys).lt_of_ne fun h₀ => hne ((squaredDistance_eq_zero h).1 h₀.symm)

end

end Neighbors
