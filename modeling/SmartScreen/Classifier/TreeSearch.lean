/-
  The classifier with the search tree of libnabo.

  * `naboNearest` is `createKDTreeTreeHeap` and `knn` as `DataClassifier` calls them.
  * `finds_naboNearest`: it finds the nearest columns among those whose distance from the
    query is not 0 up to the precision of the numbers.
  * `voters_nearest_of_tree`: when the five nearest labelled events vote.
-/
import SmartScreen.Classifier.Neighbors
import SmartScreen.Nabo.KdTreeSearch

namespace SmartScreen.DataClassifier

open Fallible Heap Loop Nabo Neighbors
open KDTreeUnbalancedPtInLeavesImplicitBoundsStackOpt

variable {α F : Type} [ExactArith F] [NumericLimits F]

/-- The indices that `knn` writes with its default arguments; the rounds suffice. -/
def naboNearest (heap : StdHeap (Entry.value : Entry F → WithTop F))
    (nns : NearestNeighbourSearch F) (query : List F) (k : ℕ) : List ℕ :=
  let fuel := 2 * nns.cloud.cols
  match createKDTreeTreeHeap fuel nns.cloud with
  | some (.ok t) =>
    match t.knnVector heap fuel query k with
    | some (.ok (indices, _)) => indices
    | _ => []
  | _ => []

section
variable {heap : StdHeap (Entry.value : Entry F → WithTop F)} {cloud : Matrix F}
  {query : List F}

omit [NumericLimits F] in
/-- The distance in the tree is that of the columns. -/
theorem squaredDistance_eq_sum {xs ys : List F} (h : xs.length ≤ ys.length) :
    squaredDistance xs ys =
      KdTree.squaredDistance xs.length (fun d => ys.getD d 0) fun d => xs.getD d 0 := by
  induction xs generalizing ys with
  | nil => rfl
  | cons x xs ih =>
    cases ys with
    | nil => cases h
    | cons y ys =>
      rw [squaredDistance_cons, ih (Nat.le_of_succ_le_succ h), KdTree.squaredDistance,
        KdTree.squaredDistance, List.length_cons, Finset.sum_range_succ', add_comm]
      simp only [List.getD_cons_succ, List.getD_cons_zero]
      rw [← neg_sub x y, neg_mul_neg]

/-- With so many dimensions that some are left out there is at most one point. -/
theorem min_rows_eq (hcloud : Indexable cloud (2 ^ 31 - 1)) (hcols : 2 ≤ cloud.cols) :
    min (2 ^ 31 - 1) cloud.rows = cloud.rows := by
  refine min_eq_right ?_
  by_contra hlt
  have hle := hcloud.cols_le
  rw [min_eq_left (by omega)] at hle
  have hsize : 30 < (2 ^ 31 - 1 : ℕ).size := Nat.lt_size.2 (by norm_num)
  have hpow : 2 ^ (32 - (2 ^ 31 - 1 : ℕ).size) ≤ 2 ^ 1 :=
    Nat.pow_le_pow_right (by norm_num) (by omega)
  omega

omit [NumericLimits F] in
/-- The distances in the tree. -/
theorem pointDistance_eq (hwf : WellFormed cloud) (hquery : cloud.rows ≤ query.length) {i : ℕ}
    (hi : i < cloud.cols) {dim : ℕ} (hdim : min dim cloud.rows = cloud.rows) :
    pointDistance cloud dim (query.take cloud.rows) i =
      squaredDistance (cloud.columns.getD i []) query := by
  have hcolumn : (cloud.columns.getD i []).length = cloud.rows := by
    rw [List.getD_eq_getElem?_getD, List.getElem?_eq_getElem hi, Option.getD_some]
    exact hwf _ (List.getElem_mem hi)
  rw [squaredDistance_eq_sum (hcolumn.trans_le hquery), pointDistance, hdim, hcolumn,
    KdTree.squaredDistance, KdTree.squaredDistance]
  refine Finset.sum_congr rfl fun d hd => ?_
  have htake : (query.take cloud.rows).getD d 0 = query.getD d 0 := by
    rw [List.getD_eq_getElem?_getD, List.getElem?_take, if_pos (Finset.mem_range.1 hd),
      List.getD_eq_getElem?_getD]
  rw [htake]

/-- **The search with the tree** is exact, but it leaves out what is too close. -/
theorem finds_naboNearest (heap : StdHeap (Entry.value : Entry F → WithTop F))
    (hcloud : Indexable cloud (2 ^ 31 - 1)) (hwf : WellFormed cloud)
    (hquery : cloud.rows ≤ query.length) {k : ℕ} (hk₀ : 0 < k) (hk : k < cloud.cols) :
    Finds (fun i => squaredDistance (cloud.columns.getD i []) query ≤ NumericLimits.epsilon)
      cloud.cols k (fun i => squaredDistance (cloud.columns.getD i []) query)
      (naboNearest heap ⟨cloud⟩ query k) := by
  have hdim := min_rows_eq hcloud (by omega)
  obtain ⟨t, columns, ht, htdim, hknn, hall⟩ := knn_nearest heap hcloud hwf
    (show 2 ≤ 8 by decide)
    (show min (2 ^ 31 - 1) cloud.rows ≤ (⟨cloud.rows, [query.take cloud.rows]⟩ : Matrix F).rows
      from min_le_right _ _)
    (show 0 ≤ 3 by decide) (le_refl (0 : F)) hk₀ (by rwa [if_neg (by decide)]) le_rfl
  rw [hdim] at htdim
  obtain ⟨column, columns, ⟨is, hnearest, hanswer⟩, -, rfl⟩ := List.forall₂_cons_left_iff.1 hall
  have hindices : naboNearest heap ⟨cloud⟩ query k = column.1 := by
    rw [naboNearest]
    dsimp only
    rw [ht]
    dsimp only
    rw [knnVector, if_neg (htdim ▸ hquery.not_gt), htdim]
    dsimp only
    rw [show (k, 1) = (k, (⟨cloud.rows, [query.take cloud.rows]⟩ : Matrix F).cols) from rfl, hknn]
    rfl
  rw [hindices]
  refine NearestUpTo.finds ?_ hanswer.indices
  rw [add_zero, one_mul] at hnearest
  have hd : ∀ i < cloud.cols, pointDistance cloud (2 ^ 31 - 1) (query.take cloud.rows) i =
      squaredDistance (cloud.columns.getD i []) query :=
    fun i hi => pointDistance_eq hwf hquery hi hdim
  refine hnearest.congr (fun i hi => ?_) hd
  rw [Eligible, hd i hi]
  simp [not_le]

end

variable {lib : Libraries α F} {c : DataClassifier F} {f : EventFeatures F} {indices : List ℕ}

/-- **The five nearest labelled events vote** iff none of them is so close to the query
    that the tree takes it for the query itself. -/
theorem voters_nearest_of_tree (heap : StdHeap (Entry.value : Entry F → WithTop F))
    (hmany : 5 < c.eventLabelManager.labeledEvents.length) (hm : Matches c)
    (hwf : WellFormed c.labeledMatrix) (hcloud : Indexable c.labeledMatrix (2 ^ 31 - 1))
    (h : neighbors { lib with nearest := naboNearest heap } c f = .ok indices) :
    Nearest c.eventLabelManager.labeledEvents.length 5 (c.distance f) indices ↔
      ∀ e ∈ c.eventLabelManager.labeledEvents,
        NumericLimits.epsilon < squaredDistance (c.normalized e) (c.normalized f) := by
  obtain ⟨nns, hnns, hcols, hrows, -, rfl⟩ := neighbors_ok h
  rw [hm.nns (List.ne_nil_of_length_pos (by omega))] at hnns
  cases hnns
  have hfinds := finds_naboNearest heap hcloud hwf hrows
    (show 0 < numberOfNeighbors by decide) hcols
  have hnearest := hfinds.nearest_iff (by simp [numberOfNeighbors]) hcols
    fun i _ hi j hj hne => hi.trans_lt (not_le.1 hne)
  rw [hm.cols_eq, hm.columns_eq] at hnearest
  refine hnearest.trans ?_
  constructor
  · intro hnone e he
    obtain ⟨i, hi, rfl⟩ := List.getElem_of_mem he
    have hfar := not_le.1 (hnone i hi)
    rwa [List.getD_eq_getElem?_getD, List.getElem?_map, List.getElem?_eq_getElem hi,
      Option.map_some, Option.getD_some] at hfar
  · intro hfar i hi
    rw [not_le, List.getD_eq_getElem?_getD, List.getElem?_map, List.getElem?_eq_getElem hi,
      Option.map_some, Option.getD_some]
    exact hfar _ (List.getElem_mem hi)

/-- Six labelled events, and a query between two of them. -/
theorem voters_nearest_of_tree_between :
    ∃ (c : DataClassifier ℚ) (indices : List ℕ),
      neighbors { sortingLibraries with nearest := naboNearest (sorting _) } c
          { featureVector := [1 / 2] } = .ok indices ∧
      (Nearest c.eventLabelManager.labeledEvents.length 5
          (c.distance { featureVector := [1 / 2] }) indices ↔
        ∀ e ∈ c.eventLabelManager.labeledEvents, NumericLimits.epsilon <
          squaredDistance (c.normalized e) (c.normalized { featureVector := [1 / 2] })) := by
  obtain ⟨c, hc, hmanager, hcloud, hfound⟩ : ∃ c : DataClassifier ℚ,
      regenerateMatrix { eventLabelManager := sixEvents } = .ok c () ∧
      c.eventLabelManager = sixEvents ∧
      Indexable c.labeledMatrix (2 ^ 31 - 1) ∧
      (neighbors { sortingLibraries with nearest := naboNearest (sorting _) } c
        { featureVector := [1 / 2] }).toOption.isSome = true :=
    ⟨_, rfl, rfl, ⟨by decide +kernel, by decide +kernel, by decide +kernel, by decide +kernel,
      by decide +kernel⟩, by decide +kernel⟩
  have hne : sixEvents.labeledEvents ≠ [] := by rintro ⟨⟩
  cases hneighbors : neighbors { sortingLibraries with nearest := naboNearest (sorting _) } c
      { featureVector := [1 / 2] } with
  | error e =>
    rw [hneighbors] at hfound
    cases hfound
  | ok indices =>
    exact ⟨c, indices, hneighbors, voters_nearest_of_tree (sorting _)
      (by rw [hmanager]; decide) (.of_regenerateMatrix hne hc)
      (wellFormed_of_regenerateMatrix hne hc) hcloud hneighbors⟩

end SmartScreen.DataClassifier
