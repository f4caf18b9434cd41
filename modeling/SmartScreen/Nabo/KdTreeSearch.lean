/-
  What the search of libnabo finds.

  * `recurseKnn_eq`: the search in the nodes is the search in the tree that they are.
  * `Nearest`: the nearest of the eligible points, up to a factor.
  * `onePointKnn_spec`: the search finds them, whatever was in the heap and in the offsets.
-/
import SmartScreen.Lib.Neighbors
import SmartScreen.Nabo.KdTreeBuilt

namespace SmartScreen.Nabo

open Heap IndexHeapSTL Neighbors

namespace KDTreeUnbalancedPtInLeavesImplicitBoundsStackOpt

variable {T : Type} [Field T] [LinearOrder T] [NumericLimits T]
  {t : KDTreeUnbalancedPtInLeavesImplicitBoundsStackOpt T} {tree : KdTree T}
  {heap : StdHeap (Entry.value : Entry T → WithTop T)} {query : List T}
  {allowSelfMatch : Bool} {maxError2 : T} {maxRadius2 : WithTop T}

/-! ## The tree that is searched -/

/-- What is done with the points of a bucket. -/
def atLeaf (t : KDTreeUnbalancedPtInLeavesImplicitBoundsStackOpt T)
    (heap : StdHeap (Entry.value : Entry T → WithTop T)) (query : List T) (allowSelfMatch : Bool)
    (maxRadius2 : WithTop T) (points : List ℕ) (h : IndexHeapSTL T) : IndexHeapSTL T :=
  points.foldl (fun h i => t.scanEntry heap query allowSelfMatch maxRadius2 h (t.bucketEntry i)) h

/-- When a part of space is left out. -/
def skip (maxError2 : T) (maxRadius2 : WithTop T) (rd : T) (h : IndexHeapSTL T) : Bool :=
  ¬ (rd ≤ maxRadius2 ∧ (rd * maxError2 : T) < h.headValue)

omit [LinearOrder T] [NumericLimits T] in
theorem update_getD {off : List T} {cd : ℕ} (hcd : cd < off.length) (v : T) :
    Function.update (fun d => off.getD d 0) cd v = fun d => (off.set cd v).getD d 0 := by
  ext d
  by_cases hd : d = cd
  · subst hd
    simp [hcd]
  · simp [hd, List.getElem?_set_ne (Ne.symm hd)]

omit [LinearOrder T] [NumericLimits T] in
theorem set_getD {off : List T} {cd : ℕ} (hcd : cd < off.length) (v : T) :
    (off.set cd v).set cd (off.getD cd 0) = off := by
  simp [hcd]

/-- The farther part, unless it is left out. -/
theorem far_eq {far : KdTree T} {fuel n cd : ℕ} {rd newOff : T} {h : IndexHeapSTL T}
    {off : List T} (hcd : cd < off.length)
    (hfar : t.recurseKnn heap query allowSelfMatch maxError2 maxRadius2 fuel n rd h
        (off.set cd newOff) =
      some (far.visit (t.atLeaf heap query allowSelfMatch maxRadius2) (skip maxError2 maxRadius2)
        (fun d => query.getD d 0) rd (fun d => (off.set cd newOff).getD d 0) h,
        off.set cd newOff)) :
    (if rd ≤ maxRadius2 ∧ (rd * maxError2 : T) < h.headValue then
      (t.recurseKnn heap query allowSelfMatch maxError2 maxRadius2 fuel n rd h
        (off.set cd newOff)).map fun p => (p.1, p.2.set cd (off.getD cd 0))
      else some (h, off)) =
    some (if skip maxError2 maxRadius2 rd h then h
      else far.visit (t.atLeaf heap query allowSelfMatch maxRadius2) (skip maxError2 maxRadius2)
        (fun d => query.getD d 0) rd
        (Function.update (fun d => off.getD d 0) cd newOff) h, off) := by
  by_cases hcond : rd ≤ maxRadius2 ∧ (rd * maxError2 : T) < h.headValue
  · have hskip : skip maxError2 maxRadius2 rd h = false := decide_eq_false (not_not.2 hcond)
    rw [if_pos hcond, hfar, hskip, Option.map_some, set_getD hcd, update_getD hcd]
    rfl
  · have hskip : skip maxError2 maxRadius2 rd h = true := decide_eq_true hcond
    rw [if_neg hcond, hskip]
    rfl

/-- **The search in the nodes** is the search in the tree; the offsets are restored. -/
theorem recurseKnn_eq (ht : t.Fits) {fuel n : ℕ} (hrep : Represents t tree n)
    (hfuel : t.nodes.length ≤ n + fuel) {rd : T} {h : IndexHeapSTL T} {off : List T}
    (hoff : off.length = t.dim) :
    t.recurseKnn heap query allowSelfMatch maxError2 maxRadius2 fuel n rd h off =
      some (tree.visit (t.atLeaf heap query allowSelfMatch maxRadius2) (skip maxError2 maxRadius2)
        (fun d => query.getD d 0) rd (fun d => off.getD d 0) h, off) := by
  induction tree generalizing n fuel rd h off with
  | leaf points =>
    obtain ⟨hlt, bucket, hnode, hbucket⟩ := hrep
    obtain ⟨fuel, rfl⟩ : ∃ m, fuel = m + 1 := by
      have := (List.getElem?_eq_some_iff.1 hnode).1
      exact ⟨fuel - 1, by omega⟩
    rw [recurseKnn, hnode]
    dsimp only
    rw [getDim_create ht le_rfl hlt, if_pos rfl, getChildBucketSize_create ht le_rfl hlt]
    have htake := List.prefix_iff_eq_take.1 hbucket
    rw [List.length_map] at htake
    rw [← htake, List.foldl_map]
    rfl
  | split dim cut left right ihl ihr =>
    obtain ⟨hdim, child, hchild, hlt, hnode, hl, hr⟩ := hrep
    obtain ⟨fuel, rfl⟩ : ∃ m, fuel = m + 1 := by
      have := (List.getElem?_eq_some_iff.1 hnode).1
      exact ⟨fuel - 1, by omega⟩
    have hset : ∀ v : T, (off.set dim v).length = t.dim := fun v => List.length_set.trans hoff
    rw [recurseKnn, hnode]
    dsimp only
    rw [getDim_create ht hdim.le hlt, if_neg hdim.ne, getChildBucketSize_create ht hdim.le hlt,
      KdTree.visit]
    have hrd : ∀ o v : T, rd + (-o * o + v * v) = rd - o * o + v * v := fun o v => by ring
    rw [hrd]
    by_cases hpos : 0 < query.getD dim 0 - cut
    · simp only [if_pos hpos]
      rw [ihr hr (by omega) hoff, Option.bind_some]
      exact far_eq (hoff ▸ hdim) (ihl hl (by omega) (hset _))
    · simp only [if_neg hpos]
      rw [ihl hl (by omega) hoff, Option.bind_some]
      exact far_eq (hoff ▸ hdim) (ihr hr (by omega) (hset _))

/-! ## What is in the heap -/

omit [LinearOrder T] [NumericLimits T] in
theorem foldl_add_eq_sum (f : ℕ → T) (n : ℕ) :
    (List.range n).foldl (fun sum i => sum + f i) 0 = ∑ i ∈ Finset.range n, f i := by
  induction n with
  | zero => rfl
  | succ n ih =>
    rw [List.range_succ, List.foldl_append, ih, Finset.sum_range_succ]
    rfl

/-- The square of the distance of a point. -/
def distance (t : KDTreeUnbalancedPtInLeavesImplicitBoundsStackOpt T) (query : List T) (i : ℕ) :
    T := t.dist2 query (t.cloud.columns.getD i [])

omit [LinearOrder T] [NumericLimits T] in
theorem distance_eq (i : ℕ) : t.distance query i =
    KdTree.squaredDistance t.dim (fun d => query.getD d 0) (fun d => t.coeff d i) :=
  foldl_add_eq_sum _ _

/-- The points that may be found, by their distances. -/
def Eligible (d : ℕ → T) (allowSelfMatch : Bool) (maxRadius2 : WithTop T) (i : ℕ) : Prop :=
  (d i : WithTop T) ≤ maxRadius2 ∧ (allowSelfMatch = true ∨ (NumericLimits.epsilon : T) < d i)

/-- The heap for `k` neighbours, when the points of `seen` have been looked at. -/
def Holds (t : KDTreeUnbalancedPtInLeavesImplicitBoundsStackOpt T) (query : List T)
    (allowSelfMatch : Bool) (maxError2 : T) (maxRadius2 : WithTop T) (k : ℕ) (seen : Set ℕ)
    (h : IndexHeapSTL T) : Prop :=
  h.nbNeighbours = k ∧ ∃ is, h.Keeps (t.distance query)
    (fun i => (t.distance query i * maxError2 : T))
    (Eligible (t.distance query) allowSelfMatch maxRadius2) seen is

variable [IsStrictOrderedRing T] {k : ℕ} {seen : Set ℕ} {h : IndexHeapSTL T}

omit [NumericLimits T] in
theorem distance_nonneg (i : ℕ) : 0 ≤ t.distance query i := by
  rw [distance_eq]
  exact Finset.sum_nonneg fun d _ => mul_self_nonneg _

/-- One point: it is taken in, or it need not be. -/
theorem Holds.scanEntry (heap : StdHeap (Entry.value : Entry T → WithTop T))
    (herror : 1 ≤ maxError2)
    (hh : t.Holds query allowSelfMatch maxError2 maxRadius2 k seen h) {i : ℕ} (hi : i ∉ seen) :
    t.Holds query allowSelfMatch maxError2 maxRadius2 k (insert i seen)
      (t.scanEntry heap query allowSelfMatch maxRadius2 h (t.bucketEntry i)) := by
  obtain ⟨hk, is, hkeeps⟩ := hh
  have hbound : ∀ j, (t.distance query j : WithTop T) ≤
      (t.distance query j * maxError2 : T) := fun j =>
    WithTop.coe_le_coe.2 (le_mul_of_one_le_right (distance_nonneg j) herror)
  rw [KDTreeUnbalancedPtInLeavesImplicitBoundsStackOpt.scanEntry]
  split_ifs with hcond
  · obtain ⟨hradius, hlt, hself⟩ := hcond
    obtain ⟨is', hkeeps'⟩ := hkeeps.replaceHead heap hbound hi ⟨hradius, hself⟩ hlt
    exact ⟨(nbNeighbours_replaceHead ..).trans hk, is', hkeeps'⟩
  · refine ⟨hk, is, ?_⟩
    rw [← Set.union_singleton]
    refine hkeeps.skip ?_
    rintro j rfl ⟨hradius, hself⟩
    by_contra hlt
    exact hcond ⟨hradius, (hbound j).trans_lt (not_le.1 hlt), hself⟩

/-- A bucket. -/
theorem Holds.atLeaf (herror : 1 ≤ maxError2) {points : List ℕ} (hnodup : points.Nodup)
    (hnew : ∀ i ∈ points, i ∉ seen)
    (hh : t.Holds query allowSelfMatch maxError2 maxRadius2 k seen h) :
    t.Holds query allowSelfMatch maxError2 maxRadius2 k (seen ∪ {i | i ∈ points})
      (t.atLeaf heap query allowSelfMatch maxRadius2 points h) := by
  induction points generalizing seen h with
  | nil => simpa [KDTreeUnbalancedPtInLeavesImplicitBoundsStackOpt.atLeaf] using hh
  | cons i points ih =>
    rw [List.nodup_cons] at hnodup
    have hscan := hh.scanEntry heap herror (hnew i List.mem_cons_self)
    have hnext := ih hnodup.2 ?_ hscan
    · have hseen : seen ∪ {j | j ∈ i :: points} = insert i seen ∪ {j | j ∈ points} := by
        ext j
        simp only [Set.mem_union, Set.mem_ofPred_eq, List.mem_cons, Set.mem_insert_iff]
        tauto
      rw [hseen]
      exact hnext
    · rintro j hj (rfl | hseen)
      · exact hnodup.1 hj
      · exact hnew j (List.mem_cons_of_mem _ hj) hseen

/-- A part of space that is left out. -/
theorem Holds.skip (herror : 1 ≤ maxError2) {points : List ℕ} {rd : T}
    (hskip : skip maxError2 maxRadius2 rd h = true)
    (hfar : ∀ i ∈ points, rd ≤ KdTree.squaredDistance t.dim (fun d => query.getD d 0)
      fun d => t.coeff d i)
    (hh : t.Holds query allowSelfMatch maxError2 maxRadius2 k seen h) :
    t.Holds query allowSelfMatch maxError2 maxRadius2 k (seen ∪ {i | i ∈ points}) h := by
  obtain ⟨hk, is, hkeeps⟩ := hh
  refine ⟨hk, is, hkeeps.skip ?_⟩
  rintro j hj ⟨hradius, -⟩
  have hrd : rd ≤ t.distance query j := by
    rw [distance_eq]
    exact hfar j hj
  have hhead : ¬ (rd * maxError2 : T) < h.headValue := fun hlt =>
    of_decide_eq_true hskip ⟨(WithTop.coe_le_coe.2 hrd).trans hradius, hlt⟩
  refine (not_lt.1 hhead).trans (WithTop.coe_le_coe.2 ?_)
  exact mul_le_mul_of_nonneg_right hrd (zero_le_one.trans herror)

/-- **The search of a tree** has dealt with all of its points. -/
theorem holds_visit (heap : StdHeap (Entry.value : Entry T → WithTop T)) (query : List T)
    (allowSelfMatch : Bool) (maxRadius2 : WithTop T) (herror : 1 ≤ maxError2)
    (htree : Indexes t tree) (hk : 0 < k)
    (hh : h.nbNeighbours = k) {off : ℕ → T} (hoff : off = fun _ => 0) :
    t.Holds query allowSelfMatch maxError2 maxRadius2 k {i | i < t.cloud.cols}
      (tree.visit (t.atLeaf heap query allowSelfMatch maxRadius2)
        (KDTreeUnbalancedPtInLeavesImplicitBoundsStackOpt.skip maxError2 maxRadius2)
        (fun d => query.getD d 0) 0 off h.reset) := by
  subst hoff hh
  have hleaf : ∀ (points : List ℕ) seen h', points.Nodup → (∀ i ∈ points, i ∉ seen) →
      t.Holds query allowSelfMatch maxError2 maxRadius2 h.nbNeighbours seen h' →
      t.Holds query allowSelfMatch maxError2 maxRadius2 h.nbNeighbours (seen ∪ {i | i ∈ points})
        (t.atLeaf heap query allowSelfMatch maxRadius2 points h') :=
    fun points seen h' hnodup hnew hh => hh.atLeaf herror hnodup hnew
  have hkeeping := KdTree.keeping_visit hleaf
    (fun points rd seen h hskip hfar hh => hh.skip herror hskip hfar)
    htree.separates (KdTree.away_start _) (htree.points.nodup_iff.2 List.nodup_range)
  have hseen : {i | i < t.cloud.cols} = ∅ ∪ {i | i ∈ tree.points} := by
    ext i
    simp [htree.points.mem_iff]
  rw [hseen]
  exact hkeeping ∅ h.reset (fun _ _ => id) ⟨rfl, [], IndexHeapSTL.keeps_reset hk⟩

/-! ## What is answered -/

/-- The columns of `indices` and `dists2` for the points `is`: each has an index and its
    distance, and where there is none, the index is 0 and the distance infinite. -/
structure Answer (d : ℕ → T) (k : ℕ) (is : List ℕ) (sortResults : Bool)
    (column : List ℕ × List (WithTop T)) : Prop where
  length_eq : column.1.length = column.2.length
  perm : (column.1.zip column.2).Perm
    (is.map (fun i => (i, (d i : WithTop T))) ++ List.replicate (k - is.length) (0, ⊤))
  sorted : sortResults = true → column.2.Pairwise (· ≤ ·)

omit [Field T] [NumericLimits T] [IsStrictOrderedRing T] in
theorem Answer.indices {d : ℕ → T} {is : List ℕ} {sortResults : Bool}
    {column : List ℕ × List (WithTop T)} (ha : Answer d k is sortResults column) :
    column.1.Perm (is ++ List.replicate (k - is.length) 0) := by
  have hperm := ha.perm.map Prod.fst
  rw [List.map_fst_zip ha.length_eq.le, List.map_append, List.map_map, List.map_replicate] at hperm
  simpa [Function.comp_def] using hperm

omit [Field T] [NumericLimits T] [IsStrictOrderedRing T] in
theorem pairwise_getData {data : List (Entry T)}
    (hdata : data.Pairwise fun x y => x.value ≤ y.value) :
    (getData ⟨data, k⟩).2.Pairwise (· ≤ ·) := by
  rw [getData, List.pairwise_map, List.pairwise_append]
  refine ⟨hdata, List.pairwise_replicate.2 (Or.inr le_rfl), ?_⟩
  intro x _ y hy
  rw [List.eq_of_mem_replicate hy]
  exact le_top

omit [IsStrictOrderedRing T] in
/-- **What is in the heap** when all points have been looked at. -/
theorem Holds.nearest (heap : StdHeap (Entry.value : Entry T → WithTop T))
    (hh : t.Holds query allowSelfMatch maxError2 maxRadius2 k {i | i < t.cloud.cols} h)
    (sortResults : Bool) :
    ∃ is, NearestUpTo (Eligible (t.distance query) allowSelfMatch maxRadius2)
        (t.distance query) maxError2 t.cloud.cols k is ∧
      Answer (t.distance query) k is sortResults
        (if sortResults then h.sort heap else h).getData := by
  obtain ⟨rfl, is, hkeeps⟩ := hh
  refine ⟨is, ⟨hkeeps.nodup, hkeeps.length_le, hkeeps.mem, fun j hj hel hno => ?_⟩, ?_⟩
  · have hrest := hkeeps.rest j hj hel hno
    have hlen : is.length = h.nbNeighbours := by
      refine hkeeps.length_le.eq_of_not_lt fun hlt => ?_
      rw [hkeeps.headValue_eq_top hlt, top_le_iff] at hrest
      exact WithTop.coe_ne_top hrest
    refine ⟨hlen, fun i hi => ?_⟩
    have hmem : (⟨i, t.distance query i⟩ : Entry T) ∈ h.data := by
      rw [hkeeps.perm.mem_iff, entries_of_le hlen.ge]
      exact List.mem_map_of_mem hi
    exact WithTop.coe_le_coe.1 ((value_le_headValue hkeeps.isHeap _ hmem).trans hrest)
  · cases sortResults with
    | false => exact ⟨by simp [getData], hkeeps.getData (.refl _), by rintro ⟨⟩⟩
    | true =>
      refine ⟨by simp [getData], hkeeps.getData (heap.sortHeap_perm _), fun _ => ?_⟩
      exact pairwise_getData (heap.pairwise_sortHeap _ hkeeps.isHeap)

/-- **A query** is answered with the nearest points, whatever the last one has left. -/
theorem onePointKnn_spec (heap : StdHeap (Entry.value : Entry T → WithTop T)) (query : List T)
    (allowSelfMatch : Bool) (maxRadius2 : WithTop T) (herror : 1 ≤ maxError2)
    (htree : Indexes t tree) (hk : 0 < k)
    {fuel : ℕ} (hfuel : t.nodes.length ≤ fuel) (sortResults : Bool)
    (hh : h.nbNeighbours = k) {off : List T} (hoff : off.length = t.dim) :
    ∃ h' off' column is, h'.nbNeighbours = k ∧ off'.length = t.dim ∧
      t.onePointKnn heap query allowSelfMatch maxError2 maxRadius2 fuel sortResults h off =
        some (h', off', column) ∧
      NearestUpTo (Eligible (t.distance query) allowSelfMatch maxRadius2)
        (t.distance query) maxError2 t.cloud.cols k is ∧
      Answer (t.distance query) k is sortResults column := by
  have hlen : (List.replicate off.length (0 : T)).length = t.dim :=
    List.length_replicate.trans hoff
  have hzero : (fun d => (List.replicate off.length (0 : T)).getD d 0) = fun _ => 0 := by
    ext d
    rw [List.getD_eq_getElem?_getD, List.getElem?_replicate]
    split_ifs <;> rfl
  have hholds := holds_visit heap query allowSelfMatch maxRadius2 herror htree hk hh hzero
  obtain ⟨is, hnearest, hanswer⟩ := hholds.nearest heap sortResults
  rw [onePointKnn]
  dsimp only
  rw [recurseKnn_eq htree.fits htree.represents (hfuel.trans (Nat.zero_add _).ge) hlen,
    Option.map_some]
  refine ⟨_, _, _, is, ?_, hlen, rfl, hnearest, hanswer⟩
  split_ifs
  · exact hholds.1
  · exact hholds.1

/-- The loop over the columns of the query. -/
theorem knnColumns_spec (heap : StdHeap (Entry.value : Entry T → WithTop T))
    (allowSelfMatch : Bool) (maxRadius2 : WithTop T) (herror : 1 ≤ maxError2)
    (htree : Indexes t tree) (hk : 0 < k)
    {fuel : ℕ} (hfuel : t.nodes.length ≤ fuel) (sortResults : Bool) (queries : List (List T))
    (hh : h.nbNeighbours = k) {off : List T} (hoff : off.length = t.dim) :
    ∃ columns, t.knnColumns heap allowSelfMatch maxError2 maxRadius2 fuel sortResults queries h
        off = some columns ∧
      List.Forall₂ (fun query column => ∃ is,
        NearestUpTo (Eligible (t.distance query) allowSelfMatch maxRadius2) (t.distance query)
          maxError2 t.cloud.cols k is ∧
        Answer (t.distance query) k is sortResults column) queries columns := by
  induction queries generalizing h off with
  | nil => exact ⟨[], rfl, .nil⟩
  | cons query queries ih =>
    obtain ⟨h', off', column, is, hh', hoff', hknn, hnearest, hanswer⟩ :=
      onePointKnn_spec heap query allowSelfMatch maxRadius2 herror htree hk hfuel sortResults hh
        hoff
    obtain ⟨columns, hcolumns, hall⟩ := ih hh' hoff'
    refine ⟨column :: columns, ?_, .cons ⟨is, hnearest, hanswer⟩ hall⟩
    rw [knnColumns, hknn, Option.bind_some]
    dsimp only
    rw [hcolumns, Option.map_some]

omit [Field T] [LinearOrder T] [NumericLimits T] [IsStrictOrderedRing T] in
theorem checkSizesKnn_ok {query : Matrix T} {optionFlags : ℕ}
    (hk : if optionFlags &&& allowSelfMatchFlag ≠ 0 then k ≤ t.cloud.cols else k < t.cloud.cols)
    (hquery : t.dim ≤ query.rows) (hflags : optionFlags ≤ 3) :
    t.checkSizesKnn query (k, query.cols) (k, query.cols) k optionFlags = .ok () := by
  have hflags' : ¬ (allowSelfMatchFlag ||| sortResultsFlag) < optionFlags := hflags.not_gt
  by_cases hself : optionFlags &&& allowSelfMatchFlag = 0
  · rw [if_neg (not_not.2 hself)] at hk
    have hcols : ¬ t.cloud.cols - 1 < k := by omega
    simp [checkSizesKnn, hself, hcols, hquery.not_gt, hflags', pure, Except.pure]
  · rw [if_pos hself] at hk
    simp [checkSizesKnn, hself, hk.not_gt, hquery.not_gt, hflags', pure, Except.pure]

/-- The square of the distance of a point of a cloud, along the first dimensions. -/
def pointDistance (cloud : Matrix T) (dim : ℕ) (query : List T) (i : ℕ) : T :=
  KdTree.squaredDistance (min dim cloud.rows) (fun d => query.getD d 0)
    fun d => (cloud.columns.getD i []).getD d 0

/-- **What the tree finds** are the nearest points of the cloud, up to the factor that the
    error allows, among those within the radius that are not the query itself. -/
theorem knn_nearest (heap : StdHeap (Entry.value : Entry T → WithTop T)) {cloud : Matrix T}
    {dim bucketSize : ℕ} (hcloud : Indexable cloud dim)
    (hwf : ∀ column ∈ cloud.columns, column.length = cloud.rows) (hbucket : 2 ≤ bucketSize)
    {query : Matrix T} {optionFlags : ℕ} {epsilon : T} {maxRadius : WithTop T}
    (hquery : min dim cloud.rows ≤ query.rows) (hflags : optionFlags ≤ 3) (hepsilon : 0 ≤ epsilon)
    (hk₀ : 0 < k)
    (hk : if optionFlags &&& allowSelfMatchFlag ≠ 0 then k ≤ cloud.cols else k < cloud.cols)
    {fuel : ℕ} (hfuel : 2 * cloud.cols ≤ fuel) :
    ∃ t columns, createKDTreeTreeHeap fuel cloud dim bucketSize = some (.ok t) ∧
      t.dim = min dim cloud.rows ∧
      t.knn heap fuel query (k, query.cols) (k, query.cols) k epsilon optionFlags maxRadius =
        some (.ok columns) ∧
      List.Forall₂ (fun query column => ∃ is,
        NearestUpTo
          (Eligible (pointDistance cloud dim query) (optionFlags &&& allowSelfMatchFlag ≠ 0)
            (maxRadius.map fun radius => radius * radius))
          (pointDistance cloud dim query) ((1 + epsilon) * (1 + epsilon)) cloud.cols k is ∧
        Answer (pointDistance cloud dim query) k is (optionFlags &&& sortResultsFlag ≠ 0) column)
        query.columns columns := by
  have hcols := hcloud.cols_pos
  have hdim : dim ≠ 0 := by
    have := hcloud.dim_pos
    omega
  have herror : 1 ≤ (1 + epsilon) * (1 + epsilon) :=
    one_le_mul_of_one_le_of_one_le (le_add_of_nonneg_right hepsilon)
      (le_add_of_nonneg_right hepsilon)
  obtain ⟨t, tree, ht, rfl, htdim, htree⟩ := construct_ok hcloud hwf
    (show cloud.cols ≤ fuel by omega) hbucket
  obtain ⟨columns, hcolumns, hall⟩ := knnColumns_spec heap
    (optionFlags &&& allowSelfMatchFlag ≠ 0) (maxRadius.map fun radius => radius * radius) herror
    htree hk₀ (htree.length_le.trans hfuel) (optionFlags &&& sortResultsFlag ≠ 0) query.columns
    (show ({ nbNeighbours := k } : IndexHeapSTL T).nbNeighbours = k from rfl)
    (show (List.replicate t.dim (0 : T)).length = t.dim from List.length_replicate)
  have hdistance : ∀ query i, t.distance query i = pointDistance t.cloud dim query i := by
    intro query i
    rw [distance_eq, pointDistance, htdim]
    rfl
  refine ⟨t, columns, ?_, htdim, ?_, ?_⟩
  · rw [createKDTreeTreeHeap, if_neg hdim, ht]
  · rw [knn, checkSizesKnn_ok hk (htdim.trans_le hquery) hflags]
    dsimp only
    rw [hcolumns, Option.map_some]
  · refine hall.imp fun query column => ?_
    rw [show t.distance query = pointDistance t.cloud dim query from funext (hdistance query)]
    exact id

/-- The points `0, …, 19` on a line. -/
def line : Matrix ℚ := ⟨1, (List.range 20).map fun (i : ℕ) => [(i : ℚ)]⟩

/-- The three nearest points of two queries, the second of which is a point itself. -/
theorem knn_nearest_line :
    ∃ t columns, createKDTreeTreeHeap 40 line 1 3 = some (.ok t) ∧ t.dim = min 1 line.rows ∧
      t.knn (sorting _) 40 ⟨1, [[1 / 2], [7]]⟩ (3, 2) (3, 2) 3 0 sortResultsFlag ⊤ =
        some (.ok columns) ∧
      List.Forall₂ (fun query column => ∃ is,
        NearestUpTo
          (Eligible (pointDistance line 1 query) (sortResultsFlag &&& allowSelfMatchFlag ≠ 0)
            ((⊤ : WithTop ℚ).map fun radius => radius * radius))
          (pointDistance line 1 query) ((1 + 0) * (1 + 0)) line.cols 3 is ∧
        Answer (pointDistance line 1 query) 3 is (sortResultsFlag &&& sortResultsFlag ≠ 0) column)
        [[1 / 2], [7]] columns :=
  knn_nearest (sorting _) ⟨by decide, by decide, by decide, by decide +kernel, by decide +kernel⟩
    (by decide) (by decide) (by decide) (by decide) le_rfl (by decide) (by decide) (by decide)

end KDTreeUnbalancedPtInLeavesImplicitBoundsStackOpt

end SmartScreen.Nabo
