/-
  The tree that libnabo builds.

  * `Represents` says which tree a vector of nodes and a vector of buckets are.
  * `cutPoints_spec`: a cut leaves points on either side of it, and none on the wrong one.
  * `buildNodes_spec`: the nodes are a tree of the points, which separates them; the nodes
    and the buckets that were there before stay.
-/
import Mathlib.Data.Nat.Size
import SmartScreen.Lib.KdTree
import SmartScreen.Nabo.KdTree

namespace SmartScreen.Nabo

open Heap Partition

variable {T : Type}

/-! ## Packing -/

theorem getStorageBitCount_go {n i v : ℕ} (hi : i + n = 64) (hv : v < 2 ^ n) :
    getStorageBitCount.go n i v = i + v.size := by
  induction n generalizing i v with
  | zero =>
    obtain rfl : v = 0 := by omega
    simp [getStorageBitCount.go, ← hi]
  | succ n ih =>
    rw [getStorageBitCount.go]
    split_ifs with hzero
    · simp [hzero]
    · have hsize : v.size = (v >>> 1).size + 1 := by
        rw [Nat.shiftRight_one]
        conv_lhs => rw [← Nat.bit_bodd_div2 v]
        rw [Nat.size_bit (by rwa [Nat.bit_bodd_div2]), Nat.div2_val]
      rw [ih (by omega) (by rw [Nat.shiftRight_one]; omega), hsize]
      omega

/-- The number of bits that is counted is that of the value. -/
theorem getStorageBitCount_eq {v : ℕ} (hv : v < 2 ^ 64) : getStorageBitCount v = v.size := by
  rw [getStorageBitCount, getStorageBitCount_go rfl hv, Nat.zero_add]

namespace KDTreeUnbalancedPtInLeavesImplicitBoundsStackOpt

/-- The bits of a packed number suffice for its lower part. -/
structure Fits (t : KDTreeUnbalancedPtInLeavesImplicitBoundsStackOpt T) : Prop where
  dim_lt : t.dim < 2 ^ t.dimBitCount
  bits_le : t.dimBitCount ≤ 32

section
variable {t : KDTreeUnbalancedPtInLeavesImplicitBoundsStackOpt T} {dim child : ℕ}

theorem createDimChildBucketSize_eq (ht : t.Fits) (hdim : dim ≤ t.dim)
    (hchild : child < 2 ^ (32 - t.dimBitCount)) :
    t.createDimChildBucketSize dim child = child * 2 ^ t.dimBitCount + dim := by
  have hlt := hdim.trans_lt ht.dim_lt
  have hpow : 2 ^ (32 - t.dimBitCount) * 2 ^ t.dimBitCount = 2 ^ 32 := by
    rw [← pow_add, Nat.sub_add_cancel ht.bits_le]
  have hle := Nat.mul_le_mul_right (2 ^ t.dimBitCount) (Nat.succ_le_of_lt hchild)
  rw [hpow, Nat.succ_mul] at hle
  rw [createDimChildBucketSize, Nat.or_comm, ← Nat.shiftLeft_add_eq_or_of_lt hlt,
    Nat.shiftLeft_eq, Nat.mod_eq_of_lt (by omega)]

/-- **Both parts of a packed number can be read back.** -/
theorem getDim_create (ht : t.Fits) (hdim : dim ≤ t.dim)
    (hchild : child < 2 ^ (32 - t.dimBitCount)) :
    t.getDim (t.createDimChildBucketSize dim child) = dim := by
  rw [createDimChildBucketSize_eq ht hdim hchild, getDim, dimMask, Nat.one_shiftLeft,
    Nat.and_two_pow_sub_one_eq_mod, Nat.mul_add_mod_of_lt (hdim.trans_lt ht.dim_lt)]

theorem getChildBucketSize_create (ht : t.Fits) (hdim : dim ≤ t.dim)
    (hchild : child < 2 ^ (32 - t.dimBitCount)) :
    t.getChildBucketSize (t.createDimChildBucketSize dim child) = child := by
  have hlt := hdim.trans_lt ht.dim_lt
  rw [createDimChildBucketSize_eq ht hdim hchild, getChildBucketSize, Nat.shiftRight_eq_div_pow,
    Nat.mul_comm, Nat.mul_add_div (Nat.two_pow_pos _), Nat.div_eq_of_lt hlt, Nat.add_zero]

end

/-! ## Cutting -/

variable [Field T] [LinearOrder T] [NumericLimits T]

/-- What the bounds of no points are compared with. -/
def InLimits (x : T) : Prop := NumericLimits.lowest ≤ x ∧ x ≤ NumericLimits.highest

omit [Field T] in
instance InLimits.instDecidable (x : T) : Decidable (InLimits x) :=
  inferInstanceAs (Decidable (_ ∧ _))

omit [Field T] [NumericLimits T] in
theorem foldl_bounds (f : ℕ → T) (points : List ℕ) (b : T × T) {r : T × T}
    (hr : points.foldl (fun b i => (min (f i) b.1, max (f i) b.2)) b = r) :
    (r.1 ≤ b.1 ∧ b.2 ≤ r.2) ∧ (∀ i ∈ points, r.1 ≤ f i ∧ f i ≤ r.2) ∧
      (r.1 = b.1 ∨ ∃ i ∈ points, r.1 = f i) ∧ (r.2 = b.2 ∨ ∃ i ∈ points, r.2 = f i) := by
  induction points generalizing b with
  | nil =>
    subst hr
    simp
  | cons i points ih =>
    obtain ⟨⟨h₁, h₂⟩, hall, hleast, hlargest⟩ := ih _ hr
    obtain ⟨hf₁, hb₁⟩ := le_min_iff.1 h₁
    obtain ⟨hf₂, hb₂⟩ := max_le_iff.1 h₂
    refine ⟨⟨hb₁, hb₂⟩, ?_, ?_, ?_⟩
    · rintro j (_ | ⟨_, hj⟩)
      · exact ⟨hf₁, hf₂⟩
      · exact hall j hj
    · rcases hleast with h | ⟨j, hj, h⟩
      · rcases min_choice (f i) b.1 with hmin | hmin
        · exact Or.inr ⟨i, List.mem_cons_self, h.trans hmin⟩
        · exact Or.inl (h.trans hmin)
      · exact Or.inr ⟨j, List.mem_cons_of_mem _ hj, h⟩
    · rcases hlargest with h | ⟨j, hj, h⟩
      · rcases max_choice (f i) b.2 with hmax | hmax
        · exact Or.inr ⟨i, List.mem_cons_self, h.trans hmax⟩
        · exact Or.inl (h.trans hmax)
      · exact Or.inr ⟨j, List.mem_cons_of_mem _ hj, h⟩

section
variable {t : KDTreeUnbalancedPtInLeavesImplicitBoundsStackOpt T} {points : List ℕ} {cutDim : ℕ}

/-- The bounds are coordinates of points. -/
theorem getBounds_spec (hne : points ≠ []) (hin : ∀ i ∈ points, InLimits (t.coeff cutDim i)) :
    (∀ i ∈ points, (t.getBounds points cutDim).1 ≤ t.coeff cutDim i ∧
      t.coeff cutDim i ≤ (t.getBounds points cutDim).2) ∧
    (∃ i ∈ points, (t.getBounds points cutDim).1 = t.coeff cutDim i) ∧
    ∃ i ∈ points, (t.getBounds points cutDim).2 = t.coeff cutDim i := by
  obtain ⟨-, hall, hleast, hlargest⟩ := foldl_bounds (t.coeff cutDim) points
    (NumericLimits.highest, NumericLimits.lowest) (r := t.getBounds points cutDim) rfl
  obtain ⟨i, hi⟩ := List.exists_mem_of_ne_nil points hne
  refine ⟨hall, ?_, ?_⟩
  · rcases hleast with h | h
    · exact ⟨i, hi, (hall i hi).1.antisymm (h ▸ (hin i hi).2)⟩
    · exact h
  · rcases hlargest with h | h
    · exact ⟨i, hi, (h ▸ (hin i hi).1 : (t.getBounds points cutDim).2 ≤ _).antisymm (hall i hi).2⟩
    · exact h

/-- **A cut** is between the points on its two sides, of which there are some. -/
theorem cutPoints_spec (hlen : 2 ≤ points.length)
    (hin : ∀ i ∈ points, InLimits (t.coeff cutDim i)) (idealCutVal : T)
    {cutVal : T} {ys : List ℕ} {m : ℕ}
    (h : t.cutPoints points cutDim idealCutVal = (cutVal, ys, m)) :
    ys.Perm points ∧ 0 < m ∧ m < points.length ∧
      (∀ i ∈ ys.take m, t.coeff cutDim i ≤ cutVal) ∧
      ∀ i ∈ ys.drop m, cutVal ≤ t.coeff cutDim i := by
  obtain ⟨hall, ⟨iₘ, hiₘ, hmin⟩, iₓ, hiₓ, hmax⟩ :=
    getBounds_spec (List.ne_nil_of_length_pos (by omega)) hin
  generalize hbounds : t.getBounds points cutDim = bounds at hall hmin hmax
  have hle : bounds.1 ≤ bounds.2 := (hall iₘ hiₘ).1.trans (hall iₘ hiₘ).2
  rw [cutPoints, hbounds] at h
  simp only [Prod.mk.injEq] at h
  obtain ⟨hcut, hys, hm⟩ := h
  rw [hcut] at hys hm
  obtain ⟨hperm, hthree⟩ := threeWay (p := fun i => decide (t.coeff cutDim i < cutVal))
    (q := fun i => decide (t.coeff cutDim i ≤ cutVal))
    (fun i hi => decide_eq_true (of_decide_eq_true hi).le) points
  rw [hys] at hperm hthree
  generalize (partition (fun i => decide (t.coeff cutDim i < cutVal)) points 0 0
    points.length).2 = br1 at hthree hm
  generalize (partition _ _ br1 br1 points.length).2 = br2 at hthree hm
  have hlen' := hperm.length_eq
  have hlow : bounds.1 ≤ cutVal := by
    rw [← hcut]
    split_ifs with h₁ h₂
    · exact le_rfl
    · exact hle
    · exact not_lt.1 h₁
  have hhigh : cutVal ≤ bounds.2 := by
    rw [← hcut]
    split_ifs with h₁ h₂
    · exact hle
    · exact le_rfl
    · exact not_lt.1 h₂
  have hbr1 : br1 < ys.length :=
    hthree.br1_lt (hperm.mem_iff.2 hiₓ) (decide_eq_false (not_lt.2 (hmax ▸ hhigh)))
  have hbr2 : 0 < br2 :=
    hthree.br2_pos (hperm.mem_iff.2 hiₘ) (decide_eq_true (hmin ▸ hlow))
  have hbr := hthree.le
  have hbounds : br1 ≤ m ∧ m ≤ br2 ∧ 0 < m ∧ m < points.length := by
    split_ifs at hcut hm with h₁ h₂ h₃ h₄
    · -- nothing is below the least coordinate
      subst hcut
      have hnone := hthree.br1_eq fun i hi =>
        decide_eq_false (not_lt.2 (hall i (hperm.mem_iff.1 hi)).1)
      omega
    · subst hcut
      have hnone := hthree.br2_eq fun i hi =>
        decide_eq_true (hall i (hperm.mem_iff.1 hi)).2
      omega
    all_goals omega
  refine ⟨hperm, hbounds.2.2.1, hbounds.2.2.2, fun i hi => ?_, fun i hi => ?_⟩
  · exact of_decide_eq_true (hthree.of_mem_take hbounds.2.1 i hi)
  · exact not_lt.1 (of_decide_eq_false (hthree.of_mem_drop hbounds.1 i hi))

end

omit [NumericLimits T] in
theorem argMax_lt {v : List T} (hv : v ≠ []) : argMax v < v.length := by
  have hfold : ∀ (xs : List (T × ℕ)) (best : T × ℕ), best.2 < v.length →
      (∀ x ∈ xs, x.2 < v.length) →
      (xs.foldl (fun best x => if best.1 < x.1 then x else best) best).2 < v.length := by
    intro xs
    induction xs with
    | nil => exact fun best hbest _ => hbest
    | cons x xs ih =>
      intro best hbest hxs
      rw [List.foldl_cons]
      refine ih _ ?_ fun y hy => hxs y (List.mem_cons_of_mem _ hy)
      split_ifs
      · exact hxs x List.mem_cons_self
      · exact hbest
  refine hfold _ _ (List.length_pos_iff.2 hv) fun x hx => ?_
  simpa using (List.mem_zipIdx hx).2.1

/-! ## The tree -/

omit [Field T] [LinearOrder T] [NumericLimits T] in
theorem modify_append_cons (xs : List (Node T)) (y : Node T) (zs : List (Node T))
    (f : Node T → Node T) : (xs ++ y :: zs).modify xs.length f = xs ++ f y :: zs := by
  induction xs with
  | nil => rfl
  | cons x xs ih => exact congrArg (x :: ·) ih

/-- More nodes and buckets. -/
def add (t : KDTreeUnbalancedPtInLeavesImplicitBoundsStackOpt T) (nodes : List (Node T))
    (buckets : List (BucketEntry T)) : KDTreeUnbalancedPtInLeavesImplicitBoundsStackOpt T :=
  { t with nodes := t.nodes ++ nodes, buckets := t.buckets ++ buckets }

/-- The nodes from `n` on, with their buckets, are the tree. -/
def Represents (t : KDTreeUnbalancedPtInLeavesImplicitBoundsStackOpt T) : KdTree T → ℕ → Prop
  | .leaf points, n => points.length < 2 ^ (32 - t.dimBitCount) ∧ ∃ bucket,
      t.nodes[n]? = some ⟨t.createDimChildBucketSize t.dim points.length, .bucketIndex bucket⟩ ∧
      points.map t.bucketEntry <+: t.buckets.drop bucket
  | .split dim cut left right, n => dim < t.dim ∧ ∃ child,
      n < child ∧ child < 2 ^ (32 - t.dimBitCount) ∧
      t.nodes[n]? = some ⟨t.createDimChildBucketSize dim child, .cutVal cut⟩ ∧
      Represents t left (n + 1) ∧ Represents t right child

section
variable {t : KDTreeUnbalancedPtInLeavesImplicitBoundsStackOpt T} {ns : List (Node T)}
  {bs : List (BucketEntry T)}

omit [Field T] [LinearOrder T] [NumericLimits T]

@[simp] theorem nodes_add : (t.add ns bs).nodes = t.nodes ++ ns := rfl
@[simp] theorem buckets_add : (t.add ns bs).buckets = t.buckets ++ bs := rfl
@[simp] theorem dim_add : (t.add ns bs).dim = t.dim := rfl
@[simp] theorem bucketSize_add : (t.add ns bs).bucketSize = t.bucketSize := rfl
@[simp] theorem dimBitCount_add : (t.add ns bs).dimBitCount = t.dimBitCount := rfl
@[simp] theorem bucketEntry_add : (t.add ns bs).bucketEntry = t.bucketEntry := rfl
@[simp] theorem createDimChildBucketSize_add :
    (t.add ns bs).createDimChildBucketSize = t.createDimChildBucketSize := rfl

theorem Fits.add (h : t.Fits) : (t.add ns bs).Fits := ⟨h.dim_lt, h.bits_le⟩

/-- Nodes before the tree may change, and more may come. -/
theorem Represents.mono {tree : KdTree T} {n : ℕ} (h : Represents t tree n)
    {nodes : List (Node T)} {buckets : List (BucketEntry T)}
    (hnodes : ∀ i ≥ n, ∀ node, t.nodes[i]? = some node → nodes[i]? = some node)
    (hbuckets : t.buckets <+: buckets) :
    Represents { t with nodes := nodes, buckets := buckets } tree n := by
  induction tree generalizing n with
  | leaf points =>
    obtain ⟨hlt, bucket, hnode, hbucket⟩ := h
    exact ⟨hlt, bucket, hnodes n le_rfl _ hnode, hbucket.trans (hbuckets.drop bucket)⟩
  | split dim cut left right ihl ihr =>
    obtain ⟨hdim, child, hchild, hlt, hnode, hl, hr⟩ := h
    refine ⟨hdim, child, hchild, hlt, hnodes n le_rfl _ hnode, ihl hl ?_, ihr hr ?_⟩
    · exact fun i hi => hnodes i (by omega)
    · exact fun i hi => hnodes i (by omega)

/-- Two trees behind the node that cuts them. -/
theorem represents_split {cutDim : ℕ} (hdim : cutDim < t.dim) {cut : T} {left right : KdTree T}
    {placeholder : Node T} {ns₁ ns₂ : List (Node T)} {bs₁ bs₂ : List (BucketEntry T)}
    (hl : Represents ((t.add [placeholder] []).add ns₁ bs₁) left (t.nodes.length + 1))
    (hr : Represents (((t.add [placeholder] []).add ns₁ bs₁).add ns₂ bs₂) right
      (t.nodes.length + 1 + ns₁.length))
    (hchild : t.nodes.length + 1 + ns₁.length < 2 ^ (32 - t.dimBitCount)) :
    Represents (t.add (⟨t.createDimChildBucketSize cutDim (t.nodes.length + 1 + ns₁.length),
      .cutVal cut⟩ :: (ns₁ ++ ns₂)) (bs₁ ++ bs₂)) (.split cutDim cut left right)
      t.nodes.length := by
  -- the node in front of both has been written, and more nodes have come
  have hnodes : ∀ ns, ns <+: ns₁ ++ ns₂ → ∀ i ≥ t.nodes.length + 1, ∀ node (node' : Node T),
      (t.nodes ++ placeholder :: ns)[i]? = some node →
        (t.nodes ++ node' :: (ns₁ ++ ns₂))[i]? = some node := by
    rintro ns ⟨ms, hms⟩ i hi node node' hnode
    rw [List.getElem?_append_right (by omega),
      show i - t.nodes.length = i - t.nodes.length - 1 + 1 by omega,
      List.getElem?_cons_succ] at hnode ⊢
    rw [← hms, List.getElem?_append_left (List.getElem?_eq_some_iff.1 hnode).1, hnode]
  refine ⟨hdim, _, by omega, hchild, by simp, hl.mono ?_ ?_, hr.mono ?_ ?_⟩
  · intro i hi node hnode
    exact hnodes ns₁ (List.prefix_append _ _) i hi _ _ (by simpa using hnode)
  · simp
  · intro i hi node hnode
    exact hnodes (ns₁ ++ ns₂) (List.prefix_rfl) i (by omega) _ _ (by simpa using hnode)
  · simp

end

omit [LinearOrder T] [NumericLimits T] in
@[simp] theorem coeff_add {t : KDTreeUnbalancedPtInLeavesImplicitBoundsStackOpt T}
    {ns : List (Node T)} {bs : List (BucketEntry T)} : (t.add ns bs).coeff = t.coeff := rfl

/-- The new nodes are a tree of the points, which it separates. -/
structure Builds (t : KDTreeUnbalancedPtInLeavesImplicitBoundsStackOpt T) (points : List ℕ)
    (ns : List (Node T)) (tree : KdTree T) : Prop where
  length_lt : ns.length < 2 * points.length
  perm : tree.points.Perm points
  separates : tree.Separates (fun i d => t.coeff d i) t.dim
  represents : Represents (t.add ns (tree.points.map t.bucketEntry)) tree t.nodes.length

section
variable {t : KDTreeUnbalancedPtInLeavesImplicitBoundsStackOpt T} {points : List ℕ}
  {minValues maxValues : List T} {cutDim : ℕ} {cutVal : T}

/-- The tree without its right part. -/
def addLeft (t : KDTreeUnbalancedPtInLeavesImplicitBoundsStackOpt T) (cutVal : T)
    (ns : List (Node T)) (left : KdTree T) :
    KDTreeUnbalancedPtInLeavesImplicitBoundsStackOpt T :=
  (t.add [⟨0, .cutVal cutVal⟩] []).add ns (left.points.map t.bucketEntry)

omit [Field T] [LinearOrder T] [NumericLimits T] in
theorem length_nodes_placeholder {node : Node T} :
    (t.add [node] []).nodes.length = t.nodes.length + 1 := List.length_append

omit [Field T] [LinearOrder T] [NumericLimits T] in
theorem length_nodes_addLeft {ns : List (Node T)} {left : KdTree T} :
    (t.addLeft cutVal ns left).nodes.length = t.nodes.length + 1 + ns.length := by
  rw [addLeft, nodes_add, List.length_append, length_nodes_placeholder]

omit [LinearOrder T] [Field T] [NumericLimits T] in
/-- Writing the node in front of the two parts. -/
theorem write_addLeft_add {ns₁ ns₂ : List (Node T)} {left right : KdTree T}
    (f : Node T → Node T) :
    { (t.addLeft cutVal ns₁ left).add ns₂ (right.points.map t.bucketEntry) with
      nodes := ((t.addLeft cutVal ns₁ left).add ns₂
        (right.points.map t.bucketEntry)).nodes.modify t.nodes.length f } =
      t.add (f ⟨0, .cutVal cutVal⟩ :: (ns₁ ++ ns₂))
        ((KdTree.split cutDim cutVal left right).points.map t.bucketEntry) := by
  simp [addLeft, add, KdTree.points, modify_append_cons]

omit [NumericLimits T] in
theorem builds_bucket (hne : points ≠ [])
    (hcount : t.nodes.length + 2 * points.length ≤ 2 ^ (32 - t.dimBitCount)) :
    Builds t points
      [⟨t.createDimChildBucketSize t.dim points.length, .bucketIndex t.buckets.length⟩]
      (.leaf points) := by
  have hpos := List.length_pos_iff.2 hne
  refine ⟨?_, .refl _, trivial, ?_, t.buckets.length, by simp, by simp [KdTree.points]⟩
  · rw [List.length_singleton]
    omega
  · rw [dimBitCount_add]
    omega

omit [NumericLimits T] in
theorem Builds.split {ys : List ℕ} {m : ℕ} (hperm : ys.Perm points) (hdim : cutDim < t.dim)
    (hleft : ∀ i ∈ ys.take m, t.coeff cutDim i ≤ cutVal)
    (hright : ∀ i ∈ ys.drop m, cutVal ≤ t.coeff cutDim i)
    {ns₁ ns₂ : List (Node T)} {left right : KdTree T}
    (hl : Builds (t.add [⟨0, .cutVal cutVal⟩] []) (ys.take m) ns₁ left)
    (hr : Builds (t.addLeft cutVal ns₁ left) (ys.drop m) ns₂ right)
    (hchild : t.nodes.length + 1 + ns₁.length < 2 ^ (32 - t.dimBitCount)) :
    Builds t points (⟨t.createDimChildBucketSize cutDim (t.nodes.length + 1 + ns₁.length),
      .cutVal cutVal⟩ :: (ns₁ ++ ns₂)) (.split cutDim cutVal left right) := by
  have hlen₁ := hl.length_lt
  have hlen₂ := hr.length_lt
  have hsum : (ys.take m).length + (ys.drop m).length = points.length := by
    rw [← List.length_append, List.take_append_drop, hperm.length_eq]
  refine ⟨?_, ?_, ⟨hdim, ?_, ?_, hl.separates, hr.separates⟩, ?_⟩
  · rw [List.length_cons, List.length_append]
    omega
  · have hys := hl.perm.append hr.perm
    rw [List.take_append_drop] at hys
    exact hys.trans hperm
  · exact fun i hi => hleft i (hl.perm.mem_iff.1 hi)
  · exact fun i hi => hright i (hr.perm.mem_iff.1 hi)
  · have hrepl := hl.represents
    have hrepr := hr.represents
    rw [length_nodes_placeholder] at hrepl
    rw [length_nodes_addLeft] at hrepr
    rw [KdTree.points, List.map_append]
    exact represents_split hdim hrepl hrepr hchild

/-- **The nodes that are built** are a tree of the points; nothing else changes. -/
theorem buildNodes_spec {fuel : ℕ} {points : List ℕ} {minValues maxValues : List T}
    (hfuel : points.length ≤ fuel) (hne : points ≠ []) (ht : t.Fits) (hdim : 0 < t.dim)
    (hbucket : 2 ≤ t.bucketSize) (hmin : minValues.length = t.dim)
    (hmax : maxValues.length = t.dim)
    (hin : ∀ i ∈ points, ∀ d < t.dim, InLimits (t.coeff d i))
    (hcount : t.nodes.length + 2 * points.length ≤ 2 ^ (32 - t.dimBitCount)) :
    ∃ (ns : List (Node T)) (tree : KdTree T), Builds t points ns tree ∧
      buildNodes fuel points minValues maxValues t =
        some (t.add ns (tree.points.map t.bucketEntry), t.nodes.length) := by
  induction fuel generalizing points minValues maxValues t with
  | zero => exact absurd (List.length_eq_zero_iff.1 (Nat.le_zero.1 hfuel)) hne
  | succ fuel ih =>
    have hpos := List.length_pos_iff.2 hne
    rw [buildNodes]
    split_ifs with hsmall
    · exact ⟨_, _, builds_bucket hne hcount, rfl⟩
    · dsimp only
      have hlen : argMax (List.zipWith (· - ·) maxValues minValues) < t.dim := by
        have hzip : (List.zipWith (· - ·) maxValues minValues).length = t.dim := by
          rw [List.length_zipWith, hmin, hmax, min_self]
        exact hzip ▸ argMax_lt (List.ne_nil_of_length_pos (hzip ▸ hdim))
      generalize argMax (List.zipWith (· - ·) maxValues minValues) = cutDim at hlen
      generalize (maxValues.getD cutDim 0 + minValues.getD cutDim 0) / (2 : ℕ) = idealCutVal
      rcases hcut : t.cutPoints points cutDim idealCutVal with ⟨cutVal, ys, m⟩
      obtain ⟨hperm, hm, hmlt, hleft, hright⟩ := cutPoints_spec (by omega)
        (fun i hi => hin i hi cutDim hlen) idealCutVal hcut
      have hlenys := hperm.length_eq
      have hlen₁ : (ys.take m).length = m := by
        rw [List.length_take]
        omega
      have hlen₂ : (ys.drop m).length = points.length - m := by
        rw [List.length_drop, hlenys]
      obtain ⟨ns₁, left, hbuilds₁, hl⟩ := @ih (t.add [⟨0, .cutVal cutVal⟩] []) (ys.take m)
        minValues (maxValues.set cutDim cutVal) (by omega)
        (List.ne_nil_of_length_pos (by omega)) ht.add hdim hbucket hmin (by simpa using hmax)
        (fun i hi => hin i (hperm.mem_iff.1 (List.mem_of_mem_take hi)))
        (by rw [length_nodes_placeholder, dimBitCount_add]; omega)
      have hns₁ := hbuilds₁.length_lt
      obtain ⟨ns₂, right, hbuilds₂, hr⟩ := @ih (t.addLeft cutVal ns₁ left) (ys.drop m)
        (minValues.set cutDim cutVal) maxValues (by omega)
        (List.ne_nil_of_length_pos (by omega)) ht.add.add hdim hbucket
        (List.length_set.trans hmin) hmax
        (fun i hi => hin i (hperm.mem_iff.1 (List.mem_of_mem_drop hi)))
        (by rw [length_nodes_addLeft]; show _ ≤ 2 ^ (32 - t.dimBitCount); omega)
      refine ⟨_, _, hbuilds₁.split hperm hlen hleft hright hbuilds₂ (by omega), ?_⟩
      have hplaceholder : t.add [⟨0, .cutVal cutVal⟩] [] =
          { t with nodes := t.nodes ++ [⟨0, .cutVal cutVal⟩] } := by
        rw [add, List.append_nil]
      replace hl : _ = some (t.addLeft cutVal ns₁ left, _) := hl
      rw [← hplaceholder, hl, Option.bind_some]
      dsimp only
      rw [hr, Option.bind_some]
      rw [length_nodes_addLeft]
      exact congrArg (fun t => some (t, _)) (write_addLeft_add _)

/-- The nodes and the buckets are a tree of all points. -/
structure Indexes (t : KDTreeUnbalancedPtInLeavesImplicitBoundsStackOpt T) (tree : KdTree T) :
    Prop where
  fits : t.Fits
  length_le : t.nodes.length ≤ 2 * t.cloud.cols
  points : tree.points.Perm (List.range t.cloud.cols)
  separates : tree.Separates (fun i d => t.coeff d i) t.dim
  represents : Represents t tree 0

/-- A cloud of which a tree can be made: there are not too many points for the bits that
    the dimensions leave, and no coordinate is beyond the limits. -/
structure Indexable (cloud : Matrix T) (dim : ℕ) : Prop where
  cols_pos : 0 < cloud.cols
  dim_pos : 0 < min dim cloud.rows
  dim_lt : min dim cloud.rows < 2 ^ 31
  cols_le : 2 * cloud.cols ≤ 2 ^ (32 - (min dim cloud.rows).size)
  inLimits : ∀ column ∈ cloud.columns, ∀ x ∈ column, InLimits x

omit [Field T] [LinearOrder T] [NumericLimits T] in
theorem fits_start {cloud : Matrix T} {dim : ℕ} (bucketSize : ℕ)
    (hlt : min dim cloud.rows < 2 ^ 31) : (start cloud dim bucketSize).Fits := by
  rw [start, getStorageBitCount_eq (hlt.trans (by decide))]
  exact ⟨Nat.lt_size_self _, (Nat.size_le.2 hlt).trans (by decide)⟩

theorem inLimits_coeff {cloud : Matrix T} {dim bucketSize : ℕ} (h : Indexable cloud dim)
    (hwf : ∀ column ∈ cloud.columns, column.length = cloud.rows) {i d : ℕ} (hi : i < cloud.cols)
    (hd : d < min dim cloud.rows) : InLimits ((start cloud dim bucketSize).coeff d i) := by
  have hcolumn : cloud.columns[i] ∈ cloud.columns := List.getElem_mem hi
  have hlen : d < (cloud.columns[i]).length := by
    rw [hwf _ hcolumn]
    exact hd.trans_le (min_le_right _ _)
  have hcoeff : (start cloud dim bucketSize).coeff d i = cloud.columns[i][d] := by
    rw [coeff, start, List.getD_eq_getElem?_getD, List.getD_eq_getElem?_getD,
      List.getElem?_eq_getElem hi, Option.getD_some, List.getElem?_eq_getElem hlen,
      Option.getD_some]
  rw [hcoeff]
  exact h.inLimits _ hcolumn _ (List.getElem_mem hlen)

/-- **The constructor** makes a tree of all points. -/
theorem construct_ok {fuel : ℕ} {cloud : Matrix T} {dim bucketSize : ℕ}
    (h : Indexable cloud dim) (hwf : ∀ column ∈ cloud.columns, column.length = cloud.rows)
    (hfuel : cloud.cols ≤ fuel) (hbucket : 2 ≤ bucketSize) :
    ∃ t tree, construct fuel cloud dim bucketSize = some (.ok t) ∧ t.cloud = cloud ∧
      t.dim = min dim cloud.rows ∧ Indexes t tree := by
  have hcols := h.cols_pos
  have hdim : 0 < min dim cloud.rows := h.dim_pos
  have hfits := fits_start bucketSize h.dim_lt
  have hcount : 2 * cloud.cols ≤ 2 ^ (32 - (start cloud dim bucketSize).dimBitCount) := by
    rw [start, getStorageBitCount_eq (h.dim_lt.trans (by decide))]
    exact h.cols_le
  have hne : List.range cloud.cols ≠ [] := by
    rw [Ne, List.range_eq_nil]
    exact hcols.ne'
  rw [construct, if_neg hcols.ne', if_neg (by omega), if_neg (by omega)]
  rcases le_or_gt cloud.cols bucketSize with hsmall | hsmall
  · -- a single bucket
    have hbuilds := builds_bucket (t := start cloud dim bucketSize) hne
      (by rw [List.length_range]; exact (Nat.zero_add _).trans_le hcount)
    have hlen := hbuilds.length_lt.le
    rw [List.length_range] at hbuilds hlen
    rw [if_pos hsmall]
    exact ⟨_, _, rfl, rfl, rfl, ⟨hfits.dim_lt, hfits.bits_le⟩, hlen, hbuilds.perm,
      hbuilds.separates, hbuilds.represents⟩
  · have hmany : cloud.cols / (bucketSize / 2) ≤
        1 <<< (32 - (start cloud dim bucketSize).dimBitCount) - 1 := by
      rw [Nat.one_shiftLeft]
      have := Nat.div_le_self cloud.cols (bucketSize / 2)
      omega
    have hmin : (start cloud dim bucketSize).minBound.length = min dim cloud.rows := by
      simp [minBound, start]
    have hmax : (start cloud dim bucketSize).maxBound.length = min dim cloud.rows := by
      simp [maxBound, start]
    obtain ⟨ns, tree, hbuilds, hbuild⟩ := buildNodes_spec
      ((List.length_range : (List.range cloud.cols).length = cloud.cols).trans_le hfuel) hne hfits
      hdim hbucket hmin hmax
      (fun i hi d hd => inLimits_coeff h hwf (List.mem_range.1 hi) hd)
      (by rw [List.length_range]; exact (Nat.zero_add _).trans_le hcount)
    have hlen : ns.length < 2 * cloud.cols := by
      have hlt := hbuilds.length_lt
      rwa [List.length_range] at hlt
    rw [if_neg hsmall.not_ge, if_neg hmany.not_gt, hbuild]
    exact ⟨_, tree, rfl, rfl, rfl, hfits.add, hlen.le, hbuilds.perm, hbuilds.separates,
      hbuilds.represents⟩

end

end KDTreeUnbalancedPtInLeavesImplicitBoundsStackOpt

end SmartScreen.Nabo
