/-
  Trees that divide points by cuts along coordinates, and searches in them that leave
  out what is too far away.

  The points are numbers; `x i d` is the coordinate `d` of the point `i`.

  * `Separates`: the points on either side of a cut lie on that side of it.
  * `visit` goes to the side of the query first, and to the other side unless `skip`
    says that it is too far; `rd` is how far the part of space is.
  * `visit_inv`: what a search keeps that may leave out points that are at least that
    far.
-/
import Mathlib.Tactic

inductive KdTree (K : Type*) where
  | leaf (points : List ℕ)
  | split (dim : ℕ) (cut : K) (left right : KdTree K)

namespace KdTree

variable {K σ : Type*}

def points : KdTree K → List ℕ
  | leaf points => points
  | split _ _ left right => left.points ++ right.points

/-- Along which coordinates the tree cuts, and that it cuts there. -/
def Separates [LE K] (x : ℕ → ℕ → K) (dims : ℕ) : KdTree K → Prop
  | leaf _ => True
  | split dim cut left right =>
    dim < dims ∧ (∀ i ∈ left.points, x i dim ≤ cut) ∧ (∀ i ∈ right.points, cut ≤ x i dim) ∧
      left.Separates x dims ∧ right.Separates x dims

/-- The search.  `off d` is how far the part of space is along the coordinate `d`, and
    `rd` is the square of how far it is. -/
def visit [Ring K] [LinearOrder K] (atLeaf : List ℕ → σ → σ) (skip : K → σ → Bool)
    (q : ℕ → K) : KdTree K → K → (ℕ → K) → σ → σ
  | leaf points, _, _, s => atLeaf points s
  | split dim cut left right, rd, off, s =>
    let offNew := q dim - cut
    let near := if 0 < offNew then right.visit atLeaf skip q rd off s
      else left.visit atLeaf skip q rd off s
    let rdNew := rd - off dim * off dim + offNew * offNew
    if skip rdNew near then near
    else if 0 < offNew then
      left.visit atLeaf skip q rdNew (Function.update off dim offNew) near
    else right.visit atLeaf skip q rdNew (Function.update off dim offNew) near

variable [Ring K] [LinearOrder K] [IsStrictOrderedRing K] {x : ℕ → ℕ → K} {dims : ℕ} {q : ℕ → K}

/-- The square of the distance of two points. -/
def squaredDistance (dims : ℕ) (q p : ℕ → K) : K :=
  ∑ d ∈ Finset.range dims, (q d - p d) * (q d - p d)

/-- How far a part of space is, along each coordinate and altogether, where all the
    points are in it. -/
structure Away (x : ℕ → ℕ → K) (dims : ℕ) (q : ℕ → K) (points : List ℕ) (rd : K)
    (off : ℕ → K) : Prop where
  rd_eq : rd = ∑ d ∈ Finset.range dims, off d * off d
  le : ∀ i ∈ points, ∀ d < dims, off d * off d ≤ (q d - x i d) * (q d - x i d)

theorem away_start (points : List ℕ) :
    Away x dims q points 0 fun _ => 0 := by
  constructor
  · simp
  · intro i _ d _
    simpa using mul_self_nonneg (q d - x i d)

omit [IsStrictOrderedRing K] in
theorem Away.mono {points points' : List ℕ} {rd : K} {off : ℕ → K}
    (h : Away x dims q points rd off) (hsub : ∀ i ∈ points', i ∈ points) :
    Away x dims q points' rd off :=
  ⟨h.rd_eq, fun i hi => h.le i (hsub i hi)⟩

/-- **No point is closer** than the part of space that it is in. -/
theorem Away.le_squaredDistance {points : List ℕ} {rd : K} {off : ℕ → K}
    (h : Away x dims q points rd off) : ∀ i ∈ points, rd ≤ squaredDistance dims q (x i) := by
  intro i hi
  rw [h.rd_eq]
  exact Finset.sum_le_sum fun d hd => h.le i hi d (Finset.mem_range.1 hd)

omit [IsStrictOrderedRing K] in
/-- Behind a cut: the offset along its coordinate is the distance from the cut. -/
theorem Away.update {points : List ℕ} {rd : K} {off : ℕ → K} (h : Away x dims q points rd off)
    {dim : ℕ} (hdim : dim < dims) {offNew : K}
    (hcut : ∀ i ∈ points, offNew * offNew ≤ (q dim - x i dim) * (q dim - x i dim)) :
    Away x dims q points (rd - off dim * off dim + offNew * offNew)
      (Function.update off dim offNew) := by
  constructor
  · have hmem := Finset.mem_range.2 hdim
    have hothers : ∀ d ∈ (Finset.range dims).erase dim,
        Function.update off dim offNew d * Function.update off dim offNew d = off d * off d := by
      intro d hd
      rw [Function.update_of_ne (Finset.ne_of_mem_erase hd)]
    rw [← Finset.add_sum_erase _ _ hmem, Finset.sum_congr rfl hothers, Function.update_self,
      h.rd_eq, ← Finset.add_sum_erase _ (fun d => off d * off d) hmem]
    abel
  · intro i hi d hd
    by_cases hdd : d = dim
    · subst hdd
      rw [Function.update_self]
      exact hcut i hi
    · rw [Function.update_of_ne hdd]
      exact h.le i hi d hd

/-- On the other side of a cut from the query. -/
theorem mul_self_le_of_between {a b c : K} (h : b ≤ c ∧ c ≤ a ∨ a ≤ c ∧ c ≤ b) :
    (a - c) * (a - c) ≤ (a - b) * (a - b) := by
  rcases h with ⟨hb, ha⟩ | ⟨ha, hb⟩
  · exact mul_self_le_mul_self (sub_nonneg.2 ha) (sub_le_sub_left hb a)
  · have h := mul_self_le_mul_self (sub_nonneg.2 ha) (sub_le_sub_right hb a)
    rwa [← neg_sub a c, ← neg_sub a b, neg_mul_neg, neg_mul_neg] at h

/-! ## Invariants of a search -/

section
variable {atLeaf : List ℕ → σ → σ} {skip : K → σ → Bool} {I : Set ℕ → σ → Prop}

/-- Searching a tree is done with its points. -/
def Keeping (atLeaf : List ℕ → σ → σ) (skip : K → σ → Bool) (q : ℕ → K) (I : Set ℕ → σ → Prop)
    (t : KdTree K) (rd : K) (off : ℕ → K) : Prop :=
  ∀ seen s, (∀ i ∈ t.points, i ∉ seen) → I seen s →
    I (seen ∪ {i | i ∈ t.points}) (t.visit atLeaf skip q rd off s)

/-- One side is searched, and then the other one unless it is skipped. -/
theorem Keeping.both
    (hskip : ∀ (points : List ℕ) rd seen s, skip rd s = true →
      (∀ i ∈ points, rd ≤ squaredDistance dims q (x i)) → I seen s →
      I (seen ∪ {i | i ∈ points}) s)
    {near far : KdTree K} {rd rd' : K} {off off' : ℕ → K}
    (hnear : Keeping atLeaf skip q I near rd off) (hfar : Keeping atLeaf skip q I far rd' off')
    (haway : Away x dims q far.points rd' off')
    (hdisjoint : ∀ i ∈ far.points, i ∉ near.points) {seen : Set ℕ} {s : σ}
    (hnew : ∀ i, i ∈ near.points ∨ i ∈ far.points → i ∉ seen) (hs : I seen s) :
    I (seen ∪ {i | i ∈ near.points} ∪ {i | i ∈ far.points})
      (if skip rd' (near.visit atLeaf skip q rd off s) then near.visit atLeaf skip q rd off s
        else far.visit atLeaf skip q rd' off' (near.visit atLeaf skip q rd off s)) := by
  have hnear := hnear seen s (fun i hi => hnew i (Or.inl hi)) hs
  split_ifs with hsk
  · exact hskip _ _ _ _ hsk haway.le_squaredDistance hnear
  · refine hfar _ _ ?_ hnear
    rintro i hi (hseen | hi')
    · exact hnew i (Or.inr hi) hseen
    · exact hdisjoint i hi hi'

/-- **What a search keeps.**  `I seen s` holds of the state `s` when the points `seen`
    are done with; looking at a leaf keeps it, and so does leaving out points that are
    not closer than what was skipped. -/
theorem keeping_visit
    (hleaf : ∀ (points : List ℕ) seen s, points.Nodup → (∀ i ∈ points, i ∉ seen) → I seen s →
      I (seen ∪ {i | i ∈ points}) (atLeaf points s))
    (hskip : ∀ (points : List ℕ) rd seen s, skip rd s = true →
      (∀ i ∈ points, rd ≤ squaredDistance dims q (x i)) → I seen s →
      I (seen ∪ {i | i ∈ points}) s)
    {t : KdTree K} (ht : t.Separates x dims) {rd : K} {off : ℕ → K}
    (haway : Away x dims q t.points rd off) (hnodup : t.points.Nodup) :
    Keeping atLeaf skip q I t rd off := by
  induction t generalizing rd off with
  | leaf points => exact fun seen s hnew hs => hleaf points seen s hnodup hnew hs
  | split dim cut left right ihl ihr =>
    obtain ⟨hdim, hleft, hright, hsepl, hsepr⟩ := ht
    obtain ⟨hnodupl, hnodupr, hdisjoint⟩ := List.nodup_append'.1 hnodup
    have hawayl : Away x dims q left.points rd off :=
      haway.mono fun i hi => List.mem_append_left _ hi
    have hawayr : Away x dims q right.points rd off :=
      haway.mono fun i hi => List.mem_append_right _ hi
    intro seen s hnew hs
    have hnew' : ∀ i, i ∈ left.points ∨ i ∈ right.points → i ∉ seen :=
      fun i hi => hnew i (List.mem_append.2 hi)
    simp only [points, List.mem_append, Set.ofPred_or, visit]
    by_cases hpos : 0 < q dim - cut
    · -- the query is on the right
      have hfar := hawayl.update hdim fun i hi =>
        mul_self_le_of_between (Or.inl ⟨hleft i hi, (sub_pos.1 hpos).le⟩)
      simp only [if_pos hpos]
      rw [Set.union_comm {i | i ∈ left.points}, ← Set.union_assoc]
      exact Keeping.both hskip (ihr hsepr hawayr hnodupr) (ihl hsepl hfar hnodupl) hfar
        (fun i hi hi' => hdisjoint hi hi') (fun i hi => hnew' i hi.symm) hs
    · have hfar := hawayr.update hdim fun i hi =>
        mul_self_le_of_between (Or.inr ⟨sub_nonpos.1 (not_lt.1 hpos), hright i hi⟩)
      simp only [if_neg hpos]
      rw [← Set.union_assoc]
      exact Keeping.both hskip (ihl hsepl hawayl hnodupl) (ihr hsepr hfar hnodupr) hfar
        (fun i hi hi' => hdisjoint hi' hi) hnew' hs

end

end KdTree
