/-
  Partitioning a vector in place by two indices that move towards each other.

  * `partition p xs lo l r` is the loop: `l` moves up over what belongs to the left,
    `r` (one past the element that is looked at) down to `lo` over what does not, and
    the two elements that are found are swapped.
  * `Split p ys lo m`: from `lo` to `m` all elements belong to the left, from `m` on
    none does; `Between.partition` says that of what the loop leaves.
  * `threeWay`: a second loop over what the first one has left on the right.
-/
import Mathlib.Tactic

namespace Partition

variable {β : Type*}

/-- `std::swap(xs[i], xs[j])` -/
def swap (xs : List β) (i j : ℕ) : List β :=
  match xs[i]?, xs[j]? with
  | some x, some y => (xs.set i y).set j x
  | _, _ => xs

/-- `while (l < count && p(xs[l])) ++l` -/
def scanUp (p : β → Bool) (xs : List β) (l : ℕ) : ℕ :=
  if h : l < xs.length then
    if p xs[l] then scanUp p xs (l + 1) else l
  else l
termination_by xs.length - l

/-- `while (r > lo && !p(xs[r - 1])) --r` -/
def scanDown (p : β → Bool) (xs : List β) (lo : ℕ) : ℕ → ℕ
  | 0 => 0
  | r + 1 => if lo ≤ r ∧ xs[r]?.any fun x => !p x then scanDown p xs lo r else r + 1

variable {p : β → Bool} {xs : List β} {lo l r : ℕ}

theorem le_scanUp : l ≤ scanUp p xs l := by
  fun_induction scanUp p xs l with
  | case1 l hl hp ih => omega
  | case2 | case3 => exact le_rfl

theorem scanDown_le : scanDown p xs lo r ≤ r := by
  induction r with
  | zero => exact le_rfl
  | succ r ih =>
    rw [scanDown]
    split_ifs
    · omega
    · exact le_rfl

/-- The loop. -/
def partition (p : β → Bool) (xs : List β) (lo l r : ℕ) : List β × ℕ :=
  let l' := scanUp p xs l
  let r' := scanDown p xs lo r
  if l' < r' then partition p (swap xs l' (r' - 1)) lo (l' + 1) (r' - 1) else (xs, l')
termination_by r - l
decreasing_by
  have := @le_scanUp _ p xs l
  have := @scanDown_le _ p xs lo r
  omega

/-! ## Scanning and swapping -/

theorem of_lt_scanUp {i : ℕ} {x : β} (hl : l ≤ i) (hi : i < scanUp p xs l)
    (hx : xs[i]? = some x) : p x = true := by
  fun_induction scanUp p xs l with
  | case1 l hlt hp ih =>
    rcases hl.eq_or_lt with rfl | hl
    · rw [List.getElem?_eq_getElem hlt] at hx
      cases hx
      exact hp
    · exact ih hl hi
  | case2 | case3 => omega

theorem scanUp_le (hl : l ≤ xs.length) : scanUp p xs l ≤ xs.length := by
  fun_induction scanUp p xs l with
  | case1 l hlt hp ih => exact ih hlt
  | case2 | case3 => exact hl

/-- Where the scan has stopped. -/
theorem not_of_scanUp {x : β} (hx : xs[scanUp p xs l]? = some x) : p x = false := by
  fun_induction scanUp p xs l with
  | case1 l hlt hp ih => exact ih hx
  | case2 l hlt hp =>
    rw [List.getElem?_eq_getElem hlt] at hx
    cases hx
    exact Bool.eq_false_of_not_eq_true hp
  | case3 l hlt =>
    rw [List.getElem?_eq_none (not_lt.1 hlt)] at hx
    cases hx

theorem not_of_scanDown_le {i : ℕ} {x : β} (hi : scanDown p xs lo r ≤ i) (hr : i < r)
    (hx : xs[i]? = some x) : p x = false := by
  induction r with
  | zero => omega
  | succ r ih =>
    rw [scanDown] at hi
    split_ifs at hi with hcond
    · rcases (Nat.le_of_lt_succ hr).eq_or_lt with rfl | hr
      · simpa [hx] using hcond.2
      · exact ih hi hr
    · omega

theorem of_scanDown {x : β} (hlo : lo < scanDown p xs lo r)
    (hx : xs[scanDown p xs lo r - 1]? = some x) : p x = true := by
  induction r with
  | zero => simp [scanDown] at hlo
  | succ r ih =>
    rw [scanDown] at hlo hx
    split_ifs at hlo hx with hcond
    · exact ih hlo hx
    · rw [Nat.add_sub_cancel] at hx
      rw [hx] at hcond
      simpa [Nat.le_of_lt_succ hlo] using hcond

theorem swap_perm (xs : List β) (i j : ℕ) : (swap xs i j).Perm xs := by
  rw [swap]
  split
  · next x y hx hy =>
    obtain ⟨hi, rfl⟩ := List.getElem?_eq_some_iff.1 hx
    obtain ⟨hj, rfl⟩ := List.getElem?_eq_some_iff.1 hy
    exact List.set_set_perm hi hj
  · exact .refl _

/-- Swapping leaves the other elements where they are. -/
theorem getElem?_swap_of_ne {i j k : ℕ} (hi : k ≠ i) (hj : k ≠ j) :
    (swap xs i j)[k]? = xs[k]? := by
  rw [swap]
  split
  · rw [List.getElem?_set_ne hj.symm, List.getElem?_set_ne hi.symm]
  · rfl

theorem swap_eq {i j : ℕ} (hi : i < xs.length) (hj : j < xs.length) :
    swap xs i j = (xs.set i xs[j]).set j xs[i] := by
  simp [swap, hi, hj]

theorem getElem?_swap_left {i j : ℕ} (hi : i < xs.length) (hj : j < xs.length) (hne : i ≠ j) :
    (swap xs i j)[i]? = some xs[j] := by
  rw [swap_eq hi hj, List.getElem?_set_ne hne.symm, List.getElem?_set_self hi]

theorem getElem?_swap_right {i j : ℕ} (hi : i < xs.length) (hj : j < xs.length) :
    (swap xs i j)[j]? = some xs[i] := by
  rw [swap_eq hi hj, List.getElem?_set_self (by rwa [List.length_set])]

@[simp] theorem length_swap (i j : ℕ) : (swap xs i j).length = xs.length :=
  (swap_perm xs i j).length_eq

/-! ## The loop -/

/-- From `lo` on, the elements before `m` belong to the left and no other one does. -/
structure Split (p : β → Bool) (ys : List β) (lo m : ℕ) : Prop where
  le : lo ≤ m
  le_length : m ≤ ys.length
  left : ∀ i x, lo ≤ i → i < m → ys[i]? = some x → p x = true
  right : ∀ i x, m ≤ i → ys[i]? = some x → p x = false

/-- What is known in the loop. -/
structure Between (p : β → Bool) (xs : List β) (lo l r : ℕ) : Prop where
  lo_le : lo ≤ l
  le_length : l ≤ xs.length
  r_le : r ≤ xs.length
  left : ∀ i x, lo ≤ i → i < l → xs[i]? = some x → p x = true
  right : ∀ i x, r ≤ i → xs[i]? = some x → p x = false

theorem between_start (hlo : lo ≤ xs.length) : Between p xs lo lo xs.length := by
  refine ⟨le_rfl, hlo, le_rfl, fun i x h h' => by omega, fun i x hi hx => ?_⟩
  rw [List.getElem?_eq_none hi] at hx
  cases hx

/-- Both indices move. -/
theorem Between.scan (h : Between p xs lo l r) :
    Between p xs lo (scanUp p xs l) (scanDown p xs lo r) := by
  refine ⟨h.lo_le.trans le_scanUp, scanUp_le h.le_length, scanDown_le.trans h.r_le, ?_, ?_⟩
  · intro i x hlo hi hx
    rcases lt_or_ge i l with hl | hl
    · exact h.left i x hlo hl hx
    · exact of_lt_scanUp hl hi hx
  · intro i x hi hx
    rcases lt_or_ge i r with hr | hr
    · exact not_of_scanDown_le hi hr hx
    · exact h.right i x hr hx

/-- What the indices have found is swapped. -/
theorem Between.swap (h : Between p xs lo l r) (hlt : l < r)
    (hl : ∀ x, xs[l]? = some x → p x = false) (hr : ∀ x, xs[r - 1]? = some x → p x = true) :
    Between p (swap xs l (r - 1)) lo (l + 1) (r - 1) := by
  have hrlen := h.r_le
  have hi : l < xs.length := by omega
  have hj : r - 1 < xs.length := by omega
  have hne : l ≠ r - 1 := by
    intro heq
    have hx := List.getElem?_eq_getElem hj
    have hno : p xs[r - 1] = false := hl _ (by rw [heq, hx])
    rw [hr _ hx] at hno
    cases hno
  refine ⟨h.lo_le.trans (Nat.le_succ l), ?_, ?_, ?_, ?_⟩
  · rw [length_swap]
    omega
  · rw [length_swap]
    omega
  · intro i x hlo hil hx
    rcases (Nat.le_of_lt_succ hil).eq_or_lt with rfl | hil
    · rw [getElem?_swap_left hi hj hne, Option.some_inj] at hx
      subst hx
      exact hr _ (List.getElem?_eq_getElem hj)
    · rw [getElem?_swap_of_ne (by omega) (by omega)] at hx
      exact h.left i x hlo hil hx
  · intro i x hir hx
    rcases hir.eq_or_lt with rfl | hir
    · rw [getElem?_swap_right hi hj, Option.some_inj] at hx
      subst hx
      exact hl _ (List.getElem?_eq_getElem hi)
    · rw [getElem?_swap_of_ne (by omega) (by omega)] at hx
      exact h.right i x (by omega) hx

theorem partition_perm : (partition p xs lo l r).1.Perm xs := by
  fun_induction partition p xs lo l r with
  | case1 xs l r l' r' hlt ih => exact ih.trans (swap_perm _ _ _)
  | case2 => exact .refl _

/-- **The loop splits the vector**, and nothing below `lo` moves. -/
theorem Between.partition (h : Between p xs lo l r) :
    Split p (partition p xs lo l r).1 lo (partition p xs lo l r).2 ∧
      ∀ i < lo, (Partition.partition p xs lo l r).1[i]? = xs[i]? := by
  fun_induction Partition.partition p xs lo l r with
  | case1 xs l r l' r' hlt ih =>
    have hscan : Between p xs lo l' r' := h.scan
    have hlo := hscan.lo_le
    obtain ⟨hsplit, hframe⟩ := ih <| hscan.swap hlt (fun x => not_of_scanUp)
      fun x => of_scanDown (hlo.trans_lt hlt)
    refine ⟨hsplit, fun i hi => ?_⟩
    rw [hframe i hi, getElem?_swap_of_ne (by omega) (by omega)]
  | case2 xs l r l' r' hlt =>
    have hscan : Between p xs lo l' r' := h.scan
    refine ⟨⟨hscan.lo_le, hscan.le_length, hscan.left, fun i x hi => ?_⟩, fun _ _ => rfl⟩
    exact hscan.right i x (by omega)

/-! ## Twice -/

/-- `p` holds before `br1` and nowhere from there on, and `q` before `br2`. -/
structure ThreeWay (p q : β → Bool) (ys : List β) (br1 br2 : ℕ) : Prop where
  le : br1 ≤ br2
  le_length : br2 ≤ ys.length
  below : ∀ i x, i < br1 → ys[i]? = some x → p x = true
  notBelow : ∀ i x, br1 ≤ i → ys[i]? = some x → p x = false
  notAbove : ∀ i x, i < br2 → ys[i]? = some x → q x = true
  above : ∀ i x, br2 ≤ i → ys[i]? = some x → q x = false

theorem drop_perm {ys : List β} (hperm : ys.Perm xs) (h : ∀ i < lo, ys[i]? = xs[i]?) :
    (ys.drop lo).Perm (xs.drop lo) := by
  have htake : ys.take lo = xs.take lo := by
    ext i : 1
    rw [List.getElem?_take, List.getElem?_take]
    split_ifs with hi
    · exact h i hi
    · rfl
  rw [← List.take_append_drop lo ys, ← List.take_append_drop lo xs, htake] at hperm
  exact (List.perm_append_left_iff _).1 hperm

/-- **Three parts**: first those with `p` come to the front, then of the others those
    with `q`. -/
theorem threeWay {q : β → Bool} (hpq : ∀ x, p x = true → q x = true) (xs : List β) :
    let first := partition p xs 0 0 xs.length
    let second := partition q first.1 first.2 first.2 xs.length
    second.1.Perm xs ∧ ThreeWay p q second.1 first.2 second.2 := by
  intro first second
  have hfirst : first.1.Perm xs := partition_perm
  have hsecond : second.1.Perm first.1 := partition_perm
  obtain ⟨hsplit, -⟩ := (between_start (p := p) (Nat.zero_le xs.length)).partition
  have hstart : Between q first.1 first.2 first.2 first.1.length :=
    between_start hsplit.le_length
  rw [hfirst.length_eq] at hstart
  obtain ⟨hsplit', hframe⟩ := hstart.partition
  have hbelow : ∀ i x, i < first.2 → second.1[i]? = some x → p x = true := by
    intro i x hi hx
    exact hsplit.left i x (Nat.zero_le i) hi ((hframe i hi).symm.trans hx)
  refine ⟨hsecond.trans hfirst, hsplit'.le, hsplit'.le_length, hbelow, ?_, ?_, hsplit'.right⟩
  · intro i x hi hx
    -- what is on the right has only been moved there
    have hmem : x ∈ second.1.drop first.2 := by
      rw [List.mem_iff_getElem?]
      exact ⟨i - first.2, by rw [List.getElem?_drop, Nat.add_sub_cancel' hi, hx]⟩
    obtain ⟨j, hj⟩ := List.mem_iff_getElem?.1 ((drop_perm hsecond hframe).mem_iff.1 hmem)
    rw [List.getElem?_drop] at hj
    exact hsplit.right _ x (Nat.le_add_right _ _) hj
  · intro i x hi hx
    rcases lt_or_ge i first.2 with hlt | hge
    · exact hpq x (hbelow i x hlt hx)
    · exact hsplit'.left i x hge hi hx

namespace ThreeWay

variable {q : β → Bool} {ys : List β} {br1 br2 : ℕ}

theorem br1_lt (h : ThreeWay p q ys br1 br2) {x : β} (hx : x ∈ ys) (hp : p x = false) :
    br1 < ys.length := by
  by_contra hlt
  obtain ⟨i, hi⟩ := List.mem_iff_getElem?.1 hx
  have hlen := (List.getElem?_eq_some_iff.1 hi).1
  rw [h.below i x (by omega) hi] at hp
  cases hp

theorem br2_pos (h : ThreeWay p q ys br1 br2) {x : β} (hx : x ∈ ys) (hq : q x = true) :
    0 < br2 := by
  by_contra hpos
  obtain ⟨i, hi⟩ := List.mem_iff_getElem?.1 hx
  rw [h.above i x (by omega) hi] at hq
  cases hq

theorem br1_eq (h : ThreeWay p q ys br1 br2) (hp : ∀ x ∈ ys, p x = false) : br1 = 0 := by
  by_contra hne
  have hle := h.le.trans h.le_length
  have hx := List.getElem?_eq_getElem (show 0 < ys.length by omega)
  have := h.below 0 _ (by omega) hx
  rw [hp _ (List.mem_of_getElem? hx)] at this
  cases this

theorem br2_eq (h : ThreeWay p q ys br1 br2) (hq : ∀ x ∈ ys, q x = true) :
    br2 = ys.length := by
  by_contra hne
  have hle := h.le_length
  have hx := List.getElem?_eq_getElem (show br2 < ys.length by omega)
  have := h.above br2 _ le_rfl hx
  rw [hq _ (List.mem_of_getElem? hx)] at this
  cases this

/-- Cutting anywhere between the two. -/
theorem of_mem_take (h : ThreeWay p q ys br1 br2) {m : ℕ} (hm : m ≤ br2) :
    ∀ x ∈ ys.take m, q x = true := by
  intro x hx
  obtain ⟨i, hi⟩ := List.mem_iff_getElem?.1 hx
  rw [List.getElem?_take] at hi
  split_ifs at hi with him
  exact h.notAbove i x (him.trans_le hm) hi

theorem of_mem_drop (h : ThreeWay p q ys br1 br2) {m : ℕ} (hm : br1 ≤ m) :
    ∀ x ∈ ys.drop m, p x = false := by
  intro x hx
  obtain ⟨i, hi⟩ := List.mem_iff_getElem?.1 hx
  rw [List.getElem?_drop] at hi
  exact h.notBelow _ x (hm.trans (Nat.le_add_right _ _)) hi

end ThreeWay

end Partition
