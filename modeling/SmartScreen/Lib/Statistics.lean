/-
  Mean and variance of a list, and how they change with an affine map.
-/
import Mathlib.Algebra.BigOperators.Group.List.Basic
import Mathlib.Algebra.Order.BigOperators.Group.List
import Mathlib.Tactic

namespace Statistics

/-! ## Over a field -/

section
variable {K : Type*} [Field K] {xs : List K}

def mean (xs : List K) : K := xs.sum / xs.length

/-- The sum of the squared differences from the mean. -/
def squares (xs : List K) : K := (xs.map fun x => (x - mean xs) ^ 2).sum

/-- The population variance. -/
def variance (xs : List K) : K := squares xs / xs.length

theorem sum_map_affine (xs : List K) (m a : K) :
    (xs.map fun x => x * m + a).sum = xs.sum * m + xs.length * a := by
  induction xs with
  | nil => simp
  | cons x xs ih =>
    rw [List.map_cons, List.sum_cons, ih, List.sum_cons, List.length_cons]
    push_cast
    ring

theorem mean_map_affine [CharZero K] (hne : xs ≠ []) (m a : K) :
    mean (xs.map fun x => x * m + a) = mean xs * m + a := by
  have hlen : (xs.length : K) ≠ 0 := by simpa using hne
  rw [mean, mean, sum_map_affine, List.length_map]
  field_simp

theorem squares_map_affine [CharZero K] (hne : xs ≠ []) (m a : K) :
    squares (xs.map fun x => x * m + a) = squares xs * m ^ 2 := by
  rw [squares, mean_map_affine hne, squares, List.map_map, ← List.sum_map_mul_right]
  congr 1
  refine List.map_congr_left fun x _ => ?_
  simp only [Function.comp_apply]
  ring

theorem variance_map_affine [CharZero K] (hne : xs ≠ []) (m a : K) :
    variance (xs.map fun x => x * m + a) = variance xs * m ^ 2 := by
  rw [variance, squares_map_affine hne, List.length_map, variance]
  ring

end

/-! ## Over an ordered field -/

section
variable {K : Type*} [Field K] [LinearOrder K] [IsStrictOrderedRing K] {xs : List K}

theorem squares_nonneg (xs : List K) : 0 ≤ squares xs := by
  refine List.sum_nonneg fun y hy => ?_
  obtain ⟨x, -, rfl⟩ := List.mem_map.1 hy
  exact sq_nonneg _

theorem variance_le_squares (xs : List K) : variance xs ≤ squares xs := by
  rcases Nat.eq_zero_or_pos xs.length with hlen | hlen
  · rw [variance, hlen, Nat.cast_zero, div_zero]
    exact squares_nonneg xs
  · exact div_le_self (squares_nonneg xs) (by exact_mod_cast hlen)

/-- Two different entries contribute both. -/
theorem add_sq_le_squares {x y : K} (hx : x ∈ xs) (hy : y ∈ xs) (hne : x ≠ y) :
    (x - mean xs) ^ 2 + (y - mean xs) ^ 2 ≤ squares xs := by
  obtain ⟨ys, hperm⟩ : ∃ ys, xs.Perm (x :: ys) := ⟨_, List.perm_cons_erase hx⟩
  have hy' : y ∈ ys := ((List.mem_cons.1 (hperm.mem_iff.1 hy)).resolve_left hne.symm)
  obtain ⟨zs, hperm'⟩ : ∃ zs, ys.Perm (y :: zs) := ⟨_, List.perm_cons_erase hy'⟩
  have hsum : squares xs = (x - mean xs) ^ 2 + ((y - mean xs) ^ 2 +
      (zs.map fun z => (z - mean xs) ^ 2).sum) := by
    have := ((hperm.trans (hperm'.cons x)).map fun z => (z - mean xs) ^ 2).sum_eq
    rwa [List.map_cons, List.map_cons, List.sum_cons, List.sum_cons] at this
  have hrest : 0 ≤ (zs.map fun z => (z - mean xs) ^ 2).sum := by
    refine List.sum_nonneg fun w hw => ?_
    obtain ⟨z, -, rfl⟩ := List.mem_map.1 hw
    exact sq_nonneg _
  rw [hsum]
  linarith

end

end Statistics
