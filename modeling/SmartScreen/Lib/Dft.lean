/-
  Discrete Fourier transforms.

  * `dft ω n x` is the transform of the values `x 0, …, x (n - 1)`, where `ω` is a root of
    unity.
  * `dft_mul`: the transform of `p * m` values by the transforms of every `p`-th one.
  * `dft_dft`: transforming back, up to a factor.
-/
import Mathlib.RingTheory.RootsOfUnity.PrimitiveRoots
import Mathlib.Tactic

open Finset

variable {K : Type*} [CommRing K] {ω : K} {x y : ℕ → K}

def dft (ω : K) (n : ℕ) (x : ℕ → K) (k : ℕ) : K := ∑ j ∈ range n, x j * ω ^ (j * k)

@[simp] theorem dft_one (x : ℕ → K) (k : ℕ) : dft ω 1 x k = x 0 := by
  simp [dft]

theorem dft_congr {n : ℕ} (h : ∀ j < n, x j = y j) (k : ℕ) : dft ω n x k = dft ω n y k :=
  sum_congr rfl fun j hj => by rw [h j (mem_range.1 hj)]

/-- The transform is periodic. -/
theorem dft_add_mul {n : ℕ} (hω : ω ^ n = 1) (u r : ℕ) : dft ω n x (u + r * n) = dft ω n x u := by
  refine sum_congr rfl fun j _ => ?_
  have hpow : ω ^ (j * (u + r * n)) = ω ^ (j * u) * (ω ^ n) ^ (j * r) := by
    rw [← pow_mul, ← pow_add]
    congr 1
    ring
  rw [hpow, hω, one_pow, mul_one]

/-- **Decimation**: every `p`-th value has a transform of its own. -/
theorem dft_mul (p m k : ℕ) :
    dft ω (p * m) x k = ∑ q ∈ range p, dft (ω ^ p) m (fun j => x (q + p * j)) k * ω ^ (q * k) := by
  induction m with
  | zero => simp [dft]
  | succ m ih =>
    have hlast : ∀ q, dft (ω ^ p) (m + 1) (fun j => x (q + p * j)) k * ω ^ (q * k) =
        dft (ω ^ p) m (fun j => x (q + p * j)) k * ω ^ (q * k) +
          x (p * m + q) * ω ^ ((p * m + q) * k) := by
      intro q
      rw [dft, sum_range_succ, ← dft, add_mul, mul_assoc, ← pow_mul, ← pow_add,
        add_comm (p * m) q]
      congr 4
      ring
    rw [Nat.mul_succ, dft, sum_range_add, ← dft, ih, ← sum_add_distrib]
    exact sum_congr rfl fun q _ => (hlast q).symm

/-- A sum of the powers of a root of unity. -/
theorem sum_pow_eq_zero [IsDomain K] {ζ : K} {n : ℕ} (hζ : ζ ^ n = 1) (hne : ζ ≠ 1) :
    ∑ k ∈ range n, ζ ^ k = 0 := by
  have hgeom := geom_sum_mul ζ n
  rw [hζ, sub_self] at hgeom
  exact (mul_eq_zero.1 hgeom).resolve_right (sub_ne_zero.2 hne)

/-- **Transforming back** with the inverse root gives every value as many times as there
    are values. -/
theorem dft_dft [IsDomain K] {n : ℕ} (hω : IsPrimitiveRoot ω n) {ω' : K} (hinv : ω * ω' = 1)
    {j : ℕ} (hj : j < n) : dft ω' n (dft ω n x) j = n * x j := by
  have hswap : dft ω' n (dft ω n x) j =
      ∑ i ∈ range n, x i * ∑ k ∈ range n, (ω ^ i * ω' ^ j) ^ k := by
    simp only [dft, sum_mul, mul_sum]
    rw [sum_comm]
    refine sum_congr rfl fun i _ => sum_congr rfl fun k _ => ?_
    rw [mul_pow, ← pow_mul, ← pow_mul, mul_comm k j]
    ring
  have hunit : ω ^ j * ω' ^ j = 1 := by rw [← mul_pow, hinv, one_pow]
  have hroot : ∀ i, (ω ^ i * ω' ^ j) ^ n = 1 := by
    intro i
    have hω' : ω' ^ n = 1 := by
      have hprod : ω ^ n * ω' ^ n = 1 := by rw [← mul_pow, hinv, one_pow]
      rwa [hω.pow_eq_one, one_mul] at hprod
    rw [mul_pow, ← pow_mul, ← pow_mul, mul_comm i, mul_comm j, pow_mul, pow_mul, hω.pow_eq_one,
      hω', one_pow, one_pow, one_mul]
  rw [hswap, sum_eq_single_of_mem j (mem_range.2 hj)]
  · rw [hunit]
    simp [mul_comm]
  · intro i hi hij
    rw [sum_pow_eq_zero (hroot i), mul_zero]
    -- the powers of a primitive root are different
    intro hone
    refine hij (hω.pow_inj (mem_range.1 hi) hj ?_)
    have hcancel : ω ^ i * (ω' ^ j * ω ^ j) = ω ^ j := by rw [← mul_assoc, hone, one_mul]
    rwa [mul_comm (ω' ^ j), hunit, mul_one] at hcancel
