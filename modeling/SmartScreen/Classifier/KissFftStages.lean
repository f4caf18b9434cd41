/-
  The stages of the fast Fourier transform, with real numbers.

  * `root inverse n` is the root of unity whose powers are the twiddle factors.
  * `Combines`: what recombining the transforms of a stage is for; `combines_bfly` says
    that it is done for every radix.
-/
import SmartScreen.Classifier.KissFft
import SmartScreen.Classifier.PhaseShift
import SmartScreen.Lib.Dft

namespace SmartScreen

open Complex Finset Fallible KissFftCpx

/-! ## Roots of unity -/

/-- The root of unity for a transform of `n` points, or for the inverse one. -/
noncomputable def root (inverse : Bool) (n : ℕ) : ℂ :=
  exp ((if inverse then ((2 : ℕ) : ℂ) else -((2 : ℕ) : ℂ)) * Real.pi * I / n)

section
variable {inverse : Bool} {n k : ℕ}

theorem root_mul_pow (hk : k ≠ 0) : root inverse (k * n) ^ k = root inverse n := by
  have hk' : (k : ℂ) ≠ 0 := Nat.cast_ne_zero.2 hk
  rw [root, root, ← exp_nat_mul, Nat.cast_mul, ← mul_div_assoc, mul_div_mul_left _ _ hk']

theorem root_mul_root (inverse : Bool) (n : ℕ) : root inverse n * root (!inverse) n = 1 := by
  rw [root, root, ← exp_add, ← exp_zero]
  congr 1
  cases inverse <;> simp <;> ring

theorem isPrimitiveRoot_root (hn : n ≠ 0) : IsPrimitiveRoot (root inverse n) n := by
  have hforth : IsPrimitiveRoot (root true n) n := by
    have h := isPrimitiveRoot_exp n hn
    rwa [show root true n = exp (2 * Real.pi * I / n) by simp [root]]
  cases inverse with
  | true => exact hforth
  | false =>
    have hinv : root false n = (root true n)⁻¹ := eq_inv_of_mul_eq_one_left (root_mul_root false n)
    rw [hinv]
    exact hforth.inv

theorem root_pow_self (hn : n ≠ 0) : root inverse n ^ n = 1 := (isPrimitiveRoot_root hn).pow_eq_one

/-- The conjugate of a power is the inverse power. -/
theorem conj_root_pow (hn : n ≠ 0) {j l : ℕ} (h : j + l = n) :
    (starRingEnd ℂ) (root inverse n ^ j) = root inverse n ^ l := by
  have hconj : (starRingEnd ℂ) (root inverse n) = root (!inverse) n := by
    rw [root, root, ← exp_conj]
    congr 1
    cases inverse <;> simp [map_ofNat]
  have hprod : root inverse n ^ j * root inverse n ^ l = 1 := by
    rw [← pow_add, h, root_pow_self hn]
  have hinv : root inverse n ^ j * root (!inverse) n ^ j = 1 := by
    rw [← mul_pow, root_mul_root, one_pow]
  rw [map_pow, hconj]
  exact (eq_inv_of_mul_eq_one_right hinv).trans (eq_inv_of_mul_eq_one_right hprod).symm

theorem root_two : root inverse 2 = -1 :=
  (isPrimitiveRoot_root two_ne_zero).eq_neg_one_of_two_right

theorem root_four : root inverse 4 = if inverse then I else -I := by
  rw [root]
  cases inverse with
  | true =>
    rw [if_pos rfl, if_pos rfl,
      show ((2 : ℕ) * Real.pi * I / (4 : ℕ) : ℂ) = Real.pi / 2 * I by push_cast; ring,
      exp_pi_div_two_mul_I]
  | false =>
    rw [if_neg (by decide), if_neg (by decide),
      show (-(2 : ℕ) * Real.pi * I / (4 : ℕ) : ℂ) = -(Real.pi / 2 * I) by push_cast; ring,
      exp_neg, exp_pi_div_two_mul_I, inv_I]

theorem root_three_sum : 1 + root inverse 3 + root inverse 3 ^ 2 = 0 := by
  have hroot : IsPrimitiveRoot (root inverse 3) 3 := isPrimitiveRoot_root three_ne_zero
  have hsum := hroot.geom_sum_eq_zero (by norm_num)
  simpa [sum_range_succ] using hsum

theorem root_three_re : (root inverse 3).re = -(1 / 2) := by
  have hsq : (starRingEnd ℂ) (root inverse 3 ^ 1) = root inverse 3 ^ 2 :=
    conj_root_pow three_ne_zero rfl
  have hsum : 1 + root inverse 3 + root inverse 3 ^ 2 = 0 := root_three_sum
  rw [← hsq, pow_one] at hsum
  have hre := congrArg re hsum
  simp only [add_re, one_re, conj_re, zero_re] at hre
  linarith

end

/-! ## Loops over the points of a stage -/

section
variable {β : Type*} {m p : ℕ} {step : List β → ℕ → List β} {val : List β → ℕ → ℂ}
  {B : ℕ → (ℕ → ℂ) → ℕ → ℂ}

/-- A loop whose step `u` changes only what is at `u`, `u + m`, `u + 2 * m` and so on. -/
theorem foldl_points
    (hlen : ∀ L u, (step L u).length = L.length)
    (hsame : ∀ L, ∀ u < m, ∀ i, i % m ≠ u → val (step L u) i = val L i)
    (hstep : ∀ L, L.length = p * m → ∀ u < m, ∀ r < p,
      val (step L u) (u + r * m) = B u (fun q => val L (u + q * m)) r)
    {L : List β} (hL : L.length = p * m) {k : ℕ} (hk : k ≤ m) :
    ((List.range k).foldl step L).length = p * m ∧
      (∀ i, k ≤ i % m → val ((List.range k).foldl step L) i = val L i) ∧
      ∀ u < k, ∀ r < p, val ((List.range k).foldl step L) (u + r * m) =
        B u (fun q => val L (u + q * m)) r := by
  induction k with
  | zero => exact ⟨hL, fun _ _ => rfl, fun u hu => absurd hu (Nat.not_lt_zero u)⟩
  | succ k ih =>
    obtain ⟨hlen', hrest, hdone⟩ := ih (Nat.le_of_succ_le hk)
    have hmod : ∀ u < m, ∀ r, (u + r * m) % m = u := fun u hu r => by
      rw [Nat.add_mul_mod_self_right, Nat.mod_eq_of_lt hu]
    rw [List.range_succ, List.foldl_append, List.foldl_cons, List.foldl_nil]
    refine ⟨(hlen _ _).trans hlen', fun i hi => ?_, fun u hu r hr => ?_⟩
    · rw [hsame _ k (by omega) i (by omega), hrest i (by omega)]
    · rcases (Nat.le_of_lt_succ hu).eq_or_lt with rfl | hu
      · rw [hstep _ hlen' u (by omega) r hr]
        congr 1
        ext q
        exact hrest _ (hmod u (by omega) q).ge
      · rw [hsame _ k (by omega) _ (by rw [hmod u (by omega)]; omega)]
        exact hdone u hu r hr

end

/-! ## The values of a vector -/

section
variable {a b : KissFftCpx ℝ}

@[simp] theorem toComplex_mul : (a.mul b).toComplex = a.toComplex * b.toComplex := rfl
@[simp] theorem toComplex_add : (a.add b).toComplex = a.toComplex + b.toComplex := rfl
@[simp] theorem toComplex_sub : (a.sub b).toComplex = a.toComplex - b.toComplex := rfl
theorem toComplex_eq (a : KissFftCpx ℝ) : a.toComplex = a.r + a.i * I :=
  (Complex.re_add_im a.toComplex).symm

theorem toComplex_conj (a : KissFftCpx ℝ) : (starRingEnd ℂ) a.toComplex = a.r - a.i * I := by
  rw [toComplex_eq]
  simp [sub_eq_add_neg]

@[simp] theorem toComplex_re : a.toComplex.re = a.r := rfl
@[simp] theorem toComplex_im : a.toComplex.im = a.i := rfl

end

/-- The complex number at an index. -/
noncomputable def value (L : List (KissFftCpx ℝ)) (i : ℕ) : ℂ := (L.getD i 0).toComplex

@[simp] theorem toComplex_getD (L : List (KissFftCpx ℝ)) (i : ℕ) :
    (L.getD i 0).toComplex = value L i := rfl

theorem value_set_self {L : List (KissFftCpx ℝ)} {i : ℕ} (hi : i < L.length)
    (c : KissFftCpx ℝ) : value (L.set i c) i = c.toComplex := by
  simp [value, hi]

theorem value_set_ne {L : List (KissFftCpx ℝ)} {i j : ℕ} (hij : i ≠ j)
    (c : KissFftCpx ℝ) : value (L.set i c) j = value L j := by
  simp [value, List.getElem?_set_ne hij]

/-! ## Recombining -/

namespace KissFftState

/-- The twiddle factors are the powers of the root of unity, and the sum of two of their
    indices is an `int`. -/
structure HasTwiddles (st : KissFftState ℝ) : Prop where
  nfft_ne : st.nfft ≠ 0
  nfft_le : st.nfft ≤ 2 ^ 30
  twiddle : ∀ i < st.nfft, (st.twiddle i).toComplex = root st.inverse st.nfft ^ i

/-- What recombining `p` transforms of length `m` is for. -/
def Combines (st : KissFftState ℝ) (fstride m p : ℕ)
    (combine : List (KissFftCpx ℝ) → Option (List (KissFftCpx ℝ))) : Prop :=
  ∀ L, L.length = p * m → ∃ Fout, combine L = some Fout ∧ Fout.length = p * m ∧
    ∀ u < m, ∀ r < p, value Fout (u + r * m) = ∑ q ∈ range p,
      value L (u + q * m) * root st.inverse st.nfft ^ (fstride * (q * (u + r * m)))

variable {st : KissFftState ℝ} {fstride m p : ℕ}

/-- A twiddle factor that is used for the point `u` of the transform `q`. -/
theorem HasTwiddles.point (h : st.HasTwiddles) (hn : st.nfft = fstride * (p * m)) {u q : ℕ}
    (hu : u < m) (hq : q < p) {i : ℕ} (hi : i = fstride * (q * u)) :
    (st.twiddle i).toComplex = root st.inverse st.nfft ^ (fstride * (q * u)) := by
  have hpos : 0 < fstride := by
    rcases Nat.eq_zero_or_pos fstride with rfl | hpos
    · exact absurd (hn.trans (Nat.zero_mul _)) h.nfft_ne
    · exact hpos
  rw [hi]
  refine h.twiddle _ ?_
  rw [hn]
  exact Nat.mul_lt_mul_of_pos_left (Nat.mul_lt_mul'' hq hu) hpos

/-- A twiddle factor that does not depend on the point. -/
theorem HasTwiddles.between (h : st.HasTwiddles) (hn : st.nfft = fstride * (p * m)) {q : ℕ}
    (hq : q < p) {i : ℕ} (hi : i = fstride * m * q) :
    (st.twiddle i).toComplex = root st.inverse p ^ q := by
  have hne : fstride * m ≠ 0 := by
    rintro h0
    exact h.nfft_ne (by rw [hn, mul_left_comm, h0, mul_zero])
  have hn' : st.nfft = fstride * m * p := by
    rw [hn]
    ring
  rw [hi, h.twiddle, pow_mul, hn', root_mul_pow hne]
  rw [hn']
  exact Nat.mul_lt_mul_of_pos_left hq (Nat.pos_of_ne_zero hne)

/-- The power for a value that is `r` transforms after the point `u`. -/
theorem HasTwiddles.root_pow (h : st.HasTwiddles) (hn : st.nfft = fstride * (p * m))
    (q u r : ℕ) : root st.inverse st.nfft ^ (fstride * (q * (u + r * m))) =
      root st.inverse st.nfft ^ (fstride * (q * u)) * root st.inverse p ^ (q * r) := by
  have hne : fstride * m ≠ 0 := by
    rintro h0
    exact h.nfft_ne (by rw [hn, mul_left_comm, h0, mul_zero])
  have hn' : st.nfft = fstride * m * p := by
    rw [hn]
    ring
  have hroot : root st.inverse p = root st.inverse st.nfft ^ (fstride * m) := by
    rw [hn', root_mul_pow hne]
  rw [hroot, ← pow_mul, ← pow_add]
  congr 1
  ring

/-- **A loop recombines** if its steps do. -/
theorem combines_of_step (h : st.HasTwiddles) (hn : st.nfft = fstride * (p * m))
    {step : List (KissFftCpx ℝ) → ℕ → List (KissFftCpx ℝ)}
    (hlen : ∀ L u, (step L u).length = L.length)
    (hsame : ∀ L, ∀ u < m, ∀ i, i % m ≠ u → value (step L u) i = value L i)
    (hstep : ∀ L, L.length = p * m → ∀ u < m, ∀ r < p, value (step L u) (u + r * m) =
      ∑ q ∈ range p, value L (u + q * m) * root st.inverse st.nfft ^ (fstride * (q * u)) *
        root st.inverse p ^ (q * r)) :
    st.Combines fstride m p fun L => some ((List.range m).foldl step L) := by
  intro L hL
  obtain ⟨hlength, -, hvalue⟩ := foldl_points
    (B := fun u x r => ∑ q ∈ range p, x q *
      root st.inverse st.nfft ^ (fstride * (q * u)) * root st.inverse p ^ (q * r))
    hlen hsame hstep hL le_rfl
  refine ⟨_, rfl, hlength, fun u hu r hr => ?_⟩
  refine (hvalue u hu r hr).trans (sum_congr rfl fun q hq => ?_)
  rw [h.root_pow hn, mul_assoc]

/-- What is written at the indices of a point is nowhere else. -/
theorem value_set_of_mod {L : List (KissFftCpx ℝ)} {u i j : ℕ} (hi : i % m ≠ u)
    (hj : j % m = u) (c : KissFftCpx ℝ) : value (L.set j c) i = value L i := by
  refine value_set_ne ?_ c
  rintro rfl
  exact hi hj

theorem combines_bfly2 (h : st.HasTwiddles) (hn : st.nfft = fstride * (2 * m)) :
    st.Combines fstride m 2 fun L => some (st.bfly2 fstride m L) := by
  refine combines_of_step h hn (fun L u => by simp) ?_ ?_
  · intro L u hu i hi
    simp (disch := simp [Nat.mod_eq_of_lt hu]) only [value_set_of_mod hi]
  · intro L hL u hu r hr
    have ht := h.point hn hu (show 1 < 2 by decide) (i := u * fstride) (by ring)
    have hsum : ∀ f : ℕ → ℂ, ∑ q ∈ range 2, f q = f 0 + f 1 := by simp [sum_range_succ]
    rw [hsum, root_two]
    interval_cases r
    · simp (disch := first | omega | (simp only [List.length_set]; omega)) only
        [zero_mul, add_zero, value_set_self, toComplex_add, toComplex_mul, ht]
      simp [value]
    · simp (disch := first | omega | (simp only [List.length_set]; omega)) only
        [one_mul, value_set_ne, value_set_self, toComplex_sub, toComplex_mul, ht]
      simp [value]
      ring

section
variable (a b : KissFftCpx ℝ) (inverse : Bool)

theorem toComplex_plus_I :
    toComplex ⟨a.r - b.i, a.i + b.r⟩ = a.toComplex + I * b.toComplex := by
  apply Complex.ext <;> simp [toComplex]
  ring

theorem toComplex_minus_I :
    toComplex ⟨a.r + b.i, a.i - b.r⟩ = a.toComplex - I * b.toComplex := by
  apply Complex.ext <;> simp [toComplex]

/-- A quarter turn, in the direction of the transform or against it. -/
theorem toComplex_quarter :
    toComplex (if inverse then ⟨a.r - b.i, a.i + b.r⟩ else ⟨a.r + b.i, a.i - b.r⟩) =
      a.toComplex + root inverse 4 * b.toComplex := by
  rw [root_four]
  cases inverse
  · rw [if_neg (by decide), if_neg (by decide), toComplex_minus_I]
    ring
  · rw [if_pos rfl, if_pos rfl, toComplex_plus_I]

theorem toComplex_quarter_back :
    toComplex (if inverse then ⟨a.r + b.i, a.i - b.r⟩ else ⟨a.r - b.i, a.i + b.r⟩) =
      a.toComplex - root inverse 4 * b.toComplex := by
  rw [root_four]
  cases inverse
  · rw [if_neg (by decide), if_neg (by decide), toComplex_plus_I]
    ring
  · rw [if_pos rfl, if_pos rfl, toComplex_minus_I]

end

theorem root_four_sq {inverse : Bool} : root inverse 4 ^ 2 = -1 := by
  rw [root_four]
  cases inverse <;> simp

theorem combines_bfly4 (h : st.HasTwiddles) (hn : st.nfft = fstride * (4 * m)) :
    st.Combines fstride m 4 fun L => some (st.bfly4 fstride m L) := by
  refine combines_of_step h hn (fun L u => by simp) ?_ ?_
  · intro L u hu i hi
    simp (disch := simp [Nat.mod_eq_of_lt hu]) only [value_set_of_mod hi]
  · intro L hL u hu r hr
    have ht1 := h.point hn hu (show 1 < 4 by decide) (i := u * fstride) (by ring)
    have ht2 := h.point hn hu (show 2 < 4 by decide) (i := u * (fstride * 2)) (by ring)
    have ht3 := h.point hn hu (show 3 < 4 by decide) (i := u * (fstride * 3)) (by ring)
    have hsum : ∀ f : ℕ → ℂ, ∑ q ∈ range 4, f q = f 0 + f 1 + f 2 + f 3 := by
      simp [sum_range_succ]
    have hsq : root st.inverse 4 ^ 2 = -1 := root_four_sq
    rw [hsum]
    generalize hζ : root st.inverse 4 = ζ at hsq
    interval_cases r
    all_goals
      simp (disch := first | omega | (simp only [List.length_set]; omega)) only
        [zero_mul, one_mul, mul_zero, pow_zero, mul_one, add_zero, value_set_ne, value_set_self,
          toComplex_quarter, toComplex_quarter_back, toComplex_add, toComplex_sub, toComplex_mul,
          ht1, ht2, ht3, hζ, toComplex_getD]
    all_goals
      generalize value L (u + m) * _ = x₁
      generalize value L (u + 2 * m) * _ = x₂
      generalize value L (u + 3 * m) * _ = x₃
    · ring
    · linear_combination (-x₂ - ζ * x₃) * hsq
    · linear_combination (-x₁ + x₂ * (1 - ζ ^ 2) - x₃ * (1 - ζ ^ 2 + ζ ^ 4)) * hsq
    · linear_combination
        (-ζ * x₁ - x₂ * (1 - ζ ^ 2 + ζ ^ 4) + ζ * x₃ * (1 - ζ ^ 2) * (1 + ζ ^ 4)) * hsq

section
variable (a b c d : KissFftCpx ℝ) (x y : ℝ)

theorem toComplex_third :
    toComplex ⟨a.r - halfOf b.r - (d.mulByScalar x).i, a.i - halfOf b.i + (d.mulByScalar x).r⟩ =
      a.toComplex - b.toComplex / 2 + x * I * d.toComplex := by
  apply Complex.ext <;> simp [toComplex, halfOf, mulByScalar] <;> ring

theorem toComplex_third_back :
    toComplex ⟨a.r - halfOf b.r + (d.mulByScalar x).i, a.i - halfOf b.i - (d.mulByScalar x).r⟩ =
      a.toComplex - b.toComplex / 2 - x * I * d.toComplex := by
  apply Complex.ext <;> simp [toComplex, halfOf, mulByScalar] <;> ring

end

theorem combines_bfly3 (h : st.HasTwiddles) (hn : st.nfft = fstride * (3 * m)) :
    st.Combines fstride m 3 fun L => some (st.bfly3 fstride m L) := by
  refine combines_of_step h hn (fun L u => by simp) ?_ ?_
  · intro L u hu i hi
    simp (disch := simp [Nat.mod_eq_of_lt hu]) only [value_set_of_mod hi]
  · intro L hL u hu r hr
    have ht1 := h.point hn hu (show 1 < 3 by decide) (i := u * fstride) (by ring)
    have ht2 := h.point hn hu (show 2 < 3 by decide) (i := u * (fstride * 2)) (by ring)
    have hepi3 := h.between hn (show 1 < 3 by decide) (i := fstride * m) (by ring)
    have hsum : ∀ f : ℕ → ℂ, ∑ q ∈ range 3, f q = f 0 + f 1 + f 2 := by simp [sum_range_succ]
    -- the imaginary part of the root is used, and that its real part is -1/2
    have him : ((st.twiddle (fstride * m)).i : ℂ) * I = root st.inverse 3 + 1 / 2 := by
      rw [pow_one] at hepi3
      have hre : (root st.inverse 3).re = -(1 / 2) := root_three_re
      rw [← hepi3] at hre ⊢
      apply Complex.ext <;> simp [toComplex] at hre ⊢
      linarith
    have hcube : 1 + root st.inverse 3 + root st.inverse 3 ^ 2 = 0 := root_three_sum
    rw [hsum]
    generalize root st.inverse 3 = ζ at him hcube
    interval_cases r
    all_goals
      simp (disch := first | omega | (simp only [List.length_set]; omega)) only
        [zero_mul, one_mul, mul_zero, pow_zero, mul_one, add_zero, value_set_ne, value_set_self,
          toComplex_third, toComplex_third_back, toComplex_add, toComplex_sub, toComplex_mul,
          ht1, ht2, him, toComplex_getD]
      generalize value L (u + m) * _ = x₁
      generalize value L (u + 2 * m) * _ = x₂
    · ring
    · linear_combination -x₂ * hcube
    · linear_combination (-x₁ + x₂ * (ζ - ζ ^ 2)) * hcube

section
variable (a b c : KissFftCpx ℝ) (x y : ℝ)

theorem toComplex_sum :
    toComplex ⟨a.r + (b.r + c.r), a.i + (b.i + c.i)⟩ =
      a.toComplex + (b.toComplex + c.toComplex) := rfl

theorem toComplex_fifth :
    toComplex ⟨a.r + b.r * x + c.r * y, a.i + b.i * x + c.i * y⟩ =
      a.toComplex + x * b.toComplex + y * c.toComplex := by
  apply Complex.ext <;> simp [toComplex] <;> ring

theorem toComplex_fifth_turned :
    toComplex ⟨b.i * x + c.i * y, -(b.r * x) - c.r * y⟩ =
      -(x * I * b.toComplex) - y * I * c.toComplex := by
  apply Complex.ext <;> simp [toComplex] <;> ring

theorem toComplex_fifth_turned_back :
    toComplex ⟨-(b.i * x) + c.i * y, b.r * x - c.r * y⟩ =
      x * I * b.toComplex - y * I * c.toComplex := by
  apply Complex.ext <;> simp [toComplex] <;> ring

end

theorem combines_bfly5 (h : st.HasTwiddles) (hn : st.nfft = fstride * (5 * m)) :
    st.Combines fstride m 5 fun L => some (st.bfly5 fstride m L) := by
  refine combines_of_step h hn (fun L u => by simp) ?_ ?_
  · intro L u hu i hi
    simp (disch := simp [Nat.mod_eq_of_lt hu]) only [value_set_of_mod hi]
  · intro L hL u hu r hr
    have ht1 := h.point hn hu (show 1 < 5 by decide) (i := u * fstride) (by ring)
    have ht2 := h.point hn hu (show 2 < 5 by decide) (i := 2 * u * fstride) (by ring)
    have ht3 := h.point hn hu (show 3 < 5 by decide) (i := 3 * u * fstride) (by ring)
    have ht4 := h.point hn hu (show 4 < 5 by decide) (i := 4 * u * fstride) (by ring)
    have hya := h.between hn (show 1 < 5 by decide) (i := fstride * m) (by ring)
    have hyb := h.between hn (show 2 < 5 by decide) (i := fstride * 2 * m) (by ring)
    have hsum : ∀ f : ℕ → ℂ, ∑ q ∈ range 5, f q = f 0 + f 1 + f 2 + f 3 + f 4 := by
      simp [sum_range_succ]
    have hone : root st.inverse 5 ^ 5 = 1 := root_pow_self (by decide)
    have h4 : (starRingEnd ℂ) (root st.inverse 5 ^ 1) = root st.inverse 5 ^ 4 :=
      conj_root_pow (by decide) rfl
    have h3 : (starRingEnd ℂ) (root st.inverse 5 ^ 2) = root st.inverse 5 ^ 3 :=
      conj_root_pow (by decide) rfl
    rw [← hya, toComplex_conj] at h4
    rw [← hyb, toComplex_conj] at h3
    rw [toComplex_eq] at hya hyb
    rw [hsum]
    generalize root st.inverse 5 = ζ at hone h3 h4 hya hyb
    generalize (st.twiddle (fstride * m)).r = c₁, (st.twiddle (fstride * m)).i = s₁,
      (st.twiddle (fstride * 2 * m)).r = c₂, (st.twiddle (fstride * 2 * m)).i = s₂ at h3 h4 hya hyb
    interval_cases r
    all_goals
      simp (disch := first | omega | (simp only [List.length_set]; omega)) only
        [zero_mul, one_mul, mul_zero, pow_zero, mul_one, add_zero, value_set_ne, value_set_self,
          toComplex_sum, toComplex_fifth, toComplex_fifth_turned, toComplex_fifth_turned_back,
          toComplex_add, toComplex_sub, toComplex_mul, ht1, ht2, ht3, ht4, toComplex_getD]
      generalize value L (u + m) * _ = x₁
      generalize value L (u + 2 * m) * _ = x₂
      generalize value L (u + 3 * m) * _ = x₃
      generalize value L (u + 4 * m) * _ = x₄
    · ring
    · linear_combination x₁ * hya + x₂ * hyb + x₃ * h3 + x₄ * h4
    · linear_combination x₁ * hyb + x₂ * h4 + x₃ * (hya - ζ * hone) + x₄ * (h3 - ζ ^ 3 * hone)
    · linear_combination x₁ * h3 + x₂ * (hya - ζ * hone) + x₃ * (h4 - ζ ^ 4 * hone) +
        x₄ * (hyb - (ζ ^ 2 + ζ ^ 7) * hone)
    · linear_combination x₁ * h4 + x₂ * (h3 - ζ ^ 3 * hone) +
        x₃ * (hyb - (ζ ^ 2 + ζ ^ 7) * hone) + x₄ * (hya - (ζ + ζ ^ 6 + ζ ^ 11) * hone)

/-! ### Any radix -/

/-- The twiddle factors are found by adding up their indices, modulo the number of them. -/
theorem foldlM_addPoint (h : st.HasTwiddles) {k : ℕ} (hk : fstride * k < st.nfft)
    (first : KissFftCpx ℝ) (scratch : List (KissFftCpx ℝ)) :
    ∃ sum, scratch.foldlM (st.addPoint fstride k) (first, 0) = some sum ∧ sum.2 < st.nfft ∧
      sum.2 ≡ fstride * k * scratch.length [MOD st.nfft] ∧
      sum.1.toComplex = first.toComplex + ∑ q ∈ range scratch.length,
        value scratch q * root st.inverse st.nfft ^ (fstride * k * (q + 1)) := by
  induction scratch using List.reverseRecOn with
  | nil => exact ⟨_, rfl, Nat.pos_of_ne_zero h.nfft_ne, Nat.ModEq.refl _, by simp⟩
  | append_singleton scratch point ih =>
    obtain ⟨sum, hfold, hlt, hmod, hsum⟩ := ih
    have hint : ¬ 2 ^ 31 ≤ sum.2 + fstride * k := by
      have := h.nfft_le
      omega
    simp only [List.foldlM_append, hfold, List.foldlM_cons, List.foldlM_nil, addPoint,
      if_neg hint, Option.bind_eq_bind, Option.bind_some, Option.pure_def]
    refine ⟨_, rfl, ?_⟩
    dsimp only
    generalize htwidx : (if st.nfft ≤ sum.2 + fstride * k then sum.2 + fstride * k - st.nfft
      else sum.2 + fstride * k) = twidx
    have hlt' : twidx < st.nfft := by
      split_ifs at htwidx <;> omega
    have hmod' : twidx ≡ fstride * k * (scratch.length + 1) [MOD st.nfft] := by
      rw [Nat.mul_succ]
      refine Nat.ModEq.trans ?_ (hmod.add_right _)
      split_ifs at htwidx with hle
      · rw [← htwidx, Nat.ModEq, ← Nat.mod_eq_sub_mod hle]
      · rw [htwidx]
    refine ⟨hlt', by rwa [List.length_append, List.length_singleton], ?_⟩
    rw [toComplex_add, toComplex_mul, hsum, h.twiddle _ hlt',
      pow_eq_pow_of_modEq hmod' (root_pow_self h.nfft_ne), List.length_append,
      List.length_singleton, sum_range_succ, add_assoc]
    congr 2
    · refine sum_congr rfl fun q hq => ?_
      rw [value, value, List.getD_eq_getElem?_getD, List.getD_eq_getElem?_getD,
        List.getElem?_append_left (mem_range.1 hq)]
    · simp [value]

theorem genericPoint_spec (h : st.HasTwiddles) {k : ℕ} (hk : fstride * k < st.nfft)
    {scratch : List (KissFftCpx ℝ)} (hne : scratch ≠ []) :
    ∃ point, st.genericPoint fstride k scratch = some point ∧
      point.toComplex = ∑ q ∈ range scratch.length,
        value scratch q * root st.inverse st.nfft ^ (fstride * k * q) := by
  cases scratch with
  | nil => exact absurd rfl hne
  | cons first scratch =>
    obtain ⟨sum, hfold, -, -, hsum⟩ := foldlM_addPoint h hk first scratch
    refine ⟨sum.1, by rw [genericPoint, hfold]; rfl, ?_⟩
    rw [hsum, List.length_cons, sum_range_succ', mul_zero, pow_zero, mul_one, add_comm]
    rfl

section
variable {L : List (KissFftCpx ℝ)} (idx : ℕ → ℕ) (c : ℕ → KissFftCpx ℝ)

theorem length_foldl_set (k : ℕ) :
    ((List.range k).foldl (fun L q => L.set (idx q) (c q)) L).length = L.length := by
  induction k with
  | zero => rfl
  | succ k ih =>
    rw [List.range_succ, List.foldl_append, List.foldl_cons, List.foldl_nil, List.length_set, ih]

theorem value_foldl_set_ne {k i : ℕ} (hi : ∀ q < k, idx q ≠ i) :
    value ((List.range k).foldl (fun L q => L.set (idx q) (c q)) L) i = value L i := by
  induction k with
  | zero => rfl
  | succ k ih =>
    rw [List.range_succ, List.foldl_append, List.foldl_cons, List.foldl_nil,
      value_set_ne (hi k (Nat.lt_succ_self k)), ih fun q hq => hi q (Nat.lt_succ_of_lt hq)]

theorem value_foldl_set (hinj : Function.Injective idx) {k r : ℕ} (hr : r < k)
    (hlt : idx r < L.length) :
    value ((List.range k).foldl (fun L q => L.set (idx q) (c q)) L) (idx r) =
      (c r).toComplex := by
  induction k with
  | zero => exact absurd hr (Nat.not_lt_zero r)
  | succ k ih =>
    rw [List.range_succ, List.foldl_append, List.foldl_cons, List.foldl_nil]
    rcases (Nat.le_of_lt_succ hr).eq_or_lt with rfl | hr
    · rw [value_set_self (by rwa [length_foldl_set])]
    · rw [value_set_ne fun heq => hr.ne' (hinj heq), ih hr]

end

/-- The index of a twiddle factor of a stage. -/
theorem HasTwiddles.index_lt (h : st.HasTwiddles) (hn : st.nfft = fstride * (p * m)) {u r : ℕ}
    (hu : u < m) (hr : r < p) : fstride * (u + r * m) < st.nfft := by
  rw [hn]
  refine Nat.mul_lt_mul_of_pos_left ?_ (Nat.pos_of_ne_zero ?_)
  · have hle := Nat.mul_le_mul_right m (Nat.succ_le_of_lt hr)
    rw [Nat.succ_mul] at hle
    omega
  · rintro rfl
    exact h.nfft_ne (hn.trans (Nat.zero_mul _))

/-- The values of the point `u` of every transform. -/
noncomputable def pointsOf (m p : ℕ) (Fout : List (KissFftCpx ℝ)) (u : ℕ) : List (KissFftCpx ℝ) :=
  (List.range p).map fun q1 => Fout.getD (u + q1 * m) 0

theorem pointsOf_spec (h : st.HasTwiddles) (hn : st.nfft = fstride * (p * m))
    (L : List (KissFftCpx ℝ)) {u r : ℕ} (hu : u < m) (hr : r < p) :
    ∃ point, st.genericPoint fstride (u + r * m) (pointsOf m p L u) = some point ∧
      point.toComplex = ∑ q ∈ range p, value L (u + q * m) *
        root st.inverse st.nfft ^ (fstride * (u + r * m) * q) := by
  have hne : pointsOf m p L u ≠ [] := by
    rw [pointsOf, Ne, List.map_eq_nil_iff, List.range_eq_nil]
    omega
  obtain ⟨point, hpoint, hsum⟩ := genericPoint_spec h (h.index_lt hn hu hr) hne
  refine ⟨point, hpoint, hsum.trans ?_⟩
  rw [pointsOf, List.length_map, List.length_range]
  refine sum_congr rfl fun q hq => ?_
  have hvalue : value ((List.range p).map fun q => L.getD (u + q * m) 0) q =
      value L (u + q * m) := by
    simp [value, List.getElem?_range (mem_range.1 hq)]
  rw [hvalue]

/-- Every index is in range, so the loops give their values. -/
theorem bflyGeneric_eq_some (h : st.HasTwiddles) (hn : st.nfft = fstride * (p * m))
    (L : List (KissFftCpx ℝ)) :
    st.bflyGeneric fstride m p L = some ((List.range m).foldl (fun Fout u =>
      (List.range p).foldl (fun Fout' q1 => Fout'.set (u + q1 * m)
        ((st.genericPoint fstride (u + q1 * m) (pointsOf m p Fout u)).getD 0)) Fout) L) := by
  refine foldlM_eq_some (fun u hu Fout => foldlM_eq_some (fun r hr Fout' => ?_) Fout) L
  obtain ⟨point, hpoint, -⟩ :=
    pointsOf_spec h hn Fout (List.mem_range.1 hu) (List.mem_range.1 hr)
  rw [← pointsOf, hpoint]
  rfl

theorem combines_bflyGeneric (h : st.HasTwiddles) (hn : st.nfft = fstride * (p * m)) :
    st.Combines fstride m p (st.bflyGeneric fstride m p) := by
  rw [funext (bflyGeneric_eq_some h hn)]
  refine combines_of_step h hn (fun L u => length_foldl_set _ _ p) ?_ ?_
  · intro L u hu i hi
    refine value_foldl_set_ne _ _ fun q _ => ?_
    rintro rfl
    rw [Nat.add_mul_mod_self_right, Nat.mod_eq_of_lt hu] at hi
    exact hi rfl
  · intro L hL u hu r hr
    have hinj : Function.Injective fun q => u + q * m := by
      intro q q' heq
      exact Nat.eq_of_mul_eq_mul_right (by omega) (Nat.add_left_cancel heq)
    have hlt : u + r * m < L.length := by
      have hle := Nat.mul_le_mul_right m (Nat.succ_le_of_lt hr)
      rw [Nat.succ_mul] at hle
      omega
    obtain ⟨point, hpoint, hsum⟩ := pointsOf_spec h hn L hu hr
    rw [value_foldl_set (fun q => u + q * m) _ hinj hr hlt, hpoint, Option.getD_some, hsum]
    refine sum_congr rfl fun q hq => ?_
    rw [mul_assoc, mul_assoc, mul_comm _ q, h.root_pow hn]

/-- **Every stage** is recombined. -/
theorem combines_bfly (h : st.HasTwiddles) (hn : st.nfft = fstride * (p * m)) :
    st.Combines fstride m p (st.bfly fstride m p) := by
  unfold bfly
  split
  · exact combines_bfly2 h hn
  · exact combines_bfly3 h hn
  · exact combines_bfly4 h hn
  · exact combines_bfly5 h hn
  · exact combines_bflyGeneric h hn

end KissFftState

end SmartScreen
