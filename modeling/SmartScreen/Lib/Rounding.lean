/-
  Rounding of rational numbers to the nearest, ties to the even number, and towards
  zero.

  `nearestEven` rounds to an integer, `roundAt b e` to a multiple of `b ^ e`, and
  `significand b p` to `p` digits of base `b`; `Int.tdiv` cuts a quotient off.  `Binary64` is
  the format of that name: its finite numbers are the fixed points of `Binary64.round` below
  `2 ^ 1024`.
-/
import Mathlib.Tactic
import Mathlib.Data.Int.Log

namespace Rounding

/-! ## To an integer -/

/-- The integer nearest to `q`. -/
def nearestEven (q : ℚ) : ℤ :=
  if Int.fract q < 1 / 2 then ⌊q⌋
  else if 1 / 2 < Int.fract q then ⌊q⌋ + 1
  else if Even ⌊q⌋ then ⌊q⌋ else ⌊q⌋ + 1

theorem nearestEven_cases (q : ℚ) :
    (nearestEven q = ⌊q⌋ ∧ Int.fract q ≤ 1 / 2) ∨
      (nearestEven q = ⌊q⌋ + 1 ∧ 1 / 2 ≤ Int.fract q) := by
  unfold nearestEven
  split_ifs with hlt hgt heven
  · exact .inl ⟨rfl, hlt.le⟩
  · exact .inr ⟨rfl, hgt.le⟩
  · exact .inl ⟨rfl, not_lt.1 hgt⟩
  · exact .inr ⟨rfl, not_lt.1 hlt⟩

theorem abs_sub_nearestEven_le (q : ℚ) : |q - nearestEven q| ≤ 1 / 2 := by
  have hq := Int.floor_add_fract q
  have hlo := Int.fract_nonneg q
  have hhi := Int.fract_lt_one q
  rcases nearestEven_cases q with ⟨h, hf⟩ | ⟨h, hf⟩
  · rw [h, abs_le]
    constructor <;> linarith
  · rw [h, abs_le]
    push_cast
    constructor <;> linarith

theorem nearestEven_eq_of_abs_sub_lt {q : ℚ} {n : ℤ} (h : |q - n| < 1 / 2) : nearestEven q = n := by
  have hq := abs_sub_nearestEven_le q
  rw [abs_lt] at h
  rw [abs_le] at hq
  have hlt : ((nearestEven q - n : ℤ) : ℚ) < 1 := by
    push_cast
    linarith
  have hgt : (-1 : ℚ) < ((nearestEven q - n : ℤ) : ℚ) := by
    push_cast
    linarith
  have hlt' : nearestEven q - n < 1 := by exact_mod_cast hlt
  have hgt' : -1 < nearestEven q - n := by exact_mod_cast hgt
  omega

@[simp] theorem nearestEven_intCast (n : ℤ) : nearestEven n = n := by
  apply nearestEven_eq_of_abs_sub_lt
  norm_num

theorem le_nearestEven {q : ℚ} {n : ℤ} (h : n ≤ q) : n ≤ nearestEven q := by
  have hfloor : n ≤ ⌊q⌋ := Int.le_floor.2 h
  rcases nearestEven_cases q with ⟨h, -⟩ | ⟨h, -⟩ <;> omega

theorem nearestEven_le {q : ℚ} {n : ℤ} (h : q ≤ n) : nearestEven q ≤ n := by
  rcases h.lt_or_eq with h | rfl
  · have hfloor : ⌊q⌋ < n := Int.floor_lt.2 h
    rcases nearestEven_cases q with ⟨h, -⟩ | ⟨h, -⟩ <;> omega
  · rw [nearestEven_intCast]

/-! ## Towards zero -/

section
variable {a : ℤ} {b : ℕ}

/-- A truncated quotient lies between zero and the quotient, less than one away. -/
theorem tdiv_cases (a : ℤ) (hb : 0 < b) :
    (0 ≤ a.tdiv b ∧ (a.tdiv b : ℚ) ≤ a / b ∧ (a : ℚ) / b < a.tdiv b + 1) ∨
      (a.tdiv b ≤ 0 ∧ (a : ℚ) / b ≤ a.tdiv b ∧ (a.tdiv b : ℚ) - 1 < a / b) := by
  have hnonneg : ∀ a : ℤ, 0 ≤ a →
      0 ≤ a.tdiv b ∧ (a.tdiv b : ℚ) ≤ a / b ∧ (a : ℚ) / b < a.tdiv b + 1 := by
    intro a ha
    have hfloor : a.tdiv b = ⌊(a : ℚ) / b⌋ := by
      rw [Rat.floor_intCast_div_natCast, Int.tdiv_eq_ediv_of_nonneg ha]
    rw [hfloor]
    exact ⟨Int.floor_nonneg.2 (by positivity), Int.floor_le _, Int.lt_floor_add_one _⟩
  rcases Int.le_total 0 a with ha | ha
  · exact Or.inl (hnonneg a ha)
  · obtain ⟨hpos, hle, hlt⟩ := hnonneg (-a) (Int.neg_nonneg.2 ha)
    rw [Int.neg_tdiv] at hpos hle hlt
    push_cast at hle hlt
    rw [neg_div] at hle hlt
    refine Or.inr ⟨by omega, by linarith, by linarith⟩

theorem abs_tdiv_sub_lt (a : ℤ) (hb : 0 < b) : |(a.tdiv b : ℚ) - a / b| < 1 := by
  rw [abs_lt]
  rcases tdiv_cases a hb with ⟨-, hle, hlt⟩ | ⟨-, hle, hlt⟩
  · constructor <;> linarith
  · constructor <;> linarith

/-- An integer less than one away from a quotient below a positive bound shows that
    the truncated quotient is below it too. -/
theorem tdiv_lt_of_abs_sub_lt {z : ℤ} (bound : ℤ) (hb : 0 < b) (hbound : 0 < bound)
    (hz : z < bound) (h : |(z : ℚ) - a / b| < 1) : a.tdiv b < bound := by
  by_contra hle
  rw [not_lt] at hle
  rcases tdiv_cases a hb with ⟨-, hq, -⟩ | ⟨hneg, -, -⟩
  · have hz' : (z : ℚ) + 1 ≤ bound := by exact_mod_cast hz
    have hle' : (bound : ℚ) ≤ a.tdiv b := by exact_mod_cast hle
    have := (abs_lt.1 h).1
    linarith
  · omega

/-- Adding a multiple adds to the truncated quotient, unless it crosses zero at a
    fraction. -/
theorem tdiv_add_mul_eq_iff (hb : 0 < b) {k : ℤ} (hk : 0 ≤ k) :
    (a + b * k).tdiv b = a.tdiv b + k ↔ 0 ≤ a ∨ a + b * k ≤ 0 ∨ (b : ℤ) ∣ a := by
  have hb' : (0 : ℤ) < b := by exact_mod_cast hb
  have hdvd : (b : ℤ) ∣ a + b * k ↔ (b : ℤ) ∣ a := Int.dvd_add_left (Int.dvd_mul_right _ _)
  have hmul : 0 ≤ b * k := mul_nonneg hb'.le hk
  have hzero : a + b * k = 0 → (b : ℤ) ∣ a := fun h => hdvd.1 (h ▸ Int.dvd_zero _)
  rw [Int.tdiv_eq_ediv, Int.tdiv_eq_ediv, Int.add_mul_ediv_left _ _ hb'.ne',
    Int.sign_eq_one_of_pos hb']
  simp only [hdvd]
  split_ifs with hsum ha ha
  · omega
  · omega
  · omega
  · omega

end

/-! ## To a multiple of a power -/

section
variable {b : ℕ} {q : ℚ}

/-- The multiple of `b ^ e` nearest to `q`. -/
def roundAt (b : ℕ) (e : ℤ) (q : ℚ) : ℚ := nearestEven (q / (b : ℚ) ^ e) * (b : ℚ) ^ e

/-- The place of the last of `p` digits of `q`. -/
def lastPlace (b p : ℕ) (q : ℚ) : ℤ := Int.log b q - (p - 1 : ℕ)

/-- `q` in units of the last of `p` digits. -/
def significand (b p : ℕ) (q : ℚ) : ℕ := (nearestEven (q / (b : ℚ) ^ lastPlace b p q)).toNat

theorem roundAt_of_le {e e' : ℤ} (hb : 1 < b) (h : e ≤ e') (n : ℤ) :
    roundAt b e (n * (b : ℚ) ^ e') = n * (b : ℚ) ^ e' := by
  have hb' : (b : ℚ) ≠ 0 := by
    rw [Nat.cast_ne_zero]
    omega
  obtain ⟨k, rfl⟩ : ∃ k : ℕ, e' = e + k := ⟨(e' - e).toNat, by omega⟩
  have hq : (n : ℚ) * (b : ℚ) ^ (e + (k : ℤ)) / (b : ℚ) ^ e = ((n * (b : ℤ) ^ k : ℤ) : ℚ) := by
    rw [zpow_add₀ hb']
    push_cast
    rw [zpow_natCast]
    field_simp
  rw [roundAt, hq, nearestEven_intCast, zpow_add₀ hb']
  push_cast
  rw [zpow_natCast]
  ring

theorem abs_roundAt_sub_le {b : ℕ} (hb : 0 < b) (e : ℤ) (q : ℚ) :
    |roundAt b e q - q| ≤ (b : ℚ) ^ e / 2 := by
  have hunit : (0 : ℚ) < (b : ℚ) ^ e := by positivity
  have hq : roundAt b e q - q =
      -((q / (b : ℚ) ^ e - nearestEven (q / (b : ℚ) ^ e)) * (b : ℚ) ^ e) := by
    rw [roundAt]
    field_simp
    ring
  rw [hq, abs_neg, abs_mul, abs_of_pos hunit]
  calc |q / (b : ℚ) ^ e - nearestEven (q / (b : ℚ) ^ e)| * (b : ℚ) ^ e
      ≤ 1 / 2 * (b : ℚ) ^ e := by
        gcongr
        exact abs_sub_nearestEven_le _
    _ = (b : ℚ) ^ e / 2 := by ring

theorem nearestEven_lastPlace_bounds {p : ℕ} (hb : 1 < b) (hp : 1 ≤ p) (hq : 0 < q) :
    ((b ^ (p - 1) : ℕ) : ℤ) ≤ nearestEven (q / (b : ℚ) ^ lastPlace b p q) ∧
      nearestEven (q / (b : ℚ) ^ lastPlace b p q) ≤ ((b ^ p : ℕ) : ℤ) := by
  have hb' : (0 : ℚ) < b := by
    rw [Nat.cast_pos]
    omega
  have hunit : (0 : ℚ) < (b : ℚ) ^ lastPlace b p q := zpow_pos hb' _
  constructor
  · apply le_nearestEven
    rw [le_div_iff₀ hunit, lastPlace]
    push_cast
    rw [← zpow_natCast, ← zpow_add₀ hb'.ne', add_sub_cancel]
    exact Int.zpow_log_le_self hb hq
  · apply nearestEven_le
    rw [div_le_iff₀ hunit, lastPlace]
    push_cast
    rw [← zpow_natCast, ← zpow_add₀ hb'.ne']
    have hexp : (p : ℤ) + (Int.log b q - (p - 1 : ℕ)) = Int.log b q + 1 := by omega
    rw [hexp]
    exact (Int.lt_zpow_succ_log_self hb q).le

theorem significand_bounds {p : ℕ} (hb : 1 < b) (hp : 1 ≤ p) (hq : 0 < q) :
    b ^ (p - 1) ≤ significand b p q ∧ significand b p q ≤ b ^ p := by
  have h := nearestEven_lastPlace_bounds hb hp hq
  rw [significand]
  omega

theorem roundAt_lastPlace {p : ℕ} (hb : 1 < b) (hp : 1 ≤ p) (hq : 0 < q) :
    roundAt b (lastPlace b p q) q = significand b p q * (b : ℚ) ^ lastPlace b p q := by
  have h := nearestEven_lastPlace_bounds hb hp hq
  have hcast : ((significand b p q : ℕ) : ℤ) = nearestEven (q / (b : ℚ) ^ lastPlace b p q) := by
    rw [significand]
    omega
  rw [roundAt, ← hcast]
  norm_cast

/-- **A number of `p` digits is recovered** from one that is close to it. -/
theorem roundAt_lastPlace_eq {p n : ℕ} {k : ℤ} {m ε : ℚ} (hb : 1 < b) (hp : 1 ≤ p) (hm : 0 < m)
    (hn : n < b ^ p) (hε : 0 ≤ ε) (hsmall : 4 * (b : ℚ) ^ p * ε < 1)
    (hclose : |m - n * (b : ℚ) ^ k| ≤ n * (b : ℚ) ^ k * ε) :
    roundAt b (lastPlace b p m) m = n * (b : ℚ) ^ k := by
  have hb' : (1 : ℚ) < b := by exact_mod_cast hb
  have hb0 : (0 : ℚ) < b := by linarith
  have hpow : (1 : ℚ) ≤ (b : ℚ) ^ p := one_le_pow₀ hb'.le
  have hε4 : 4 * ε < 1 := by nlinarith
  have hn' : (n : ℚ) ≤ (b : ℚ) ^ p - 1 := by
    have : (n : ℚ) + 1 ≤ (b : ℚ) ^ p := by exact_mod_cast hn
    linarith
  have hk : (0 : ℚ) < (b : ℚ) ^ k := by positivity
  have hunit : (0 : ℚ) < (b : ℚ) ^ lastPlace b p m := by positivity
  obtain ⟨hlo, hhi⟩ := abs_le.1 hclose
  -- the last place of `m` is not above that of the number of `p` digits
  have hplace : lastPlace b p m ≤ k := by
    by_contra hlt
    have hle : (b : ℚ) ^ (p : ℕ) * (b : ℚ) ^ k ≤ (b : ℚ) ^ Int.log b m := by
      rw [← zpow_natCast, ← zpow_add₀ hb0.ne']
      apply zpow_le_zpow_right₀ hb'.le
      rw [lastPlace] at hlt
      omega
    have hlog := Int.zpow_log_le_self (R := ℚ) hb hm
    have hgap : (b : ℚ) ^ k ≤ m - n * (b : ℚ) ^ k := by nlinarith
    have herr : n * (b : ℚ) ^ k * ε < (b : ℚ) ^ k := by nlinarith
    linarith
  obtain ⟨j, hj⟩ : ∃ j : ℕ, k = lastPlace b p m + j := ⟨(k - lastPlace b p m).toNat, by omega⟩
  have hint : n * (b : ℚ) ^ k / (b : ℚ) ^ lastPlace b p m = ((n * (b : ℤ) ^ j : ℤ) : ℚ) := by
    rw [hj, zpow_add₀ hb0.ne', zpow_natCast]
    push_cast
    field_simp
  have htwice : n * (b : ℚ) ^ k ≤ 2 * m := by nlinarith
  have hbelow : m < (b : ℚ) ^ p * (b : ℚ) ^ lastPlace b p m := by
    have hexp : (p : ℤ) + lastPlace b p m = Int.log b m + 1 := by
      rw [lastPlace]
      omega
    rw [← zpow_natCast, ← zpow_add₀ hb0.ne', hexp]
    exact Int.lt_zpow_succ_log_self hb m
  have hnear : nearestEven (m / (b : ℚ) ^ lastPlace b p m) = n * (b : ℤ) ^ j := by
    apply nearestEven_eq_of_abs_sub_lt
    rw [← hint, ← sub_div, abs_div, abs_of_pos hunit, div_lt_iff₀ hunit]
    calc |m - n * (b : ℚ) ^ k| ≤ n * (b : ℚ) ^ k * ε := hclose
      _ ≤ 2 * m * ε := mul_le_mul_of_nonneg_right htwice hε
      _ ≤ 2 * ((b : ℚ) ^ p * (b : ℚ) ^ lastPlace b p m) * ε := by gcongr
      _ = 4 * (b : ℚ) ^ p * ε / 2 * (b : ℚ) ^ lastPlace b p m := by ring
      _ < 1 / 2 * (b : ℚ) ^ lastPlace b p m := by gcongr
  rw [roundAt, hnear, hj, zpow_add₀ hb0.ne', zpow_natCast]
  push_cast
  ring

end

/-! ## The format binary64 -/

namespace Binary64

/-- The place of the last binary digit of the numbers around `q`. -/
def lastPlace (q : ℚ) : ℤ := max (Rounding.lastPlace 2 53 q) (-1074)

/-- The number of the format nearest to `q`, without a bound on its exponent. -/
def round (q : ℚ) : ℚ := roundAt 2 (lastPlace q) q

/-- Rounding leaves the format at its upper end. -/
def Overflows (q : ℚ) : Prop := 2 ^ 1024 ≤ round q

/-- Rounding loses digits below the smallest normal number: what is rounded is
    still below it after rounding to full precision, and is not a number of the format. -/
def Underflows (q : ℚ) : Prop :=
  roundAt 2 (Rounding.lastPlace 2 53 q) q < (2 : ℚ) ^ (-1022 : ℤ) ∧ round q ≠ q

instance instDecidableOverflows (q : ℚ) : Decidable (Overflows q) :=
  inferInstanceAs (Decidable (2 ^ 1024 ≤ round q))

instance instDecidableUnderflows (q : ℚ) : Decidable (Underflows q) :=
  inferInstanceAs (Decidable (_ ∧ _))

/-- A multiple of `2 ^ e` of at most 53 binary digits is not rounded. -/
theorem round_of_le {n : ℕ} {e : ℤ} (hn : n ≤ 2 ^ 53) (he : -1074 ≤ e) :
    round (n * (2 : ℚ) ^ e) = n * (2 : ℚ) ^ e := by
  rcases n.eq_zero_or_pos with rfl | hpos
  · simp [round, roundAt, nearestEven]
  have hq : (0 : ℚ) < n * (2 : ℚ) ^ e := by positivity
  have hcast : ((2 : ℕ) : ℚ) = 2 := rfl
  rcases hn.lt_or_eq with hlt | rfl
  · have hlog : Int.log 2 ((n : ℚ) * (2 : ℚ) ^ e) < e + 53 := by
      rw [← Int.lt_zpow_iff_log_lt one_lt_two hq, hcast, add_comm, zpow_add₀ two_ne_zero]
      have hn' : (n : ℚ) < 2 ^ 53 := by exact_mod_cast hlt
      have hpow : (0 : ℚ) < (2 : ℚ) ^ e := by positivity
      exact mul_lt_mul_of_pos_right hn' hpow
    have hle : lastPlace ((n : ℚ) * (2 : ℚ) ^ e) ≤ e := by
      rw [lastPlace, Rounding.lastPlace]
      omega
    exact roundAt_of_le one_lt_two hle n
  · have hpow : ((2 ^ 53 : ℕ) : ℚ) * (2 : ℚ) ^ e = ((2 : ℕ) : ℚ) ^ (e + 53) := by
      rw [hcast, zpow_add₀ two_ne_zero, mul_comm]
      norm_num
    have hlog : Int.log 2 (((2 ^ 53 : ℕ) : ℚ) * (2 : ℚ) ^ e) = e + 53 := by
      rw [hpow, Int.log_zpow one_lt_two]
    have hle : lastPlace (((2 ^ 53 : ℕ) : ℚ) * (2 : ℚ) ^ e) ≤ e + 53 := by
      rw [lastPlace, Rounding.lastPlace, hlog]
      omega
    have h := roundAt_of_le one_lt_two hle 1
    rw [Int.cast_one, one_mul, ← hpow] at h
    exact h

theorem exists_round {q : ℚ} (hq : 0 ≤ q) :
    ∃ (n : ℕ) (e : ℤ), round q = n * (2 : ℚ) ^ e ∧ n ≤ 2 ^ 53 ∧ -1074 ≤ e := by
  have hunit : (0 : ℚ) < (2 : ℚ) ^ lastPlace q := by positivity
  have hle : q / (2 : ℚ) ^ lastPlace q ≤ ((2 ^ 53 : ℤ) : ℚ) := by
    rw [div_le_iff₀ hunit]
    have hlog := (Int.lt_zpow_succ_log_self one_lt_two q).le
    have hmono : (2 : ℚ) ^ (Int.log 2 q + 1) ≤ (2 : ℚ) ^ (53 + lastPlace q) := by
      apply zpow_le_zpow_right₀ one_le_two
      rw [lastPlace, Rounding.lastPlace]
      omega
    calc q ≤ (2 : ℚ) ^ (Int.log 2 q + 1) := hlog
      _ ≤ (2 : ℚ) ^ (53 + lastPlace q) := hmono
      _ = ((2 ^ 53 : ℤ) : ℚ) * (2 : ℚ) ^ lastPlace q := by
        rw [zpow_add₀ two_ne_zero]
        norm_num
  have hnonneg : 0 ≤ nearestEven (q / (2 : ℚ) ^ lastPlace q) := by
    apply le_nearestEven
    rw [Int.cast_zero]
    positivity
  refine ⟨(nearestEven (q / (2 : ℚ) ^ lastPlace q)).toNat, lastPlace q, ?_, ?_, le_max_right ..⟩
  · have hcast : (((nearestEven (q / (2 : ℚ) ^ lastPlace q)).toNat : ℤ) : ℚ) =
        nearestEven (q / (2 : ℚ) ^ lastPlace q) := by rw [Int.toNat_of_nonneg hnonneg]
    have htwo : ((2 : ℕ) : ℚ) = 2 := rfl
    rw [round, roundAt, htwo, ← hcast]
    norm_cast
  · have := nearestEven_le hle
    omega

/-- **Rounded numbers are in the format.** -/
theorem round_round {q : ℚ} (hq : 0 ≤ q) : round (round q) = round q := by
  obtain ⟨n, e, h, hn, he⟩ := exists_round hq
  rw [h, round_of_le hn he]

theorem round_nonneg {q : ℚ} (hq : 0 ≤ q) : 0 ≤ round q := by
  obtain ⟨n, e, h, -, -⟩ := exists_round hq
  rw [h]
  positivity

/-- The positive numbers of the format start at `2 ^ (-1074)`. -/
theorem le_of_round_eq {q : ℚ} (hq : 0 < q) (h : round q = q) : (2 : ℚ) ^ (-1074 : ℤ) ≤ q := by
  obtain ⟨n, e, hround, -, he⟩ := exists_round hq.le
  rw [← h, hround] at hq ⊢
  have hn : 1 ≤ n := by
    rcases n.eq_zero_or_pos with rfl | hn
    · simp at hq
    · exact hn
  calc (2 : ℚ) ^ (-1074 : ℤ) ≤ (2 : ℚ) ^ e := zpow_le_zpow_right₀ one_le_two he
    _ = 1 * (2 : ℚ) ^ e := (one_mul _).symm
    _ ≤ n * (2 : ℚ) ^ e := by
      have hn' : (1 : ℚ) ≤ n := by exact_mod_cast hn
      gcongr

/-- **The relative error of rounding.** -/
theorem abs_round_sub_le {q : ℚ} (hq : 0 < q) (h : ¬ Underflows q) :
    |round q - q| ≤ q * (1 / 2 ^ 53) := by
  by_cases heq : round q = q
  · rw [heq, sub_self, abs_zero]
    positivity
  have hnormal : (2 : ℚ) ^ (-1022 : ℤ) ≤ roundAt 2 (Rounding.lastPlace 2 53 q) q := by
    by_contra hlt
    exact h ⟨not_le.1 hlt, heq⟩
  have hcast : ((2 : ℕ) : ℚ) = 2 := rfl
  have herr := abs_roundAt_sub_le two_pos (Rounding.lastPlace 2 53 q) q
  have hhalf : (2 : ℚ) ^ Rounding.lastPlace 2 53 q / 2 ≤ q * (1 / 2 ^ 53) := by
    have hlog := Int.zpow_log_le_self (R := ℚ) one_lt_two hq
    rw [hcast] at hlog
    rw [Rounding.lastPlace, zpow_sub₀ two_ne_zero]
    norm_num at hlog ⊢
    linarith
  rw [hcast] at herr
  suffices hround : round q = roundAt 2 (Rounding.lastPlace 2 53 q) q by
    rw [hround]
    exact herr.trans hhalf
  by_cases hplace : -1074 ≤ Rounding.lastPlace 2 53 q
  · rw [round, lastPlace, max_eq_left hplace]
  -- only a number that is rounded up to the smallest normal one is left
  have hplace' : lastPlace q = -1074 := by
    rw [lastPlace]
    omega
  have hle : roundAt 2 (Rounding.lastPlace 2 53 q) q ≤
      (2 : ℚ) ^ (53 + Rounding.lastPlace 2 53 q) := by
    have hsig : ((significand 2 53 q : ℕ) : ℚ) ≤ 2 ^ 53 := by
      exact_mod_cast (significand_bounds one_lt_two (by norm_num) hq).2
    rw [roundAt_lastPlace one_lt_two (by norm_num) hq, hcast, zpow_add₀ two_ne_zero]
    gcongr
    exact hsig
  have hexp : Rounding.lastPlace 2 53 q = -1075 := by
    have := (zpow_le_zpow_iff_right₀ one_lt_two).1 (hnormal.trans hle)
    omega
  have hmin : roundAt 2 (Rounding.lastPlace 2 53 q) q = (2 : ℚ) ^ (-1022 : ℤ) := by
    rw [hexp] at hle hnormal ⊢
    exact le_antisymm hle hnormal
  have hunit : (0 : ℚ) < (2 : ℚ) ^ (-1074 : ℤ) := by positivity
  have hnear : nearestEven (q / (2 : ℚ) ^ (-1074 : ℤ)) = 2 ^ 52 := by
    apply nearestEven_eq_of_abs_sub_lt
    have hpow : (2 : ℚ) ^ (-1022 : ℤ) / (2 : ℚ) ^ (-1074 : ℤ) = ((2 ^ 52 : ℤ) : ℚ) := by
      rw [← zpow_sub₀ two_ne_zero]
      norm_num
    have hstep : (2 : ℚ) ^ (-1075 : ℤ) = (2 : ℚ) ^ (-1074 : ℤ) / 2 := by
      rw [show (-1075 : ℤ) = -1074 - 1 by norm_num, zpow_sub_one₀ two_ne_zero]
      rfl
    rw [hmin, hexp, hstep, abs_sub_comm] at herr
    rw [← hpow, ← sub_div, abs_div, abs_of_pos hunit, div_lt_iff₀ hunit]
    linarith
  rw [round, hplace', hmin, roundAt, hcast, hnear]
  rw [show (-1022 : ℤ) = 52 + -1074 by norm_num, zpow_add₀ two_ne_zero]
  norm_num

end Binary64

end Rounding
