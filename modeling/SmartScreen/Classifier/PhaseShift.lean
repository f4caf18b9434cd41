/-
  The phase shift between current and voltage, over the real numbers.

  The difference of two arguments lies between `-2 * π` and `2 * π`.  Of the two
  branches that bring it back to `[-π, π]`, the one below `-π` adds a turn; the one
  above `π` also changes the sign.
-/
import SmartScreen.Classifier.FeatureExtractor

namespace SmartScreen

open Complex Real

/-! ## Arguments -/

/-- An argument is known from its angle. -/
theorem arg_eq_of_coe {z : ℂ} {x : ℝ} (h : (arg z : Real.Angle) = x) (hlow : -π < x)
    (hhigh : x ≤ π) : arg z = x := by
  rw [← arg_coe_angle_toReal_eq_arg, h, Real.Angle.toReal_coe_eq_self_iff.2 ⟨hlow, hhigh⟩]

theorem arg_exp_mul {z : ℂ} (hz : z ≠ 0) (θ : ℝ) :
    (arg (exp (θ * I) * z) : Real.Angle) = θ + arg z := by
  have hexp : (arg (exp (θ * I)) : Real.Angle) = θ := by
    have := arg_cos_add_sin_mul_I_coe_angle (θ : Real.Angle)
    rwa [Real.Angle.cos_coe, Real.Angle.sin_coe, ofReal_cos, ofReal_sin, cos_add_sin_I] at this
  rw [arg_mul_coe_angle (exp_ne_zero _) hz, hexp]

/-- The difference of two arguments is that of the quotient, up to one turn. -/
theorem arg_sub_arg {a v : ℂ} (ha : a ≠ 0) (hv : v ≠ 0) :
    arg v - arg a = arg (v / a) ∨ arg v - arg a = arg (v / a) + 2 * π ∨
      arg v - arg a = arg (v / a) - 2 * π := by
  have hangle : ((arg v - arg a : ℝ) : Real.Angle) = arg (v / a) := by
    rw [Real.Angle.coe_sub, arg_div_coe_angle hv ha]
  obtain ⟨k, hk⟩ := Real.Angle.angle_eq_iff_two_pi_dvd_sub.1 hangle
  have hπ := Real.pi_pos
  have hbounds := fun z : ℂ => And.intro (neg_pi_lt_arg z) (arg_le_pi z)
  have hlow : (-2 : ℝ) < k := by
    by_contra hle
    nlinarith [hbounds v, hbounds a, hbounds (v / a)]
  have hhigh : (k : ℝ) < 2 := by
    by_contra hle
    nlinarith [hbounds v, hbounds a, hbounds (v / a)]
  have hlow' : -2 < k := by exact_mod_cast hlow
  have hhigh' : k < 2 := by exact_mod_cast hhigh
  obtain rfl | rfl | rfl : k = 0 ∨ k = 1 ∨ k = -1 := by omega
  · exact Or.inl (by push_cast at hk; linarith)
  · exact Or.inr (Or.inl (by push_cast at hk; linarith))
  · exact Or.inr (Or.inr (by push_cast at hk; linarith))

namespace KissFftCpx

/-! ## Phasors -/

def toComplex (z : KissFftCpx ℝ) : ℂ := ⟨z.r, z.i⟩

/-- A phasor turned by an angle. -/
noncomputable def rotate (θ : ℝ) (z : KissFftCpx ℝ) : KissFftCpx ℝ :=
  ⟨Real.cos θ * z.r - Real.sin θ * z.i, Real.cos θ * z.i + Real.sin θ * z.r⟩

theorem toComplex_rotate (θ : ℝ) (z : KissFftCpx ℝ) :
    (z.rotate θ).toComplex = exp (θ * I) * z.toComplex := by
  rw [← cos_add_sin_I, ← ofReal_cos, ← ofReal_sin]
  apply Complex.ext <;> simp [rotate, toComplex, -ofReal_cos, -ofReal_sin]

theorem toComplex_eq_zero {z : KissFftCpx ℝ} : z.toComplex = 0 ↔ z = ⟨0, 0⟩ := by
  cases z
  simp [toComplex, Complex.ext_iff]

end KissFftCpx

namespace FeatureExtractor

open KissFftCpx

variable {a v : KissFftCpx ℝ}

theorem phaseShift_eq (a v : KissFftCpx ℝ) :
    phaseShift a v =
      if π < arg v.toComplex - arg a.toComplex then 2 * π - (arg v.toComplex - arg a.toComplex)
      else if arg v.toComplex - arg a.toComplex < -π then
        2 * π + (arg v.toComplex - arg a.toComplex)
      else arg v.toComplex - arg a.toComplex := by
  have hneg : (arg a.toComplex - arg v.toComplex) * -((1 : ℕ) : ℝ) =
      arg v.toComplex - arg a.toComplex := by
    push_cast
    ring
  have hdef : phaseShift a v =
      if π < (arg a.toComplex - arg v.toComplex) * -((1 : ℕ) : ℝ) then
        ((2 : ℕ) : ℝ) * π - (arg a.toComplex - arg v.toComplex) * -((1 : ℕ) : ℝ)
      else if (arg a.toComplex - arg v.toComplex) * -((1 : ℕ) : ℝ) < -π then
        ((2 : ℕ) : ℝ) * π + (arg a.toComplex - arg v.toComplex) * -((1 : ℕ) : ℝ)
      else (arg a.toComplex - arg v.toComplex) * -((1 : ℕ) : ℝ) := rfl
  rw [hdef, hneg, Nat.cast_two]

/-- `x` represents the angle `d` between `-π` and `π`. -/
def Represents (x d : ℝ) : Prop := -π ≤ x ∧ x ≤ π ∧ ∃ k : ℤ, x = d + k * ((2 : ℕ) * π)

/-- The phase shift of a current and a voltage, as an argument. -/
noncomputable def shift (a v : KissFftCpx ℝ) : ℝ := arg (v.toComplex / a.toComplex)

/-- `phaseShift` represents the difference of the arguments and, away from the boundary,
    stays the same if both phasors are turned. -/
def PairExact (a v : KissFftCpx ℝ) : Prop :=
  Represents (phaseShift a v) (arg v.toComplex - arg a.toComplex) ∧
    (shift a v ≠ π → ∀ θ, phaseShift (a.rotate θ) (v.rotate θ) = phaseShift a v)

/-- The voltage does not lag behind the current, or there is neither. -/
def Leads (a v : KissFftCpx ℝ) : Prop :=
  (a = ⟨0, 0⟩ ∧ v = ⟨0, 0⟩) ∨ (a ≠ ⟨0, 0⟩ ∧ v ≠ ⟨0, 0⟩ ∧ 0 ≤ shift a v)

theorem rotate_ne_zero {z : KissFftCpx ℝ} (hz : z ≠ ⟨0, 0⟩) (θ : ℝ) : z.rotate θ ≠ ⟨0, 0⟩ := by
  rw [Ne, ← toComplex_eq_zero, toComplex_rotate]
  exact mul_ne_zero (Complex.exp_ne_zero _) (mt toComplex_eq_zero.1 hz)

theorem shift_rotate (a v : KissFftCpx ℝ) (θ : ℝ) :
    shift (a.rotate θ) (v.rotate θ) = shift a v := by
  rw [shift, shift, toComplex_rotate, toComplex_rotate,
    mul_div_mul_left _ _ (Complex.exp_ne_zero _)]

/-! ## A voltage that leads -/

/-- The raw difference, which a turn may have moved below `-π`. -/
theorem sub_of_leads (ha : a ≠ ⟨0, 0⟩) (hv : v ≠ ⟨0, 0⟩) (h : 0 ≤ shift a v) :
    arg v.toComplex - arg a.toComplex = shift a v ∨
      arg v.toComplex - arg a.toComplex = shift a v - 2 * π := by
  rcases arg_sub_arg (mt toComplex_eq_zero.1 ha) (mt toComplex_eq_zero.1 hv) with hd | hd | hd
  · exact Or.inl hd
  · have hlow := neg_pi_lt_arg a.toComplex
    have hhigh := arg_le_pi v.toComplex
    rw [← shift] at hd
    linarith
  · exact Or.inr hd

theorem phaseShift_of_leads (ha : a ≠ ⟨0, 0⟩) (hv : v ≠ ⟨0, 0⟩) (h : 0 ≤ shift a v)
    (hne : shift a v ≠ π) : phaseShift a v = shift a v := by
  have hlt : shift a v < π := lt_of_le_of_ne (arg_le_pi _) hne
  have hπ := Real.pi_pos
  rw [phaseShift_eq]
  rcases sub_of_leads ha hv h with hd | hd
  · rw [hd, if_neg (by linarith), if_neg (by linarith)]
  · rw [hd, if_neg (by linarith), if_pos (by linarith)]
    ring

theorem represents_of_leads (ha : a ≠ ⟨0, 0⟩) (hv : v ≠ ⟨0, 0⟩) (h : 0 ≤ shift a v) :
    Represents (phaseShift a v) (arg v.toComplex - arg a.toComplex) := by
  have hle : shift a v ≤ π := arg_le_pi _
  have hπ := Real.pi_pos
  rw [phaseShift_eq]
  rcases sub_of_leads ha hv h with hd | hd
  · rw [hd, if_neg (by linarith), if_neg (by linarith)]
    exact ⟨by linarith, hle, 0, by push_cast; ring⟩
  · rw [hd, if_neg (by linarith)]
    split_ifs
    · exact ⟨by linarith, by linarith, 1, by push_cast; ring⟩
    · exact ⟨by linarith, by linarith, 0, by push_cast; ring⟩

/-! ## A voltage that lags -/

/-- **A turn to the boundary.**  If the voltage lags, both phasors can be turned so that
    the raw difference is above `π`. -/
theorem phaseShift_of_lags (ha : a ≠ ⟨0, 0⟩) (hv : v ≠ ⟨0, 0⟩) (h : shift a v < 0) :
    ∃ θ, phaseShift (a.rotate θ) (v.rotate θ) = -shift a v := by
  have ha' := mt toComplex_eq_zero.1 ha
  have hv' := mt toComplex_eq_zero.1 hv
  have hlow : -π < shift a v := neg_pi_lt_arg _
  have hπ := Real.pi_pos
  -- the voltage is turned to `π`
  refine ⟨-π - shift a v - arg a.toComplex, ?_⟩
  have hcurrent : arg (a.rotate (-π - shift a v - arg a.toComplex)).toComplex =
      -π - shift a v := by
    refine arg_eq_of_coe ?_ (by linarith) (by linarith)
    rw [toComplex_rotate, arg_exp_mul ha', ← Real.Angle.coe_add]
    congr 1
    ring
  have hvoltage : arg (v.rotate (-π - shift a v - arg a.toComplex)).toComplex = π := by
    refine arg_eq_of_coe ?_ (by linarith) le_rfl
    have hdiff : (shift a v : Real.Angle) = arg v.toComplex - arg a.toComplex :=
      arg_div_coe_angle hv' ha'
    rw [toComplex_rotate, arg_exp_mul hv', Real.Angle.coe_sub, Real.Angle.coe_sub, hdiff,
      Real.Angle.coe_neg, Real.Angle.neg_coe_pi]
    abel
  rw [phaseShift_eq, hcurrent, hvoltage, if_pos (by linarith)]
  ring

/-- With one phasor missing, turning the other one changes the difference. -/
theorem not_pairExact_of_zero {z : KissFftCpx ℝ} (hz : z ≠ ⟨0, 0⟩) :
    ¬ PairExact ⟨0, 0⟩ z ∧ ¬ PairExact z ⟨0, 0⟩ := by
  have hzero : (⟨0, 0⟩ : KissFftCpx ℝ).toComplex = 0 := rfl
  have hrotate : ∀ θ, (⟨0, 0⟩ : KissFftCpx ℝ).rotate θ = ⟨0, 0⟩ := by
    intro θ
    simp [rotate]
  have hturn : arg (z.rotate π).toComplex ≠ arg z.toComplex := by
    intro harg
    have hnorm : ‖(z.rotate π).toComplex‖ = ‖z.toComplex‖ := by
      rw [toComplex_rotate, norm_mul, norm_exp_ofReal_mul_I, one_mul]
    have heq := ext_norm_arg hnorm harg
    rw [toComplex_rotate, exp_pi_mul_I, neg_one_mul, neg_eq_self] at heq
    exact hz (toComplex_eq_zero.1 heq)
  have hbounds := fun w : KissFftCpx ℝ =>
    And.intro (neg_pi_lt_arg w.toComplex) (arg_le_pi w.toComplex)
  have hfrom : ∀ w : KissFftCpx ℝ, phaseShift ⟨0, 0⟩ w = arg w.toComplex := by
    intro w
    rw [phaseShift_eq, hzero, arg_zero, sub_zero, if_neg (not_lt.2 (hbounds w).2),
      if_neg (not_lt.2 (hbounds w).1.le)]
  have hto : ∀ w : KissFftCpx ℝ, phaseShift w ⟨0, 0⟩ = -arg w.toComplex := by
    intro w
    rw [phaseShift_eq, hzero, arg_zero, zero_sub, if_neg (by linarith [hbounds w]),
      if_neg (by linarith [hbounds w])]
  constructor
  · rintro ⟨-, hall⟩
    have hsame := hall (by rw [shift, hzero, div_zero, arg_zero]; exact Real.pi_ne_zero.symm) π
    rw [hrotate, hfrom, hfrom] at hsame
    exact hturn hsame
  · rintro ⟨-, hall⟩
    have hsame := hall (by rw [shift, hzero, zero_div, arg_zero]; exact Real.pi_ne_zero.symm) π
    rw [hrotate, hto, hto, neg_inj] at hsame
    exact hturn hsame

theorem pairExact_zero : PairExact ⟨0, 0⟩ ⟨0, 0⟩ := by
  have hzero : (⟨0, 0⟩ : KissFftCpx ℝ).toComplex = 0 := rfl
  have hπ := Real.pi_pos
  refine ⟨?_, fun _ θ => by simp [rotate]⟩
  rw [phaseShift_eq, hzero, arg_zero, sub_zero, if_neg (by linarith), if_neg (by linarith)]
  exact ⟨by linarith, hπ.le, 0, by push_cast; ring⟩

/-! ## Pairs of phasors -/

/-- An angle below the axis and its reflection are no whole turns apart. -/
theorem neg_ne_add_turns {x : ℝ} (hlow : -π < x) (hneg : x < 0) (n : ℤ) :
    -x ≠ x + n * (2 * π) := by
  intro hn
  have hπ := Real.pi_pos
  have hpos : (0 : ℝ) < n := by
    by_contra hle
    nlinarith
  have hone : (n : ℝ) < 1 := by
    by_contra hle
    nlinarith
  have hpos' : 0 < n := by exact_mod_cast hpos
  have hone' : n < 1 := by exact_mod_cast hone
  omega

/-- What represents the difference of the arguments represents that of the quotient. -/
theorem Represents.shift {x : ℝ} (h : Represents x (arg v.toComplex - arg a.toComplex))
    (ha : a ≠ ⟨0, 0⟩) (hv : v ≠ ⟨0, 0⟩) : ∃ n : ℤ, x = shift a v + n * (2 * π) := by
  obtain ⟨-, -, k, rfl⟩ := h
  rcases arg_sub_arg (mt toComplex_eq_zero.1 ha) (mt toComplex_eq_zero.1 hv) with hd | hd | hd
  · exact ⟨k, by rw [hd, FeatureExtractor.shift]; push_cast; ring⟩
  · exact ⟨k + 1, by rw [hd, FeatureExtractor.shift]; push_cast; ring⟩
  · exact ⟨k - 1, by rw [hd, FeatureExtractor.shift]; push_cast; ring⟩

theorem not_pairExact_of_lags (ha : a ≠ ⟨0, 0⟩) (hv : v ≠ ⟨0, 0⟩) (h : shift a v < 0) :
    ¬ PairExact a v := by
  rintro ⟨hrep, hall⟩
  have hπ := Real.pi_pos
  obtain ⟨θ, hθ⟩ := phaseShift_of_lags ha hv h
  rw [hall (by linarith) θ] at hθ
  obtain ⟨n, hn⟩ := hrep.shift ha hv
  rw [hθ] at hn
  exact neg_ne_add_turns (neg_pi_lt_arg _) h n hn

theorem pairExact_of_leads (ha : a ≠ ⟨0, 0⟩) (hv : v ≠ ⟨0, 0⟩) (h : 0 ≤ shift a v) :
    PairExact a v := by
  refine ⟨represents_of_leads ha hv h, fun hne θ => ?_⟩
  rw [phaseShift_of_leads ha hv h hne, phaseShift_of_leads (rotate_ne_zero ha θ)
    (rotate_ne_zero hv θ) (by rwa [shift_rotate]) (by rwa [shift_rotate]), shift_rotate]

/-- **The phase shift is exact** exactly if the voltage does not lag behind. -/
theorem pairExact_iff : PairExact a v ↔ Leads a v := by
  by_cases ha : a = ⟨0, 0⟩
  · subst ha
    by_cases hv : v = ⟨0, 0⟩
    · subst hv
      exact iff_of_true pairExact_zero (Or.inl ⟨rfl, rfl⟩)
    · exact iff_of_false (not_pairExact_of_zero hv).1 (by simp [Leads, hv])
  by_cases hv : v = ⟨0, 0⟩
  · subst hv
    exact iff_of_false (not_pairExact_of_zero ha).2 (by simp [Leads, ha])
  have hleads : Leads a v ↔ 0 ≤ shift a v := by simp [Leads, ha, hv]
  rw [hleads]
  constructor
  · intro hexact
    by_contra hlags
    exact not_pairExact_of_lags ha hv (not_le.1 hlags) hexact
  · exact pairExact_of_leads ha hv

/-! ## The feature -/

/-- The phasors of the base frequency, before the event and of it. -/
structure Phasors (fe : FeatureExtractor ℝ) (pos : ℕ) (a v a' v' : KissFftCpx ℝ) : Prop where
  ampereBefore : fe.fftAmpereBefore[pos]? = some a
  voltageBefore : fe.fftVoltageBefore[pos]? = some v
  ampereAfter : fe.fftAmpereAfter[pos]? = some a'
  voltageAfter : fe.fftVoltageAfter[pos]? = some v'

/-- What shifting the two windows does to the spectra at one frequency. -/
noncomputable def turn (θ θ' : ℝ) (fe : FeatureExtractor ℝ) : FeatureExtractor ℝ :=
  { fe with
    fftAmpereBefore := fe.fftAmpereBefore.map (rotate θ)
    fftVoltageBefore := fe.fftVoltageBefore.map (rotate θ)
    fftAmpereAfter := fe.fftAmpereAfter.map (rotate θ')
    fftVoltageAfter := fe.fftVoltageAfter.map (rotate θ') }

/-- `calcPhaseShift` gives the representative and, away from the boundary, still does if
    both spectra are turned. -/
def CalcExact (amps volts : List (KissFftCpx ℝ)) (pos : ℕ) (a v : KissFftCpx ℝ) : Prop :=
  ∃ x, calcPhaseShift amps volts pos = .ok x ∧
    Represents x (arg v.toComplex - arg a.toComplex) ∧
    (shift a v ≠ π → ∀ θ,
      calcPhaseShift (amps.map (rotate θ)) (volts.map (rotate θ)) pos = .ok x)

/-- The phase shifts are exact, and the feature does not depend on the windows. -/
structure PhaseShiftExact (fe : FeatureExtractor ℝ) (m : PowerMetaData)
    (a v a' v' : KissFftCpx ℝ) : Prop where
  before : CalcExact fe.fftAmpereBefore fe.fftVoltageBefore
    (calcBaseFrequencyPos ℝ m fe.fftAmpereBefore.length) a v
  after : CalcExact fe.fftAmpereAfter fe.fftVoltageAfter
    (calcBaseFrequencyPos ℝ m fe.fftAmpereBefore.length) a' v'
  feature : shift a v ≠ π → shift a' v' ≠ π → ∀ θ θ',
    (fe.turn θ θ').extractPhaseShift m = fe.extractPhaseShift m

theorem calcPhaseShift_eq {amps volts : List (KissFftCpx ℝ)} {pos : ℕ}
    (ha : amps[pos]? = some a) (hv : volts[pos]? = some v) :
    calcPhaseShift amps volts pos = .ok (phaseShift a v) := by
  rw [calcPhaseShift, ha, hv]

theorem getElem?_turned {spectrum : List (KissFftCpx ℝ)} {pos : ℕ} {z : KissFftCpx ℝ}
    (h : spectrum[pos]? = some z) (θ : ℝ) :
    (spectrum.map (rotate θ))[pos]? = some (z.rotate θ) := by
  rw [List.getElem?_map, h, Option.map_some]

theorem calcExact_iff {amps volts : List (KissFftCpx ℝ)} {pos : ℕ} (ha : amps[pos]? = some a)
    (hv : volts[pos]? = some v) : CalcExact amps volts pos a v ↔ Leads a v := by
  have hturned := fun θ => calcPhaseShift_eq (getElem?_turned ha θ) (getElem?_turned hv θ)
  rw [← pairExact_iff, PairExact, CalcExact, calcPhaseShift_eq ha hv]
  constructor
  · rintro ⟨x, hx, hrep, hall⟩
    cases hx
    exact ⟨hrep, fun hne θ => Except.ok.inj ((hturned θ).symm.trans (hall hne θ))⟩
  · rintro ⟨hrep, hall⟩
    exact ⟨_, rfl, hrep, fun hne θ => by rw [hturned, hall hne]⟩

theorem Phasors.extractPhaseShift {fe : FeatureExtractor ℝ} {m : PowerMetaData}
    {a' v' : KissFftCpx ℝ}
    (h : Phasors fe (calcBaseFrequencyPos ℝ m fe.fftAmpereBefore.length) a v a' v') :
    fe.extractPhaseShift m = .ok (phaseShift a' v' - phaseShift a v) := by
  rw [FeatureExtractor.extractPhaseShift]
  simp only [calcPhaseShift_eq h.ampereBefore h.voltageBefore,
    calcPhaseShift_eq h.ampereAfter h.voltageAfter]
  rfl

theorem Phasors.turn {fe : FeatureExtractor ℝ} {pos : ℕ} {a' v' : KissFftCpx ℝ}
    (h : Phasors fe pos a v a' v') (θ θ' : ℝ) :
    Phasors (fe.turn θ θ') pos (a.rotate θ) (v.rotate θ) (a'.rotate θ') (v'.rotate θ') :=
  ⟨getElem?_turned h.ampereBefore θ, getElem?_turned h.voltageBefore θ,
    getElem?_turned h.ampereAfter θ', getElem?_turned h.voltageAfter θ'⟩

/-- **The phase shift does not depend on where the window starts** exactly if neither
    before nor after the event the voltage lags behind the current. -/
theorem phaseShiftExact_iff (fe : FeatureExtractor ℝ) (m : PowerMetaData)
    {a v a' v' : KissFftCpx ℝ}
    (h : Phasors fe (calcBaseFrequencyPos ℝ m fe.fftAmpereBefore.length) a v a' v') :
    PhaseShiftExact fe m a v a' v' ↔ Leads a v ∧ Leads a' v' := by
  have hbefore := calcExact_iff h.ampereBefore h.voltageBefore
  have hafter := calcExact_iff h.ampereAfter h.voltageAfter
  constructor
  · intro hexact
    exact ⟨hbefore.1 hexact.before, hafter.1 hexact.after⟩
  · rintro ⟨hleads, hleads'⟩
    refine ⟨hbefore.2 hleads, hafter.2 hleads', fun hne hne' θ θ' => ?_⟩
    have hturn : Phasors (fe.turn θ θ')
        (calcBaseFrequencyPos ℝ m (fe.turn θ θ').fftAmpereBefore.length)
        (a.rotate θ) (v.rotate θ) (a'.rotate θ') (v'.rotate θ') := by
      simp only [turn, List.length_map]
      exact h.turn θ θ'
    rw [hturn.extractPhaseShift, h.extractPhaseShift, (pairExact_iff.2 hleads).2 hne,
      (pairExact_iff.2 hleads').2 hne']

/-- Spectra of four frequencies, the second of which is the base frequency.  The voltage is
    a quarter turn ahead of the current, before the event and after it. -/
noncomputable def quarterTurn : FeatureExtractor ℝ where
  fftAmpereBefore := [⟨0, 0⟩, ⟨1, 0⟩, ⟨1, 1⟩, ⟨0, 0⟩]
  fftVoltageBefore := [⟨1, 0⟩, ⟨0, 1⟩, ⟨0, 0⟩, ⟨1, 1⟩]
  fftAmpereAfter := [⟨1, 1⟩, ⟨0, 1⟩, ⟨0, 0⟩, ⟨0, 1⟩]
  fftVoltageAfter := [⟨0, 0⟩, ⟨-1, 0⟩, ⟨1, 0⟩, ⟨0, 0⟩]

theorem phaseShiftExact_quarterTurn :
    PhaseShiftExact quarterTurn { sampleRate := 4, frequency := 1 } ⟨1, 0⟩ ⟨0, 1⟩ ⟨0, 1⟩
      ⟨-1, 0⟩ := by
  have hpos : calcBaseFrequencyPos ℝ { sampleRate := 4, frequency := 1 }
      quarterTurn.fftAmpereBefore.length = 1 := by
    have hlength : quarterTurn.fftAmpereBefore.length = 4 := rfl
    have hfloor : ⌊(4 : ℝ) / 4 * 1 + 1 / 2⌋ = 1 := by
      rw [Int.floor_eq_iff]
      norm_num
    rw [hlength]
    simp only [calcBaseFrequencyPos, FloatMath.round]
    exact_mod_cast congrArg Int.toNat hfloor
  have hone : (⟨1, 0⟩ : KissFftCpx ℝ).toComplex = 1 := rfl
  have hI : (⟨0, 1⟩ : KissFftCpx ℝ).toComplex = I := rfl
  have hneg : (⟨-1, 0⟩ : KissFftCpx ℝ).toComplex = I * I := by
    rw [I_mul_I]
    apply Complex.ext <;> simp [toComplex]
  have hbefore : shift ⟨1, 0⟩ ⟨0, 1⟩ = π / 2 := by rw [shift, hone, hI, div_one, arg_I]
  have hafter : shift ⟨0, 1⟩ ⟨-1, 0⟩ = π / 2 := by
    rw [shift, hI, hneg, mul_div_cancel_right₀ _ I_ne_zero, arg_I]
  have hquarter : (0 : ℝ) ≤ π / 2 := by positivity
  refine (phaseShiftExact_iff _ _ ?_).2
    ⟨Or.inr ⟨by simp, by simp, hbefore ▸ hquarter⟩, Or.inr ⟨by simp, by simp, hafter ▸ hquarter⟩⟩
  rw [hpos]
  exact ⟨rfl, rfl, rfl, rfl⟩

/-- A current at `-π / 2` and a voltage at `π`: the result has the wrong sign. -/
theorem phase_shift_reflected :
    calcPhaseShift [⟨0, -1⟩] [⟨-1, 0⟩] 0 = .ok (π / 2) ∧
      ¬ Represents (π / 2) (arg (toComplex ⟨-1, 0⟩) - arg (toComplex ⟨0, -1⟩)) := by
  have hamps : arg (toComplex ⟨0, -1⟩) = -(π / 2) := by
    have : toComplex ⟨0, -1⟩ = -I := by apply Complex.ext <;> simp [toComplex]
    rw [this, arg_neg_I]
  have hvolts : arg (toComplex ⟨-1, 0⟩) = π := by
    have : toComplex ⟨-1, 0⟩ = -1 := by apply Complex.ext <;> simp [toComplex]
    rw [this, arg_neg_one]
  have hπ := Real.pi_pos
  constructor
  · rw [calcPhaseShift_eq rfl rfl, phaseShift_eq, hamps, hvolts, if_pos (by linarith)]
    congr 1
    ring
  · rw [hamps, hvolts]
    rintro ⟨-, -, k, hk⟩
    have hk' : (2 * k : ℝ) = -1 := by
      refine mul_right_cancel₀ hπ.ne' ?_
      linarith
    have hk'' : 2 * k = -1 := by exact_mod_cast hk'
    omega

end FeatureExtractor

end SmartScreen
