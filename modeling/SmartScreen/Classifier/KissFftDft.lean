/-
  kiss_fft is a discrete Fourier transform, with real numbers.

  * `Factors`: the radixes of the stages, and the lengths that are left; `factor_spec`
    says that every length has them, and that they fit in their array.
  * `work_spec`: what the stages from some stage on do.
  * `transform_eq_dft`: the whole transform; `inverse_transform` is forth and back.
-/
import SmartScreen.Classifier.KissFftStages

namespace SmartScreen

open Complex Finset Fallible KissFftCpx

namespace KissFftState

/-! ## The radixes -/

/-- The radixes with the lengths that they leave. -/
inductive Factors : ℕ → List ℕ → Prop
  | last {p : ℕ} : 0 < p → Factors p [p, 1]
  | stage {p m : ℕ} {factors : List ℕ} : 2 ≤ p → 1 < m → Factors m factors →
      Factors (p * m) (p :: m :: factors)

section
variable {floorSqrt n p fuel : ℕ}

theorem nextRadix_two : nextRadix floorSqrt n 2 = if floorSqrt < 3 then n else 3 := rfl

theorem nextRadix_four : nextRadix floorSqrt n 4 = if floorSqrt < 2 then n else 2 := rfl

theorem nextRadix_odd (hp : 2 < p) (h4 : p ≠ 4) :
    nextRadix floorSqrt n p = if floorSqrt < p + 2 then n else p + 2 := by
  rw [nextRadix, if_neg h4, if_neg hp.ne']

theorem findRadix_of_dvd (hdvd : p ∣ n) : findRadix floorSqrt n (fuel + 1) p = some p := by
  rw [findRadix, if_pos (Nat.mod_eq_zero_of_dvd hdvd)]

/-- The radixes from 3 on are tried up to the square root. -/
theorem findRadix_odd (hp : 2 < p) (h4 : p ≠ 4) (hfuel : floorSqrt + 2 ≤ fuel + p)
    (htwo : 2 ≤ fuel) :
    ∃ q, findRadix floorSqrt n fuel p = some q ∧ q ∣ n ∧ (2 ≤ q ∨ q = n) := by
  induction fuel generalizing p with
  | zero => omega
  | succ fuel ih =>
    by_cases hdvd : p ∣ n
    · exact ⟨p, findRadix_of_dvd hdvd, hdvd, Or.inl hp.le⟩
    · rw [findRadix, if_neg fun hmod => hdvd (Nat.dvd_of_mod_eq_zero hmod), nextRadix_odd hp h4]
      split_ifs with hlast
      · obtain ⟨fuel, rfl⟩ : ∃ k, fuel = k + 1 := ⟨fuel - 1, by omega⟩
        exact ⟨n, findRadix_of_dvd dvd_rfl, dvd_rfl, Or.inr rfl⟩
      · exact ih (by omega) (by omega) (by omega) (by omega)

theorem findRadix_two (hfuel : floorSqrt + 3 ≤ fuel) :
    ∃ q, findRadix floorSqrt n fuel 2 = some q ∧ q ∣ n ∧ (2 ≤ q ∨ q = n) := by
  obtain ⟨fuel, rfl⟩ : ∃ k, fuel = k + 1 := ⟨fuel - 1, by omega⟩
  by_cases hdvd : 2 ∣ n
  · exact ⟨2, findRadix_of_dvd hdvd, hdvd, Or.inl le_rfl⟩
  · rw [findRadix, if_neg fun hmod => hdvd (Nat.dvd_of_mod_eq_zero hmod), nextRadix_two]
    split_ifs with hlast
    · obtain ⟨fuel, rfl⟩ : ∃ k, fuel = k + 1 := ⟨fuel - 1, by omega⟩
      exact ⟨n, findRadix_of_dvd dvd_rfl, dvd_rfl, Or.inr rfl⟩
    · exact findRadix_odd (by decide) (by decide) (by omega) (by omega)

/-- **A radix is found** that divides the length: it is the length itself if nothing else. -/
theorem findRadix_spec (hp : 2 ≤ p) :
    ∃ q, findRadix floorSqrt n (floorSqrt + 4) p = some q ∧ q ∣ n ∧ (2 ≤ q ∨ q = n) := by
  rcases hp.eq_or_lt with rfl | hp
  · exact findRadix_two (by omega)
  by_cases h4 : p = 4
  · subst h4
    by_cases hdvd : 4 ∣ n
    · exact ⟨4, findRadix_of_dvd hdvd, hdvd, Or.inl (by decide)⟩
    · rw [findRadix, if_neg fun hmod => hdvd (Nat.dvd_of_mod_eq_zero hmod), nextRadix_four]
      split_ifs with hlast
      · exact ⟨n, findRadix_of_dvd dvd_rfl, dvd_rfl, Or.inr rfl⟩
      · exact findRadix_two le_rfl
  · exact findRadix_odd hp h4 (by omega) (by omega)

theorem factorLoop_spec (hn : 0 < n) (hp : 2 ≤ p) (hfuel : n < fuel) :
    ∃ factors, factorLoop floorSqrt fuel n p = some factors ∧ Factors n factors := by
  induction fuel generalizing n p with
  | zero => omega
  | succ fuel ih =>
    obtain ⟨q, hfind, hdvd, hq⟩ : ∃ q, findRadix floorSqrt n (floorSqrt + 4) p = some q ∧
        q ∣ n ∧ (2 ≤ q ∨ q = n) := findRadix_spec hp
    have hqpos : 0 < q := Nat.pos_of_dvd_of_pos hdvd hn
    obtain ⟨m, rfl⟩ := hdvd
    rw [factorLoop, hfind, Option.bind_some]
    dsimp only
    rw [Nat.mul_div_cancel_left m hqpos]
    split_ifs with hm
    · have hq : 2 ≤ q := by
        refine hq.resolve_right fun heq => ?_
        have := Nat.le_mul_of_pos_right q (Nat.zero_lt_of_lt hm)
        have hmul : q * 1 < q * m := Nat.mul_lt_mul_of_pos_left hm hqpos
        omega
      have hlt : m < q * m := lt_mul_of_one_lt_left (by omega) (by omega)
      obtain ⟨factors, hloop, hfactors⟩ := ih (n := m) (by omega) hq (by omega)
      exact ⟨_, by rw [hloop]; rfl, .stage hq hm hfactors⟩
    · obtain rfl : m = 1 := by
        have := Nat.pos_of_mul_pos_left hn
        omega
      exact ⟨_, rfl, by rw [mul_one]; exact .last hqpos⟩

end

theorem Factors.length_le {n : ℕ} {factors : List ℕ} (h : Factors n factors) :
    factors.length = 2 ∨ 2 ^ (factors.length / 2) ≤ n := by
  induction h with
  | last => exact Or.inl rfl
  | stage hp hm hfactors ih =>
    right
    rw [List.length_cons, List.length_cons, Nat.add_assoc, Nat.add_div_right _ (by decide),
      pow_succ']
    refine Nat.mul_le_mul hp ?_
    rcases ih with heq | hle
    · rw [heq]
      exact hm
    · exact hle

/-- **Every length has its radixes.** -/
theorem factor_spec {n : ℕ} (hn : 0 < n) :
    ∃ factors, factor n = some factors ∧ Factors n factors :=
  factorLoop_spec hn (by decide) (Nat.lt_succ_self n)

/-- The radixes of an `int` fit in the array. -/
theorem Factors.length_le_array {n : ℕ} {factors : List ℕ} (h : Factors n factors)
    (hint : n < 2 ^ 31) : factors.length ≤ 2 * 32 := by
  rcases h.length_le with heq | hle
  · omega
  · have hlt : factors.length / 2 < 31 :=
      (Nat.pow_lt_pow_iff_right (by decide)).1 (hle.trans_lt hint)
    omega

/-! ## The stages -/

theorem length_flatMap_range {g : ℕ → List (KissFftCpx ℝ)} {p m : ℕ}
    (hlen : ∀ q < p, (g q).length = m) : ((List.range p).flatMap g).length = p * m := by
  induction p with
  | zero => simp
  | succ p ih =>
    rw [List.range_succ, List.flatMap_append, List.length_append, List.flatMap_singleton,
      ih fun q hq => hlen q (Nat.lt_succ_of_lt hq), hlen p (Nat.lt_succ_self p), Nat.succ_mul]

/-- The values of blocks of one length. -/
theorem value_flatMap {g : ℕ → List (KissFftCpx ℝ)} {p m : ℕ} (hlen : ∀ q < p, (g q).length = m)
    {q u : ℕ} (hq : q < p) (hu : u < m) :
    value ((List.range p).flatMap g) (u + q * m) = value (g q) u := by
  induction p with
  | zero => exact absurd hq (Nat.not_lt_zero q)
  | succ p ih =>
    have hlen' : ∀ q < p, (g q).length = m := fun q hq => hlen q (Nat.lt_succ_of_lt hq)
    have hfront := length_flatMap_range hlen'
    rw [List.range_succ, List.flatMap_append, List.flatMap_singleton, value,
      List.getD_eq_getElem?_getD]
    rcases (Nat.le_of_lt_succ hq).eq_or_lt with rfl | hq
    · rw [List.getElem?_append_right (by omega), hfront, Nat.add_sub_cancel, value,
        List.getD_eq_getElem?_getD]
    · have hle := Nat.mul_le_mul_right m (Nat.succ_le_of_lt hq)
      rw [Nat.succ_mul] at hle
      rw [List.getElem?_append_left (by omega), ← List.getD_eq_getElem?_getD]
      exact ih hlen' hq

variable {st : KissFftState ℝ}

/-- A stage whose transforms are known. -/
theorem bfly_spec (h : st.HasTwiddles) {fstride p m : ℕ} (hn : st.nfft = fstride * (p * m))
    {L : List (KissFftCpx ℝ)} (hL : L.length = p * m) {x : ℕ → ℂ}
    (hvalue : ∀ q < p, ∀ u < m, value L (u + q * m) =
      dft (root st.inverse st.nfft ^ (fstride * p)) m (fun j => x (q + p * j)) u) :
    ∃ Fout, st.bfly fstride m p L = some Fout ∧ Fout.length = p * m ∧ ∀ k < p * m,
      value Fout k = dft (root st.inverse st.nfft ^ fstride) (p * m) x k := by
  obtain ⟨Fout, hbfly, hlen, hcombines⟩ := combines_bfly h hn L hL
  refine ⟨Fout, hbfly, hlen, fun k hk => ?_⟩
  have hm : 0 < m := Nat.pos_of_mul_pos_left (Nat.zero_lt_of_lt hk)
  have hperiod : (root st.inverse st.nfft ^ (fstride * p)) ^ m = 1 := by
    rw [← pow_mul, mul_assoc, ← hn, root_pow_self h.nfft_ne]
  have hsplit := hcombines (k % m) (Nat.mod_lt k hm) (k / m)
    (Nat.div_lt_of_lt_mul (by rwa [mul_comm]))
  rw [Nat.mod_add_div' k m] at hsplit
  rw [hsplit, dft_mul]
  refine sum_congr rfl fun q hq => ?_
  rw [hvalue q (mem_range.1 hq) _ (Nat.mod_lt k hm), ← pow_mul, ← pow_mul]
  congr 1
  conv_rhs => rw [← Nat.mod_add_div' k m, dft_add_mul hperiod]

/-- A point that the transform `q` of a stage reads is one that the stage reads. -/
theorem index_lt_of_stage {f q p m s l : ℕ} (hq : q < p) (hm : 0 < m)
    (hlast : f + (p * m - 1) * s < l) : f + q * s + (m - 1) * (s * p) < l := by
  have hle : q + (m - 1) * p ≤ p * m - 1 := by
    obtain ⟨m, rfl⟩ : ∃ k, m = k + 1 := ⟨m - 1, by omega⟩
    rw [Nat.add_sub_cancel, Nat.mul_succ, mul_comm m]
    omega
  have hmul := Nat.mul_le_mul_right s hle
  have heq : f + q * s + (m - 1) * (s * p) = f + (q + (m - 1) * p) * s := by ring
  omega

/-- **The stages** from some stage on are a transform of the points that they read. -/
theorem work_spec (h : st.HasTwiddles) (fin : List (KissFftCpx ℝ)) (inStride : ℕ) {n : ℕ}
    {factors : List ℕ} (hfactors : Factors n factors) {f fstride : ℕ}
    (hn : st.nfft = fstride * n) (hfin : f + (n - 1) * (fstride * inStride) < fin.length) :
    ∃ Fout, st.work fin inStride factors f fstride = some Fout ∧ Fout.length = n ∧
      ∀ k < n, value Fout k = dft (root st.inverse st.nfft ^ fstride) n
        (fun j => value fin (f + j * (fstride * inStride))) k := by
  induction hfactors generalizing f fstride with
  | @last p hp =>
    have hread : ∀ q ∈ List.range p, fin[f + q * (fstride * inStride)]? =
        some (fin.getD (f + q * (fstride * inStride)) 0) := fun q hq => by
      have hle := Nat.mul_le_mul_right (fstride * inStride)
        (Nat.le_sub_one_of_lt (List.mem_range.1 hq))
      have hlt : f + q * (fstride * inStride) < fin.length := by omega
      rw [List.getD_eq_getElem?_getD, List.getElem?_eq_getElem hlt]
      rfl
    rw [work, if_pos rfl, mapM_eq_some_map hread, Option.bind_some]
    have hstage := bfly_spec (m := 1) (x := fun j => value fin (f + j * (fstride * inStride))) h
      (by rwa [mul_one])
      (L := (List.range p).map fun k => fin.getD (f + k * (fstride * inStride)) 0) (by simp) ?_
    · rwa [mul_one] at hstage
    · intro q hq u hu
      obtain rfl : u = 0 := by omega
      rw [dft_one]
      simp [value, List.getElem?_range hq]
  | @stage p m factors hp hm hfactors ih =>
    have hblock : ∀ q, ∃ Fout, q < p →
        st.work fin inStride factors (f + q * (fstride * inStride)) (fstride * p) = some Fout ∧
          Fout.length = m ∧ ∀ k < m, value Fout k = dft (root st.inverse st.nfft ^ (fstride * p))
            m (fun j => value fin (f + q * (fstride * inStride) +
              j * (fstride * p * inStride))) k := fun q => by
      by_cases hq : q < p
      · obtain ⟨Fout, hFout⟩ := @ih (f + q * (fstride * inStride)) (fstride * p)
          (by rw [hn, mul_assoc]) (by
            rw [mul_right_comm]
            exact index_lt_of_stage hq (Nat.zero_lt_of_lt hm) hfin)
        exact ⟨Fout, fun _ => hFout⟩
      · exact ⟨[], fun hq' => absurd hq' hq⟩
    choose blocks hblocks using hblock
    rw [work, if_neg hm.ne', mapM_eq_some_map fun q hq => (hblocks q (List.mem_range.1 hq)).1,
      Option.map_some, Option.bind_some, ← List.flatMap_def]
    have hlen := fun q hq => (hblocks q hq).2.1
    refine bfly_spec h hn (length_flatMap_range hlen) fun q hq u hu => ?_
    rw [value_flatMap hlen hq hu, (hblocks q hq).2.2 u hu]
    refine dft_congr (fun j _ => ?_) u
    congr 1
    ring

/-! ## The transform -/

theorem toComplex_cos_sin (x : ℝ) :
    (⟨Real.cos x, Real.sin x⟩ : KissFftCpx ℝ).toComplex = exp (x * I) := by
  rw [toComplex_eq, exp_mul_I, ofReal_cos, ofReal_sin]

theorem toComplex_injective : Function.Injective toComplex := by
  rintro ⟨r, i⟩ ⟨r', i'⟩ h
  obtain ⟨hr : r = r', hi : i = i'⟩ := Complex.mk.inj h
  rw [hr, hi]

theorem hasTwiddles_alloc {n : ℕ} {inverse : Bool} (h : alloc n inverse = some st)
    (hn : n ≠ 0) (hint : n ≤ 2 ^ 30) :
    st.HasTwiddles ∧ st.nfft = n ∧ st.inverse = inverse := by
  rw [alloc, Option.map_eq_some_iff] at h
  obtain ⟨factors, -, rfl⟩ := h
  refine ⟨⟨hn, hint, fun i hi => ?_⟩, rfl, rfl⟩
  simp only at hi
  have htwiddle : ∀ {L : List (KissFftCpx ℝ)} {g : ℕ → KissFftCpx ℝ},
      L = (List.range n).map g → L.getD i 0 = g i := by
    rintro L g rfl
    rw [List.getD_eq_getElem?_getD, List.getElem?_map, List.getElem?_range hi]
    rfl
  rw [twiddle, htwiddle rfl]
  show (⟨Real.cos _, Real.sin _⟩ : KissFftCpx ℝ).toComplex = root inverse n ^ i
  rw [toComplex_cos_sin, root, ← exp_nat_mul]
  congr 1
  cases inverse <;> simp [Trigonometry.pi] <;> ring

theorem alloc_ok {n : ℕ} (hn : 0 < n) (inverse : Bool) :
    ∃ st : KissFftState ℝ, alloc n inverse = some st ∧ Factors n st.factors := by
  obtain ⟨factors, hfactor, hfactors⟩ := factor_spec hn
  exact ⟨_, Option.map_eq_some_iff.2 ⟨factors, hfactor, rfl⟩, hfactors⟩

/-- The values of a transform. -/
theorem transformStride_spec {n : ℕ} {inverse : Bool} (h : alloc n inverse = some st)
    (hn : 0 < n) (hint : n ≤ 2 ^ 30) (hfactors : Factors n st.factors)
    {fin : List (KissFftCpx ℝ)} {inStride : ℕ} (hfin : (n - 1) * inStride < fin.length) :
    ∃ fout, st.transformStride fin inStride = some fout ∧ fout.length = n ∧
      ∀ k < n, value fout k =
        dft (root inverse n) n (fun j => value fin (j * inStride)) k := by
  obtain ⟨htwiddles, hnfft, rfl⟩ := hasTwiddles_alloc h hn.ne' hint
  subst hnfft
  have hwork := work_spec htwiddles fin inStride hfactors (f := 0) (one_mul _).symm
    (by rwa [one_mul, zero_add])
  simp only [pow_one, one_mul, zero_add] at hwork
  exact hwork

/-- The values of a transform of all the points that there are. -/
theorem transform_spec {fin : List (KissFftCpx ℝ)} {inverse : Bool}
    (h : alloc fin.length inverse = some st) (hn : 0 < fin.length) (hint : fin.length ≤ 2 ^ 30)
    (hfactors : Factors fin.length st.factors) :
    ∃ fout, st.transform fin = some fout ∧ fout.length = fin.length ∧
      ∀ k < fin.length, value fout k = dft (root inverse fin.length) fin.length (value fin) k := by
  have hspec := transformStride_spec h hn hint hfactors
    (show (fin.length - 1) * 1 < fin.length by omega)
  simp only [mul_one] at hspec
  exact hspec

theorem map_toComplex_eq {L : List (KissFftCpx ℝ)} {n : ℕ} (hlen : L.length = n) {g : ℕ → ℂ}
    (h : ∀ k < n, value L k = g k) : L.map toComplex = (List.range n).map g := by
  refine List.ext_getElem (by simp [hlen]) fun k hk _ => ?_
  rw [List.length_map] at hk
  rw [List.getElem_map, List.getElem_map, List.getElem_range, ← h k (hlen ▸ hk), value,
    List.getD_eq_getElem?_getD, List.getElem?_eq_getElem hk, Option.getD_some]

/-- **kiss_fft is a Fourier transform**, for every length up to 2^30 and in both
    directions. -/
theorem transform_eq_dft {n : ℕ} (hn : 0 < n) (hint : n ≤ 2 ^ 30) (inverse : Bool)
    {inStride : ℕ} {fin : List (KissFftCpx ℝ)} (hfin : (n - 1) * inStride < fin.length) :
    ∃ st : KissFftState ℝ, alloc n inverse = some st ∧ st.factors.length ≤ 2 * 32 ∧
      ∃ fout, st.transformStride fin inStride = some fout ∧
        fout.map toComplex = (List.range n).map fun (k : ℕ) =>
          ∑ j ∈ range n, value fin (j * inStride) *
            exp ((if inverse then 2 else -2) * Real.pi * I * j * k / n) := by
  obtain ⟨st, halloc, hfactors⟩ := alloc_ok hn inverse
  obtain ⟨fout, hfout, hlen, hvalue⟩ := transformStride_spec halloc hn hint hfactors hfin
  refine ⟨st, halloc, hfactors.length_le_array (by omega), fout, hfout,
    map_toComplex_eq hlen fun k hk => ?_⟩
  rw [hvalue k hk, dft]
  refine sum_congr rfl fun j _ => ?_
  rw [root, ← exp_nat_mul]
  congr 2
  push_cast
  ring

/-- `n` points on a slope. -/
def slope (n : ℕ) : List (KissFftCpx ℝ) := (List.range n).map fun (j : ℕ) => ⟨j, 1⟩

theorem length_slope (n : ℕ) : (slope n).length = n := by simp [slope]

/-- Every second one of 168 points, with the radixes 4, 3 and 7. -/
theorem transform_eq_dft_slope :
    ∃ st : KissFftState ℝ, alloc 84 true = some st ∧ st.factors.length ≤ 2 * 32 ∧
      ∃ fout, st.transformStride (slope 168) 2 = some fout ∧
        fout.map toComplex = (List.range 84).map fun (k : ℕ) =>
          ∑ j ∈ range 84, value (slope 168) (j * 2) *
            exp ((if true then 2 else -2) * Real.pi * I * j * k / (84 : ℕ)) := by
  refine transform_eq_dft (by decide) (by decide) true ?_
  rw [length_slope]
  decide

/-- **Forth and back**: every point comes back as many times as there are points. -/
theorem inverse_transform {fin : List (KissFftCpx ℝ)} (hn : 0 < fin.length)
    (hint : fin.length ≤ 2 ^ 30) :
    ∃ st st' : KissFftState ℝ,
      alloc fin.length false = some st ∧ alloc fin.length true = some st' ∧
      (st.transform fin).bind st'.transform =
        some (fin.map fun c => ⟨fin.length * c.r, fin.length * c.i⟩) := by
  obtain ⟨st, halloc, hfactors⟩ := alloc_ok hn false
  obtain ⟨st', halloc', hfactors'⟩ := alloc_ok hn true
  refine ⟨st, st', halloc, halloc', ?_⟩
  obtain ⟨forth, hforth, hlen, hvalue⟩ := transform_spec halloc hn hint hfactors
  rw [← hlen] at halloc' hfactors'
  obtain ⟨back, hback, hlen', hvalue'⟩ :=
    transform_spec halloc' (hlen ▸ hn) (hlen ▸ hint) hfactors'
  rw [hlen] at hlen' hvalue'
  have hpoint : ∀ k < fin.length, value back k = fin.length * value fin k := by
    intro k hk
    calc value back k
        = dft (root true fin.length) fin.length (value forth) k := hvalue' k hk
      _ = dft (root true fin.length) fin.length
            (dft (root false fin.length) fin.length (value fin)) k := dft_congr hvalue k
      _ = fin.length * value fin k :=
        dft_dft (isPrimitiveRoot_root hn.ne') (root_mul_root false _) hk
  rw [hforth, Option.bind_some, hback]
  congr 1
  refine List.ext_getElem (by rw [List.length_map]; exact hlen') fun k hk hk' => ?_
  rw [List.length_map] at hk'
  have hpoint := hpoint k hk'
  simp only [value, List.getD_eq_getElem?_getD, List.getElem?_eq_getElem hk,
    List.getElem?_eq_getElem hk', Option.getD_some] at hpoint
  rw [List.getElem_map]
  refine toComplex_injective (hpoint.trans ?_)
  rw [toComplex_eq, toComplex_eq]
  push_cast
  ring

theorem inverse_transform_slope :
    ∃ st st' : KissFftState ℝ,
      alloc (slope 84).length false = some st ∧ alloc (slope 84).length true = some st' ∧
      (st.transform (slope 84)).bind st'.transform =
        some ((slope 84).map fun c => ⟨(slope 84).length * c.r, (slope 84).length * c.i⟩) :=
  inverse_transform (by rw [length_slope]; decide) (by rw [length_slope]; decide)

end KissFftState

end SmartScreen
