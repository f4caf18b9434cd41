/-
  What standardising leaves in the rows of the matrix.

  * `row_standardized`: a row of the normalised matrix is an affine image of the values
    of its feature, over any arithmetic.
  * `row_statistics`: over the real numbers the mean of a row is 0, but as `variance` does
    not divide, the population variance is the inverse of the number of events.
-/
import SmartScreen.Classifier.Arithmetic
import SmartScreen.Classifier.Totality
import SmartScreen.Lib.Statistics

namespace SmartScreen.DataClassifier

variable {F : Type}

/-! ## Rows -/

section
variable [FloatArith F] {c c' : DataClassifier F} {v : NormalizationVectors F}

/-- The values of a feature in the labelled events. -/
def featureValues (c : DataClassifier F) (i : ℕ) : List F :=
  c.eventLabelManager.labeledEvents.map fun e => e.featureVector.getD i 0

theorem getD_normalizeEvent {vec col : List F} {i : ℕ} (h : normalizeEvent v vec = .ok col)
    (hi : i < vec.length) : col.getD i 0 = vec.getD i 0 * v.mul.getD i 0 + v.add.getD i 0 := by
  rw [normalizeEvent] at h
  obtain ⟨⟨hmul, hadd⟩, rfl⟩ := Fallible.ite_eq_ok.1 h
  have hmul' : i < v.mul.length := by omega
  have hadd' : i < v.add.length := by omega
  rw [← List.zipWith_zipWith_left]
  simp only [List.getD_eq_getElem?_getD, List.getElem?_zipWith, List.getElem?_eq_getElem hi,
    List.getElem?_eq_getElem hmul', List.getElem?_eq_getElem hadd', Option.getD_some]

/-- **A row of the regenerated matrix** is an affine image of the values of its feature. -/
theorem row_regenerateMatrix (hne : c.eventLabelManager.labeledEvents ≠ [])
    (h : c.regenerateMatrix = .ok c' ()) {i : ℕ} (hi : i < c'.labeledMatrix.rows) :
    c'.labeledMatrix.row i = (c.featureValues i).map fun x =>
      x * c'.normalizationVectors.mul.getD i 0 + c'.normalizationVectors.add.getD i 0 := by
  obtain ⟨m, w, m', nns, hm, -, hm', -, rfl⟩ := (regenerateMatrix_eq_ok_iff hne).1 h
  obtain ⟨hcolumns, hlen⟩ := (generateMatrix_ok_iff hne).1 hm
  obtain ⟨hrows, hall⟩ := normalizeMatrix_ok hm'
  have hi' : ∀ e ∈ c.eventLabelManager.labeledEvents, i < e.featureVector.length := by
    intro e he
    have hlength := hlen _ (hcolumns ▸ List.mem_map_of_mem he)
    rw [hlength, ← hrows]
    exact hi
  rw [hcolumns] at hall
  have hboth := (List.forall₂_and_left _ _).2 ⟨hi', List.forall₂_map_left_iff.1 hall⟩
  rw [featureValues, List.map_map, Matrix.row, eq_comm, ← List.forall₂_eq_eq_eq,
    List.forall₂_map_left_iff, List.forall₂_map_right_iff]
  exact hboth.imp fun e col h => (getD_normalizeEvent h.2 h.1).symm

theorem rows_regenerateMatrix {n : ℕ} (hne : c.eventLabelManager.labeledEvents ≠ [])
    (hlen : ∀ e ∈ c.eventLabelManager.labeledEvents, e.featureVector.length = n)
    (h : c.regenerateMatrix = .ok c' ()) : c'.labeledMatrix.rows = n := by
  obtain ⟨m, w, m', nns, hm, -, hm', -, rfl⟩ := (regenerateMatrix_eq_ok_iff hne).1 h
  obtain ⟨hcolumns, hlen'⟩ := (generateMatrix_ok_iff hne).1 hm
  obtain ⟨e, he⟩ := List.exists_mem_of_ne_nil _ hne
  rw [← hlen e he, hlen' _ (hcolumns ▸ List.mem_map_of_mem he)]
  exact (normalizeMatrix_ok hm').1

/-- **A standardised row.** -/
theorem row_standardized (hmode : c.classificationConfig.normalizationMode = .standardize)
    (htwo : 2 ≤ c.eventLabelManager.labeledEvents.length)
    (h : c.regenerateMatrix = .ok c' ()) {i : ℕ} (hi : i < c'.labeledMatrix.rows) :
    c'.labeledMatrix.row i = (c.featureValues i).map fun x =>
      x * (((1 : ℕ) : F) / deviation (c.featureValues i)) +
        -mean (c.featureValues i) / deviation (c.featureValues i) := by
  have hne : c.eventLabelManager.labeledEvents ≠ [] := List.ne_nil_of_length_pos (by omega)
  rw [row_regenerateMatrix hne h hi]
  obtain ⟨m, w, m', nns, hm, hw, hm', -, rfl⟩ := (regenerateMatrix_eq_ok_iff hne).1 h
  obtain ⟨hcolumns, -⟩ := (generateMatrix_ok_iff hne).1 hm
  have hi' : i < m.rows := (normalizeMatrix_ok hm').1 ▸ hi
  have hcols : ¬ m.cols < 2 := by
    rw [Matrix.cols, hcolumns, List.length_map]
    omega
  rw [generateNormalizationVectors, if_neg (by omega), if_neg (by simp [hmode]),
    generateStandardizeNormalizationVectors, if_neg hcols, if_neg (by omega)] at hw
  cases hw
  have hrow : m.row i = c.featureValues i := by
    rw [Matrix.row, hcolumns, List.map_map, featureValues]
    rfl
  simp only [List.getD_eq_getElem?_getD, List.getElem?_map, List.getElem?_range hi',
    Option.map_some, Option.getD_some, hrow]

end

/-! ## Real numbers -/

section
variable {c c' : DataClassifier ℝ} {xs : List ℝ}

theorem mean_eq (xs : List ℝ) : mean xs = Statistics.mean xs := by
  rw [Statistics.mean, List.sum_eq_foldl]
  rfl

/-- `variance` is the sum of the squares. -/
theorem variance_eq (xs : List ℝ) : variance xs = Statistics.squares xs := by
  have hfold : ∀ (ys : List ℝ) (μ acc : ℝ),
      ys.foldl (fun result x => result + (x - μ) * (x - μ)) acc =
        acc + (ys.map fun x => (x - μ) ^ 2).sum := by
    intro ys μ
    induction ys with
    | nil => simp
    | cons y ys ih =>
      intro acc
      rw [List.foldl_cons, ih, List.map_cons, List.sum_cons]
      ring
  rw [Statistics.squares, ← mean_eq]
  exact (hfold xs _ 0).trans (zero_add _)

theorem minDeviation_eq : (minDeviation : ℝ) = 1 / 1000 := by
  have hdef : (minDeviation : ℝ) = ((1 : ℕ) : ℝ) / ((1000 : ℕ) : ℝ) := rfl
  rw [hdef]
  norm_num

theorem deviation_eq (xs : List ℝ) :
    deviation xs = max minDeviation √(Statistics.squares xs) := by
  rw [← variance_eq]
  have hdef : deviation xs =
      if minDeviation < √(variance xs) then √(variance xs) else minDeviation := rfl
  rw [hdef]
  split_ifs with hlt
  · exact (max_eq_right hlt.le).symm
  · exact (max_eq_left (not_lt.1 hlt)).symm

theorem deviation_pos (xs : List ℝ) : 0 < deviation xs := by
  rw [deviation_eq, minDeviation_eq]
  exact lt_of_lt_of_le (by norm_num) (le_max_left _ _)

/-- Standardised values: less the mean, divided by the deviation. -/
noncomputable def standardized (xs : List ℝ) : List ℝ :=
  xs.map fun x => x * (((1 : ℕ) : ℝ) / deviation xs) + -mean xs / deviation xs

theorem mean_standardized (hne : xs ≠ []) : Statistics.mean (standardized xs) = 0 := by
  rw [standardized, Statistics.mean_map_affine hne, ← mean_eq]
  push_cast
  ring

/-- **The population variance** of standardised values: the inverse of their number. -/
theorem variance_standardized (hne : xs ≠ [])
    (hdev : minDeviation ≤ √(Statistics.variance xs)) :
    Statistics.variance (standardized xs) = 1 / xs.length := by
  have hmin : (0 : ℝ) < minDeviation := by
    rw [minDeviation_eq]
    norm_num
  have hle : minDeviation ≤ √(Statistics.squares xs) :=
    hdev.trans (Real.sqrt_le_sqrt (Statistics.variance_le_squares xs))
  have hsquare : deviation xs ^ 2 = Statistics.squares xs := by
    rw [deviation_eq, max_eq_right hle, Real.sq_sqrt (Statistics.squares_nonneg xs)]
  have hpos : Statistics.squares xs ≠ 0 := by
    rw [← hsquare]
    exact (pow_pos (deviation_pos xs) 2).ne'
  rw [standardized, Statistics.variance_map_affine hne, div_pow, hsquare, Statistics.variance]
  push_cast
  field_simp

/-- Regenerating returns, and each row whose feature varies enough has mean 0 and
    population variance 1. -/
def Standardises (c : DataClassifier ℝ) (n : ℕ) : Prop :=
  (0 < n → ∃ c', c.regenerateMatrix = .ok c' ()) ∧
    ∀ c', c.regenerateMatrix = .ok c' () →
      ∀ i < n, minDeviation ≤ √(Statistics.variance (c.featureValues i)) →
        Statistics.mean (c'.labeledMatrix.row i) = 0 ∧
          Statistics.variance (c'.labeledMatrix.row i) = 1

variable {n : ℕ}

theorem row_eq_standardized (hmode : c.classificationConfig.normalizationMode = .standardize)
    (htwo : 2 ≤ c.eventLabelManager.labeledEvents.length)
    (hlen : ∀ e ∈ c.eventLabelManager.labeledEvents, e.featureVector.length = n)
    (h : c.regenerateMatrix = .ok c' ()) {i : ℕ} (hi : i < n) :
    c'.labeledMatrix.row i = standardized (c.featureValues i) := by
  have hrows := rows_regenerateMatrix (List.ne_nil_of_length_pos (by omega)) hlen h
  exact row_standardized hmode htwo h (hrows ▸ hi)

theorem regenerateMatrix_returns (hmode : c.classificationConfig.normalizationMode = .standardize)
    (hlen : ∀ e ∈ c.eventLabelManager.labeledEvents, e.featureVector.length = n) (hn : 0 < n) :
    ∃ c', c.regenerateMatrix = .ok c' () :=
  regenerateMatrix_ok_iff.2 (Or.inr ⟨n, hn, by simpa using hlen, Or.inr (Or.inl hmode)⟩)

/-- **What standardising leaves in a row**: the mean is 0, the population variance the
    inverse of the number of events. -/
theorem row_statistics (hmode : c.classificationConfig.normalizationMode = .standardize)
    (htwo : 2 ≤ c.eventLabelManager.labeledEvents.length)
    (hlen : ∀ e ∈ c.eventLabelManager.labeledEvents, e.featureVector.length = n)
    (h : c.regenerateMatrix = .ok c' ()) {i : ℕ} (hi : i < n) :
    Statistics.mean (c'.labeledMatrix.row i) = 0 ∧
      (minDeviation ≤ √(Statistics.variance (c.featureValues i)) →
        Statistics.variance (c'.labeledMatrix.row i) =
          1 / c.eventLabelManager.labeledEvents.length) := by
  have hcount : (c.featureValues i).length = c.eventLabelManager.labeledEvents.length :=
    List.length_map _
  have hne : c.featureValues i ≠ [] := List.ne_nil_of_length_pos (by omega)
  rw [row_eq_standardized hmode htwo hlen h hi]
  refine ⟨mean_standardized hne, ?_⟩
  intro hdev
  rw [variance_standardized hne hdev, hcount]

/-- Several events have no population variance of 1. -/
theorem variance_row_ne_one (hmode : c.classificationConfig.normalizationMode = .standardize)
    (htwo : 2 ≤ c.eventLabelManager.labeledEvents.length)
    (hlen : ∀ e ∈ c.eventLabelManager.labeledEvents, e.featureVector.length = n)
    (h : c.regenerateMatrix = .ok c' ()) {i : ℕ} (hi : i < n)
    (hdev : minDeviation ≤ √(Statistics.variance (c.featureValues i))) :
    Statistics.variance (c'.labeledMatrix.row i) ≠ 1 := by
  rw [(row_statistics hmode htwo hlen h hi).2 hdev]
  have htwo' : (2 : ℝ) ≤ c.eventLabelManager.labeledEvents.length := by exact_mod_cast htwo
  intro hone
  rw [div_eq_one_iff_eq (by positivity)] at hone
  linarith

/-- **Standardisation standardises** exactly if no feature varies enough to be
    standardised. -/
theorem standardises_iff (hmode : c.classificationConfig.normalizationMode = .standardize)
    (htwo : 2 ≤ c.eventLabelManager.labeledEvents.length)
    (hlen : ∀ e ∈ c.eventLabelManager.labeledEvents, e.featureVector.length = n) :
    Standardises c n ↔
      ∀ i < n, √(Statistics.variance (c.featureValues i)) < minDeviation := by
  constructor
  · rintro ⟨hreturns, hrows⟩ i hi
    by_contra hdev
    rw [not_lt] at hdev
    obtain ⟨c', h⟩ := hreturns (Nat.zero_lt_of_lt hi)
    exact variance_row_ne_one hmode htwo hlen h hi hdev (hrows c' h i hi hdev).2
  · intro hsmall
    refine ⟨regenerateMatrix_returns hmode hlen, fun c' _ i hi hdev => ?_⟩
    exact absurd (hsmall i hi) (not_lt.2 hdev)

/-- A classifier with two labelled events, of one feature each. -/
def twoEvents (x y : ℝ) : DataClassifier ℝ :=
  { eventLabelManager := { labeledEvents := [{ featureVector := [x] }, { featureVector := [y] }] } }

/-- Two events with the same feature. -/
theorem standardises_same : Standardises (twoEvents 1 1) 1 := by
  refine (standardises_iff rfl le_rfl (by simp [twoEvents])).2 fun i hi => ?_
  obtain rfl : i = 0 := by omega
  have hvalues : (twoEvents 1 1).featureValues 0 = [1, 1] := rfl
  rw [hvalues, minDeviation_eq]
  norm_num [Statistics.variance, Statistics.squares, Statistics.mean]

/-- The features 0 and 2 have a population variance of 1, their row one of a half. -/
theorem variance_halved : ¬ Standardises (twoEvents 0 2) 1 := by
  rintro ⟨hreturns, hrows⟩
  have hlen : ∀ e ∈ (twoEvents 0 2).eventLabelManager.labeledEvents,
      e.featureVector.length = 1 := by simp [twoEvents]
  have hdev : minDeviation ≤ √(Statistics.variance ((twoEvents 0 2).featureValues 0)) := by
    have hvalues : (twoEvents 0 2).featureValues 0 = [0, 2] := rfl
    rw [hvalues, minDeviation_eq]
    norm_num [Statistics.variance, Statistics.squares, Statistics.mean]
  obtain ⟨c', h⟩ := hreturns Nat.one_pos
  exact variance_row_ne_one rfl le_rfl hlen h Nat.one_pos hdev (hrows c' h 0 Nat.one_pos hdev).2

end

end SmartScreen.DataClassifier
