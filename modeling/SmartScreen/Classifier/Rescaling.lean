/-
  How the configured normalisation reaches the classifier.

  `startClassification` hands the configuration to the feature extractor.  The
  classifier keeps the default one, so it standardises whatever is configured.
-/
import SmartScreen.Classifier.FeatureExtractor
import SmartScreen.Classifier.SearchStructure
import SmartScreen.Classifier.Standardisation

namespace SmartScreen

open DataClassifier LTS

/-! ## Exact arithmetic with division by zero -/

/-- A real number, or what an operation without a real result gives. -/
inductive Exact where
  | finite (x : ℝ)
  | notFinite

namespace Exact

def map₂ (f : ℝ → ℝ → ℝ) : Exact → Exact → Exact
  | finite x, finite y => finite (f x y)
  | _, _ => notFinite

noncomputable instance : FloatArith Exact where
  add := map₂ (· + ·)
  sub := map₂ (· - ·)
  mul := map₂ (· * ·)
  div
    | finite x, finite y => if y = 0 then notFinite else finite (x / y)
    | _, _ => notFinite
  neg
    | finite x => finite (-x)
    | notFinite => notFinite
  zero := finite 0
  natCast n := finite n
  lt
    | finite x, finite y => x < y
    | _, _ => False
  sqrt
    | finite x => if x < 0 then notFinite else finite √x
    | notFinite => notFinite
  decidableLT _ _ := Classical.propDecidable _

def IsFinite (x : Exact) : Prop := ∃ r, x = finite r

theorem finite_add (x y : ℝ) : finite x + finite y = finite (x + y) := rfl

theorem finite_sub (x y : ℝ) : finite x - finite y = finite (x - y) := rfl

theorem finite_mul (x y : ℝ) : finite x * finite y = finite (x * y) := rfl

theorem finite_neg (x : ℝ) : -finite x = finite (-x) := rfl

theorem finite_div (x : ℝ) {y : ℝ} (hy : y ≠ 0) : finite x / finite y = finite (x / y) := if_neg hy

theorem natCast_eq (n : ℕ) : (n : Exact) = finite n := rfl

theorem finite_lt {x y : ℝ} : finite x < finite y ↔ x < y := Iff.rfl

theorem finite_sqrt {x : ℝ} (hx : 0 ≤ x) : FloatArith.sqrt (finite x) = finite √x :=
  if_neg (not_lt.2 hx)

/-! ### Statistics of finite values -/

variable {xs : List ℝ}

theorem foldl_finite (f : ℝ → ℝ → ℝ) (g : Exact → Exact → Exact)
    (hfg : ∀ x y, g (finite x) (finite y) = finite (f x y)) (xs : List ℝ) (acc : ℝ) :
    (xs.map finite).foldl g (finite acc) = finite (xs.foldl f acc) := by
  induction xs generalizing acc with
  | nil => rfl
  | cons x xs ih =>
    rw [List.map_cons, List.foldl_cons, List.foldl_cons, hfg]
    exact ih _

theorem mean_finite (hne : xs ≠ []) : mean (xs.map finite) = finite (mean xs) := by
  have hlen : (xs.length : ℝ) ≠ 0 := by simpa using hne
  have hfold := foldl_finite (· + ·) (· + ·) finite_add xs 0
  rw [mean, List.length_map, natCast_eq]
  exact (congrArg (· / finite xs.length) hfold).trans (finite_div _ hlen)

theorem variance_finite (hne : xs ≠ []) : variance (xs.map finite) = finite (variance xs) := by
  rw [variance, mean_finite hne]
  refine foldl_finite _ _ (fun x y => ?_) xs 0
  rw [finite_sub, finite_mul, finite_add]

theorem deviation_finite (hne : xs ≠ []) : deviation (xs.map finite) = finite (deviation xs) := by
  have hmin : (minDeviation : Exact) = finite minDeviation := by
    rw [minDeviation, natCast_eq, natCast_eq, finite_div _ (by norm_num)]
    rfl
  have hsqrt : FloatArith.sqrt (variance (xs.map finite)) = finite √(variance xs) := by
    rw [variance_finite hne, variance_eq, finite_sqrt (Statistics.squares_nonneg xs)]
  have hreal : deviation xs =
      if minDeviation < √(variance xs) then √(variance xs) else minDeviation := rfl
  rw [deviation, hsqrt, hmin, hreal]
  by_cases hlt : minDeviation < √(variance xs)
  · rw [if_pos (finite_lt.2 hlt), if_pos hlt]
  · rw [if_neg (mt finite_lt.1 hlt), if_neg hlt]

/-- Standardising divides by no zero. -/
theorem standardized_finite (hne : xs ≠ []) :
    (xs.map finite).map (fun x => x * (((1 : ℕ) : Exact) / deviation (xs.map finite)) +
      -mean (xs.map finite) / deviation (xs.map finite)) = (standardized xs).map finite := by
  have hdev : deviation xs ≠ 0 := (deviation_pos xs).ne'
  rw [standardized, List.map_map, List.map_map, deviation_finite hne, mean_finite hne,
    natCast_eq, finite_neg, finite_div _ hdev, finite_div _ hdev]
  rfl

end Exact

/-! ## The configuration -/

/-- A classifier with its feature extractor. -/
structure Analyzer (F : Type) where
  classifier : DataClassifier F := {}
  featureExtractor : FeatureExtractor F := {}

namespace Analyzer

variable {α F : Type}

/-- The loaded labels apart, the configuration goes to the feature extractor only. -/
def startClassification (a : Analyzer F) (config : ClassificationConfig) : Analyzer F :=
  { a with featureExtractor := a.featureExtractor.setConfig config }

/-- A call of the classifier; the features depend on the configuration of the extractor. -/
def call [FloatArith F] (libs : ClassificationConfig → Libraries α F) (a : Analyzer F)
    (op : Operation α F) : Option (Analyzer F) :=
  (a.classifier.call (libs a.featureExtractor.classificationConfig) op).map
    fun classifier => { a with classifier }

/-- The classifier is started with a configuration and then called. -/
def Started [FloatArith F] (libs : ClassificationConfig → Libraries α F) (labels : LabelSet)
    (config : ClassificationConfig) (a : Analyzer F) : Prop :=
  Reach (fun a op a' => a.call libs op = some a')
    (startClassification { classifier := { eventLabelManager := { labels } } } config) a

/-- **The configuration does not reach the classifier.** -/
theorem Started.config [FloatArith F] {libs : ClassificationConfig → Libraries α F}
    {labels : LabelSet} {config : ClassificationConfig} {a : Analyzer F}
    (h : Started libs labels config a) : a.classifier.classificationConfig = {} := by
  refine Reach.inv (I := fun a => a.classifier.classificationConfig = {}) h rfl ?_
  intro a op a' hcall hconfig
  obtain ⟨c, hc, rfl⟩ := Option.map_eq_some_iff.1 hcall
  exact (classificationConfig_of_call hc).trans hconfig

end Analyzer

/-! ## Rows -/

section
variable {c c' : DataClassifier Exact}

def Constant (xs : List Exact) : Prop := ∀ x ∈ xs, ∀ y ∈ xs, x = y

/-- The minimum is -1 and the maximum is 1. -/
def SpansUnit (xs : List Exact) : Prop :=
  .finite (-1) ∈ xs ∧ .finite 1 ∈ xs ∧ ∀ x ∈ xs, ∃ r, x = .finite r ∧ -1 ≤ r ∧ r ≤ 1

/-- The rows of features that vary are rescaled, those of the others are finite. -/
def Rescaled (c c' : DataClassifier Exact) : Prop :=
  ∀ i < c'.labeledMatrix.rows,
    (¬ Constant (c.featureValues i) → SpansUnit (c'.labeledMatrix.row i)) ∧
      (Constant (c.featureValues i) → ∀ x ∈ c'.labeledMatrix.row i, x.IsFinite)

/-- **Standardised values do not reach both -1 and 1.** -/
theorem not_mem_standardized (xs : List ℝ) :
    ¬ ((-1 : ℝ) ∈ standardized xs ∧ (1 : ℝ) ∈ standardized xs) := by
  rintro ⟨hlow, hhigh⟩
  obtain ⟨x, hx, hx'⟩ := List.mem_map.1 hlow
  obtain ⟨y, hy, hy'⟩ := List.mem_map.1 hhigh
  have hdev := deviation_pos xs
  have hx'' : x - Statistics.mean xs = -deviation xs := by
    rw [mean_eq] at hx'
    field_simp at hx'
    push_cast at hx'
    linarith
  have hy'' : y - Statistics.mean xs = deviation xs := by
    rw [mean_eq] at hy'
    field_simp at hy'
    push_cast at hy'
    linarith
  have hsum := Statistics.add_sq_le_squares hx hy (by intro h; linarith)
  have hsquares : Statistics.squares xs ≤ deviation xs ^ 2 := by
    rw [← Real.sqrt_le_left hdev.le, deviation_eq]
    exact le_max_right _ _
  rw [hx'', hy''] at hsum
  nlinarith

theorem not_spansUnit_standardized (xs : List ℝ) :
    ¬ SpansUnit ((standardized xs).map Exact.finite) := by
  rintro ⟨hlow, hhigh, -⟩
  obtain ⟨x, hx, hx'⟩ := List.mem_map.1 hlow
  obtain ⟨y, hy, hy'⟩ := List.mem_map.1 hhigh
  cases hx'
  cases hy'
  exact not_mem_standardized xs ⟨hx, hy⟩

theorem featureValues_finite
    (hfinite : ∀ e ∈ c.eventLabelManager.labeledEvents, ∀ x ∈ e.featureVector, x.IsFinite)
    (i : ℕ) : ∃ xs : List ℝ, c.featureValues i = xs.map Exact.finite := by
  have hvalue : ∀ e ∈ c.eventLabelManager.labeledEvents,
      ∃ r, e.featureVector.getD i 0 = Exact.finite r := by
    intro e he
    rw [List.getD_eq_getElem?_getD]
    cases hx : e.featureVector[i]? with
    | none => exact ⟨0, rfl⟩
    | some x => exact hfinite e he x (List.mem_of_getElem? hx)
  rw [featureValues]
  generalize c.eventLabelManager.labeledEvents = es at hvalue
  induction es with
  | nil => exact ⟨[], rfl⟩
  | cons e es ih =>
    obtain ⟨r, hr⟩ := hvalue e (.head _)
    obtain ⟨xs, hxs⟩ := ih fun e' he' => hvalue e' (.tail _ he')
    exact ⟨r :: xs, by rw [List.map_cons, List.map_cons, hr, hxs]⟩

/-- **What regenerating leaves** are standardised real numbers. -/
theorem row_standardized_finite
    (hmode : c.classificationConfig.normalizationMode = .standardize)
    (htwo : 2 ≤ c.eventLabelManager.labeledEvents.length)
    (hfinite : ∀ e ∈ c.eventLabelManager.labeledEvents, ∀ x ∈ e.featureVector, x.IsFinite)
    (h : c.regenerateMatrix = .ok c' ()) {i : ℕ} (hi : i < c'.labeledMatrix.rows) :
    ∃ xs, c'.labeledMatrix.row i = (standardized xs).map Exact.finite := by
  obtain ⟨xs, hxs⟩ := featureValues_finite hfinite i
  have hne : xs ≠ [] := by
    rintro rfl
    have hlen := congrArg List.length hxs
    rw [featureValues, List.length_map, List.map_nil, List.length_nil] at hlen
    omega
  exact ⟨xs, by rw [row_standardized hmode htwo h hi, hxs, Exact.standardized_finite hne]⟩

/-- Two different feature vectors differ in a feature. -/
theorem exists_not_constant (h : c.regenerateMatrix = .ok c' ())
    {e e' : EventFeatures Exact} (he : e ∈ c.eventLabelManager.labeledEvents)
    (he' : e' ∈ c.eventLabelManager.labeledEvents) (hdiff : e.featureVector ≠ e'.featureVector) :
    ∃ i < c'.labeledMatrix.rows, ¬ Constant (c.featureValues i) := by
  have hne := List.ne_nil_of_mem he
  obtain ⟨m, w, m', nns, hm, -, hm', -, rfl⟩ := (regenerateMatrix_eq_ok_iff hne).1 h
  obtain ⟨hcolumns, hlen⟩ := (generateMatrix_ok_iff hne).1 hm
  have hlength : ∀ f ∈ c.eventLabelManager.labeledEvents, f.featureVector.length = m'.rows := by
    intro f hf
    rw [(normalizeMatrix_ok hm').1]
    exact hlen _ (hcolumns ▸ List.mem_map_of_mem hf)
  by_contra hall
  simp only [not_exists, not_and, not_not] at hall
  refine hdiff (List.ext_getElem ((hlength e he).trans (hlength e' he').symm) fun i hi hi' => ?_)
  have hsame := hall i (hlength e he ▸ hi) _ (List.mem_map_of_mem he) _ (List.mem_map_of_mem he')
  simpa [List.getD_eq_getElem?_getD, List.getElem?_eq_getElem hi,
    List.getElem?_eq_getElem hi'] using hsame

/-- Only rows of equal features can be rescaled. -/
theorem same_of_rescaled (hmode : c.classificationConfig.normalizationMode = .standardize)
    (htwo : 2 ≤ c.eventLabelManager.labeledEvents.length)
    (hfinite : ∀ e ∈ c.eventLabelManager.labeledEvents, ∀ x ∈ e.featureVector, x.IsFinite)
    (h : c.regenerateMatrix = .ok c' ()) (hrescaled : Rescaled c c') :
    ∀ e ∈ c.eventLabelManager.labeledEvents, ∀ e' ∈ c.eventLabelManager.labeledEvents,
      e.featureVector = e'.featureVector := by
  intro e he e' he'
  by_contra hdiff
  obtain ⟨i, hi, hvaries⟩ := exists_not_constant h he he' hdiff
  obtain ⟨xs, hrow⟩ := row_standardized_finite hmode htwo hfinite h hi
  exact not_spansUnit_standardized xs (hrow ▸ (hrescaled i hi).1 hvaries)

end

/-- **The configured normalisation is applied** exactly if all labelled events have the
    same features: whatever is configured, the classifier standardises. -/
theorem rescaled_iff {α : Type} (libs : ClassificationConfig → Libraries α Exact)
    (labels : LabelSet) (config : ClassificationConfig) {a : Analyzer Exact}
    (h : a.Started libs labels config)
    (htwo : 2 ≤ a.classifier.eventLabelManager.labeledEvents.length)
    (hfinite : ∀ e ∈ a.classifier.eventLabelManager.labeledEvents, ∀ x ∈ e.featureVector,
      x.IsFinite) :
    ((∃ n, 0 < n ∧ ∀ e ∈ a.classifier.eventLabelManager.labeledEvents,
        e.featureVector.length = n) → ∃ c', a.classifier.regenerateMatrix = .ok c' ()) ∧
      ∀ c', a.classifier.regenerateMatrix = .ok c' () →
        (Rescaled a.classifier c' ↔
          ∀ e ∈ a.classifier.eventLabelManager.labeledEvents,
            ∀ e' ∈ a.classifier.eventLabelManager.labeledEvents,
              e.featureVector = e'.featureVector) := by
  have hmode : a.classifier.classificationConfig.normalizationMode = .standardize := by
    rw [h.config]
  refine ⟨fun ⟨n, hn, hlen⟩ => regenerateMatrix_ok_iff.2
    (Or.inr ⟨n, hn, by simpa using hlen, Or.inr (Or.inl hmode)⟩), fun c' hc' => ⟨?_, ?_⟩⟩
  · exact same_of_rescaled hmode htwo hfinite hc'
  · intro hsame i hi
    refine ⟨fun hvaries => absurd ?_ hvaries, fun _ x hx => ?_⟩
    · intro x hx y hy
      obtain ⟨e, he, rfl⟩ := List.mem_map.1 hx
      obtain ⟨e', he', rfl⟩ := List.mem_map.1 hy
      rw [hsame e he e' he']
    · obtain ⟨xs, hrow⟩ := row_standardized_finite hmode htwo hfinite hc' hi
      rw [hrow] at hx
      obtain ⟨r, -, rfl⟩ := List.mem_map.1 hx
      exact ⟨r, rfl⟩

/-! ## Two events -/

/-- The only feature of an event is its number of data points. -/
noncomputable def countLibraries : Libraries Unit Exact where
  phaseShift event := .finite event.eventData.length
  rms _ := []
  harmonics _ := []
  nearest _ _ k := List.range k
  resized _ rows cols := List.replicate cols (List.replicate rows 0)

def countedEvent (n : ℕ) : Event Unit := ⟨List.replicate n (), { eventTime := some 0 }⟩

/-- The label of all events at the time 0. -/
def zeroLabel : LabelSet := .node .empty ⟨1, some 0⟩ .empty

/-- A labelled event is added, and the matrix regenerated. -/
theorem call_countedEvent {c : DataClassifier Exact} (n : ℕ)
    (hmode : c.classificationConfig = {}) (hlabels : c.eventLabelManager.labels = zeroLabel)
    (hlen : ∀ e ∈ c.eventLabelManager.labeledEvents, e.featureVector.length = 1) :
    ∃ c', c.call countLibraries (.processOneEvent (countedEvent n)) = some c' ∧
      c'.classificationConfig = {} ∧
      c'.eventLabelManager =
        c.eventLabelManager.addLabeledEvent
          (extractFeatures countLibraries (countedEvent n)) 1 := by
  set features := extractFeatures countLibraries (countedEvent n)
  have hfind : c.eventLabelManager.findLabelAndAddEvent features =
      (c.eventLabelManager.addLabeledEvent features 1, true) := by
    have hlabel : c.eventLabelManager.getEventLabel features = some 1 := by
      rw [EventLabelManager.getEventLabel, hlabels]
      rfl
    rw [EventLabelManager.findLabelAndAddEvent, hlabel]
    rfl
  have hstandardize : c.classificationConfig.normalizationMode = .standardize := by rw [hmode]
  let d := { c with eventLabelManager := c.eventLabelManager.addLabeledEvent features 1 }
  obtain ⟨c', hc'⟩ : ∃ c', d.regenerateMatrix = .ok c' () := by
    refine regenerateMatrix_ok_iff.2 (Or.inr ⟨1, Nat.one_pos, ?_, Or.inr (Or.inl hstandardize)⟩)
    intro col hcol
    obtain ⟨e, he, rfl⟩ := List.mem_map.1 hcol
    rcases List.mem_append.1 he with he | he
    · exact hlen e he
    · rw [List.mem_singleton.1 he]
      rfl
  have hframe := regenerateMatrix_frame (congrArg caught hc')
  refine ⟨c', ?_, hframe.2.trans hmode, hframe.1⟩
  have hadd : d.addEventToNormalizedMatrix countLibraries features = .ok c' () :=
    (addEventToNormalizedMatrix_eq (c := d) hstandardize).trans hc'
  rw [DataClassifier.call, perform, processOneEvent, hfind]
  exact congrArg caught hadd

/-- Two events are processed after starting with any configuration. -/
theorem exists_started (config : ClassificationConfig) (n m : ℕ) :
    ∃ a : Analyzer Exact, a.Started (fun _ => countLibraries) zeroLabel config ∧
      a.classifier.eventLabelManager.labeledEvents.map EventFeatures.featureVector =
        [[.finite n], [.finite m]] := by
  obtain ⟨c, hc, hmode, hmanager⟩ := call_countedEvent
    (c := { eventLabelManager := { labels := zeroLabel } }) n rfl rfl (by simp)
  obtain ⟨c', hc', -, hmanager'⟩ := call_countedEvent (c := c) m hmode (by rw [hmanager]; rfl) (by
    rw [hmanager]
    simp [EventLabelManager.addLabeledEvent, extractFeatures, countLibraries])
  let started (c : DataClassifier Exact) : Analyzer Exact :=
    ⟨c, FeatureExtractor.setConfig {} config⟩
  have hfirst : (started { eventLabelManager := { labels := zeroLabel } }).call
      (fun _ => countLibraries) (.processOneEvent (countedEvent n)) = some (started c) :=
    congrArg (Option.map started) hc
  have hsecond : (started c).call (fun _ => countLibraries) (.processOneEvent (countedEvent m)) =
      some (started c') := congrArg (Option.map started) hc'
  refine ⟨started c', ((Reach.refl _).next hfirst).next hsecond, ?_⟩
  change c'.eventLabelManager.labeledEvents.map EventFeatures.featureVector = _
  rw [hmanager', hmanager]
  simp [EventLabelManager.addLabeledEvent, extractFeatures, countLibraries, countedEvent]

/-- Two events with the same feature. -/
theorem rescaled_iff_same :
    ∃ a : Analyzer Exact, a.Started (fun _ => countLibraries) zeroLabel
        { normalizationMode := .rescale } ∧
      ∃ c', a.classifier.regenerateMatrix = .ok c' () ∧ Rescaled a.classifier c' := by
  obtain ⟨a, hstarted, hvectors⟩ := exists_started { normalizationMode := .rescale } 1 1
  have hmem : ∀ e ∈ a.classifier.eventLabelManager.labeledEvents,
      e.featureVector = [.finite (1 : ℕ)] := by
    intro e he
    have := List.mem_map_of_mem (f := EventFeatures.featureVector) he
    rw [hvectors] at this
    simpa using this
  have hlen := congrArg List.length hvectors
  rw [List.length_map] at hlen
  obtain ⟨hreturns, hiff⟩ := rescaled_iff (fun _ => countLibraries) zeroLabel _ hstarted hlen.ge
    (fun e he x hx => ⟨(1 : ℕ), by rw [hmem e he] at hx; exact List.mem_singleton.1 hx⟩)
  obtain ⟨c', hc'⟩ := hreturns ⟨1, Nat.one_pos, fun e he => by rw [hmem e he]; rfl⟩
  exact ⟨a, hstarted, c', hc', (hiff c' hc').2 fun e he e' he' => by rw [hmem e he, hmem e' he']⟩

/-- The features 0 and 2 are not rescaled. -/
theorem standardized_instead :
    ∃ a : Analyzer Exact, a.Started (fun _ => countLibraries) zeroLabel
        { normalizationMode := .rescale } ∧
      a.classifier.eventLabelManager.labeledEvents.map EventFeatures.featureVector =
        [[.finite (0 : ℕ)], [.finite (2 : ℕ)]] ∧
      ∃ c', a.classifier.regenerateMatrix = .ok c' () ∧ ¬ Rescaled a.classifier c' := by
  obtain ⟨a, hstarted, hvectors⟩ := exists_started { normalizationMode := .rescale } 0 2
  have hmode : a.classifier.classificationConfig.normalizationMode = .standardize := by
    rw [hstarted.config]
  have hlen := congrArg List.length hvectors
  rw [List.length_map] at hlen
  have hmem : ∀ e ∈ a.classifier.eventLabelManager.labeledEvents,
      e.featureVector = [.finite (0 : ℕ)] ∨ e.featureVector = [.finite (2 : ℕ)] := by
    intro e he
    have := List.mem_map_of_mem (f := EventFeatures.featureVector) he
    rw [hvectors] at this
    simpa using this
  have hfinite : ∀ e ∈ a.classifier.eventLabelManager.labeledEvents, ∀ x ∈ e.featureVector,
      x.IsFinite := by
    intro e he x hx
    rcases hmem e he with h | h
    · exact ⟨_, List.mem_singleton.1 (h ▸ hx)⟩
    · exact ⟨_, List.mem_singleton.1 (h ▸ hx)⟩
  obtain ⟨c', hc'⟩ : ∃ c', a.classifier.regenerateMatrix = .ok c' () := by
    refine regenerateMatrix_ok_iff.2
      (Or.inr ⟨1, Nat.one_pos, fun col hcol => ?_, Or.inr (Or.inl hmode)⟩)
    rw [hvectors] at hcol
    rcases List.mem_cons.1 hcol with rfl | hcol
    · rfl
    · rw [List.mem_singleton.1 hcol]
      rfl
  refine ⟨a, hstarted, hvectors, c', hc', fun hrescaled => ?_⟩
  obtain ⟨e, he, hzero⟩ := List.mem_map.1
    (show [Exact.finite (0 : ℕ)] ∈ a.classifier.eventLabelManager.labeledEvents.map
      EventFeatures.featureVector by rw [hvectors]; exact .head _)
  obtain ⟨e', he', htwo⟩ := List.mem_map.1
    (show [Exact.finite (2 : ℕ)] ∈ a.classifier.eventLabelManager.labeledEvents.map
      EventFeatures.featureVector by rw [hvectors]; exact .tail _ (.head _))
  have hsame := same_of_rescaled hmode hlen.ge hfinite hc' hrescaled e he e' he'
  rw [hzero, htwo] at hsame
  simp at hsame

end SmartScreen
