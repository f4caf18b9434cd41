/-
  When the operations of the classifier return.

  `Regenerable` and `Answers` are what regenerating the matrix and classifying an
  event need, in any state; both are exact (`regenerateMatrix_ok_iff`,
  `classifyOneEvent_ok_iff`), and so is what follows for the calls that the message
  loop makes.
-/
import SmartScreen.Classifier.EventsStored

namespace SmartScreen.DataClassifier

open Fallible Loop

variable {α F : Type}

/-! ## Conditions -/

/-- The columns are equally long and not empty; when several are rescaled, the old
    normalisation vectors have their length. -/
def Regenerable (c : DataClassifier F) (columns : List (List F)) : Prop :=
  columns = [] ∨ ∃ n, 0 < n ∧ (∀ col ∈ columns, col.length = n) ∧
    (columns.length = 1 ∨ c.classificationConfig.normalizationMode = .standardize ∨
      (c.normalizationVectors.mul.length = n ∧ n ≤ c.normalizationVectors.add.length))

variable [FloatArith F]

/-- The classification does not throw, the vectors have the size of the event, there
    is a tree, and all the neighbours found in it are labelled events. -/
structure Answers (lib : Libraries α F) (c : DataClassifier F) (f : EventFeatures F) :
    Prop where
  can : CanClassify c f
  vectors : VectorsFit c f
  neighbors : ∃ nns, c.nns = some nns ∧
    lib.nearest nns (c.normalized f) numberOfNeighbors ≠ [] ∧
    ∀ i ∈ lib.nearest nns (c.normalized f) numberOfNeighbors, ∃ l, c.neighborLabel i = some l

/-! ## Regenerating -/

section
variable {c c' : DataClassifier F} {v w : NormalizationVectors F} {m : Matrix F} {n : ℕ}

omit [FloatArith F] in
theorem length_extremeVector {larger : F → F → Bool} {vec : List F} {columns : List (List F)}
    (hlen : ∀ col ∈ columns, col.length = n) (h : extremeVector larger ⟨n, columns⟩ = .ok vec) :
    vec.length = n := by
  cases columns with
  | nil => cases h
  | cons col columns =>
    have hfold : ∀ (cs : List (List F)) (acc : List F), acc.length = n →
        (∀ col ∈ cs, col.length = n) →
          (cs.foldl (List.zipWith fun m x => if larger x m then x else m) acc).length = n := by
      intro cs
      induction cs with
      | nil => exact fun acc hacc _ => hacc
      | cons d cs ih =>
        intro acc hacc hcs
        apply ih
        · rw [List.length_zipWith, hacc, hcs d (.head _), min_self]
        · exact fun col hcol => hcs col (.tail _ hcol)
    cases h
    exact hfold columns col (hlen col (.head _)) fun d hd => hlen d (.tail _ hd)

omit [FloatArith F] in
theorem exists_extremeVector (larger : F → F → Bool) {columns : List (List F)}
    (hne : columns ≠ []) : ∃ vec, extremeVector larger ⟨n, columns⟩ = .ok vec := by
  obtain ⟨col, cols, rfl⟩ := List.exists_cons_of_ne_nil hne
  exact ⟨_, rfl⟩

/-- Rescaling keeps the sizes of the vectors, and needs them to fit. -/
theorem generateRescaleNormalizationVectors_ok_iff {columns : List (List F)} (hne : columns ≠ [])
    (hlen : ∀ col ∈ columns, col.length = n) :
    (∃ w, generateRescaleNormalizationVectors v ⟨n, columns⟩ = .ok w ∧ n ≤ w.mul.length ∧
      n ≤ w.add.length) ↔ v.mul.length = n ∧ n ≤ v.add.length := by
  obtain ⟨mins, hmins⟩ := exists_extremeVector (n := n) (fun x m : F => decide (x < m)) hne
  obtain ⟨maxs, hmaxs⟩ := exists_extremeVector (n := n) (fun x m : F => decide (m < x)) hne
  have hminsLen := length_extremeVector hlen hmins
  have hmaxsLen := length_extremeVector hlen hmaxs
  have hgen : generateRescaleNormalizationVectors v ⟨n, columns⟩ =
      if v.mul.length ≤ n ∧ v.mul.length ≤ v.add.length then
        .ok ⟨List.zipWith (fun max min => ((2 : ℕ) : F) / (max - min)) (maxs.take v.mul.length)
            (mins.take v.mul.length),
          List.zipWith (fun min m => -((1 : ℕ) : F) * min * m - ((1 : ℕ) : F))
            (mins.take v.mul.length)
            (List.zipWith (fun max min => ((2 : ℕ) : F) / (max - min)) (maxs.take v.mul.length)
              (mins.take v.mul.length)) ++ v.add.drop v.mul.length⟩
      else .error .assertion := by
    rw [generateRescaleNormalizationVectors, generateMinVector, generateMaxVector, hmins, hmaxs]
    rfl
  rw [hgen]
  split_ifs with hfits
  · constructor
    · rintro ⟨w, hw, hmul, hadd⟩
      cases hw
      simp only [List.length_zipWith, List.length_take, List.length_append,
        List.length_drop] at hmul hadd
      omega
    · rintro ⟨hmul, hadd⟩
      refine ⟨_, rfl, ?_, ?_⟩ <;>
        simp only [List.length_zipWith, List.length_take, List.length_append, List.length_drop] <;>
        omega
  · constructor
    · rintro ⟨w, hw, -⟩
      cases hw
    · rintro ⟨hmul, hadd⟩
      exact absurd ⟨hmul.le, hmul.trans_le hadd⟩ hfits

/-- The normalisation vectors fit the matrix of the labelled events. -/
theorem generateNormalizationVectors_ok_iff (hne : c.eventLabelManager.labeledEvents ≠ [])
    (hn : 0 < n) (hlen : ∀ e ∈ c.eventLabelManager.labeledEvents, e.featureVector.length = n) :
    (∃ w, c.generateNormalizationVectors
        ⟨n, c.eventLabelManager.labeledEvents.map EventFeatures.featureVector⟩ = .ok w ∧
        n ≤ w.mul.length ∧ n ≤ w.add.length) ↔
      (c.eventLabelManager.labeledEvents.length = 1 ∨
        c.classificationConfig.normalizationMode = .standardize ∨
        (c.normalizationVectors.mul.length = n ∧ n ≤ c.normalizationVectors.add.length)) := by
  have hcolumns : ∀ col ∈ c.eventLabelManager.labeledEvents.map EventFeatures.featureVector,
      col.length = n := by simpa using hlen
  have hpos := List.length_pos_iff.2 hne
  rw [generateNormalizationVectors]
  split_ifs with hone hmode
  · refine iff_of_true ?_ (.inl hone)
    obtain ⟨e, he⟩ := List.length_eq_one_iff.1 hone
    rw [he] at hlen ⊢
    have hfirst := hlen e (.head _)
    exact ⟨_, rfl, by simp [hfirst], by simp [hfirst]⟩
  · rw [generateRescaleNormalizationVectors_ok_iff (by simpa using hne) hcolumns]
    constructor
    · exact fun h => .inr (.inr h)
    · rintro (h | h | h)
      · exact absurd h hone
      · rw [hmode] at h
        cases h
      · exact h
  · have hstandardize : c.classificationConfig.normalizationMode = .standardize := by
      cases h : c.classificationConfig.normalizationMode with
      | rescale => exact absurd h hmode
      | standardize => rfl
    refine iff_of_true ?_ (.inr (.inl hstandardize))
    have hcols : ¬ (⟨n, c.eventLabelManager.labeledEvents.map EventFeatures.featureVector⟩ :
        Matrix F).cols < 2 := by
      rw [Matrix.cols, List.length_map]
      omega
    rw [generateStandardizeNormalizationVectors, if_neg hcols, if_neg hn.ne']
    exact ⟨_, rfl, by simp, by simp⟩

/-- Normalising goes through the columns. -/
theorem normalizeMatrix_ok {m' : Matrix F} (h : normalizeMatrix v m = .ok m') :
    m'.rows = m.rows ∧
      List.Forall₂ (fun col col' => normalizeEvent v col = .ok col') m.columns m'.columns := by
  rw [normalizeMatrix] at h
  cases hcols : m.columns.mapM (normalizeEvent v) with
  | error e =>
    rw [hcols] at h
    cases h
  | ok cols =>
    rw [hcols] at h
    cases h
    exact ⟨rfl, mapM_eq_ok.1 hcols⟩

/-- A matrix can be normalised with vectors that are long enough. -/
theorem normalizeMatrix_ok_iff (hne : m.columns ≠ []) (hlen : ∀ col ∈ m.columns, col.length = n) :
    (∃ m', normalizeMatrix v m = .ok m') ↔ n ≤ v.mul.length ∧ n ≤ v.add.length := by
  constructor
  · rintro ⟨m', h⟩
    have hcols := (normalizeMatrix_ok h).2
    obtain ⟨col, rest, hcons⟩ := List.exists_cons_of_ne_nil hne
    rw [hcons] at hcols hlen
    obtain ⟨vec, -, hvec, -, -⟩ := List.forall₂_cons_left_iff.1 hcols
    by_contra hfits
    rw [normalizeEvent, hlen col (.head _), if_neg hfits] at hvec
    cases hvec
  · intro hfits
    have hcols : m.columns.mapM (normalizeEvent v) =
        .ok (m.columns.map fun col => List.zipWith3 (fun x m a => x * m + a) col v.mul v.add) := by
      rw [mapM_eq_ok, List.forall₂_map_right_iff, List.forall₂_same]
      intro col hcol
      rw [normalizeEvent, hlen col hcol, if_pos hfits]
    rw [normalizeMatrix, hcols]
    exact ⟨_, rfl⟩

/-- The stages of regenerating, and what they leave. -/
theorem regenerateMatrix_eq_ok_iff (hne : c.eventLabelManager.labeledEvents ≠ []) :
    c.regenerateMatrix = .ok c' () ↔
      ∃ m w m' nns, c.generateMatrixFromLabeledEvents = .ok m ∧
        c.generateNormalizationVectors m = .ok w ∧ normalizeMatrix w m = .ok m' ∧
        NearestNeighbourSearch.create m' = .ok nns ∧
        c' = { c with labeledMatrix := m', normalizationVectors := w, nns := some nns } := by
  rw [regenerateMatrix, if_neg hne]
  cases hm : c.generateMatrixFromLabeledEvents with
  | error e => simp
  | ok m =>
    cases hw : c.generateNormalizationVectors m with
    | error e => simp [hw]
    | ok w =>
      cases hm' : normalizeMatrix w m with
      | error e => simp [hw, hm']
      | ok m' =>
        cases hnns : NearestNeighbourSearch.create m' with
        | error e => simp [hw, hm', hnns]
        | ok nns => simp [hw, hm', hnns, eq_comm]

omit [FloatArith F] in
theorem generateMatrix_ok_iff (hne : c.eventLabelManager.labeledEvents ≠ []) :
    c.generateMatrixFromLabeledEvents = .ok m ↔
      m.columns = c.eventLabelManager.labeledEvents.map EventFeatures.featureVector ∧
        ∀ col ∈ m.columns, col.length = m.rows := by
  have hback := List.getLast_mem hne
  rw [generateMatrixFromLabeledEvents, List.getLast?_eq_some_getLast hne]
  dsimp only
  unfold Matrix.ofColumns
  constructor
  · intro h
    split_ifs at h with hlen
    cases h
    exact ⟨rfl, hlen⟩
  · rintro ⟨hcolumns, hlen⟩
    have hrows : (c.eventLabelManager.labeledEvents.getLast hne).featureVector.length = m.rows :=
      hlen _ (hcolumns ▸ List.mem_map_of_mem hback)
    rw [hrows, ← hcolumns, if_pos hlen]

/-- **When the matrix can be regenerated.** -/
theorem regenerateMatrix_ok_iff :
    (∃ c', c.regenerateMatrix = .ok c' ()) ↔
      c.Regenerable (c.eventLabelManager.labeledEvents.map EventFeatures.featureVector) := by
  by_cases hne : c.eventLabelManager.labeledEvents = []
  · refine iff_of_true ⟨c, if_pos hne⟩ (.inl ?_)
    rw [hne]
    rfl
  have hcolumns : c.eventLabelManager.labeledEvents.map EventFeatures.featureVector ≠ [] := by
    simpa using hne
  constructor
  · rintro ⟨c', h⟩
    obtain ⟨⟨n, columns⟩, w, m', nns, hm, hw, hm', hnns, -⟩ :=
      (regenerateMatrix_eq_ok_iff hne).1 h
    obtain ⟨hcols, hlen⟩ := (generateMatrix_ok_iff hne).1 hm
    dsimp only at hcols hlen
    subst hcols
    have hn : 0 < n := by
      have hrows : m'.rows = n := (normalizeMatrix_ok hm').1
      rw [NearestNeighbourSearch.create] at hnns
      split_ifs at hnns with hempty
      omega
    have hlen' : ∀ e ∈ c.eventLabelManager.labeledEvents, e.featureVector.length = n := by
      simpa using hlen
    have hfits := (normalizeMatrix_ok_iff hcolumns hlen).1 ⟨m', hm'⟩
    have hmode := (generateNormalizationVectors_ok_iff hne hn hlen').1 ⟨w, hw, hfits⟩
    exact .inr ⟨n, hn, hlen, by rwa [List.length_map]⟩
  · rintro (h | ⟨n, hn, hlen, hmode⟩)
    · exact absurd h hcolumns
    have hlen' : ∀ e ∈ c.eventLabelManager.labeledEvents, e.featureVector.length = n := by
      simpa using hlen
    rw [List.length_map] at hmode
    obtain ⟨w, hw, hfits⟩ := (generateNormalizationVectors_ok_iff hne hn hlen').2 hmode
    obtain ⟨m', hm'⟩ := (normalizeMatrix_ok_iff (m := ⟨n, _⟩) hcolumns hlen).2 hfits
    obtain ⟨hrows, hcols⟩ := normalizeMatrix_ok hm'
    have hpos := List.length_pos_iff.2 hcolumns
    refine ⟨_, (regenerateMatrix_eq_ok_iff hne).2
      ⟨⟨n, _⟩, w, m', ⟨m'⟩, (generateMatrix_ok_iff hne).2 ⟨rfl, hlen⟩, hw, hm', ?_, rfl⟩⟩
    rw [NearestNeighbourSearch.create, if_neg]
    rw [Matrix.cols, ← hcols.length_eq, hrows]
    dsimp only
    omega

end

/-! ## Classifying -/

section
variable {L : Type} [LT L] [DecidableLT L]

theorem countLabel_ne_nil (label : L) (labels : List (L × ℕ)) : countLabel label labels ≠ [] := by
  cases labels with
  | nil => simp [countLabel]
  | cons x labels =>
    obtain ⟨l, n⟩ := x
    rw [countLabel]
    split_ifs <;> simp

/-- Who has a neighbour gets a label. -/
theorem vote_isSome {ls : List L} (h : ls ≠ []) : ∃ r, vote ls = some r := by
  obtain ⟨ls, l, rfl⟩ := (List.eq_nil_or_concat' ls).resolve_left h
  rw [vote, List.foldl_append, List.foldl_cons, List.foldl_nil]
  obtain ⟨xs, x, hx⟩ := (List.eq_nil_or_concat' _).resolve_left
    (countLabel_ne_nil l (ls.foldl (fun labels l => countLabel l labels) []))
  rw [hx, maxLabel, List.foldl_append, List.foldl_cons, List.foldl_nil]
  split
  · exact ⟨_, rfl⟩
  · split_ifs <;> exact ⟨_, rfl⟩

end

section
variable {lib : Libraries α F} {c : DataClassifier F} {f : EventFeatures F}

/-- **When the classification answers.** -/
theorem classifyOneEvent_ok_iff : (∃ r, c.classifyOneEvent lib f = .ok r) ↔ Answers lib c f := by
  constructor
  · rintro ⟨r, h⟩
    have hcan := (classifyOneEvent_ok h).1
    obtain ⟨label, certainty, hpick, -⟩ := classifyOneEvent_eq_ok_iff.1 h
    obtain ⟨-, indices, labels, n, hindices, hlabels, hvote, -⟩ := pickLabel_eq_ok_iff.1 hpick
    cases hnns : c.nns with
    | none =>
      rw [neighbors, hnns] at hindices
      cases hindices
    | some nns =>
      rcases neighbors_cases lib f hnns with ⟨-, heq⟩ | ⟨-, -, heq⟩ | ⟨hfits, -, heq⟩
      · rw [heq] at hindices
        cases hindices
      · rw [heq] at hindices
        cases hindices
      · rw [heq] at hindices
        cases hindices
        refine ⟨hcan, hfits, nns, hnns, ?_, exists_of_mapM hlabels⟩
        intro hnil
        rw [hnil] at hlabels
        cases hlabels
        cases hvote
  · rintro ⟨hcan, hfits, nns, hnns, hne, hlabels⟩
    obtain ⟨hcols, hrows⟩ := hcan.2 nns hnns
    obtain ⟨ls, hls, hlslen⟩ := mapM_isSome hlabels
    have hlsne : ls ≠ [] := by
      rintro rfl
      exact hne (List.length_eq_zero_iff.1 hlslen.symm)
    obtain ⟨⟨label, max⟩, hvote⟩ := vote_isSome hlsne
    rcases neighbors_cases lib f hnns with ⟨hnot, -⟩ | ⟨-, hrefuses, -⟩ | ⟨-, -, heq⟩
    · exact absurd hfits hnot
    · rcases hrefuses with h | h <;> omega
    · exact ⟨_, classifyOneEvent_eq_ok_iff.2 ⟨label, _, pickLabel_eq_ok_iff.2
        ⟨hcan.1, _, ls, max, heq, hls, hvote, rfl⟩, rfl⟩⟩

end

/-! ## The calls of the message loop -/

section
variable {lib : Libraries α F} {c : DataClassifier F}

/-- **When an event can be reclassified**: it is not among the unlabelled ones, or
    its classification answers. -/
theorem reclassify_ok_iff (id : ℕ) :
    (∃ c', c.reclassify lib id = .ok c' ()) ↔
      ∀ f ∈ c.eventLabelManager.getEvent id, Answers lib c f := by
  rw [reclassify]
  cases hget : c.eventLabelManager.getEvent id with
  | none => simp
  | some f =>
    simp only [Option.mem_def, Option.some.injEq, forall_eq']
    rw [← classifyOneEvent_ok_iff]
    cases c.classifyOneEvent lib f <;> simp

/-- **When a label can be added**: no event has the id, or the matrix can be
    regenerated with the event among the labelled ones. -/
theorem addLabelById_ok_iff (id : ℕ) (label : ℚ) :
    (∃ c' found, c.addLabelById id label = .ok c' found) ↔
      (c.eventLabelManager.Knows id → c.Regenerable
        ((c.eventLabelManager.labeledWith id).map EventFeatures.featureVector)) := by
  by_cases hknows : c.eventLabelManager.Knows id
  · obtain ⟨m, hm, hvectors⟩ := EventLabelManager.addLabelById_of_knows label hknows
    have hregenerate := regenerateMatrix_ok_iff (c := { c with eventLabelManager := m })
    rw [hvectors] at hregenerate
    rw [forall_prop_of_true hknows, addLabelById, hm]
    dsimp only
    rw [if_pos rfl]
    refine Iff.trans ?_ hregenerate
    cases regenerateMatrix { c with eventLabelManager := m } <;> simp
  · rw [addLabelById, EventLabelManager.addLabelById_of_not_knows label hknows]
    exact iff_of_true ⟨c, false, rfl⟩ fun h => absurd h hknows

end

end SmartScreen.DataClassifier
