/-
  Adding a labelled event to the matrix without regenerating it.

  The search tree is built by `regenerateMatrix` only.  On the fast path it stays the
  tree over the older columns, so it has fewer columns than a regenerated one.
-/
import SmartScreen.Classifier.SearchStructure

namespace SmartScreen.DataClassifier

open Loop LTS

variable {α F : Type} [FloatArith F] {lib : Libraries α F} {c c' : DataClassifier F}
  {f : EventFeatures F} {label : ℚ}

/-! ## Labelled events -/

/-- A labelled event that is not in the matrix yet. -/
def addLabeled (c : DataClassifier F) (f : EventFeatures F) (label : ℚ) : DataClassifier F :=
  { c with eventLabelManager := c.eventLabelManager.addLabeledEvent f label }

/-- A labelled event is added to the manager and to the matrix. -/
def Adds (lib : Libraries α F) (c : DataClassifier F) (x : EventFeatures F × ℚ)
    (c' : DataClassifier F) : Prop :=
  caught ((c.addLabeled x.1 x.2).addEventToNormalizedMatrix lib x.1) = some c'

/-- A classifier without labelled events. -/
def unlabeled (config : ClassificationConfig) (events : List (EventFeatures F))
    (labels : LabelSet) : DataClassifier F :=
  { eventLabelManager := { unlabeledEvents := events, labels }, classificationConfig := config }

/-- The new event is added without regenerating. -/
def FastPath (c : DataClassifier F) (f : EventFeatures F) (label : ℚ) : Prop :=
  (c.addLabeled f label).needToRegenerateMatrixForVector f.featureVector = .ok false

/-- The columns of the tree. -/
def searchedColumns (c : DataClassifier F) : Option (List (List F)) :=
  c.nns.map fun nns => nns.cloud.columns

/-- Adding the event leaves the matrix that regenerating would, and a tree over the
    same columns. -/
def AgreesWithRegeneration (lib : Libraries α F) (c : DataClassifier F) (f : EventFeatures F)
    (label : ℚ) : Prop :=
  ∃ c₁ c₂, (c.addLabeled f label).addEventToNormalizedMatrix lib f = .ok c₁ () ∧
    (c.addLabeled f label).regenerateMatrix = .ok c₂ () ∧
    c₁.labeledMatrix = c₂.labeledMatrix ∧ c₁.searchedColumns = c₂.searchedColumns

omit [FloatArith F] in
theorem length_addLabeled (c : DataClassifier F) (f : EventFeatures F) (label : ℚ) :
    (c.addLabeled f label).eventLabelManager.labeledEvents.length =
      c.eventLabelManager.labeledEvents.length + 1 := by
  simp [addLabeled, EventLabelManager.addLabeledEvent]

/-! ## The tree -/

/-- The tree is not over more columns than there are labelled events. -/
def TreeFits (c : DataClassifier F) : Prop :=
  ∀ columns, c.searchedColumns = some columns →
    columns.length ≤ c.eventLabelManager.labeledEvents.length

/-- A regenerated tree has a column for each labelled event. -/
theorem searchedColumns_of_regenerateMatrix (hne : c.eventLabelManager.labeledEvents ≠ [])
    (h : c.regenerateMatrix = .ok c' ()) : ∃ columns, c'.searchedColumns = some columns ∧
      columns.length = c.eventLabelManager.labeledEvents.length := by
  have hm := Matches.of_regenerateMatrix hne h
  have hframe := (regenerateMatrix_frame (congrArg caught h)).1
  refine ⟨c'.labeledMatrix.columns, ?_, by rw [← hframe]; exact hm.cols_eq⟩
  rw [searchedColumns, hm.nns (hframe ▸ hne)]
  rfl

/-- Regenerating builds a tree, or leaves the old one. -/
theorem caught_regenerateMatrix (h : caught c.regenerateMatrix = some c') :
    c.regenerateMatrix = .ok c' () ∨ c'.nns = c.nns := by
  simp only [regenerateMatrix] at h ⊢
  split_ifs at h ⊢
  · cases h
    exact Or.inr rfl
  · repeat' split at h
    all_goals first
      | rw [(caught_fault h).2]; exact Or.inr rfl
      | cases h; exact Or.inl rfl

/-- On the fast path the old tree is left. -/
theorem nns_of_fastPath (hfast : FastPath c f label)
    (h : caught ((c.addLabeled f label).addEventToNormalizedMatrix lib f) = some c') :
    c'.nns = c.nns := by
  rw [addEventToNormalizedMatrix, hfast] at h
  dsimp only at h
  split at h
  · rw [(caught_fault h).2]
    rfl
  · cases h
    rfl

/-- **The tree stays in bounds** when a labelled event is added. -/
theorem TreeFits.adds (hc : TreeFits c) {x : EventFeatures F × ℚ} (h : Adds lib c x c') :
    TreeFits c' := by
  obtain ⟨f, label⟩ := x
  dsimp only [Adds] at h
  have hlength := length_addLabeled c f label
  have hframe := (addEventToNormalizedMatrix_frame h).1
  intro columns hcolumns
  rw [hframe, hlength]
  have hold : c'.nns = c.nns → columns.length ≤ c.eventLabelManager.labeledEvents.length + 1 := by
    intro hnns
    rw [searchedColumns, hnns] at hcolumns
    exact (hc columns hcolumns).trans (Nat.le_succ _)
  cases hneed : (c.addLabeled f label).needToRegenerateMatrixForVector f.featureVector with
  | error e =>
    rw [addEventToNormalizedMatrix, hneed] at h
    rw [(caught_fault h).2] at hold
    exact hold rfl
  | ok need =>
    cases need with
    | false => exact hold (nns_of_fastPath hneed h)
    | true =>
      rw [addEventToNormalizedMatrix, hneed] at h
      rcases caught_regenerateMatrix h with hok | hnns
      · obtain ⟨columns', hcolumns', hlen⟩ := searchedColumns_of_regenerateMatrix
          (List.ne_nil_of_length_pos (by omega)) hok
        rw [hcolumns'] at hcolumns
        cases hcolumns
        omega
      · exact hold hnns

/-- **The tree is stale** after the fast path. -/
theorem searchedColumns_ne (hc : TreeFits c) (hfast : FastPath c f label)
    {c₁ c₂ : DataClassifier F}
    (h₁ : (c.addLabeled f label).addEventToNormalizedMatrix lib f = .ok c₁ ())
    (h₂ : (c.addLabeled f label).regenerateMatrix = .ok c₂ ()) :
    c₁.searchedColumns ≠ c₂.searchedColumns := by
  have hlength := length_addLabeled c f label
  obtain ⟨columns, hcolumns, hlen⟩ := searchedColumns_of_regenerateMatrix
    (List.ne_nil_of_length_pos (by omega)) h₂
  intro hsame
  rw [hcolumns, searchedColumns, nns_of_fastPath hfast (congrArg caught h₁)] at hsame
  have := hc columns hsame
  omega

theorem treeFits_of_reach {config : ClassificationConfig} {events : List (EventFeatures F)}
    {labels : LabelSet} (h : Reach (Adds lib) (unlabeled config events labels) c) :
    TreeFits c := by
  refine h.inv ?_ fun _ _ _ hadds hc => hc.adds hadds
  intro columns hcolumns
  cases hcolumns

/-- **The incremental update never agrees with regenerating.**  Only a configuration
    that rescales takes the fast path. -/
theorem update_disagrees (lib : Libraries α F) (config : ClassificationConfig)
    (events : List (EventFeatures F)) (labels : LabelSet)
    (h : Reach (Adds lib) (unlabeled config events labels) c) (f : EventFeatures F) (label : ℚ)
    (hfast : FastPath c f label) : ¬ AgreesWithRegeneration lib c f label := by
  rintro ⟨c₁, c₂, h₁, h₂, -, hsame⟩
  exact searchedColumns_ne (treeFits_of_reach h) hfast h₁ h₂ hsame

/-- After an event with the feature 0, one with a feature up to 1 takes the fast path. -/
theorem exists_fastPath {x : ℚ} (hlow : -1 ≤ x) (hhigh : x ≤ 1) :
    ∃ c : DataClassifier ℚ,
      Reach (Adds flatLibraries) (unlabeled { normalizationMode := .rescale } [] .empty) c ∧
      FastPath c { featureVector := [x] } 1 := by
  obtain ⟨c, hadds, hmode, hvectors, hlen⟩ : ∃ c : DataClassifier ℚ,
      Adds flatLibraries (unlabeled { normalizationMode := .rescale } [] .empty)
        ({ featureVector := [0] }, 0) c ∧
      c.classificationConfig.normalizationMode = .rescale ∧
      c.normalizationVectors = ⟨[((1 : ℕ) : ℚ)], [-0]⟩ ∧
      c.eventLabelManager.labeledEvents.length = 1 := ⟨_, rfl, rfl, rfl, rfl⟩
  refine ⟨c, (Reach.refl _).next hadds, ?_⟩
  have hrange : featureVectorIsInRange (c.addLabeled { featureVector := [x] } 1) [x] =
      .ok true := by
    simp only [featureVectorIsInRange, addLabeled, hvectors, normalizeEvent]
    simp [List.zipWith3, Except.map, hlow, hhigh]
  rw [FastPath, needToRegenerateMatrixForVector, hrange, if_neg (by simp [addLabeled, hmode]),
    length_addLabeled, hlen]
  rfl

theorem update_disagrees_one :
    ∃ c : DataClassifier ℚ, FastPath c { featureVector := [1] } 1 ∧
      ¬ AgreesWithRegeneration flatLibraries c { featureVector := [1] } 1 := by
  obtain ⟨c, hreach, hfast⟩ := exists_fastPath (x := 1) (by norm_num) le_rfl
  exact ⟨c, hfast, update_disagrees flatLibraries _ [] .empty hreach _ 1 hfast⟩

/-- After the features 0 and 1/2 the tree has one column, a regenerated one has two. -/
theorem tree_stale :
    ∃ c : DataClassifier ℚ,
      Reach (Adds flatLibraries) (unlabeled { normalizationMode := .rescale } [] .empty) c ∧
      FastPath c { featureVector := [1 / 2] } 1 ∧
      ¬ AgreesWithRegeneration flatLibraries c { featureVector := [1 / 2] } 1 := by
  obtain ⟨c, hreach, hfast⟩ := exists_fastPath (x := 1 / 2) (by norm_num) (by norm_num)
  refine ⟨c, hreach, hfast, ?_⟩
  rintro ⟨c₁, c₂, h₁, h₂, -, hsame⟩
  exact searchedColumns_ne (treeFits_of_reach hreach) hfast h₁ h₂ hsame

end SmartScreen.DataClassifier
