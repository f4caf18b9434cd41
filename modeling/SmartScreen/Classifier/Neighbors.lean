/-
  The neighbours that vote.

  `knn` is called without flags, so a labelled event whose normalised vector is that
  of the query is not among the neighbours, although nothing is closer; and when too
  few others are left, index 0 votes instead.

  * `SearchesExactly` is what the documentation of libnabo says about `knn`.
  * `voters_nearest_iff`: the five nearest labelled events vote iff none of them
    coincides with the query.
-/
import SmartScreen.Classifier.SearchStructure
import SmartScreen.Classifier.Vote
import SmartScreen.Lib.Neighbors

namespace SmartScreen.DataClassifier

open Fallible Loop Neighbors

/-! ## The matrix -/

section
variable {α F : Type} [FloatArith F] {c c' : DataClassifier F} {f : EventFeatures F}

/-- All columns have one coefficient for each row. -/
def WellFormed (m : Matrix F) : Prop := ∀ column ∈ m.columns, column.length = m.rows

theorem normalized_of_normalizeEvent {column : List F}
    (h : normalizeEvent c.normalizationVectors f.featureVector = .ok column) :
    c.normalized f = column := by
  unfold normalizeEvent at h
  split_ifs at h
  cases h
  rfl

/-- The columns are the normalised labelled events. -/
theorem Matches.columns_eq (hm : Matches c) :
    c.labeledMatrix.columns = c.eventLabelManager.labeledEvents.map c.normalized := by
  rw [← List.forall₂_eq_eq_eq, List.forall₂_map_right_iff]
  exact hm.columns.flip.imp fun column e he => (normalized_of_normalizeEvent he).symm

/-- What regenerating leaves is a matrix. -/
theorem wellFormed_of_regenerateMatrix (hne : c.eventLabelManager.labeledEvents ≠ [])
    (h : c.regenerateMatrix = .ok c' ()) : WellFormed c'.labeledMatrix := by
  obtain ⟨m, w, m', nns, hm, -, hm', -, rfl⟩ := (regenerateMatrix_eq_ok_iff hne).1 h
  obtain ⟨hrows, hcolumns⟩ := normalizeMatrix_ok hm'
  have hlen := ((generateMatrix_ok_iff hne).1 hm).2
  intro column hcolumn
  show column.length = m'.rows
  obtain ⟨i, hi, rfl⟩ := List.getElem_of_mem hcolumn
  have hi' : i < m.columns.length := by rwa [hcolumns.length_eq]
  have hcolumn : (m'.columns[i]).length = (m.columns[i]).length :=
    normalizeEvent_ok (hcolumns.get hi' hi)
  rw [hrows]
  exact hcolumn.trans (hlen _ (List.getElem_mem hi'))

end

/-! ## The search -/

variable {α F : Type} [ExactArith F]

/-- The points that `knn` leaves out: those with the coordinates of the query. -/
def SelfMatch (cloud : Matrix F) (query : List F) (i : ℕ) : Prop :=
  cloud.columns[i]? = some (query.take cloud.rows)

instance SelfMatch.instDecidable (cloud : Matrix F) (query : List F) :
    DecidablePred (SelfMatch cloud query) := fun _ =>
  inferInstanceAs (Decidable (_ = _))

/-- Without flags and with an epsilon of 0, `knn` is exact, leaves out the points that
    are the query, and has index 0 where a neighbour is missing. -/
def SearchesExactly (lib : Libraries α F) : Prop :=
  ∀ (cloud : Matrix F) (query : List F) (k : ℕ), WellFormed cloud → cloud.rows ≤ query.length →
    k < cloud.cols →
      Finds (SelfMatch cloud query) cloud.cols k
        (fun i => squaredDistance (cloud.columns.getD i []) query) (lib.nearest ⟨cloud⟩ query k)

section
variable {lib : Libraries α F} {c : DataClassifier F} {f : EventFeatures F} {indices : List ℕ}

/-- How far a labelled event is from an event, both normalised. -/
def distance (c : DataClassifier F) (f : EventFeatures F) (i : ℕ) : F :=
  squaredDistance ((c.eventLabelManager.labeledEvents.map c.normalized).getD i [])
    (c.normalized f)

/-- A point that is the query is closer than any other one. -/
theorem SelfMatch.closer {cloud : Matrix F} {query : List F} (hcloud : WellFormed cloud)
    (hrows : cloud.rows ≤ query.length) {i j : ℕ} (hi : SelfMatch cloud query i)
    (hj : j < cloud.cols) (hne : ¬ SelfMatch cloud query j) :
    squaredDistance (cloud.columns.getD i []) query <
      squaredDistance (cloud.columns.getD j []) query := by
  unfold SelfMatch at hi hne
  have hj' : j < cloud.columns.length := hj
  have hlen : (cloud.columns[j]).length = cloud.rows := hcloud _ (List.getElem_mem hj')
  rw [List.getElem?_eq_getElem hj', Option.some_inj] at hne
  rw [List.getD_eq_getElem?_getD, hi, List.getD_eq_getElem?_getD, List.getElem?_eq_getElem hj',
    Option.getD_some, Option.getD_some]
  have hzero : squaredDistance (query.take cloud.rows) query = 0 := by
    rw [squaredDistance_eq_zero (List.length_take_le' ..), List.length_take, min_eq_left hrows]
  rw [hzero]
  exact squaredDistance_pos (hlen ▸ hrows) (hlen.symm ▸ hne)

/-- **The five nearest labelled events vote** iff no labelled event has the normalised
    features of the query. -/
theorem voters_nearest_iff (hlib : SearchesExactly lib)
    (hmany : 5 < c.eventLabelManager.labeledEvents.length) (hm : Matches c)
    (hwf : WellFormed c.labeledMatrix) (h : neighbors lib c f = .ok indices) :
    Nearest c.eventLabelManager.labeledEvents.length 5 (c.distance f) indices ↔
      ∀ e ∈ c.eventLabelManager.labeledEvents,
        c.normalized e ≠ (c.normalized f).take c.labeledMatrix.rows := by
  obtain ⟨nns, hnns, hcols, hrows, -, rfl⟩ := neighbors_ok h
  rw [hm.nns (List.ne_nil_of_length_pos (by omega))] at hnns
  cases hnns
  have hfinds := hlib c.labeledMatrix (c.normalized f) numberOfNeighbors hwf hrows hcols
  have hnearest := hfinds.nearest_iff (by simp [numberOfNeighbors]) hcols
    fun i _ hi j hj hne => hi.closer hwf hrows hj hne
  rw [hm.cols_eq, hm.columns_eq] at hnearest
  refine hnearest.trans ?_
  simp only [SelfMatch, hm.columns_eq, List.getElem?_map]
  constructor
  · intro hnone e he heq
    obtain ⟨i, hi, rfl⟩ := List.getElem_of_mem he
    refine hnone i hi ?_
    rw [List.getElem?_eq_getElem hi, Option.map_some, heq]
  · intro hne i hi heq
    rw [List.getElem?_eq_getElem hi, Option.map_some, Option.some_inj] at heq
    exact hne _ (List.getElem_mem hi) heq

end

/-! ## A search by sorting -/

/-- The features of an event are left open; the search sorts all columns. -/
def sortingLibraries : Libraries (DefaultDataPoint ℚ) ℚ where
  phaseShift _ := 0
  rms _ := []
  harmonics _ := []
  nearest nns query k := search (SelfMatch nns.cloud query) nns.cloud.cols k
    fun i => squaredDistance (nns.cloud.columns.getD i []) query
  resized _ rows cols := List.replicate cols (List.replicate rows 0)

theorem searchesExactly_sorting : SearchesExactly sortingLibraries := fun _ _ _ _ _ _ =>
  finds_search

/-- Six labelled events with the features `0, …, 5`. -/
def sixEvents : EventLabelManager ℚ where
  labeledEvents := (List.range 6).map fun (i : ℕ) =>
    { eventMetaData := { label := some 1 }, featureVector := [(i : ℚ)] }

/-- With the features of the first event the other five vote. -/
theorem nearest_event_left_out :
    ∃ (c : DataClassifier ℚ) (f : EventFeatures ℚ) (indices : List ℕ),
      SearchesExactly sortingLibraries ∧ 5 < c.eventLabelManager.labeledEvents.length ∧
      Matches c ∧ WellFormed c.labeledMatrix ∧ neighbors sortingLibraries c f = .ok indices ∧
      ¬ Nearest c.eventLabelManager.labeledEvents.length 5 (c.distance f) indices := by
  obtain ⟨c, hc, hmanager, hfound, hcloser⟩ : ∃ c : DataClassifier ℚ,
      regenerateMatrix { eventLabelManager := sixEvents } = .ok c () ∧
      c.eventLabelManager = sixEvents ∧
      (neighbors sortingLibraries c { featureVector := [0] }).toOption = some [1, 2, 3, 4, 5] ∧
      c.distance { featureVector := [0] } 0 < c.distance { featureVector := [0] } 1 :=
    ⟨_, rfl, rfl, by decide +kernel, by decide +kernel⟩
  have hne : sixEvents.labeledEvents ≠ [] := by rintro ⟨⟩
  cases hneighbors : neighbors sortingLibraries c { featureVector := [0] } with
  | error e =>
    rw [hneighbors] at hfound
    cases hfound
  | ok indices =>
    rw [hneighbors] at hfound
    cases hfound
    refine ⟨c, _, _, searchesExactly_sorting, ?_, .of_regenerateMatrix hne hc,
      wellFormed_of_regenerateMatrix hne hc, hneighbors, fun h => ?_⟩
    · rw [hmanager]
      decide
    · refine (h.le 1 (by simp) 0 ?_ (by simp)).not_gt hcloser
      rw [hmanager]
      decide

/-- A query between two of the events. -/
theorem voters_nearest_iff_between :
    ∃ (c : DataClassifier ℚ) (indices : List ℕ),
      neighbors sortingLibraries c { featureVector := [1 / 2] } = .ok indices ∧
      (Nearest c.eventLabelManager.labeledEvents.length 5
          (c.distance { featureVector := [1 / 2] }) indices ↔
        ∀ e ∈ c.eventLabelManager.labeledEvents, c.normalized e ≠
          (c.normalized { featureVector := [1 / 2] }).take c.labeledMatrix.rows) := by
  obtain ⟨c, hc, hmanager, hfound⟩ : ∃ c : DataClassifier ℚ,
      regenerateMatrix { eventLabelManager := sixEvents } = .ok c () ∧
      c.eventLabelManager = sixEvents ∧
      (neighbors sortingLibraries c { featureVector := [1 / 2] }).toOption =
        some [0, 1, 2, 3, 4] := ⟨_, rfl, rfl, by decide +kernel⟩
  have hne : sixEvents.labeledEvents ≠ [] := by rintro ⟨⟩
  cases hneighbors : neighbors sortingLibraries c { featureVector := [1 / 2] } with
  | error e =>
    rw [hneighbors] at hfound
    cases hfound
  | ok indices =>
    exact ⟨c, indices, hneighbors, voters_nearest_iff searchesExactly_sorting
      (by rw [hmanager]; decide) (.of_regenerateMatrix hne hc)
      (wellFormed_of_regenerateMatrix hne hc) hneighbors⟩

end SmartScreen.DataClassifier
