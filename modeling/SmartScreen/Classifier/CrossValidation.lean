/-
  Cross-validation of the classifier (`SelectPartitions.h`,
  `slimmed_validation.cpp`, `CrossValidationResult.h`).

  The labelled events are parted into ten folds.  For each fold a classifier is
  set up, the events of the fold are classified, and what is then stored with them
  is compared with their labels.

  * `classifyOneEvent_total`: with enough labelled events the classifier answers.
  * `crossValidate_eq`: what is recorded are the labels of the fold itself.
  * `no_leak_iff`: two runs that differ in the labels of a fold record different
    answers, unless the fold is empty.
-/
import SmartScreen.Classifier.SearchStructure

namespace SmartScreen

open DataClassifier Fallible Loop

variable {α F : Type}

/-! ## Partitions -/

/-- `std::swap` of two elements of a vector -/
def swapAt {β : Type} (xs : List β) (i j : ℕ) : List β :=
  match xs[i]?, xs[j]? with
  | some x, some y => (xs.set i y).set j x
  | _, _ => xs

section
variable (labels : EventLabelManager F) (totalNumberOfPartitions : ℕ)

def elementsPerPartition : ℕ := labels.labeledEvents.length / totalNumberOfPartitions

/-- Where a partition begins and ends. -/
def partitionBegin (part : ℕ) : ℕ := elementsPerPartition labels totalNumberOfPartitions * part

def partitionEnd (part : ℕ) : ℕ :=
  min labels.labeledEvents.length
    ((part + 1) * elementsPerPartition labels totalNumberOfPartitions)

/-- The events of the partition are exchanged with those at the end, and as many
    are dropped there. -/
def dropPartition (toDrop : ℕ) : Except Fault (EventLabelManager F) :=
  if toDrop < totalNumberOfPartitions then
    let n := labels.labeledEvents.length
    let begin := partitionBegin labels totalNumberOfPartitions toDrop
    let events :=
      if toDrop ≠ totalNumberOfPartitions - 1 then
        (List.range (partitionEnd labels totalNumberOfPartitions toDrop - begin)).foldl
          (fun events k => swapAt events (begin + k) (n - 1 - k)) labels.labeledEvents
      else labels.labeledEvents
    .ok { labels with labeledEvents :=
            events.take (n - elementsPerPartition labels totalNumberOfPartitions) }
  else .error .assertion

def getPartition (partNumber : ℕ) : Except Fault (List (EventFeatures F)) :=
  if partNumber < totalNumberOfPartitions then
    .ok ((labels.labeledEvents.take (partitionEnd labels totalNumberOfPartitions partNumber)).drop
      (partitionBegin labels totalNumberOfPartitions partNumber))
  else .error .assertion

end

/-! ## Validation -/

structure Guess where
  actualLabel : ℚ
  classifiedLabel : ℚ
  eventId : ℕ
deriving DecidableEq

/-- A label or an id that is not there must not be dereferenced. -/
def guess (test result : EventFeatures F) : Except Fault Guess :=
  match test.eventMetaData.label, result.eventMetaData.label, result.eventMetaData.eventId with
  | some actual, some classified, some id => .ok ⟨actual, classified, id⟩
  | _, _, _ => .error .undefined

section
variable [FloatArith F] (lib : Libraries α F)

def classifyTestData (c : DataClassifier F) :
    List (EventFeatures F) → Res Fault (DataClassifier F) Unit
  | [] => .ok c ()
  | event :: testData =>
    (c.classifyOneEventAndPushToLabelManager lib event).bind fun c _ =>
      classifyTestData c testData

def validatePartition (labels : EventLabelManager F) (testData : List (EventFeatures F)) :
    Except Fault (List Guess) :=
  match (setEventLabelManager {} labels).bind fun c _ => classifyTestData lib c testData with
  | .ok c () =>
    let classificationResults := c.eventLabelManager.unlabeledEvents
    if classificationResults.length = testData.length then
      (testData.zip classificationResults).mapM fun x => guess x.1 x.2
    else .error .assertion
  | .fault e _ => .error e
  | .timeout => .error .undefined

def numberOfPartitions : ℕ := 10

/-- The training set is not used. -/
def crossValidate (labeledEvents : EventLabelManager F) : Except Fault (List (List Guess)) :=
  (List.range numberOfPartitions).mapM fun i => do
    let _trainingSet ← dropPartition labeledEvents numberOfPartitions i
    let testSet ← getPartition labeledEvents numberOfPartitions i
    validatePartition lib labeledEvents testSet

end

/-! ## What libnabo promises -/

/-- In a tree with more than `k` points the search finds `k` of them. -/
def FindsNeighbors (lib : Libraries α F) : Prop :=
  ∀ nns query k, k < nns.cloud.cols →
    (lib.nearest nns query k).length = k ∧ ∀ i ∈ lib.nearest nns query k, i < nns.cloud.cols

/-! ## Labelled events -/

/-- All events are labelled and have ids, and `n` features each. -/
structure Labelled (n : ℕ) (labels : EventLabelManager F) : Prop where
  unlabeled : labels.unlabeledEvents = []
  length : ∀ e ∈ labels.labeledEvents, e.featureVector.length = n
  label : ∀ e ∈ labels.labeledEvents, ∃ l, e.eventMetaData.label = some l
  id : ∀ e ∈ labels.labeledEvents, ∃ id, e.eventMetaData.eventId = some id

/-! ## A classifier that answers -/

namespace DataClassifier

variable [FloatArith F] {lib : Libraries α F} {c c' : DataClassifier F} {f : EventFeatures F}
  {n : ℕ}

/-- Regenerating gives the matrix a row for each feature. -/
theorem rows_of_regenerateMatrix (hc : OfLength n c) (hne : c.eventLabelManager.labeledEvents ≠ [])
    (h : c.regenerateMatrix = .ok c' ()) : c'.labeledMatrix.rows = n := by
  obtain ⟨m, w, m', nns, hm, -, hm', -, rfl⟩ := (regenerateMatrix_eq_ok_iff hne).1 h
  obtain ⟨hcolumns, hrows⟩ := (generateMatrix_ok_iff hne).1 hm
  have hback := List.getLast_mem hne
  show m'.rows = n
  rw [(normalizeMatrix_ok hm').1, ← hc.labeled _ hback]
  exact (hrows _ (hcolumns ▸ List.mem_map_of_mem hback)).symm

/-- What a classifier needs that answers. -/
structure Ready (n : ℕ) (c : DataClassifier F) : Prop where
  search : Matches c
  rows : c.labeledMatrix.rows = n
  length : ∀ e ∈ c.eventLabelManager.labeledEvents, e.featureVector.length = n
  label : ∀ e ∈ c.eventLabelManager.labeledEvents, ∃ l, e.eventMetaData.label = some l
  enough : numberOfNeighbors < c.eventLabelManager.labeledEvents.length

/-- The vectors have the size of a labelled event. -/
theorem Ready.vectors (h : Ready n c) :
    n ≤ c.normalizationVectors.mul.length ∧ n ≤ c.normalizationVectors.add.length := by
  obtain ⟨e, es, hes⟩ := List.exists_cons_of_length_pos (Nat.zero_lt_of_lt h.enough)
  have hcolumns := h.search.columns
  have hlen := h.length
  rw [hes] at hcolumns hlen
  obtain ⟨column, columns, hcolumn, -, -⟩ := List.forall₂_cons_left_iff.1 hcolumns
  by_contra hsize
  rw [normalizeEvent, hlen e (.head _), if_neg hsize] at hcolumn
  cases hcolumn

/-- **The classifier answers.** -/
theorem classifyOneEvent_total (hlib : FindsNeighbors lib) (h : Ready n c)
    (hf : f.featureVector.length = n) : ∃ r, c.classifyOneEvent lib f = .ok r := by
  have hnns := h.search.searchesMatrix h.enough
  have hcols := h.search.cols_eq
  have henough : numberOfNeighbors < c.labeledMatrix.cols := h.enough.trans_eq hcols.symm
  obtain ⟨hk, hin⟩ := hlib ⟨c.labeledMatrix⟩ (c.normalized f) numberOfNeighbors henough
  rw [classifyOneEvent_ok_iff]
  refine ⟨⟨h.enough, ?_⟩, ?_, ⟨c.labeledMatrix⟩, hnns, ?_, ?_⟩
  · intro nns hmem
    rw [hnns] at hmem
    cases hmem
    exact ⟨henough, (h.rows.trans hf.symm).le⟩
  · rw [VectorsFit, hf]
    exact h.vectors
  · intro hnil
    rw [hnil] at hk
    cases hk
  · intro i hi
    have hlt : i < c.eventLabelManager.labeledEvents.length := (hin i hi).trans_eq hcols
    obtain ⟨l, hl⟩ := h.label _ (List.getElem_mem hlt)
    exact ⟨l, by rw [neighborLabel, List.getElem?_eq_getElem hlt]; exact hl⟩

/-- **What is stored is the event as it came in.** -/
theorem classifyOneEventAndPush_eq (hlib : FindsNeighbors lib) (h : Ready n c)
    (hf : f.featureVector.length = n) :
    c.classifyOneEventAndPushToLabelManager lib f = .ok (c.publish f) () := by
  obtain ⟨r, hr⟩ := classifyOneEvent_total hlib h hf
  rw [classifyOneEventAndPushToLabelManager, hr]

theorem Ready.publish (h : Ready n c) : Ready n (c.publish f) :=
  ⟨⟨h.search.columns, h.search.nns⟩, h.rows, h.length, h.label, h.enough⟩

end DataClassifier

/-! ## Folds -/

/-- The events of a fold. -/
def fold (labels : EventLabelManager F) (i : ℕ) : List (EventFeatures F) :=
  (labels.labeledEvents.take (partitionEnd labels numberOfPartitions i)).drop
    (partitionBegin labels numberOfPartitions i)

/-- The managers agree in everything except the labels of the events of the fold. -/
structure AgreeOutside (i : ℕ) (labels labels' : EventLabelManager F) : Prop where
  unlabeledEvents : labels'.unlabeledEvents = labels.unlabeledEvents
  labelSet : labels'.labels = labels.labels
  apartFromLabels : labels'.labeledEvents.map (fun e => e.withLabel 0) =
    labels.labeledEvents.map fun e => e.withLabel 0
  outside : ∀ j, ¬ (partitionBegin labels numberOfPartitions i ≤ j ∧
    j < partitionEnd labels numberOfPartitions i) →
      labels'.labeledEvents[j]? = labels.labeledEvents[j]?

section
variable {labels labels' : EventLabelManager F} {n i : ℕ}

/-- With fewer events than folds, the folds are empty. -/
theorem fold_eq_nil (h : labels.labeledEvents.length < numberOfPartitions) :
    fold labels i = [] := by
  have hper : elementsPerPartition labels numberOfPartitions = 0 := Nat.div_eq_of_lt h
  rw [fold, List.drop_eq_nil_iff, partitionEnd, hper]
  simp

theorem begin_lt_end (h : numberOfPartitions ≤ labels.labeledEvents.length)
    (hi : i < numberOfPartitions) :
    partitionBegin labels numberOfPartitions i < partitionEnd labels numberOfPartitions i := by
  have hpos : 0 < elementsPerPartition labels numberOfPartitions :=
    Nat.div_pos h (by decide)
  have hle : elementsPerPartition labels numberOfPartitions * numberOfPartitions ≤
      labels.labeledEvents.length := Nat.div_mul_le_self ..
  have hfits := Nat.mul_le_mul_left (elementsPerPartition labels numberOfPartitions)
    (Nat.succ_le_of_lt hi)
  have hmul : (i + 1) * elementsPerPartition labels numberOfPartitions =
      elementsPerPartition labels numberOfPartitions * i +
        elementsPerPartition labels numberOfPartitions := by ring
  rw [Nat.succ_eq_add_one, mul_comm _ (i + 1), hmul] at hfits
  rw [partitionBegin, partitionEnd, hmul]
  omega

/-- The manager with the label of one event increased. -/
def relabel (labels : EventLabelManager F) (j : ℕ) : EventLabelManager F :=
  { labels with
    labeledEvents := labels.labeledEvents.modify j fun e =>
      e.withLabel (e.eventMetaData.label.getD 0 + 1) }

theorem labelled_relabel (h : Labelled n labels) (j : ℕ) : Labelled n (relabel labels j) := by
  have hmem : ∀ e ∈ (relabel labels j).labeledEvents, e ∈ labels.labeledEvents ∨
      ∃ e' ∈ labels.labeledEvents, e = e'.withLabel (e'.eventMetaData.label.getD 0 + 1) := by
    intro e he
    obtain ⟨k, hk⟩ := List.mem_iff_getElem?.1 he
    simp only [relabel, List.getElem?_modify] at hk
    obtain ⟨e', he', rfl⟩ := Option.map_eq_some_iff.1 hk
    have hin := List.mem_of_getElem? he'
    split_ifs
    · exact Or.inr ⟨e', hin, rfl⟩
    · exact Or.inl hin
  refine ⟨h.unlabeled, ?_, ?_, ?_⟩
  · intro e he
    rcases hmem e he with he | ⟨e', he', rfl⟩
    · exact h.length e he
    · exact h.length e' he'
  · intro e he
    rcases hmem e he with he | ⟨e', he', rfl⟩
    · exact h.label e he
    · exact ⟨_, rfl⟩
  · intro e he
    rcases hmem e he with he | ⟨e', he', rfl⟩
    · exact h.id e he
    · exact h.id e' he'

theorem agreeOutside_relabel {j : ℕ} (hb : partitionBegin labels numberOfPartitions i ≤ j)
    (he : j < partitionEnd labels numberOfPartitions i) :
    AgreeOutside i labels (relabel labels j) := by
  refine ⟨rfl, rfl, ?_, ?_⟩
  · refine List.ext_getElem? fun k => ?_
    simp only [relabel, List.getElem?_map, List.getElem?_modify]
    cases labels.labeledEvents[k]? with
    | none => rfl
    | some e =>
      by_cases hjk : j = k
      · simp [hjk, EventFeatures.withLabel]
      · simp [hjk]
  · intro k hk
    have hne : j ≠ k := by
      rintro rfl
      exact hk ⟨hb, he⟩
    simp [relabel, hne]

theorem fold_getElem?_zero
    (h : partitionBegin labels numberOfPartitions i < partitionEnd labels numberOfPartitions i) :
    (fold labels i)[0]? = labels.labeledEvents[partitionBegin labels numberOfPartitions i]? := by
  rw [fold, List.getElem?_drop, Nat.add_zero, List.getElem?_take_of_lt h]

theorem partition_congr (h : labels'.labeledEvents.length = labels.labeledEvents.length) :
    partitionBegin labels' numberOfPartitions i = partitionBegin labels numberOfPartitions i ∧
      partitionEnd labels' numberOfPartitions i = partitionEnd labels numberOfPartitions i := by
  simp only [partitionBegin, partitionEnd, elementsPerPartition, h, and_self]

end

/-- The guess with which an event is compared with itself. -/
def ownGuess (e : EventFeatures F) : Guess :=
  ⟨e.eventMetaData.label.getD 0, e.eventMetaData.label.getD 0, e.eventMetaData.eventId.getD 0⟩

theorem guess_self {e : EventFeatures F} {l : ℚ} {id : ℕ} (hl : e.eventMetaData.label = some l)
    (hid : e.eventMetaData.eventId = some id) : guess e e = .ok (ownGuess e) := by
  simp [guess, ownGuess, hl, hid]

section
variable [FloatArith F] {lib : Libraries α F} {labels labels' : EventLabelManager F}
  {events : List (EventFeatures F)} {n i : ℕ}

/-- The unlabelled events of the classifier are those of the fold. -/
theorem classifyTestData_eq (hlib : FindsNeighbors lib) {c : DataClassifier F} (h : Ready n c)
    (hlen : ∀ e ∈ events, e.featureVector.length = n) :
    ∃ c', classifyTestData lib c events = .ok c' () ∧
      c'.eventLabelManager.unlabeledEvents = c.eventLabelManager.unlabeledEvents ++ events := by
  induction events generalizing c with
  | nil => exact ⟨c, rfl, (List.append_nil _).symm⟩
  | cons e events ih =>
    obtain ⟨c', hc', hunlabeled⟩ := ih (h.publish (f := e)) fun e he => hlen e (.tail _ he)
    refine ⟨c', ?_, ?_⟩
    · rw [classifyTestData, classifyOneEventAndPush_eq hlib h (hlen e (.head _)), Res.bind_ok, hc']
    · rw [hunlabeled]
      simp [publish, EventLabelManager.addClassifiedEvent]

/-- A classifier that is set up with enough labelled events answers. -/
theorem ready_of_labelled (hn : 0 < n) (h : Labelled n labels)
    (henough : numberOfNeighbors < labels.labeledEvents.length) :
    ∃ c, setEventLabelManager {} labels = .ok c () ∧ c.eventLabelManager = labels ∧
      Ready (F := F) n c := by
  have hne : labels.labeledEvents ≠ [] := List.ne_nil_of_length_pos (Nat.zero_lt_of_lt henough)
  have hc : OfLength n ({ eventLabelManager := labels } : DataClassifier F) := by
    refine ⟨fun k hk => ?_, rfl⟩
    obtain ⟨e, he, rfl⟩ := List.mem_map.1 hk
    rw [EventLabelManager.events, h.unlabeled, List.append_nil] at he
    exact h.length e he
  obtain ⟨c, hset, hmanager⟩ := regenerateMatrix_ok hc hn
  refine ⟨c, hset, hmanager, .of_regenerateMatrix hne hset,
    rows_of_regenerateMatrix hc hne hset, ?_, ?_, ?_⟩
  · rw [hmanager]
    exact h.length
  · rw [hmanager]
    exact h.label
  · rw [hmanager]
    exact henough

/-- **What is recorded for a fold**: that every event has its own label. -/
theorem validatePartition_eq (hlib : FindsNeighbors lib) (hn : 0 < n) (h : Labelled n labels)
    (henough : numberOfNeighbors < labels.labeledEvents.length)
    (hevents : ∀ e ∈ events, e ∈ labels.labeledEvents) :
    validatePartition lib labels events = .ok (events.map ownGuess) := by
  obtain ⟨c, hset, hmanager, hready⟩ := ready_of_labelled hn h henough
  obtain ⟨c', hc', hunlabeled⟩ := classifyTestData_eq hlib hready
    fun e he => h.length e (hevents e he)
  rw [hmanager, h.unlabeled, List.nil_append] at hunlabeled
  rw [validatePartition, hset, Res.bind_ok, hc']
  simp only [hunlabeled, if_true]
  rw [mapM_eq_ok, List.zip_eq_zipWith, List.zipWith_self, List.forall₂_map_left_iff,
    List.forall₂_map_right_iff, List.forall₂_same]
  intro e he
  obtain ⟨l, hl⟩ := h.label e (hevents e he)
  obtain ⟨id, hid⟩ := h.id e (hevents e he)
  exact guess_self hl hid

/-- **Cross-validation records the labels of the folds.** -/
theorem crossValidate_eq (hlib : FindsNeighbors lib) (hn : 0 < n) (h : Labelled n labels)
    (henough : numberOfNeighbors < labels.labeledEvents.length) :
    crossValidate lib labels =
      .ok ((List.range numberOfPartitions).map fun i => (fold labels i).map ownGuess) := by
  rw [crossValidate, mapM_eq_ok, List.forall₂_map_right_iff, List.forall₂_same]
  intro i hi
  rw [List.mem_range] at hi
  refine bind_eq_ok.2 ⟨_, if_pos hi, bind_eq_ok.2 ⟨_, if_pos hi, ?_⟩⟩
  exact validatePartition_eq hlib hn h henough
    fun e he => List.mem_of_mem_take (List.mem_of_mem_drop he)

/-! ## Two runs -/

/-- The labels that are recorded for a fold. -/
def classifiedLabels (lib : Libraries α F) (labels : EventLabelManager F) (i : ℕ) :
    Except Fault (Option (List ℚ)) :=
  (crossValidate lib labels).map fun results => results[i]?.map (List.map Guess.classifiedLabel)

theorem classifiedLabels_eq (hlib : FindsNeighbors lib) (hn : 0 < n) (h : Labelled n labels)
    (henough : numberOfNeighbors < labels.labeledEvents.length) (hi : i < numberOfPartitions) :
    classifiedLabels lib labels i =
      .ok (some ((fold labels i).map fun e => e.eventMetaData.label.getD 0)) := by
  rw [classifiedLabels, crossValidate_eq hlib hn h henough]
  simp [Except.map, hi, ownGuess, Function.comp_def]

/-- **The answers leak.**  What is recorded for a fold does not depend on the labels
    of the fold iff there are fewer labelled events than folds, and all folds are
    empty. -/
theorem no_leak_iff (hlib : FindsNeighbors lib) (hn : 0 < n) (h : Labelled n labels)
    (hi : i < numberOfPartitions)
    (houtside : 6 ≤ labels.labeledEvents.length - (fold labels i).length) :
    (∀ labels', Labelled n labels' → AgreeOutside i labels labels' →
      classifiedLabels lib labels' i = classifiedLabels lib labels i) ↔
      labels.labeledEvents.length < numberOfPartitions := by
  have henough : numberOfNeighbors < labels.labeledEvents.length := by
    rw [numberOfNeighbors]
    omega
  constructor
  · intro hsame
    by_contra hlt
    have hlt := begin_lt_end (not_lt.1 hlt) hi
    -- the first event of the fold gets another label
    let labels' := relabel labels (partitionBegin labels numberOfPartitions i)
    have hlen : labels'.labeledEvents.length = labels.labeledEvents.length := by
      simp [labels', relabel]
    have hlabels := hsame labels' (labelled_relabel h _) (agreeOutside_relabel le_rfl hlt)
    rw [classifiedLabels_eq hlib hn h henough hi,
      classifiedLabels_eq hlib hn (labelled_relabel h _) (hlen.symm ▸ henough) hi] at hlabels
    have hfirst := congrArg (·[0]?) (Option.some.inj (Except.ok.inj hlabels))
    obtain ⟨hbegin, hend⟩ := partition_congr (i := i) hlen
    have hin : partitionBegin labels numberOfPartitions i < labels.labeledEvents.length :=
      hlt.trans_le (min_le_left ..)
    simp only [List.getElem?_map] at hfirst
    rw [fold_getElem?_zero hlt, fold_getElem?_zero (by rw [hbegin, hend]; exact hlt), hbegin,
      List.getElem?_eq_getElem hin] at hfirst
    simp [relabel, hin, EventFeatures.withLabel] at hfirst
  · intro hlt labels' h' hagree
    have hlen : labels'.labeledEvents.length = labels.labeledEvents.length := by
      simpa using congrArg List.length hagree.apartFromLabels
    rw [classifiedLabels_eq hlib hn h henough hi,
      classifiedLabels_eq hlib hn h' (hlen.symm ▸ henough) hi, fold_eq_nil hlt,
      fold_eq_nil (hlen.symm ▸ hlt)]

end

/-! ## Examples of both kinds -/

theorem findsNeighbors_flat : FindsNeighbors flatLibraries := by
  intro nns query k hk
  refine ⟨List.length_range, fun i hi => ?_⟩
  exact (List.mem_range.1 hi).trans hk

/-- `n` events with one feature, all with the label `0`. -/
def equalEvents (n : ℕ) : EventLabelManager ℚ :=
  { labeledEvents := (List.range n).map fun id =>
      ⟨{ eventId := some id, label := some 0 }, [0]⟩ }

theorem labelled_equalEvents (n : ℕ) : Labelled 1 (equalEvents n) := by
  have hmem : ∀ e ∈ (equalEvents n).labeledEvents, ∃ id,
      e = ⟨{ eventId := some id, label := some 0 }, [0]⟩ := by
    intro e he
    obtain ⟨id, -, rfl⟩ := List.mem_map.1 he
    exact ⟨id, rfl⟩
  refine ⟨rfl, ?_, ?_, ?_⟩ <;> intro e he <;> obtain ⟨id, rfl⟩ := hmem e he
  · rfl
  · exact ⟨0, rfl⟩
  · exact ⟨id, rfl⟩

/-- Ten events, one in each fold; the label of the first one is recorded. -/
theorem answers_leak :
    ∃ labels labels' : EventLabelManager ℚ, Labelled 1 labels ∧ Labelled 1 labels' ∧
      AgreeOutside 0 labels labels' ∧
      6 ≤ labels.labeledEvents.length - (fold labels 0).length ∧
      classifiedLabels flatLibraries labels 0 = .ok (some [0]) ∧
      classifiedLabels flatLibraries labels' 0 = .ok (some [1]) := by
  have h := labelled_equalEvents 10
  refine ⟨equalEvents 10, relabel (equalEvents 10) 0, h, labelled_relabel h 0,
    agreeOutside_relabel (by decide) (by decide), by decide, ?_, ?_⟩
  · rw [classifiedLabels_eq findsNeighbors_flat Nat.one_pos h (by decide) (by decide)]
    rfl
  · rw [classifiedLabels_eq findsNeighbors_flat Nat.one_pos (labelled_relabel h 0) (by decide)
      (by decide)]
    exact congrArg Except.ok (congrArg some (congrArg (· :: []) (zero_add (1 : ℚ))))

/-- Six events and empty folds. -/
theorem no_leak_iff_six :
    (∀ labels', Labelled 1 labels' → AgreeOutside 0 (equalEvents 6) labels' →
      classifiedLabels flatLibraries labels' 0 =
        classifiedLabels flatLibraries (equalEvents 6) 0) ↔
      (equalEvents 6).labeledEvents.length < numberOfPartitions :=
  no_leak_iff findsNeighbors_flat Nat.one_pos (labelled_equalEvents 6) (by decide) (by decide)

end SmartScreen
