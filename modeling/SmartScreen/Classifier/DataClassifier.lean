/-
  The classifier (`ClassificationConfig.h`, `FeatureExtractor.h`, `DataClassifier.h`).

  The labelled feature vectors are kept in a second form, as the columns of a
  normalised matrix with a search tree over it (libnabo).  The operations that
  change the labelled events have to refresh both by hand.

  * `Matrix` is a list of columns.  Eigen checks sizes and indices by assertions.
  * `Libraries` are the parts that are not modelled: the features of an event, the
    search, and what a resized matrix contains.
  * `NearestNeighbourSearch` remembers the matrix that the tree was built from; it
    refers to `labeled_matrix` for the sizes that it checks.
  * An operation may leave with an exception; the caller catches it and goes on.
-/
import Mathlib.Data.List.Zip
import SmartScreen.Classifier.EventLabelManager
import SmartScreen.Lib.Loop

namespace SmartScreen

open Loop

variable {α F : Type}

/-! ## Matrices -/

structure Matrix (F : Type) where
  rows : ℕ := 0
  columns : List (List F) := []
deriving DecidableEq

namespace Matrix

def cols (m : Matrix F) : ℕ := m.columns.length

/-- `matrix.row(i)` -/
def row [Zero F] (m : Matrix F) (i : ℕ) : List F := m.columns.map fun c => c.getD i 0

/-- A matrix with the given columns; Eigen asserts that they fit. -/
def ofColumns (rows : ℕ) (columns : List (List F)) : Except Fault (Matrix F) :=
  if ∀ c ∈ columns, c.length = rows then .ok ⟨rows, columns⟩ else .error .assertion

end Matrix

/-! ## Libraries -/

structure NearestNeighbourSearch (F : Type) where
  /-- the matrix that the tree was built from -/
  cloud : Matrix F
deriving DecidableEq

structure Libraries (α F : Type) where
  phaseShift : Event α → F
  rms : Event α → List F
  harmonics : Event α → List F
  /-- the search in a tree: the indices of the nearest columns -/
  nearest : NearestNeighbourSearch F → List F → ℕ → List ℕ
  /-- the columns after `resize`, which does not keep them -/
  resized : Matrix F → ℕ → ℕ → List (List F)

namespace NearestNeighbourSearch

/-- `createKDTreeTreeHeap` -/
def create (cloud : Matrix F) : Except Fault (NearestNeighbourSearch F) :=
  if cloud.cols = 0 ∨ cloud.rows = 0 then .error .exception else .ok ⟨cloud⟩

/-- `knn`; `cloud` is the matrix that the search refers to, and the dimensions
    are those at its creation. -/
def knn (lib : Libraries α F) (nns : NearestNeighbourSearch F) (cloud : Matrix F) (query : List F)
    (k : ℕ) : Except Fault (List ℕ) :=
  if cloud.cols < k + 1 then .error .exception
  else if query.length < nns.cloud.rows then .error .exception
  else .ok (lib.nearest nns query k)

end NearestNeighbourSearch

/-- `extractFeatures` -/
def extractFeatures (lib : Libraries α F) (event : Event α) : EventFeatures F :=
  ⟨event.eventMetaData, [lib.phaseShift event] ++ lib.rms event ++ lib.harmonics event⟩

/-! ## The vote -/

section
variable {L : Type} [LT L] [DecidableLT L]

/-- `labels[label]++` in a `std::map`, which compares its keys by `<` only. -/
def countLabel (label : L) : List (L × ℕ) → List (L × ℕ)
  | [] => [(label, 1)]
  | (l, n) :: labels =>
    if l < label then (l, n) :: countLabel label labels
    else if label < l then (label, 1) :: (l, n) :: labels
    else (l, n + 1) :: labels

/-- The first entry with the largest count. -/
def maxLabel (labels : List (L × ℕ)) : Option (L × ℕ) :=
  labels.foldl (fun best x =>
    match best with
    | none => some x
    | some b => if b.2 < x.2 then some x else some b) none

/-- The label that the neighbours vote for, with its votes. -/
def vote (neighborLabels : List L) : Option (L × ℕ) :=
  maxLabel (neighborLabels.foldl (fun labels l => countLabel l labels) [])

end

/-! ## The classifier -/

inductive NormalizationMode where
  | rescale
  | standardize
deriving DecidableEq

structure ClassificationConfig where
  numberOfRms : Int32 := 20
  normalizationMode : NormalizationMode := .standardize
  numberOfHarmonics : ℕ := 10
  harmonicsSearchRadius : ℕ := 5
deriving DecidableEq

/-- `normalization_mul_vector` and `normalization_add_vector` -/
structure NormalizationVectors (F : Type) where
  mul : List F := []
  add : List F := []
deriving DecidableEq

structure DataClassifier (F : Type) where
  eventLabelManager : EventLabelManager F := {}
  classificationConfig : ClassificationConfig := {}
  labeledMatrix : Matrix F := {}
  normalizationVectors : NormalizationVectors F := {}
  nns : Option (NearestNeighbourSearch F) := none
  /-- what `event_classified` was emitted with -/
  classified : List (EventFeatures F) := []

namespace DataClassifier

def eventUnknown : ℚ := 0

section
variable [FloatArith F] (c : DataClassifier F)

/-! ### Normalisation -/

def normalizeEvent (v : NormalizationVectors F) (vec : List F) : Except Fault (List F) :=
  if vec.length ≤ v.mul.length ∧ vec.length ≤ v.add.length then
    .ok (List.zipWith3 (fun x m a => x * m + a) vec v.mul v.add)
  else .error .assertion

def normalizeMatrix (v : NormalizationVectors F) (matrix : Matrix F) : Except Fault (Matrix F) :=
  (matrix.columns.mapM (normalizeEvent v)).map fun columns => { matrix with columns }

def generateFirstNormalizationVectors (matrix : Matrix F) :
    Except Fault (NormalizationVectors F) :=
  match matrix.columns with
  | [] => .error .assertion
  | col :: _ => .ok ⟨col.map fun _ => ((1 : ℕ) : F), col.map fun x => -x⟩

/-- The larger one in each row, by `larger`; `generateMaxVector` and
    `generateMinVector`. -/
def extremeVector (larger : F → F → Bool) (matrix : Matrix F) : Except Fault (List F) :=
  match matrix.columns with
  | [] => .error .assertion
  | col :: columns => .ok (columns.foldl (List.zipWith fun m x => if larger x m then x else m) col)

def generateMaxVector (matrix : Matrix F) : Except Fault (List F) :=
  extremeVector (fun x m => decide (m < x)) matrix

def generateMinVector (matrix : Matrix F) : Except Fault (List F) :=
  extremeVector (fun x m => decide (x < m)) matrix

/-- The vectors keep their sizes. -/
def generateRescaleNormalizationVectors (v : NormalizationVectors F) (matrix : Matrix F) :
    Except Fault (NormalizationVectors F) := do
  let minVector ← generateMinVector matrix
  let maxVector ← generateMaxVector matrix
  let n := v.mul.length
  if n ≤ matrix.rows ∧ n ≤ v.add.length then
    let mul := List.zipWith (fun max min => ((2 : ℕ) : F) / (max - min)) (maxVector.take n)
      (minVector.take n)
    let add := List.zipWith (fun min m => -((1 : ℕ) : F) * min * m - ((1 : ℕ) : F))
      (minVector.take n) mul
    .ok ⟨mul, add ++ v.add.drop n⟩
  else .error .assertion

def mean (xs : List F) : F := xs.foldl (· + ·) 0 / (xs.length : F)

/-- The sum of the squared differences; it is not divided. -/
def variance (xs : List F) : F :=
  xs.foldl (fun result x => result + (x - mean xs) * (x - mean xs)) 0

def minDeviation : F := ((1 : ℕ) : F) / ((1000 : ℕ) : F)

/-- `std::max(min_deviation, std::sqrt(variance))` -/
def deviation (xs : List F) : F :=
  if minDeviation < FloatArith.sqrt (variance xs) then FloatArith.sqrt (variance xs)
  else minDeviation

def generateStandardizeNormalizationVectors (v : NormalizationVectors F) (matrix : Matrix F) :
    Except Fault (NormalizationVectors F) :=
  if matrix.cols < 2 then .ok v
  else if matrix.rows = 0 then .error .assertion
  else
    let rows := (List.range matrix.rows).map matrix.row
    .ok ⟨rows.map fun r => ((1 : ℕ) : F) / deviation r, rows.map fun r => -mean r / deviation r⟩

def generateNormalizationVectors (matrix : Matrix F) : Except Fault (NormalizationVectors F) :=
  if c.eventLabelManager.labeledEvents.length = 1 then generateFirstNormalizationVectors matrix
  else if c.classificationConfig.normalizationMode = .rescale then
    generateRescaleNormalizationVectors c.normalizationVectors matrix
  else generateStandardizeNormalizationVectors c.normalizationVectors matrix

/-! ### The matrix -/

/-- `labeled_events.back()` of no events has no meaning. -/
def generateMatrixFromLabeledEvents : Except Fault (Matrix F) :=
  match c.eventLabelManager.labeledEvents.getLast? with
  | none => .error .undefined
  | some back =>
    Matrix.ofColumns back.featureVector.length
      (c.eventLabelManager.labeledEvents.map EventFeatures.featureVector)

def regenerateMatrix : Res Fault (DataClassifier F) Unit :=
  if c.eventLabelManager.labeledEvents = [] then .ok c ()
  else
    match c.generateMatrixFromLabeledEvents with
    | .error e => .fault e c
    | .ok matrix =>
      match c.generateNormalizationVectors matrix with
      | .error e => .fault e { c with labeledMatrix := matrix }
      | .ok v =>
        match normalizeMatrix v matrix with
        | .error e => .fault e { c with labeledMatrix := matrix, normalizationVectors := v }
        | .ok normalized =>
          let c := { c with labeledMatrix := normalized, normalizationVectors := v }
          match NearestNeighbourSearch.create normalized with
          | .error e => .fault e c
          | .ok nns => .ok { c with nns := some nns } ()

def featureVectorIsInRange (vec : List F) : Except Fault Bool :=
  if c.normalizationVectors.add.length = 0 then .ok false
  else (normalizeEvent c.normalizationVectors vec).map fun v =>
    v.all fun x => ¬ (x < -((1 : ℕ) : F) ∨ ((1 : ℕ) : F) < x)

def needToRegenerateMatrixForVector (vec : List F) : Except Fault Bool :=
  if c.classificationConfig.normalizationMode ≠ .rescale then .ok true
  else (c.featureVectorIsInRange vec).map fun inRange =>
    !inRange || c.eventLabelManager.labeledEvents.length ≤ 1

/-- The search tree is not rebuilt. -/
def pushToMatrix (lib : Libraries α F) (vec : List F) : DataClassifier F :=
  let resized := lib.resized c.labeledMatrix vec.length (c.labeledMatrix.cols + 1)
  { c with labeledMatrix := ⟨vec.length, resized.set c.labeledMatrix.cols vec⟩ }

def addEventToNormalizedMatrix (lib : Libraries α F) (features : EventFeatures F) :
    Res Fault (DataClassifier F) Unit :=
  match c.needToRegenerateMatrixForVector features.featureVector with
  | .error e => .fault e c
  | .ok true => c.regenerateMatrix
  | .ok false =>
    match normalizeEvent c.normalizationVectors features.featureVector with
    | .error e => .fault e c
    | .ok vec => .ok (c.pushToMatrix lib vec) ()

/-! ### Classification -/

/-- The number of neighbours that vote. -/
def numberOfNeighbors : ℕ := 5

/-- The search for the neighbours of an event. -/
def neighbors (lib : Libraries α F) (c : DataClassifier F) (features : EventFeatures F) :
    Except Fault (List ℕ) :=
  match c.nns with
  | none => .error .undefined
  | some nns => do
    let query ← normalizeEvent c.normalizationVectors features.featureVector
    nns.knn lib c.labeledMatrix query numberOfNeighbors

/-- The label that the neighbours pick, and its certainty.  `labelOf` are the labels of the
    labelled events, none at a bad index. -/
def pickLabel {L : Type} [LT L] [DecidableLT L] (lib : Libraries α F) (labelOf : ℕ → Option L)
    (features : EventFeatures F) : Except Fault (L × ℚ) := do
  let k := numberOfNeighbors
  if c.eventLabelManager.labeledEvents.length ≤ k then .error .exception
  else
    let indices ← neighbors lib c features
    match indices.mapM labelOf with
    | none => .error .undefined
    | some neighborLabels =>
      match vote neighborLabels with
      | none => .error .undefined
      | some (label, max) => .ok (label, (max : ℚ) / k)

/-- The label of the labelled event with the given index. -/
def neighborLabel (i : ℕ) : Option ℚ :=
  c.eventLabelManager.labeledEvents[i]?.bind fun e => e.eventMetaData.label

def classifyOneEvent (lib : Libraries α F) (features : EventFeatures F) :
    Except Fault (EventFeatures F) :=
  (c.pickLabel lib c.neighborLabel features).map fun (label, certainty) =>
    (features.withLabel label).withCertainty certainty

/-- What follows the classification, also after an exception. -/
def publish (features : EventFeatures F) : DataClassifier F :=
  { c with classified := c.classified ++ [features]
           eventLabelManager := c.eventLabelManager.addClassifiedEvent features }

/-- The result of the classification is not used. -/
def classifyOneEventAndPushToLabelManager (lib : Libraries α F) (features : EventFeatures F) :
    Res Fault (DataClassifier F) Unit :=
  match c.classifyOneEvent lib features with
  | .ok _labeledEvent => .ok (c.publish features) ()
  | .error .exception =>
    let features := features.withLabel eventUnknown
    let c := { c with eventLabelManager := c.eventLabelManager.addUnLabeledEvent features }
    .ok (c.publish features) ()
  | .error e => .fault e c

/-! ### Operations -/

def processOneEvent (lib : Libraries α F) (event : Event α) : Res Fault (DataClassifier F) Unit :=
  let features := extractFeatures lib event
  let (manager, found) := c.eventLabelManager.findLabelAndAddEvent features
  let c := { c with eventLabelManager := manager }
  if found then c.addEventToNormalizedMatrix lib features
  else c.classifyOneEventAndPushToLabelManager lib features

def addLabel (label : LabelTimePair) : Res Fault (DataClassifier F) Unit :=
  .ok { c with eventLabelManager := (c.eventLabelManager.addLabel label).1 } ()

def addLabelById (id : ℕ) (label : ℚ) : Res Fault (DataClassifier F) Bool :=
  let (manager, found) := c.eventLabelManager.addLabelById id label
  let c := { c with eventLabelManager := manager }
  if found then c.regenerateMatrix.bind fun c _ => .ok c true else .ok c false

def setEventLabelManager (manager : EventLabelManager F) : Res Fault (DataClassifier F) Unit :=
  regenerateMatrix { c with eventLabelManager := manager }

def reclassify (lib : Libraries α F) (id : ℕ) : Res Fault (DataClassifier F) Unit :=
  match c.eventLabelManager.getEvent id with
  | none => .ok c ()
  | some event =>
    match c.classifyOneEvent lib event with
    | .error e => .fault e c
    | .ok classified =>
      .ok { c with eventLabelManager := c.eventLabelManager.setEvent id classified } ()

end

/-- A call of the interface. -/
inductive Operation (α F : Type) where
  | processOneEvent (event : Event α)
  | classifyOneEventAndPushToLabelManager (features : EventFeatures F)
  | addLabel (label : LabelTimePair)
  | addLabelById (id : ℕ) (label : ℚ)
  | setEventLabelManager (manager : EventLabelManager F)
  | reclassify (id : ℕ)

variable [FloatArith F]

def perform (lib : Libraries α F) (c : DataClassifier F) :
    Operation α F → Res Fault (DataClassifier F) Unit
  | .processOneEvent event => c.processOneEvent lib event
  | .classifyOneEventAndPushToLabelManager features =>
    c.classifyOneEventAndPushToLabelManager lib features
  | .addLabel label => c.addLabel label
  | .addLabelById id label => (c.addLabelById id label).bind fun c _ => .ok c ()
  | .setEventLabelManager manager => c.setEventLabelManager manager
  | .reclassify id => c.reclassify lib id

/-- The state after a call that returns, or throws an exception that is caught. -/
def caught {σ β : Type} : Res Fault σ β → Option σ
  | .ok s _ => some s
  | .fault .exception s => some s
  | _ => none

def call (lib : Libraries α F) (c : DataClassifier F) (op : Operation α F) :
    Option (DataClassifier F) :=
  caught (c.perform lib op)

/-! ## What regenerating leaves alone -/

section
variable {lib : Libraries α F} {c c' : DataClassifier F} {f : EventFeatures F}

/-- Returning another value makes no difference to the state. -/
theorem caught_bind_ok {σ β γ : Type} (r : Res Fault σ β) (b : γ) :
    caught (r.bind fun s _ => .ok s b) = caught r := by
  cases r with
  | ok | timeout => rfl
  | fault e s => cases e <;> rfl

/-- Of the faults only exceptions are caught. -/
theorem caught_fault {σ β : Type} {e : Fault} {s s' : σ}
    (h : caught (.fault e s : Res Fault σ β) = some s') : e = .exception ∧ s' = s := by
  cases e <;> cases h
  exact ⟨rfl, rfl⟩

/-- Regenerating touches neither the events nor the configuration, whether it
    succeeds or not. -/
theorem regenerateMatrix_frame (h : caught c.regenerateMatrix = some c') :
    c'.eventLabelManager = c.eventLabelManager ∧
      c'.classificationConfig = c.classificationConfig := by
  simp only [regenerateMatrix] at h
  split_ifs at h
  · cases h; exact ⟨rfl, rfl⟩
  · repeat' split at h
    all_goals first
      | rw [(caught_fault h).2]; exact ⟨rfl, rfl⟩
      | cases h; exact ⟨rfl, rfl⟩

theorem addEventToNormalizedMatrix_frame
    (h : caught (c.addEventToNormalizedMatrix lib f) = some c') :
    c'.eventLabelManager = c.eventLabelManager ∧
      c'.classificationConfig = c.classificationConfig := by
  simp only [addEventToNormalizedMatrix] at h
  split at h
  · rw [(caught_fault h).2]
    exact ⟨rfl, rfl⟩
  · exact regenerateMatrix_frame h
  · split at h
    · rw [(caught_fault h).2]
      exact ⟨rfl, rfl⟩
    · cases h
      exact ⟨rfl, rfl⟩

/-! ## What the calls do -/

/-- **An event to be classified** is published, and stored before if an exception is
    thrown. -/
theorem caught_classifyOneEventAndPush
    (h : caught (c.classifyOneEventAndPushToLabelManager lib f) = some c') :
    ((∃ r, c.classifyOneEvent lib f = .ok r) ∧ c' = c.publish f) ∨
      (c.classifyOneEvent lib f = .error .exception ∧
        c' = publish
          { c with
            eventLabelManager :=
              c.eventLabelManager.addUnLabeledEvent (f.withLabel eventUnknown) }
          (f.withLabel eventUnknown)) := by
  simp only [classifyOneEventAndPushToLabelManager] at h
  split at h
  · rename_i r hok
    cases h
    exact Or.inl ⟨⟨r, hok⟩, rfl⟩
  · rename_i hthrow
    cases h
    exact Or.inr ⟨hthrow, rfl⟩
  · rename_i e hne _
    exact absurd (caught_fault h).1 hne

/-- **A new event** is classified, or it is labelled and added to the matrix. -/
theorem caught_processOneEvent {event : Event α}
    (h : caught (c.processOneEvent lib event) = some c') :
    ((c.eventLabelManager.findLabelAndAddEvent (extractFeatures lib event)).2 = false ∧
        caught (c.classifyOneEventAndPushToLabelManager lib (extractFeatures lib event)) =
          some c') ∨
      ((c.eventLabelManager.findLabelAndAddEvent (extractFeatures lib event)).2 = true ∧
        ∃ label, caught (addEventToNormalizedMatrix
          { c with
            eventLabelManager :=
              c.eventLabelManager.addLabeledEvent (extractFeatures lib event) label }
          lib (extractFeatures lib event)) = some c') := by
  simp only [processOneEvent] at h
  cases hfind : c.eventLabelManager.findLabelAndAddEvent (extractFeatures lib event) with
  | mk m found =>
  rw [hfind] at h
  obtain ⟨rfl, rfl⟩ | ⟨label, rfl, rfl⟩ := EventLabelManager.findLabelAndAddEvent_cases hfind
  · exact Or.inl ⟨rfl, h⟩
  · exact Or.inr ⟨rfl, label, h⟩

/-- **Labelling by id** regenerates the matrix if the id is known. -/
theorem caught_addLabelById {id : ℕ} {label : ℚ}
    (h : caught (c.addLabelById id label) = some c') :
    ∃ m b, c.eventLabelManager.addLabelById id label = (m, b) ∧
      ((b = false ∧ c' = { c with eventLabelManager := m }) ∨
        (b = true ∧ caught (regenerateMatrix { c with eventLabelManager := m }) = some c')) := by
  simp only [addLabelById] at h
  cases hadd : c.eventLabelManager.addLabelById id label with
  | mk m found =>
  rw [hadd] at h
  refine ⟨m, found, rfl, ?_⟩
  cases found with
  | false =>
    cases h
    exact Or.inl ⟨rfl, rfl⟩
  | true =>
    simp only [if_true, caught_bind_ok] at h
    exact Or.inr ⟨rfl, h⟩

/-- **Classifying anew** replaces an unlabelled event with the id by its result. -/
theorem caught_reclassify {id : ℕ} (h : caught (c.reclassify lib id) = some c') :
    c' = c ∨ ∃ event classified, c.eventLabelManager.getEvent id = some event ∧
      c.classifyOneEvent lib event = .ok classified ∧
      c' = { c with eventLabelManager := c.eventLabelManager.setEvent id classified } := by
  simp only [reclassify] at h
  split at h
  · cases h
    exact Or.inl rfl
  · rename_i event hget
    split at h
    · exact Or.inl (caught_fault h).2
    · rename_i classified hok
      cases h
      exact Or.inr ⟨event, classified, hget, hok, rfl⟩

end

end DataClassifier

end SmartScreen
