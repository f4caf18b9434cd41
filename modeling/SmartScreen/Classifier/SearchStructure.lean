/-
  The search structure: the normalised matrix and the tree over it.

  * `Matches` says that they belong to the labelled events.
  * `regenerateMatrix_ok` restores it, from any state.
  * `Refreshes` is the condition on the calls that do not restore it.
  * `matches_iff`: in a run the search structure matches in all states iff all
    calls refresh it.
-/
import SmartScreen.Classifier.Totality

namespace SmartScreen.DataClassifier

open Fallible Loop LTS

variable {α F : Type} {n : ℕ}

/-! ## Feature vectors of one length -/

section
variable {c : DataClassifier F}

/-- All feature vectors have `n` features, and the configuration is the default. -/
structure OfLength (n : ℕ) (c : DataClassifier F) : Prop where
  length : ∀ k ∈ c.eventLabelManager.keys, k.featureVector.length = n
  standardize : c.classificationConfig.normalizationMode = .standardize

theorem OfLength.labeled (h : OfLength n c) :
    ∀ e ∈ c.eventLabelManager.labeledEvents, e.featureVector.length = n := fun e he =>
  h.length e.key (List.mem_map_of_mem (List.mem_append_left _ he))

end

/-! ## Regenerating -/

variable [FloatArith F] {lib : Libraries α F} {c c' : DataClassifier F}

/-- The columns are the normalised feature vectors of the labelled events, and the
    tree was built from this matrix. -/
structure Matches (c : DataClassifier F) : Prop where
  columns : List.Forall₂
    (fun e column => normalizeEvent c.normalizationVectors e.featureVector = .ok column)
    c.eventLabelManager.labeledEvents c.labeledMatrix.columns
  nns : c.eventLabelManager.labeledEvents ≠ [] → c.nns = some ⟨c.labeledMatrix⟩

/-- What `classifyOneEvent` dereferences, if it gets there, is the tree over the
    matrix. -/
def SearchesMatrix (c : DataClassifier F) : Prop :=
  numberOfNeighbors < c.eventLabelManager.labeledEvents.length → c.nns = some ⟨c.labeledMatrix⟩

theorem Matches.cols_eq (h : Matches c) :
    c.labeledMatrix.cols = c.eventLabelManager.labeledEvents.length :=
  h.columns.length_eq.symm

theorem Matches.searchesMatrix (h : Matches c) : SearchesMatrix c := fun hlen =>
  h.nns (List.ne_nil_of_length_pos (Nat.zero_lt_of_lt hlen))

/-- What regenerating leaves is the search structure. -/
theorem Matches.of_regenerateMatrix (hne : c.eventLabelManager.labeledEvents ≠ [])
    (h : c.regenerateMatrix = .ok c' ()) : Matches c' := by
  obtain ⟨m, w, m', nns, hm, -, hm', hnns, rfl⟩ := (regenerateMatrix_eq_ok_iff hne).1 h
  constructor
  · have hcolumns := (normalizeMatrix_ok hm').2
    rw [((generateMatrix_ok_iff hne).1 hm).1] at hcolumns
    exact List.forall₂_map_left_iff.1 hcolumns
  · rintro -
    unfold NearestNeighbourSearch.create at hnns
    split_ifs at hnns
    cases hnns
    rfl

/-- **Regenerating restores the search structure.** -/
theorem regenerateMatrix_ok (hc : OfLength n c) (hn : 0 < n) :
    ∃ c', c.regenerateMatrix = .ok c' () ∧ c'.eventLabelManager = c.eventLabelManager := by
  obtain ⟨c', h⟩ := regenerateMatrix_ok_iff.2
    (.inr ⟨n, hn, by simpa using hc.labeled, .inr (.inl hc.standardize)⟩)
  refine ⟨c', h, (regenerateMatrix_frame ?_).1⟩
  rw [h]
  rfl

/-- With the default configuration every new labelled event regenerates. -/
theorem addEventToNormalizedMatrix_eq {f : EventFeatures F}
    (h : c.classificationConfig.normalizationMode = .standardize) :
    c.addEventToNormalizedMatrix lib f = c.regenerateMatrix := by
  have hneed : c.needToRegenerateMatrixForVector f.featureVector = .ok true := by
    rw [needToRegenerateMatrixForVector, h, if_pos (by rintro ⟨⟩)]
  rw [addEventToNormalizedMatrix, hneed]

theorem matches_of_regenerateMatrix (hc : OfLength n c) (hn : 0 < n)
    (hne : c.eventLabelManager.labeledEvents ≠ []) (h : caught c.regenerateMatrix = some c') :
    Matches c' := by
  obtain ⟨c₁, h₁, -⟩ := regenerateMatrix_ok hc hn
  rw [h₁] at h
  cases h
  exact .of_regenerateMatrix hne h₁

/-! ## Calls -/

/-- All feature vectors that the call brings have `n` features. -/
def Operation.OfLength (lib : Libraries α F) (n : ℕ) : Operation α F → Prop
  | .processOneEvent event => (extractFeatures lib event).featureVector.length = n
  | .classifyOneEventAndPushToLabelManager features => features.featureVector.length = n
  | .setEventLabelManager manager => ∀ k ∈ manager.keys, k.featureVector.length = n
  | _ => True

/-- The calls that change the labelled events without regenerating. -/
def Refreshes (c : DataClassifier F) : Operation α F → Prop
  | .addLabel label => ∀ e ∈ c.eventLabelManager.unlabeledEvents,
      EventLabelManager.labelIsForEvent label e = false
  | .setEventLabelManager manager =>
    manager.labeledEvents = [] → c.eventLabelManager.labeledEvents = []
  | _ => True

/-- No call changes the configuration. -/
theorem classificationConfig_of_call {op : Operation α F} (h : c.call lib op = some c') :
    c'.classificationConfig = c.classificationConfig := by
  have hpush : ∀ {f : EventFeatures F},
      caught (c.classifyOneEventAndPushToLabelManager lib f) = some c' →
        c'.classificationConfig = c.classificationConfig := by
    intro f h
    rcases caught_classifyOneEventAndPush h with ⟨-, rfl⟩ | ⟨-, rfl⟩
    · rfl
    · rfl
  cases op with
  | processOneEvent event =>
    rcases caught_processOneEvent h with ⟨-, h⟩ | ⟨-, label, h⟩
    · exact hpush h
    · exact (addEventToNormalizedMatrix_frame h).2
  | classifyOneEventAndPushToLabelManager features => exact hpush h
  | addLabel label =>
    cases h
    rfl
  | addLabelById id label =>
    simp only [call, perform, caught_bind_ok] at h
    obtain ⟨m, b, -, ⟨-, rfl⟩ | ⟨-, hregenerate⟩⟩ := caught_addLabelById h
    · rfl
    · exact (regenerateMatrix_frame hregenerate).2
  | setEventLabelManager m => exact (regenerateMatrix_frame h).2
  | reclassify id =>
    rcases caught_reclassify h with rfl | ⟨event, classified, -, -, rfl⟩
    · rfl
    · rfl

theorem OfLength.call {op : Operation α F} (hc : OfLength n c) (hop : op.OfLength lib n)
    (h : c.call lib op = some c') : OfLength n c' := by
  refine ⟨?_, by rw [classificationConfig_of_call h]; exact hc.standardize⟩
  by_cases hset : ∃ m, op = .setEventLabelManager m
  · obtain ⟨m, rfl⟩ := hset
    rw [(regenerateMatrix_frame h).1]
    exact hop
  · intro k hk
    rcases mem_keys_of_call (not_exists.1 hset) h hk with hk | hk
    · exact hc.length k hk
    · cases op <;> cases hk <;> exact hop

/-- Classifying an event to store it does not touch the search structure. -/
theorem Matches.classifyOneEventAndPush {f : EventFeatures F} (hm : Matches c)
    (h : caught (c.classifyOneEventAndPushToLabelManager lib f) = some c') : Matches c' := by
  rcases caught_classifyOneEventAndPush h with ⟨-, rfl⟩ | ⟨-, rfl⟩
  · exact ⟨hm.columns, hm.nns⟩
  · exact ⟨hm.columns, hm.nns⟩

/-- A new event is classified, or it is labelled and the matrix is regenerated. -/
theorem Matches.processOneEvent {event : Event α} (hm : Matches c) (hn : 0 < n)
    (hc : OfLength n c) (hlen : (extractFeatures lib event).featureVector.length = n)
    (h : caught (c.processOneEvent lib event) = some c') : Matches c' := by
  rcases caught_processOneEvent h with ⟨-, h⟩ | ⟨-, label, h⟩
  · exact hm.classifyOneEventAndPush h
  · let d := { c with
      eventLabelManager := c.eventLabelManager.addLabeledEvent (extractFeatures lib event) label }
    have hregenerate : d.addEventToNormalizedMatrix lib (extractFeatures lib event) =
        d.regenerateMatrix := addEventToNormalizedMatrix_eq hc.standardize
    refine matches_of_regenerateMatrix (c := d) ⟨fun k hk => ?_, hc.standardize⟩ hn ?_
      ((congrArg caught hregenerate).symm.trans h)
    · rcases List.mem_cons.1 ((EventLabelManager.keys_addLabeledEvent label).mem_iff.1 hk) with
        rfl | hk
      · exact hlen
      · exact hc.length k hk
    · exact List.append_ne_nil_of_right_ne_nil _ (List.cons_ne_nil _ _)

/-- Labels by time change the labelled events, but not the matrix. -/
theorem matches_addLabel {label : LabelTimePair} (hm : Matches c)
    (h : caught (c.addLabel label) = some c') :
    Matches c' ↔ ∀ e ∈ c.eventLabelManager.unlabeledEvents,
      EventLabelManager.labelIsForEvent label e = false := by
  simp only [addLabel] at h
  cases hadd : c.eventLabelManager.addLabel label with
  | mk m found =>
  rw [hadd] at h
  cases h
  rcases EventLabelManager.addLabel_cases label hadd with
    ⟨-, rfl, hno⟩ | ⟨-, ⟨e, he, hlabel⟩, hlength, -⟩
  · exact ⟨fun _ => hno, fun _ => ⟨hm.columns, hm.nns⟩⟩
  · constructor
    · intro hm'
      have := hm'.cols_eq
      simp only [hm.cols_eq, hlength] at this
      omega
    · intro hno
      rw [hno e he] at hlabel
      cases hlabel

/-- A label by id regenerates the matrix. -/
theorem Matches.addLabelById {id : ℕ} {label : ℚ} (hm : Matches c) (hn : 0 < n)
    (hc : OfLength n c) (h : caught (c.addLabelById id label) = some c') : Matches c' := by
  obtain ⟨m, b, hadd, hcase⟩ := caught_addLabelById h
  rcases EventLabelManager.addLabelById_cases id label hadd with
    ⟨rfl, rfl, -⟩ | ⟨rfl, hperm, hne, -⟩
  · obtain ⟨-, rfl⟩ | ⟨⟨⟩, -⟩ := hcase
    exact ⟨hm.columns, hm.nns⟩
  · obtain ⟨⟨⟩, -⟩ | ⟨-, hregenerate⟩ := hcase
    exact matches_of_regenerateMatrix (c := { c with eventLabelManager := m })
      ⟨fun k hk => hc.length k (hperm.mem_iff.1 hk), hc.standardize⟩ hn hne hregenerate

/-- A manager without labelled events leaves the old matrix. -/
theorem matches_setEventLabelManager {m : EventLabelManager F} (hm : Matches c) (hn : 0 < n)
    (hc : OfLength n c) (hlen : ∀ k ∈ m.keys, k.featureVector.length = n)
    (h : caught (c.setEventLabelManager m) = some c') :
    Matches c' ↔ (m.labeledEvents = [] → c.eventLabelManager.labeledEvents = []) := by
  by_cases hne : m.labeledEvents = []
  · simp only [setEventLabelManager, regenerateMatrix, hne, if_true] at h
    cases h
    constructor
    · intro hm' _
      have := hm'.cols_eq
      simp only [hm.cols_eq, hne, List.length_nil] at this
      exact List.length_eq_zero_iff.1 this
    · intro hempty
      have hcolumns := hm.columns
      rw [hempty hne] at hcolumns
      refine ⟨?_, fun h => absurd hne h⟩
      simp only [hne]
      exact hcolumns
  · simp only [hne, false_imp_iff, iff_true]
    exact matches_of_regenerateMatrix (c := { c with eventLabelManager := m })
      ⟨hlen, hc.standardize⟩ hn hne h

/-- Classifying an event anew does not touch the search structure. -/
theorem Matches.reclassify {id : ℕ} (hm : Matches c)
    (h : caught (c.reclassify lib id) = some c') : Matches c' := by
  rcases caught_reclassify h with rfl | ⟨event, classified, hget, hok, rfl⟩
  · exact hm
  · have hlabeled := (EventLabelManager.setEvent_of_getEvent hget (classifyOneEvent_ok hok).2).2.1
    constructor
    · simp only [hlabeled]
      exact hm.columns
    · simp only [hlabeled]
      exact hm.nns

/-- **A call keeps the search structure matching iff it refreshes it.** -/
theorem matches_call {op : Operation α F} (hn : 0 < n) (hc : OfLength n c)
    (hop : op.OfLength lib n) (h : c.call lib op = some c') (hm : Matches c) :
    Matches c' ↔ Refreshes c op := by
  cases op with
  | processOneEvent event =>
    exact iff_of_true (hm.processOneEvent hn hc hop h) trivial
  | classifyOneEventAndPushToLabelManager features =>
    exact iff_of_true (hm.classifyOneEventAndPush h) trivial
  | addLabel label => exact matches_addLabel hm h
  | addLabelById id label =>
    simp only [DataClassifier.call, perform, caught_bind_ok] at h
    exact iff_of_true (hm.addLabelById hn hc h) trivial
  | setEventLabelManager m => exact matches_setEventLabelManager hm hn hc hop h
  | reclassify id => exact iff_of_true (hm.reclassify h) trivial

/-! ## Runs -/

/-- A call that brings feature vectors with `n` features only. -/
def CallSteps (lib : Libraries α F) (n : ℕ) (c : DataClassifier F) (op : Operation α F)
    (c' : DataClassifier F) : Prop :=
  c.call lib op = some c' ∧ op.OfLength lib n

/-- **The search structure matches the labelled events** exactly as long as every
    call that changes the labelled events refreshes it.  `extractFeatures` leaves
    no feature vector empty. -/
theorem matches_iff (lib : Libraries α F) (labels : LabelSet) (hn : 0 < n)
    {tr : List (DataClassifier F × Operation α F × DataClassifier F)}
    (hrun : Run (CallSteps lib n) { eventLabelManager := { labels } } tr c) :
    (∀ x ∈ tr, Matches x.2.2 ∧ SearchesMatrix x.2.2) ↔ ∀ x ∈ tr, Refreshes x.1 x.2.1 := by
  have hstart : OfLength n ({ eventLabelManager := { labels } } : DataClassifier F) :=
    ⟨by simp [EventLabelManager.keys, EventLabelManager.events], rfl⟩
  rw [← hrun.forall_iff hstart ⟨.nil, fun h => absurd rfl h⟩ (fun _ _ _ h hc => hc.call h.2 h.1)
    fun _ _ _ h hc hm => matches_call hn hc h.2 h.1 hm]
  exact forall₂_congr fun x _ => and_iff_left_of_imp Matches.searchesMatrix

/-- Six events get labels by their time; then `classifyOneEvent` dereferences a
    tree that was never built. -/
theorem search_structure_stale :
    ∃ tr c, Run (CallSteps flatLibraries 1) {} tr c ∧
      (¬ ∀ x ∈ tr, Matches x.2.2 ∧ SearchesMatrix x.2.2) ∧
      c.classifyOneEvent flatLibraries {} = .error .undefined := by
  let ops : List (Operation (DefaultDataPoint ℚ) ℚ) :=
    List.replicate 3 (.processOneEvent { eventMetaData := { eventTime := some 0 } }) ++
      List.replicate 5 (.addLabel ⟨1, some 0⟩)
  obtain ⟨c, hc, c', hcall, hlabeled, hnns, hclassify⟩ :
      ∃ c, List.foldlM (call flatLibraries) {} ops = some c ∧
      ∃ c', c.call flatLibraries (.addLabel ⟨1, some 0⟩) = some c' ∧
        c'.eventLabelManager.labeledEvents.length = 6 ∧ c'.nns = none ∧
        c'.classifyOneEvent flatLibraries {} = .error .undefined :=
    ⟨_, rfl, _, rfl, rfl, rfl, rfl⟩
  have hrun : Run (CallSteps flatLibraries 1) {} _ c := (Run.trace hc).mono fun x hx hx' => by
    refine ⟨hx', ?_⟩
    have hmem := action_mem_of_mem_trace hx
    rcases List.mem_append.1 hmem with hmem | hmem
    · rw [List.eq_of_mem_replicate hmem]
      rfl
    · rw [List.eq_of_mem_replicate hmem]
      trivial
  refine ⟨_, c', hrun.snoc ⟨hcall, trivial⟩, fun h => ?_, hclassify⟩
  have hsearch := (h _ (List.mem_append_right _ (List.mem_singleton.2 rfl))).2
  rw [SearchesMatrix, hlabeled, hnns] at hsearch
  cases hsearch (by decide)

/-- An event that is processed without a label, and labelled by its id. -/
theorem matches_iff_small :
    ∃ tr c, Run (CallSteps flatLibraries 1) {} tr c ∧
      c.eventLabelManager.labeledEvents.length = 1 ∧
      ((∀ x ∈ tr, Matches x.2.2 ∧ SearchesMatrix x.2.2) ↔ ∀ x ∈ tr, Refreshes x.1 x.2.1) := by
  obtain ⟨c, hc, c', hc', hlen⟩ : ∃ c, call flatLibraries {}
      (.processOneEvent { eventMetaData := { eventId := some 7 } }) = some c ∧
      ∃ c', c.call flatLibraries (.addLabelById 7 1) = some c' ∧
        c'.eventLabelManager.labeledEvents.length = 1 := ⟨_, rfl, _, rfl, rfl⟩
  have hrun : Run (CallSteps flatLibraries 1) {} _ c' :=
    (Run.nil.snoc ⟨hc, rfl⟩).snoc ⟨hc', trivial⟩
  exact ⟨_, c', hrun, hlen, matches_iff flatLibraries .empty Nat.one_pos hrun⟩

end SmartScreen.DataClassifier
