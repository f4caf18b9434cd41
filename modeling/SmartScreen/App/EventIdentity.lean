/-
  The identity of an event on its way through the pipeline.

  * `Identity` says that the events that were pushed carry different ids, and
    what follows from it for the stored files and for the commands by id.
  * `step_cases` says what a step does to the events.
  * `identity_of_identified`: ids suffice, the rest follows from what all steps keep.
  * `event_identity_iff`: no id is ever given, so a run has the identity of its
    events iff none of its steps raises one.
-/
import SmartScreen.App.EventHandlers
import SmartScreen.Classifier.EventsStored

namespace SmartScreen

open Loop LTS

variable {α F σ : Type}

/-! ## When the detector raises an event -/

namespace EventDetector

/-- The detector has the data of an event that it asked for, and can time it. -/
structure Due (md : DynamicStreamMetaData) (d : EventDetector F) (dataPoints : List α) (id : ℤ) :
    Prop where
  nonempty : dataPoints ≠ []
  detected : d.detectedAnEvent = true
  requested : d.requestedDataPointId = id
  length : md.powerMetaData.eventLength.toInt ≤ dataPoints.length
  sampleRate : md.powerMetaData.sampleRate ≠ 0

variable [FloatArith F] [DataPoint α F]

/-- **What a call of the detector does to its listeners.** -/
theorem slot_of_workOnDataPoints {C : CppInt} {md : DynamicStreamMetaData}
    {slot : σ → Event α → Res Fault σ Unit} {s s' : EventDetector F × σ} {dataPoints : List α}
    {id : ℤ}
    (h : DataClassifier.caught (workOnDataPoints C md slot s dataPoints id) = some s') :
    (Due md s.1 dataPoints id ∧ ∃ e : Event α, e.eventMetaData.eventId = none ∧
      DataClassifier.caught (slot s.2 e) = some s'.2) ∨
    (¬ Due md s.1 dataPoints id ∧ s'.2 = s.2) := by
  obtain ⟨d, o⟩ := s
  simp only [workOnDataPoints] at h
  split_ifs at h with hnil hdue
  · cases h
    exact Or.inr ⟨fun h => h.nonempty hnil, rfl⟩
  · rcases createEvent_cases C md dataPoints id with
      ⟨hlen, hrate, e, he, -, -, hid⟩ | ⟨hno, he⟩
    · rw [he] at h
      refine Or.inl ⟨⟨hnil, hdue.1, hdue.2, hlen, hrate⟩, e, hid, ?_⟩
      show DataClassifier.caught (slot o e) = some s'.2
      cases hslot : slot o e with
      | ok o' =>
        simp only [hslot] at h
        cases h
        rfl
      | fault err o' =>
        simp only [hslot] at h
        obtain ⟨rfl, rfl⟩ := DataClassifier.caught_fault h
        rfl
      | timeout =>
        simp only [hslot] at h
        cases h
    · rw [he] at h
      cases h
      exact Or.inr ⟨fun h => hno ⟨h.length, h.sampleRate⟩, rfl⟩
  · refine Or.inr ⟨fun h => hdue ⟨h.detected, h.requested⟩, ?_⟩
    split at h
    · rw [(DataClassifier.caught_fault h).2]
    · cases h; rfl
    · cases h; rfl

end EventDetector

/-! ## Identity -/

namespace Pipeline

/-- The events carry ids, and these are all different. -/
structure Identified (pushed : List (Event α)) : Prop where
  initialized : ∀ e ∈ pushed, e.eventMetaData.eventId ≠ none
  distinct : (pushed.map fun e => e.eventMetaData.eventId).Nodup

/-- The files are those of the events that were pushed. -/
def Stored (s : Pipeline α F) : Prop :=
  s.2.stored = s.2.pushed.map fun e =>
    ({} : Hdf5EventStorage).getFilePathForEvent e.eventMetaData

/-- No event that was pushed has an id. -/
def Unnamed (s : Pipeline α F) : Prop := ∀ e ∈ s.2.pushed, e.eventMetaData.eventId = none

/-- The events of the classifier are among those that were pushed. -/
structure Sourced (lib : Libraries α F) (s : Pipeline α F) : Prop where
  events : ∀ e ∈ s.2.events, e ∈ s.2.pushed
  keys : ∀ k ∈ s.2.classifier.eventLabelManager.keys, ∃ e ∈ s.2.pushed,
    k = (extractFeatures lib e).key

/-- The step raises an event whose file can be created. -/
def Raises (s : Pipeline α F) : Action α → Prop
  | .workOnDataPoints md dataPoints id canCreate =>
    EventDetector.Due md s.1 dataPoints id ∧ canCreate = true
  | _ => False

/-- Events with ids that differ are equal if their ids are. -/
theorem Identified.eq_of_id {pushed : List (Event α)} (h : Identified pushed) {e e' : Event α}
    (he : e ∈ pushed) (he' : e' ∈ pushed)
    (hid : e.eventMetaData.eventId = e'.eventMetaData.eventId) : e = e' :=
  List.inj_on_of_nodup_map h.distinct he he' hid

/-- Files are not overwritten. -/
theorem Identified.nodup_paths {pushed : List (Event α)} (h : Identified pushed) :
    (pushed.map fun e => ({} : Hdf5EventStorage).getFilePathForEvent e.eventMetaData).Nodup := by
  refine List.Nodup.map_on ?_ h.distinct.of_map
  intro e he e' he' hpath
  obtain ⟨i, hi⟩ := Option.ne_none_iff_exists'.1 (h.initialized e he)
  obtain ⟨j, hj⟩ := Option.ne_none_iff_exists'.1 (h.initialized e' he')
  have hij := Hdf5EventStorage.eventId_eq_of_filePath hi hj hpath
  exact h.eq_of_id he he' (by rw [hi, hj, hij])

/-- Where no event has an id and all have one, there is none. -/
theorem Unnamed.pushed_eq_nil {s : Pipeline α F} (hu : Unnamed s) (h : Identified s.2.pushed) :
    s.2.pushed = [] := by
  rw [List.eq_nil_iff_forall_not_mem]
  intro e he
  exact h.initialized e he (hu e he)

variable [FloatArith F]

/-- The commands by the id find `e` once it is there, and touch no other event. -/
structure ActsOn (lib : Libraries α F) (c : DataClassifier F) (e : Event α) (id : ℕ) : Prop where
  found : (extractFeatures lib e).key ∈ c.eventLabelManager.keys →
    ∀ label, (c.eventLabelManager.addLabelById id label).2 = true
  only : ∀ f ∈ c.eventLabelManager.events, f.hasId id = true → f.key = (extractFeatures lib e).key
  others : ∀ c', (∃ label, c.call lib (.addLabelById id label) = some c') ∨
    c.call lib (.reclassify id) = some c' →
      (c'.eventLabelManager.others id).Perm (c.eventLabelManager.others id)

structure Identity (lib : Libraries α F) (s : Pipeline α F) : Prop where
  identified : Identified s.2.pushed
  stored : s.2.stored.Nodup
  actsOn : ∀ e ∈ s.2.pushed, ∀ id, e.eventMetaData.eventId = some id →
    ActsOn lib s.2.classifier e id

/-- **Commands by id leave all other events alone.** -/
theorem others_of_call {lib : Libraries α F} {c c' : DataClassifier F} {id : ℕ}
    (h : (∃ label, c.call lib (.addLabelById id label) = some c') ∨
      c.call lib (.reclassify id) = some c') :
    (c'.eventLabelManager.others id).Perm (c.eventLabelManager.others id) := by
  rcases h with ⟨label, h⟩ | h
  · simp only [DataClassifier.call, DataClassifier.perform, DataClassifier.caught_bind_ok] at h
    obtain ⟨m, b, hadd, hcase⟩ := DataClassifier.caught_addLabelById h
    have hm : (m.others id).Perm (c.eventLabelManager.others id) := by
      rcases EventLabelManager.addLabelById_cases id label hadd with
        ⟨-, rfl, -⟩ | ⟨-, -, -, hothers⟩
      · exact List.Perm.refl _
      · exact hothers
    rcases hcase with ⟨-, rfl⟩ | ⟨-, hregenerate⟩
    · exact hm
    · rw [(DataClassifier.regenerateMatrix_frame hregenerate).1]
      exact hm
  · rcases DataClassifier.caught_reclassify h with rfl | ⟨event, classified, hget, hok, rfl⟩
    · exact List.Perm.refl _
    · have hset := EventLabelManager.setEvent_of_getEvent hget
        (DataClassifier.classifyOneEvent_ok hok).2
      exact .of_eq hset.2.2

/-! ## What follows from the ids -/

section
variable {lib : Libraries α F} {s : Pipeline α F}

/-- The commands by id act on the event with this id. -/
theorem Identified.actsOn (h : Identified s.2.pushed) (hs : Sourced lib s) {e : Event α}
    (he : e ∈ s.2.pushed) {id : ℕ} (hid : e.eventMetaData.eventId = some id) :
    ActsOn lib s.2.classifier e id := by
  refine ⟨fun hk label => ?_, fun f hf hfid => ?_, fun _ => others_of_call⟩
  · -- an event with the key of `e` has its id
    obtain ⟨f, hf, hkey⟩ := List.mem_map.1 hk
    cases hadd : s.2.classifier.eventLabelManager.addLabelById id label with
    | mk m b =>
    rcases EventLabelManager.addLabelById_cases id label hadd with ⟨-, -, hno⟩ | ⟨rfl, -⟩
    · have hfid : f.hasId id = true := by
        rw [EventFeatures.hasId_eq_of_key hkey]
        exact decide_eq_true hid
      rw [hno f hf] at hfid
      cases hfid
    · rfl
  · obtain ⟨e', he', hkey⟩ := hs.keys f.key (List.mem_map_of_mem hf)
    have hid' : e'.eventMetaData.eventId = some id := by
      have hf' : f.eventMetaData.eventId = e'.eventMetaData.eventId :=
        congrArg EventKey.eventId hkey
      rw [← hf']
      exact of_decide_eq_true hfid
    rw [hkey, h.eq_of_id he' he (hid'.trans hid.symm)]

/-- **Ids suffice.**  Storage and commands respect the identity of the events as
    soon as all events that were pushed carry ids, and different ones. -/
theorem identity_of_identified (hstored : Stored s) (hs : Sourced lib s)
    (hid : Identified s.2.pushed) : Identity lib s := by
  refine ⟨hid, ?_, fun e he id hid' => hid.actsOn hs he hid'⟩
  rw [hstored]
  exact hid.nodup_paths

/-- No events keep their identity. -/
theorem Stored.identity (hs : Stored s) (h : s.2.pushed = []) : Identity lib s := by
  have hstored : s.2.stored = [] := by rw [hs, h, List.map_nil]
  constructor
  · constructor <;> simp [h]
  · simp [hstored]
  · simp [h]

end

/-! ## Steps -/

variable [DataPoint α F] {C : CppInt} {lib : Libraries α F} {s s' : Pipeline α F} {a : Action α}

theorem caught_of_returned {τ β : Type} {r : Res Fault τ β} {t : τ}
    (h : App.returned r = some t) : DataClassifier.caught r = some t := by
  cases r with
  | ok => exact h
  | fault | timeout => cases h

/-- **What a step does to the events.**  Either one is raised, stored and pushed,
    without an id, or none is. -/
theorem step_cases (h : Steps C lib s a s') :
    (Raises s a ∧ s'.2.classifier = s.2.classifier ∧ ∃ e : Event α,
      e.eventMetaData.eventId = none ∧ s'.2.events = s.2.events ++ [e] ∧
      s'.2.pushed = s.2.pushed ++ [e] ∧ s'.2.stored = s.2.stored ++
        [({} : Hdf5EventStorage).getFilePathForEvent e.eventMetaData]) ∨
    (¬ Raises s a ∧ s'.2.pushed = s.2.pushed ∧ s'.2.stored = s.2.stored ∧
      (∀ e ∈ s'.2.events, e ∈ s.2.events) ∧
      ∀ k ∈ s'.2.classifier.eventLabelManager.keys, k ∈ s.2.classifier.eventLabelManager.keys ∨
        ∃ e ∈ s.2.events, k = (extractFeatures lib e).key) := by
  cases a with
  | workOnDataPoints md dataPoints id canCreate =>
    rcases EventDetector.slot_of_workOnDataPoints h with ⟨hdue, e, hid, hslot⟩ | ⟨hdue, hs'⟩
    · rw [App.emit_eventDetected] at hslot
      cases canCreate with
      | true =>
        have hs' := Option.some.inj hslot
        rw [← hs']
        exact Or.inl ⟨⟨hdue, rfl⟩, rfl, e, hid, rfl, rfl, rfl⟩
      | false =>
        have hs' := Option.some.inj hslot
        rw [← hs']
        exact Or.inr ⟨fun h => Bool.false_ne_true h.2, rfl, rfl, fun _ he => he,
          fun _ hk => Or.inl hk⟩
    · rw [hs']
      exact Or.inr ⟨fun h => hdue h.1, rfl, rfl, fun _ he => he, fun _ hk => Or.inl hk⟩
  | run =>
    obtain ⟨b, hb, rfl⟩ := Option.map_eq_some_iff.1 h
    obtain ⟨event, hevent, hb⟩ := Option.bind_eq_some_iff.1 hb
    obtain ⟨c, hc, hb⟩ := Option.bind_eq_some_iff.1 hb
    have hmem := List.mem_of_getLast? hevent
    have hcall : s.2.classifier.call lib (.processOneEvent event) = some c := caught_of_returned hc
    dsimp only at hb
    split_ifs at hb
    cases hb
    refine Or.inr ⟨id, rfl, rfl, fun e he => List.mem_of_mem_dropLast he, fun k hk => ?_⟩
    rcases DataClassifier.mem_keys_of_call (by simp) hcall hk with hk | hk
    · exact Or.inl hk
    · exact Or.inr ⟨event, hmem, (Option.some.inj hk).symm⟩
  | addLabelById id label =>
    obtain ⟨c, hc, rfl⟩ := Option.map_eq_some_iff.1 h
    have hcall : s.2.classifier.call lib (.addLabelById id label) = some c := by
      rw [DataClassifier.call, DataClassifier.perform, DataClassifier.caught_bind_ok]
      exact caught_of_returned hc
    refine Or.inr ⟨fun h => h, rfl, rfl, fun e he => he, fun k hk => ?_⟩
    rcases DataClassifier.mem_keys_of_call (by simp) hcall hk with hk | hk
    · exact Or.inl hk
    · cases hk
  | reclassify id =>
    obtain ⟨c, hc, rfl⟩ := Option.map_eq_some_iff.1 h
    have hcall : s.2.classifier.call lib (.reclassify id) = some c := caught_of_returned hc
    refine Or.inr ⟨fun h => h, rfl, rfl, fun e he => he, fun k hk => ?_⟩
    rcases DataClassifier.mem_keys_of_call (by simp) hcall hk with hk | hk
    · exact Or.inl hk
    · cases hk

/-! ## Invariants -/

theorem Stored.step (hs : Stored s) (h : Steps C lib s a s') : Stored s' := by
  rcases step_cases h with ⟨-, -, e, -, -, hpushed, hstored⟩ | ⟨-, hpushed, hstored, -⟩
  · rw [Stored, hpushed, hstored, hs, List.map_append, List.map_singleton]
  · rw [Stored, hpushed, hstored, hs]

theorem Unnamed.step (hu : Unnamed s) (h : Steps C lib s a s') : Unnamed s' := by
  intro e' he'
  rcases step_cases h with ⟨-, -, e, hid, -, hpushed, -⟩ | ⟨-, hpushed, -⟩
  · rw [hpushed] at he'
    rcases List.mem_append.1 he' with he' | he'
    · exact hu e' he'
    · rw [List.mem_singleton.1 he']
      exact hid
  · rw [hpushed] at he'
    exact hu e' he'

theorem Sourced.step (hs : Sourced lib s) (h : Steps C lib s a s') : Sourced lib s' := by
  rcases step_cases h with ⟨-, hc, e, -, hevents, hpushed, -⟩ | ⟨-, hpushed, -, hevents, hkeys⟩
  · constructor
    · intro e' he'
      rw [hevents] at he'
      rw [hpushed]
      rcases List.mem_append.1 he' with he' | he'
      · exact List.mem_append_left _ (hs.events e' he')
      · exact List.mem_append_right _ he'
    · intro k hk
      rw [hc] at hk
      rw [hpushed]
      obtain ⟨e', he', hk⟩ := hs.keys k hk
      exact ⟨e', List.mem_append_left _ he', hk⟩
  · constructor
    · intro e he
      rw [hpushed]
      exact hs.events e (hevents e he)
    · intro k hk
      rw [hpushed]
      rcases hkeys k hk with hk | ⟨e, he, hk⟩
      · exact hs.keys k hk
      · exact ⟨e, hs.events e he, hk⟩

/-! ## Runs -/

/-- **A step keeps the identity of the events iff it raises none.** -/
theorem identity_step (h : Steps C lib s a s') (hu : Unnamed s) (hstored : Stored s)
    (hs : Identity lib s) : Identity lib s' ↔ ¬ Raises s a := by
  have hnil := hu.pushed_eq_nil hs.identified
  have hstored' := hstored.step h
  rcases step_cases h with ⟨hraises, -, e, -, -, hpushed, -⟩ | ⟨hno, hpushed, -⟩
  · constructor
    · intro hs'
      have hnil' := (hu.step h).pushed_eq_nil hs'.identified
      rw [hpushed] at hnil'
      simp at hnil'
    · intro hno
      exact absurd hraises hno
  · exact iff_of_true (hstored'.identity (hpushed.trans hnil)) hno

/-- **Event identity.**  From any detector and any classifier, and with whatever
    data, the events of a run keep their identity in all states iff no step raises
    an event. -/
theorem event_identity_iff (C : CppInt) (lib : Libraries α F) (d : EventDetector F)
    (c : DataClassifier F) {tr : List (Pipeline α F × Action α × Pipeline α F)}
    (hrun : Run (Steps C lib) (d, { classifier := c }) tr s) :
    (∀ x ∈ tr, Identity lib x.2.2) ↔ ∀ x ∈ tr, ¬ Raises x.1 x.2.1 :=
  hrun.forall_iff (J := fun s => Unnamed s ∧ Stored s) ⟨by simp [Unnamed], rfl⟩
    (Stored.identity rfl rfl) (fun _ _ _ h hs => ⟨hs.1.step h, hs.2.step h⟩)
    fun _ _ _ h hs hid => identity_step h hs.1 hs.2 hid

/-- A call with `n` equal data points. -/
def steadyCall (id : ℤ) (n : ℕ) (amps : ℚ) : Action (DefaultDataPoint ℚ) :=
  .workOnDataPoints ⟨0, none, smallMetaData⟩ (List.replicate n ⟨0, amps⟩) id true

/-- The current rises twice; both events are stored in one file. -/
theorem event_identity_lost :
    ∃ tr s, Run (Steps CppInt.wrapping DataClassifier.flatLibraries)
        ({ threshold := (1 / 50 : ℚ) }, {}) tr s ∧
      s.2.stored = ["events/event_00no_id.hdf5", "events/event_00no_id.hdf5"] ∧
      ¬ ∀ x ∈ tr, Identity DataClassifier.flatLibraries x.2.2 := by
  have hrun : ((List.foldlM (step CppInt.wrapping DataClassifier.flatLibraries)
        ({ threshold := (1 / 50 : ℚ) }, {})
        [steadyCall 0 0 0, steadyCall 1 802 0, steadyCall 803 802 1, steadyCall 804 2 1,
          steadyCall 806 802 1, steadyCall 1608 802 2]).bind fun s =>
      s.step CppInt.wrapping DataClassifier.flatLibraries (steadyCall 1609 2 2)).map
        (fun s => s.2.stored) =
      some ["events/event_00no_id.hdf5", "events/event_00no_id.hdf5"] := by
    decide +kernel
  obtain ⟨s', hs', hstored⟩ := Option.map_eq_some_iff.1 hrun
  obtain ⟨s, hs, hstep⟩ := Option.bind_eq_some_iff.1 hs'
  refine ⟨_, s', (Run.trace hs).snoc hstep, hstored, fun h => ?_⟩
  have hnodup := (h _ (List.mem_append_right _ (List.mem_singleton.2 rfl))).stored
  rw [hstored] at hnodup
  simp at hnodup

/-- The current rises once: an event is detected, raised and pushed, and then a label
    arrives. -/
theorem event_identity_iff_raised :
    ∃ tr s, Run (Steps CppInt.wrapping DataClassifier.flatLibraries)
        ({ threshold := (1 / 50 : ℚ) }, {}) tr s ∧
      s.2.stored = ["events/event_00no_id.hdf5"] ∧
      ((∀ x ∈ tr, Identity DataClassifier.flatLibraries x.2.2) ↔
        ∀ x ∈ tr, ¬ Raises x.1 x.2.1) := by
  obtain ⟨s, hs, hstored⟩ := Option.map_eq_some_iff.1 (show (List.foldlM
      (step CppInt.wrapping DataClassifier.flatLibraries) ({ threshold := (1 / 50 : ℚ) }, {})
      [steadyCall 0 0 0, steadyCall 1 802 0, steadyCall 803 802 1, steadyCall 804 2 1,
        .addLabelById 7 1]).map (fun s => s.2.stored) =
      some ["events/event_00no_id.hdf5"] by decide +kernel)
  exact ⟨_, s, Run.trace hs, hstored, event_identity_iff CppInt.wrapping
    DataClassifier.flatLibraries { threshold := 1 / 50 } {} (Run.trace hs)⟩

end Pipeline

end SmartScreen
