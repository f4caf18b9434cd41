/-
  The store of labelled and unlabelled events (`EventFeatures.h`,
  `EventLabelManager.h`).

  `labels` is a `std::set` whose comparator is no strict weak order, so its shape
  matters: it is a search tree, and `find` descends it as the library does.
-/
import SmartScreen.Detector.DataPoint
import SmartScreen.Detector.Event
import SmartScreen.Lib.SwapBack

namespace SmartScreen

open SwapBack

variable {F : Type}

/-! ## Feature vectors -/

structure EventFeatures (F : Type) where
  eventMetaData : EventMetaData := {}
  featureVector : List F := []
deriving DecidableEq

/-- What identifies an event: all but its label and its certainty. -/
structure EventKey (F : Type) where
  eventTime : TimeType
  eventId : Option ℕ
  powerMetaData : PowerMetaData
  featureVector : List F
deriving DecidableEq

namespace EventFeatures

def key (e : EventFeatures F) : EventKey F :=
  ⟨e.eventMetaData.eventTime, e.eventMetaData.eventId, e.eventMetaData.powerMetaData,
    e.featureVector⟩

def withLabel (e : EventFeatures F) (label : ℚ) : EventFeatures F :=
  { e with eventMetaData := { e.eventMetaData with label := some label } }

def withoutLabel (e : EventFeatures F) : EventFeatures F :=
  { e with eventMetaData := { e.eventMetaData with label := none } }

def withCertainty (e : EventFeatures F) (certainty : ℚ) : EventFeatures F :=
  { e with eventMetaData := { e.eventMetaData with classificationCertainty := certainty } }

def hasId (id : ℕ) (e : EventFeatures F) : Bool := e.eventMetaData.eventId = some id

@[simp] theorem key_withLabel (e : EventFeatures F) (label : ℚ) : (e.withLabel label).key = e.key :=
  rfl

@[simp] theorem withoutLabel_withLabel (e : EventFeatures F) (label : ℚ) :
    (e.withLabel label).withoutLabel = e.withoutLabel := rfl

@[simp] theorem featureVector_withLabel (e : EventFeatures F) (label : ℚ) :
    (e.withLabel label).featureVector = e.featureVector := rfl

@[simp] theorem hasId_withLabel (id : ℕ) (e : EventFeatures F) (label : ℚ) :
    (e.withLabel label).hasId id = e.hasId id := rfl

theorem hasId_eq_of_key {e e' : EventFeatures F} (h : e.key = e'.key) (id : ℕ) :
    e.hasId id = e'.hasId id := by
  have hid : e.eventMetaData.eventId = e'.eventMetaData.eventId := congrArg EventKey.eventId h
  simp only [hasId, hid]

end EventFeatures

/-! ## Labels by time -/

structure LabelTimePair where
  label : ℚ
  time : TimeType
deriving DecidableEq

/-- The accepted difference of 2500 ms, in microseconds. -/
def acceptedTimeDifference : ℤ := 2500 * 1000

/-- Comparisons with `not_a_date_time` are false. -/
def compareLabels (l₁ l₂ : LabelTimePair) : Bool :=
  match l₁.time, l₂.time with
  | some t₁, some t₂ => t₁ + acceptedTimeDifference < t₂
  | _, _ => false

/-- The tree of a `std::set<LabelTimePair, TimePairComparator>`. -/
inductive LabelSet where
  | empty
  | node (left : LabelSet) (value : LabelTimePair) (right : LabelSet)
deriving DecidableEq

namespace LabelSet

/-- The pairs of a set in their order. -/
def toList : LabelSet → List LabelTimePair
  | empty => []
  | node left x right => left.toList ++ x :: right.toList

/-- `lower_bound`: `best` is the last node from which the descent went left. -/
def lowerBound (p : LabelTimePair) : LabelSet → Option LabelTimePair → Option LabelTimePair
  | empty, best => best
  | node left x right, best =>
    if compareLabels x p then lowerBound p right best else lowerBound p left (some x)

def find (labels : LabelSet) (p : LabelTimePair) : Option LabelTimePair :=
  match lowerBound p labels none with
  | some x => if compareLabels p x then none else some x
  | none => none

end LabelSet

/-! ## The manager -/

structure EventLabelManager (F : Type) where
  labeledEvents : List (EventFeatures F) := []
  unlabeledEvents : List (EventFeatures F) := []
  labels : LabelSet := .empty
deriving DecidableEq

namespace EventLabelManager

section
variable (m : EventLabelManager F)

def addUnLabeledEvent (event : EventFeatures F) : EventLabelManager F :=
  { m with unlabeledEvents := m.unlabeledEvents ++ [event] }

def addLabeledEvent (event : EventFeatures F) (label : ℚ) : EventLabelManager F :=
  { m with labeledEvents := m.labeledEvents ++ [event.withLabel label] }

def addClassifiedEvent (event : EventFeatures F) : EventLabelManager F :=
  { m with unlabeledEvents := m.unlabeledEvents ++ [event] }

/-- The label of the pair is not compared. -/
def getEventLabel (event : EventFeatures F) : Option ℚ :=
  (m.labels.find ⟨0, event.eventMetaData.eventTime⟩).map LabelTimePair.label

def findLabelAndAddEvent (event : EventFeatures F) : EventLabelManager F × Bool :=
  let optLabel := if event.eventMetaData.label = none then m.getEventLabel event else none
  match optLabel with
  | some label => (m.addLabeledEvent event label, true)
  | none => (m, false)

def labelIsForEvent (labelTime : LabelTimePair) (event : EventFeatures F) : Bool :=
  !compareLabels ⟨0, event.eventMetaData.eventTime⟩ labelTime &&
    !compareLabels labelTime ⟨0, event.eventMetaData.eventTime⟩

/-- Label the last unlabelled event, and remove it there. -/
def labelBack (label : ℚ) : EventLabelManager F :=
  match m.unlabeledEvents.getLast? with
  | some back =>
    { m.addLabeledEvent back label with unlabeledEvents := m.unlabeledEvents.dropLast }
  | none => m

/-- `addLabel(LabelTimePair)` -/
def addLabel (labels : LabelTimePair) : EventLabelManager F × Bool :=
  match m.unlabeledEvents.findIdx? (labelIsForEvent labels) with
  | some i =>
    let unlabeledEvents :=
      if i ≠ m.unlabeledEvents.length - 1 then swapBack m.unlabeledEvents i else m.unlabeledEvents
    ({ m with unlabeledEvents }.labelBack labels.label, true)
  | none => (m, false)

/-- `addLabel(event_id, label)` -/
def addLabelById (id : ℕ) (label : ℚ) : EventLabelManager F × Bool :=
  match m.unlabeledEvents.findIdx? (EventFeatures.hasId id) with
  | some i => ({ m with unlabeledEvents := swapBack m.unlabeledEvents i }.labelBack label, true)
  | none =>
    match m.labeledEvents.findIdx? (EventFeatures.hasId id) with
    | some i => ({ m with labeledEvents := m.labeledEvents.modify i (·.withLabel label) }, true)
    | none => (m, false)

def getEvent (id : ℕ) : Option (EventFeatures F) := m.unlabeledEvents.find? (EventFeatures.hasId id)

def setEvent (id : ℕ) (event : EventFeatures F) : EventLabelManager F :=
  match m.unlabeledEvents.findIdx? (EventFeatures.hasId id) with
  | some i => { m with unlabeledEvents := m.unlabeledEvents.set i event }
  | none => m

/-- All events that the manager holds. -/
def events : List (EventFeatures F) := m.labeledEvents ++ m.unlabeledEvents

/-- The events other than those with an id. -/
def others (id : ℕ) : List (EventFeatures F) := m.events.filter fun e => !e.hasId id

/-- An event with the id is held. -/
def Knows (id : ℕ) : Prop := ∃ e ∈ m.events, e.hasId id = true

/-- A labelled event with the id has the label. -/
def HasLabel (id : ℕ) (label : ℚ) : Prop :=
  ∃ e ∈ m.labeledEvents, e.hasId id = true ∧ e.eventMetaData.label = some label

/-- The events that are labelled once the one with the id is. -/
def labeledWith (id : ℕ) : List (EventFeatures F) := m.labeledEvents ++ (m.getEvent id).toList

/-- What identifies the events that the manager holds. -/
def keys : List (EventKey F) := m.events.map EventFeatures.key

end

/-! ## What the operations do to the events -/

section
variable {m m' : EventLabelManager F} {e : EventFeatures F} {b : Bool}

theorem keys_addUnLabeledEvent : (m.addUnLabeledEvent e).keys = m.keys ++ [e.key] := by
  simp [keys, events, addUnLabeledEvent]

theorem keys_addClassifiedEvent : (m.addClassifiedEvent e).keys = m.keys ++ [e.key] := by
  simp [keys, events, addClassifiedEvent]

theorem keys_addLabeledEvent (label : ℚ) :
    (m.addLabeledEvent e label).keys.Perm (e.key :: m.keys) := by
  simp only [keys, events, addLabeledEvent, List.map_append, List.map_cons,
    EventFeatures.key_withLabel, List.append_assoc, List.singleton_append]
  exact List.perm_middle

/-- Either no label is found, or the event is added to the labelled ones. -/
theorem findLabelAndAddEvent_cases (h : m.findLabelAndAddEvent e = (m', b)) :
    (b = false ∧ m' = m) ∨ ∃ label, b = true ∧ m' = m.addLabeledEvent e label := by
  simp only [findLabelAndAddEvent] at h
  split at h <;> cases h
  · exact Or.inr ⟨_, rfl, rfl⟩
  · exact Or.inl ⟨rfl, rfl⟩

/-- An unlabelled event is swapped to the back and labelled there. -/
theorem exists_labelBack {i : ℕ} (hi : m.unlabeledEvents[i]? = some e) (label : ℚ) :
    ∃ zs, { m with unlabeledEvents := swapBack m.unlabeledEvents i }.labelBack label =
        { m with labeledEvents := m.labeledEvents ++ [e.withLabel label], unlabeledEvents := zs } ∧
      (zs ++ [e]).Perm m.unlabeledEvents := by
  obtain ⟨zs, hswap, hperm⟩ := exists_swapBack hi
  refine ⟨zs, ?_, hperm⟩
  simp [labelBack, hswap, addLabeledEvent]

/-! ## Labelling an event -/

/-- The first event of `es` with `p` is `e`, at the index `i`. -/
def FirstMatch (p : EventFeatures F → Bool) (es : List (EventFeatures F)) (i : ℕ)
    (e : EventFeatures F) : Prop :=
  es[i]? = some e ∧ p e = true ∧ ∀ j < i, ∀ e', es[j]? = some e' → p e' = false

/-- The first unlabelled event with `p` gets the label and becomes the last labelled one. -/
def MovesFirst (p : EventFeatures F → Bool) (label : ℚ) (m m' : EventLabelManager F) : Prop :=
  ∃ i e, FirstMatch p m.unlabeledEvents i e ∧
    m'.labeledEvents = m.labeledEvents ++ [e.withLabel label] ∧
    m'.unlabeledEvents.Perm (m.unlabeledEvents.eraseIdx i) ∧ m'.labels = m.labels

/-- The first labelled event with `p` gets the label in its place. -/
def RelabelsFirst (p : EventFeatures F → Bool) (label : ℚ) (m m' : EventLabelManager F) : Prop :=
  ∃ i e, FirstMatch p m.labeledEvents i e ∧
    m' = { m with labeledEvents := m.labeledEvents.set i (e.withLabel label) }

theorem FirstMatch.of_findIdx? {p : EventFeatures F → Bool} {es : List (EventFeatures F)} {i : ℕ}
    (h : es.findIdx? p = some i) : ∃ e, FirstMatch p es i e := by
  obtain ⟨hlt, hi, hbefore⟩ := List.findIdx?_eq_some_iff_getElem.1 h
  refine ⟨es[i], List.getElem?_eq_getElem hlt, hi, fun j hj e' he' => ?_⟩
  obtain ⟨hjlt, rfl⟩ := List.getElem?_eq_some_iff.1 he'
  exact Bool.eq_false_iff.2 (hbefore j hj)

theorem FirstMatch.mem {p : EventFeatures F → Bool} {es : List (EventFeatures F)} {i : ℕ}
    (h : FirstMatch p es i e) : e ∈ es :=
  List.mem_of_getElem? h.1

/-- Taking an event out of the unlabelled ones. -/
theorem movesFirst_of_getElem? {p : EventFeatures F → Bool} {i : ℕ} (label : ℚ)
    (h : FirstMatch p m.unlabeledEvents i e) :
    MovesFirst p label m
      ({ m with unlabeledEvents := swapBack m.unlabeledEvents i }.labelBack label) := by
  obtain ⟨zs, hback, hperm⟩ := exists_labelBack h.1 label
  rw [hback]
  refine ⟨i, e, h, rfl, ?_, rfl⟩
  obtain ⟨hlt, rfl⟩ := List.getElem?_eq_some_iff.1 h.1
  have hcons : (m.unlabeledEvents[i] :: zs).Perm
      (m.unlabeledEvents[i] :: m.unlabeledEvents.eraseIdx i) :=
    (List.perm_append_singleton ..).symm.trans
      (hperm.trans (List.getElem_cons_eraseIdx_perm hlt).symm)
  exact hcons.cons_inv

/-- **`addLabel` moves the first unlabelled event of the time**, or changes nothing. -/
theorem addLabel_outcome (l : LabelTimePair) (h : m.addLabel l = (m', b)) :
    (b = false ∧ m' = m ∧ ∀ e ∈ m.unlabeledEvents, labelIsForEvent l e = false) ∨
      (b = true ∧ MovesFirst (labelIsForEvent l) l.label m m') := by
  unfold addLabel at h
  cases hfind : m.unlabeledEvents.findIdx? (labelIsForEvent l) with
  | some i =>
    obtain ⟨e, he⟩ := FirstMatch.of_findIdx? hfind
    -- at the back there is nothing to swap
    have hswap : (if i ≠ m.unlabeledEvents.length - 1 then swapBack m.unlabeledEvents i
        else m.unlabeledEvents) = swapBack m.unlabeledEvents i := by
      split_ifs with hlast
      · rfl
      · rw [not_not.1 hlast, swapBack_last]
    rw [hfind] at h
    dsimp only at h
    rw [hswap] at h
    cases h
    exact Or.inr ⟨rfl, movesFirst_of_getElem? l.label he⟩
  | none =>
    rw [hfind] at h
    cases h
    exact Or.inl ⟨rfl, rfl, List.findIdx?_eq_none_iff.1 hfind⟩

/-- **`addLabelById` moves the first unlabelled event with the id**, else it labels the first
    labelled one with the id anew, or changes nothing. -/
theorem addLabelById_outcome (id : ℕ) (label : ℚ) (h : m.addLabelById id label = (m', b)) :
    (b = false ∧ m' = m ∧ ∀ e ∈ m.events, e.hasId id = false) ∨
      (b = true ∧ MovesFirst (EventFeatures.hasId id) label m m') ∨
      (b = true ∧ (∀ e ∈ m.unlabeledEvents, e.hasId id = false) ∧
        RelabelsFirst (EventFeatures.hasId id) label m m') := by
  unfold addLabelById at h
  cases hfind : m.unlabeledEvents.findIdx? (EventFeatures.hasId id) with
  | some i =>
    obtain ⟨e, he⟩ := FirstMatch.of_findIdx? hfind
    rw [hfind] at h
    cases h
    exact Or.inr (Or.inl ⟨rfl, movesFirst_of_getElem? label he⟩)
  | none =>
    have hunlabeled := List.findIdx?_eq_none_iff.1 hfind
    cases hfind' : m.labeledEvents.findIdx? (EventFeatures.hasId id) with
    | some i =>
      obtain ⟨e, he⟩ := FirstMatch.of_findIdx? hfind'
      rw [hfind, hfind'] at h
      cases h
      refine Or.inr (Or.inr ⟨rfl, hunlabeled, i, e, he, ?_⟩)
      obtain ⟨hlt, rfl⟩ := List.getElem?_eq_some_iff.1 he.1
      rw [List.modify_eq_set_get _ hlt, List.get_eq_getElem]
    | none =>
      rw [hfind, hfind'] at h
      cases h
      refine Or.inl ⟨rfl, rfl, fun e he => ?_⟩
      rcases List.mem_append.1 he with he | he
      · exact List.findIdx?_eq_none_iff.1 hfind' e he
      · exact hunlabeled e he

theorem MovesFirst.events_perm {p : EventFeatures F → Bool} {label : ℚ}
    (h : MovesFirst p label m m') : (m'.events.map EventFeatures.withoutLabel).Perm
      (m.events.map EventFeatures.withoutLabel) := by
  obtain ⟨i, e, ⟨hi, -⟩, hlabeled, hunlabeled, -⟩ := h
  obtain ⟨hlt, rfl⟩ := List.getElem?_eq_some_iff.1 hi
  have hrest : (m.unlabeledEvents[i] :: m'.unlabeledEvents).Perm m.unlabeledEvents :=
    (hunlabeled.cons _).trans (List.getElem_cons_eraseIdx_perm hlt)
  unfold events
  rw [hlabeled]
  simp only [List.map_append, List.map_cons, EventFeatures.withoutLabel_withLabel,
    List.append_assoc, List.singleton_append]
  exact (hrest.map EventFeatures.withoutLabel).append_left _

theorem RelabelsFirst.events_eq {p : EventFeatures F → Bool} {label : ℚ}
    (h : RelabelsFirst p label m m') : m'.events.map EventFeatures.withoutLabel =
      m.events.map EventFeatures.withoutLabel := by
  obtain ⟨i, e, ⟨hi, -⟩, rfl⟩ := h
  unfold events
  rw [List.map_append, List.map_append,
    map_set_of_eq hi (EventFeatures.withoutLabel_withLabel e label)]

/-- What is the same but for the labels has the same keys. -/
theorem keys_perm_of_events
    (h : (m'.events.map EventFeatures.withoutLabel).Perm
      (m.events.map EventFeatures.withoutLabel)) : m'.keys.Perm m.keys := by
  have hkeys : ∀ m : EventLabelManager F,
      m.keys = (m.events.map EventFeatures.withoutLabel).map EventFeatures.key := by
    intro m
    unfold keys
    rw [List.map_map]
    rfl
  rw [hkeys, hkeys]
  exact h.map _

/-- **`addLabel` moves the event that it finds**, or changes nothing. -/
theorem addLabel_cases (l : LabelTimePair) (h : m.addLabel l = (m', b)) :
    (b = false ∧ m' = m ∧ ∀ e ∈ m.unlabeledEvents, labelIsForEvent l e = false) ∨
      (b = true ∧ (∃ e ∈ m.unlabeledEvents, labelIsForEvent l e = true) ∧
        m'.labeledEvents.length = m.labeledEvents.length + 1 ∧ m'.keys.Perm m.keys) := by
  rcases addLabel_outcome l h with hno | ⟨hb, hmoves⟩
  · exact Or.inl hno
  · have hperm := keys_perm_of_events hmoves.events_perm
    obtain ⟨i, e, he, hlabeled, -⟩ := hmoves
    refine Or.inr ⟨hb, ⟨e, he.mem, he.2.1⟩, ?_, hperm⟩
    rw [hlabeled, List.length_append, List.length_singleton]

/-- **`addLabelById` moves or relabels one event with the id**, or changes nothing. -/
theorem addLabelById_cases (id : ℕ) (label : ℚ) (h : m.addLabelById id label = (m', b)) :
    (b = false ∧ m' = m ∧ ∀ e ∈ m.events, e.hasId id = false) ∨
      (b = true ∧ m'.keys.Perm m.keys ∧ m'.labeledEvents ≠ [] ∧
        (m'.others id).Perm (m.others id)) := by
  rcases addLabelById_outcome id label h with hno | ⟨hb, hmoves⟩ | ⟨hb, -, hrelabels⟩
  · exact Or.inl hno
  · refine Or.inr ⟨hb, keys_perm_of_events hmoves.events_perm, ?_⟩
    obtain ⟨i, e, ⟨hi, hid, -⟩, hlabeled, hunlabeled, -⟩ := hmoves
    constructor
    · rw [hlabeled]
      exact List.append_ne_nil_of_right_ne_nil _ (List.cons_ne_nil _ _)
    obtain ⟨hlt, rfl⟩ := List.getElem?_eq_some_iff.1 hi
    have hfilter := ((hunlabeled.cons _).trans (List.getElem_cons_eraseIdx_perm hlt)).filter
      fun e => !e.hasId id
    simp only [List.filter_cons, hid, Bool.not_true, Bool.false_eq_true, if_false] at hfilter
    simp only [others, events, hlabeled, List.filter_append, List.filter_cons, List.filter_nil,
      EventFeatures.hasId_withLabel, hid, Bool.not_true, Bool.false_eq_true, if_false,
      List.append_nil]
    exact hfilter.append_left _
  · have hkeys := keys_perm_of_events (List.Perm.of_eq hrelabels.events_eq)
    obtain ⟨i, e, ⟨hi, hid, -⟩, rfl⟩ := hrelabels
    obtain ⟨hlt, rfl⟩ := List.getElem?_eq_some_iff.1 hi
    refine Or.inr ⟨hb, hkeys, ?_, ?_⟩
    · rw [← List.length_pos_iff, List.length_set]
      omega
    · have hfilter : (m.labeledEvents.modify i (·.withLabel label)).filter
          (fun e => !e.hasId id) = m.labeledEvents.filter fun e => !e.hasId id :=
        filter_modify hi (by rw [hid]; rfl) (by rw [EventFeatures.hasId_withLabel, hid]; rfl)
      rw [List.modify_eq_set_get _ hlt, List.get_eq_getElem] at hfilter
      simp only [others, events, List.filter_append, hfilter]
      exact List.Perm.refl _

theorem addLabelById_of_not_knows {id : ℕ} (label : ℚ) (h : ¬ m.Knows id) :
    m.addLabelById id label = (m, false) := by
  have hnone : ∀ es : List (EventFeatures F), (∀ e ∈ es, e ∈ m.events) →
      es.findIdx? (EventFeatures.hasId id) = none := by
    intro es hes
    rw [List.findIdx?_eq_none_iff]
    intro e he
    rw [← Bool.not_eq_true]
    exact fun hid => h ⟨e, hes e he, hid⟩
  rw [addLabelById, hnone _ fun e he => List.mem_append_right _ he,
    hnone _ fun e he => List.mem_append_left _ he]

/-- **Labelling an event that is held** makes it one of the labelled events. -/
theorem addLabelById_of_knows {id : ℕ} (label : ℚ) (h : m.Knows id) :
    ∃ m', m.addLabelById id label = (m', true) ∧
      m'.labeledEvents.map EventFeatures.featureVector =
        (m.labeledWith id).map EventFeatures.featureVector := by
  cases hadd : m.addLabelById id label with
  | mk m' b =>
    unfold labeledWith getEvent
    rcases addLabelById_outcome id label hadd with
      ⟨-, -, hno⟩ | ⟨rfl, i, e, ⟨hi, hid, hbefore⟩, hlabeled, -⟩ | ⟨rfl, hno, i, e, ⟨hi, -⟩, rfl⟩
    · obtain ⟨e, he, hid⟩ := h
      rw [hno e he] at hid
      cases hid
    · refine ⟨m', rfl, ?_⟩
      have hfind : m.unlabeledEvents.find? (EventFeatures.hasId id) = some e := by
        obtain ⟨hlt, rfl⟩ := List.getElem?_eq_some_iff.1 hi
        rw [List.find?_eq_some_iff_getElem]
        refine ⟨hid, i, hlt, rfl, fun j hj => ?_⟩
        rw [hbefore j hj _ (List.getElem?_eq_getElem (hj.trans hlt))]
        rfl
      rw [hlabeled, hfind, List.map_append, List.map_append]
      rfl
    · refine ⟨_, rfl, ?_⟩
      have hfind : m.unlabeledEvents.find? (EventFeatures.hasId id) = none := by
        rw [List.find?_eq_none]
        intro e he
        rw [hno e he]
        exact Bool.false_ne_true
      rw [hfind, Option.toList_none, List.append_nil]
      exact map_set_of_eq hi (EventFeatures.featureVector_withLabel e label)

/-- A label is found where it was added, and labels of other events stay. -/
theorem hasLabel_addLabelById {id : ℕ} {label : ℚ} (h : m.addLabelById id label = (m', true)) :
    m'.HasLabel id label ∧
      ∀ id' label', id' ≠ id → m.HasLabel id' label' → m'.HasLabel id' label' := by
  rcases addLabelById_outcome id label h with
    ⟨⟨⟩, -⟩ | ⟨-, i, e, ⟨-, hid, -⟩, hlabeled, -⟩ | ⟨-, -, i, e, ⟨hi, hid, -⟩, rfl⟩
  · unfold HasLabel
    rw [hlabeled]
    constructor
    · exact ⟨_, List.mem_append_right _ (List.mem_singleton_self _), hid, rfl⟩
    · rintro id' label' - ⟨e, he, hid, hlabel⟩
      exact ⟨e, List.mem_append_left _ he, hid, hlabel⟩
  · obtain ⟨hlt, rfl⟩ := List.getElem?_eq_some_iff.1 hi
    constructor
    · exact ⟨_, List.mem_set hlt _, hid, rfl⟩
    · rintro id' label' hne ⟨e, he, hid', hlabel⟩
      obtain ⟨j, hj⟩ := List.mem_iff_getElem?.1 he
      -- the event that gets the label has another id
      have hij : i ≠ j := by
        rintro rfl
        rw [hi] at hj
        cases hj
        simp only [EventFeatures.hasId, decide_eq_true_eq] at hid hid'
        rw [hid] at hid'
        exact hne (Option.some.inj hid').symm
      refine ⟨e, List.mem_iff_getElem?.2 ⟨j, ?_⟩, hid', hlabel⟩
      rw [List.getElem?_set_ne hij, hj]

/-- **Replacing an event by the same one, classified**, keeps all events. -/
theorem setEvent_of_getEvent {id : ℕ} {e' : EventFeatures F} (h : m.getEvent id = some e)
    (hkey : e'.key = e.key) :
    (m.setEvent id e').keys = m.keys ∧ (m.setEvent id e').labeledEvents = m.labeledEvents ∧
      (m.setEvent id e').others id = m.others id := by
  have hid : e.hasId id = true := List.find?_some h
  simp only [setEvent]
  split
  · rename_i i hfind
    have hget : m.unlabeledEvents[i]? = some e := by
      rw [getEvent, List.find?_eq_getElem?_findIdx] at h
      rw [List.findIdx?_eq_some_iff_findIdx_eq] at hfind
      rw [← hfind.2]; exact h
    refine ⟨?_, rfl, ?_⟩
    · unfold keys events
      rw [List.map_append, List.map_append, map_set_of_eq hget hkey]
    · have hfilter : (m.unlabeledEvents.modify i fun _ => e').filter (fun e => !e.hasId id) =
          m.unlabeledEvents.filter fun e => !e.hasId id :=
        filter_modify hget (by simp [hid]) (by simp [EventFeatures.hasId_eq_of_key hkey, hid])
      simp only [others, events, List.filter_append, List.set_eq_modify, hfilter]
  · exact ⟨rfl, rfl, rfl⟩

end

end EventLabelManager

end SmartScreen
