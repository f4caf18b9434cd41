/-
  Labelling an event, by its time or by its id.

  Both overloads of `addLabel` search the unlabelled events, and the one with an id then
  also the labelled ones.  The event found gets the label; if it was unlabelled, it
  becomes the last labelled one.  Nothing else changes (`addLabel_labels_one`).
-/
import SmartScreen.Classifier.EventLabelManager

namespace SmartScreen

open EventLabelManager

variable {F : Type}

/-- The overloads of `addLabel` with their arguments. -/
inductive AddLabel where
  | byTime (labels : LabelTimePair)
  | byId (eventId : ℕ) (label : ℚ)

namespace AddLabel

def label : AddLabel → ℚ
  | byTime labels => labels.label
  | byId _ label => label

/-- The event is one that the call is about. -/
def isFor : AddLabel → EventFeatures F → Bool
  | byTime labels => labelIsForEvent labels
  | byId eventId _ => EventFeatures.hasId eventId

/-- The labelled events that are searched if no unlabelled one is found. -/
def alsoSearched (m : EventLabelManager F) : AddLabel → List (EventFeatures F)
  | byTime _ => []
  | byId _ _ => m.labeledEvents

def run (m : EventLabelManager F) : AddLabel → EventLabelManager F × Bool
  | byTime labels => m.addLabel labels
  | byId eventId label => m.addLabelById eventId label

variable {m m' : EventLabelManager F} {a : AddLabel} {b : Bool}

/-- **What a call does**, in both overloads. -/
theorem run_outcome (h : a.run m = (m', b)) :
    (b = false ∧ m' = m ∧ ∀ e ∈ m.unlabeledEvents ++ a.alsoSearched m, a.isFor e = false) ∨
      (b = true ∧ MovesFirst a.isFor a.label m m') ∨
      (b = true ∧ a.alsoSearched m = m.labeledEvents ∧
        (∀ e ∈ m.unlabeledEvents, a.isFor e = false) ∧ RelabelsFirst a.isFor a.label m m') := by
  cases a with
  | byTime labels =>
    rcases addLabel_outcome labels h with ⟨hb, hm, hno⟩ | hmoves
    · refine Or.inl ⟨hb, hm, fun e he => hno e ?_⟩
      rwa [show alsoSearched m (.byTime labels) = [] from rfl, List.append_nil] at he
    · exact Or.inr (Or.inl hmoves)
  | byId eventId label =>
    rcases addLabelById_outcome eventId label h with ⟨hb, hm, hno⟩ | hmoves | ⟨hb, hno, hrelabels⟩
    · exact Or.inl ⟨hb, hm, fun e he => hno e (List.mem_append.2 (List.mem_append.1 he).symm)⟩
    · exact Or.inr (Or.inl hmoves)
    · exact Or.inr (Or.inr ⟨hb, rfl, hno, hrelabels⟩)

/-- A call finds an event iff there is one. -/
theorem run_eq_false_iff (m : EventLabelManager F) (a : AddLabel) :
    (a.run m).2 = false ↔ ∀ e ∈ m.unlabeledEvents ++ a.alsoSearched m, a.isFor e = false := by
  obtain ⟨m', b, hrun⟩ : ∃ m' b, a.run m = (m', b) := ⟨_, _, rfl⟩
  rw [hrun]
  rcases run_outcome hrun with
    ⟨rfl, -, hno⟩ | ⟨rfl, i, e, he, -⟩ | ⟨rfl, hsearched, -, i, e, he, -⟩
  · exact iff_of_true rfl hno
  · refine iff_of_false (by rintro ⟨⟩) fun hno => ?_
    have hfor := he.2.1
    rw [hno e (List.mem_append_left _ he.mem)] at hfor
    cases hfor
  · refine iff_of_false (by rintro ⟨⟩) fun hno => ?_
    have hfor := he.2.1
    rw [hno e (List.mem_append_right _ (hsearched ▸ he.mem))] at hfor
    cases hfor

/-- **Labelling changes at most one event**: but for labels the events are the same, all
    labelled events but at most one are as before and in their places, and the call answers
    `true` exactly if there is an event it is about; the first one found then gets the label,
    behind the labelled events or in its place among them. -/
theorem addLabel_labels_one (m : EventLabelManager F) (a : AddLabel) :
    ((a.run m).1.events.map EventFeatures.withoutLabel).Perm
        (m.events.map EventFeatures.withoutLabel) ∧
      (∃ k, ∀ i < m.labeledEvents.length, i ≠ k →
        (a.run m).1.labeledEvents[i]? = m.labeledEvents[i]?) ∧
      ((a.run m).2 = true → MovesFirst a.isFor a.label m (a.run m).1 ∨
        (a.alsoSearched m = m.labeledEvents ∧ (∀ e ∈ m.unlabeledEvents, a.isFor e = false) ∧
          RelabelsFirst a.isFor a.label m (a.run m).1)) ∧
      ((a.run m).2 = false ↔ ∀ e ∈ m.unlabeledEvents ++ a.alsoSearched m, a.isFor e = false) ∧
      ((a.run m).2 = false → (a.run m).1 = m) := by
  have hiff := run_eq_false_iff m a
  obtain ⟨m', b, hrun⟩ : ∃ m' b, a.run m = (m', b) := ⟨_, _, rfl⟩
  rw [hrun] at hiff ⊢
  rcases run_outcome hrun with
    ⟨rfl, rfl, -⟩ | ⟨rfl, hmoves⟩ | ⟨rfl, hsearched, hno, hrelabels⟩
  · exact ⟨.refl _, ⟨0, fun i _ _ => rfl⟩, by rintro ⟨⟩, hiff, fun _ => rfl⟩
  · refine ⟨hmoves.events_perm, ⟨0, fun i hi _ => ?_⟩, fun _ => Or.inl hmoves, hiff, by rintro ⟨⟩⟩
    obtain ⟨_, e, -, hlabeled, -⟩ := hmoves
    rw [hlabeled, List.getElem?_append_left hi]
  · refine ⟨.of_eq hrelabels.events_eq, ?_, fun _ => Or.inr ⟨hsearched, hno, hrelabels⟩, hiff,
      by rintro ⟨⟩⟩
    obtain ⟨k, e, -, rfl⟩ := hrelabels
    exact ⟨k, fun i _ hik => List.getElem?_set_ne hik.symm⟩

/-- An event that has the label already. -/
theorem same_label_changes_nothing :
    ∃ (m : EventLabelManager ℚ) (a : AddLabel), a.run m = (m, true) :=
  ⟨{ labeledEvents := [{ eventMetaData := { eventId := some 1, label := some 2 } }] },
    .byId 1 2, rfl⟩

end AddLabel

end SmartScreen
