/-
  The set of labels that were loaded, and the search for the label of an event.

  The comparator of the set puts a pair before another one only if it is earlier by
  more than 2500 ms.  It is a strict partial order, but no weak one: a pair may be close
  to two others that are not close to each other.

  * `insert` descends the tree and compares with the pair in front of the place it comes
    to.  The library rebalances the tree then, so a step (`Inserts`) leaves any tree with
    the same pairs in the same order.
  * `labels_searchable`: the set stays a chain of the comparator (`Lib/Chain.lean`), and
    that is enough for its searches.
  * `lookups_agree_iff`: a pair that is not inserted is not found.  Which pairs are
    inserted depends on their order.
-/
import SmartScreen.Classifier.EventLabelManager
import SmartScreen.Lib.Chain
import SmartScreen.Lib.Run

namespace SmartScreen

open Chain LTS

variable {F : Type}

namespace LabelSet

/-! ## Insertion -/

/-- A new leaf where the descent ends. -/
def insertLeaf (p : LabelTimePair) : LabelSet → LabelSet
  | empty => node empty p empty
  | node left x right =>
    if compareLabels p x then node (insertLeaf p left) x right
    else node left x (insertLeaf p right)

/-- The pair in front of that leaf: `best` is the last node from which the descent went
    right. -/
def predecessor (p : LabelTimePair) : LabelSet → Option LabelTimePair → Option LabelTimePair
  | empty, best => best
  | node left x right, best =>
    if compareLabels p x then predecessor p left best else predecessor p right (some x)

/-- `insert`, before the tree is rebalanced. -/
def insert (labels : LabelSet) (p : LabelTimePair) : LabelSet × Bool :=
  match predecessor p labels none with
  | some x => if compareLabels x p then (insertLeaf p labels, true) else (labels, false)
  | none => (insertLeaf p labels, true)

/-- A pair is inserted, and the tree rebalanced. -/
def Inserts (labels : LabelSet) (p : LabelTimePair) (labels' : LabelSet) : Prop :=
  labels'.toList = (labels.insert p).1.toList

end LabelSet

/-! ## Times -/

/-- The first time is earlier by more than 2500 ms. -/
def Apart (t t' : TimeType) : Prop := ∃ a ∈ t, ∃ b ∈ t', a + acceptedTimeDifference < b

/-- The times differ by 2500 ms at most; what is not a date is close to all times. -/
def Within (t t' : TimeType) : Prop := ∀ a ∈ t, ∀ b ∈ t', |a - b| ≤ acceptedTimeDifference

theorem compareLabels_iff {p q : LabelTimePair} :
    compareLabels p q = true ↔ Apart p.time q.time := by
  obtain ⟨l, _ | a⟩ := p <;> obtain ⟨l', _ | b⟩ := q <;> simp [compareLabels, Apart]

theorem alike_iff {p q : LabelTimePair} : Alike compareLabels p q ↔ Within p.time q.time := by
  obtain ⟨l, _ | a⟩ := p <;> obtain ⟨l', _ | b⟩ := q <;>
    simp [Alike, compareLabels, Within, abs_le, and_comm]
  omega

theorem strict_compareLabels : Strict compareLabels where
  irrefl p := by
    rw [← Bool.not_eq_true, compareLabels_iff]
    rintro ⟨a, ha, b, hb, h⟩
    rw [Option.mem_unique ha hb] at h
    simp [acceptedTimeDifference] at h
  trans := by
    intro p q s hpq hqs
    rw [compareLabels_iff] at *
    obtain ⟨a, ha, b, hb, hab⟩ := hpq
    obtain ⟨b', hb', c, hc, hbc⟩ := hqs
    obtain rfl := Option.mem_unique hb hb'
    refine ⟨a, ha, c, hc, ?_⟩
    simp only [acceptedTimeDifference] at *
    omega

theorem Within.symm {t t' : TimeType} (h : Within t t') : Within t' t := by
  intro b hb a ha
  rw [abs_sub_comm]
  exact h a ha b hb

theorem not_within_of_apart {t t' : TimeType} (h : Apart t t') : ¬ Within t t' := by
  obtain ⟨a, ha, b, hb, hab⟩ := h
  intro hwithin
  have := hwithin a ha b hb
  rw [abs_le] at this
  omega

namespace LabelSet

variable {labels labels' : LabelSet} {p q x : LabelTimePair}

/-! ## The descents and the order of the pairs -/

/-- The pairs are a chain of the comparator. -/
def Sorted (labels : LabelSet) : Prop :=
  labels.toList.Pairwise fun x y => compareLabels x y = true

theorem Sorted.node {left right : LabelSet} (h : (LabelSet.node left x right).Sorted) :
    left.Sorted ∧ right.Sorted ∧ ∀ y ∈ left.toList, compareLabels y x = true := by
  obtain ⟨hleft, hright, hcross⟩ := List.pairwise_append.1 h
  exact ⟨hleft, hright.of_cons, fun y hy => hcross y hy x List.mem_cons_self⟩

theorem lowerBound_eq (h : labels.Sorted) (best : Option LabelTimePair) :
    lowerBound q labels best = (labels.toList.find? fun x => !compareLabels x q).or best := by
  induction labels generalizing best with
  | empty => rfl
  | node left x right ihl ihr =>
    obtain ⟨hleft, hright, hcross⟩ := h.node
    rw [lowerBound, toList]
    cases hxq : compareLabels x q with
    | true =>
      rw [if_pos rfl, ihr hright, find?_append_of_before hxq hcross strict_compareLabels]
    | false =>
      rw [if_neg Bool.false_ne_true, ihl hleft, find?_append_of_not_before hxq, Option.or_assoc,
        Option.some_or]

/-- **`find` is the search among the pairs in their order.** -/
theorem find_eq (h : labels.Sorted) : labels.find q = lookup compareLabels q labels.toList := by
  rw [find, lowerBound_eq h, Option.or_none]
  unfold lookup
  cases labels.toList.find? fun x => !compareLabels x q <;> rfl

theorem predecessor_eq (h : labels.Sorted) (best : Option LabelTimePair) :
    predecessor p labels best = (front compareLabels p labels.toList).getLast?.or best := by
  induction labels generalizing best with
  | empty => rfl
  | node left x right ihl ihr =>
    obtain ⟨hleft, hright, hcross⟩ := h.node
    rw [predecessor, toList]
    cases hpx : compareLabels p x with
    | true => rw [if_pos rfl, ihl hleft, front_append_of_before hpx]
    | false =>
      rw [if_neg Bool.false_ne_true, ihr hright,
        front_append_of_not_before strict_compareLabels hcross hpx, List.getLast?_append,
        List.getLast?_cons]
      cases (front compareLabels p right.toList).getLast? <;> rfl

theorem toList_insertLeaf (h : labels.Sorted) :
    (insertLeaf p labels).toList =
      front compareLabels p labels.toList ++ p :: rear compareLabels p labels.toList := by
  induction labels with
  | empty => rfl
  | node left x right ihl ihr =>
    obtain ⟨hleft, hright, hcross⟩ := h.node
    rw [insertLeaf, toList]
    cases hpx : compareLabels p x with
    | true =>
      rw [if_pos rfl, toList, ihl hleft, front_append_of_before hpx, rear_append_of_before hpx,
        List.append_assoc, List.cons_append]
    | false =>
      rw [if_neg Bool.false_ne_true, toList, ihr hright,
        front_append_of_not_before strict_compareLabels hcross hpx,
        rear_append_of_not_before strict_compareLabels hcross hpx, List.append_assoc,
        List.cons_append]

/-- **A pair is inserted** in its place, or one of the pairs is close to it. -/
theorem insert_cases (h : labels.Sorted) (p : LabelTimePair) :
    ((labels.insert p).2 = true ∧ (∀ x ∈ labels.toList, ¬ Alike compareLabels x p) ∧
        (labels.insert p).1.toList =
          front compareLabels p labels.toList ++ p :: rear compareLabels p labels.toList) ∨
      ((labels.insert p).2 = false ∧ (∃ x ∈ labels.toList, Alike compareLabels x p) ∧
        (labels.insert p).1 = labels) := by
  have hiff := exists_alike_iff (p := p) strict_compareLabels h
  unfold insert
  rw [predecessor_eq h, Option.or_none]
  cases hlast : (front compareLabels p labels.toList).getLast? with
  | none =>
    refine Or.inl ⟨rfl, ?_, toList_insertLeaf h⟩
    intro x hx halike
    obtain ⟨y, hy, -⟩ := hiff.1 ⟨x, hx, halike⟩
    rw [hlast] at hy
    cases hy
  | some y =>
    dsimp only
    cases hyp : compareLabels y p with
    | true =>
      refine Or.inl ⟨rfl, ?_, toList_insertLeaf h⟩
      intro x hx halike
      obtain ⟨z, hz, hzp⟩ := hiff.1 ⟨x, hx, halike⟩
      rw [hlast] at hz
      cases hz
      rw [hyp] at hzp
      cases hzp
    | false => exact Or.inr ⟨rfl, hiff.2 ⟨y, hlast, hyp⟩, rfl⟩

theorem Sorted.inserts (hi : Inserts labels p labels') (h : labels.Sorted) : labels'.Sorted := by
  unfold Sorted
  rw [hi]
  rcases insert_cases h p with ⟨-, hno, heq⟩ | ⟨-, -, heq⟩
  · rw [heq]
    exact pairwise_insert strict_compareLabels h hno
  · rw [heq]
    exact h

theorem sorted_of_reach (h : Reach Inserts empty labels) : labels.Sorted :=
  h.inv List.Pairwise.nil fun _ _ _ hi hs => hs.inserts hi

/-- The earliest pair within 2500 ms of a time. -/
structure Earliest (labels : LabelSet) (t : TimeType) (x : LabelTimePair) : Prop where
  mem : x ∈ labels.toList
  within : Within x.time t
  earliest : ∀ y ∈ labels.toList, Within y.time t → y = x ∨ Apart x.time y.time

theorem first_iff : First compareLabels q labels.toList x ↔ Earliest labels q.time x := by
  constructor
  · rintro ⟨hmem, halike, hfirst⟩
    refine ⟨hmem, (alike_iff.1 halike).symm, ?_⟩
    intro y hy hyq
    exact (hfirst y hy (alike_iff.2 hyq.symm)).imp_right compareLabels_iff.1
  · rintro ⟨hmem, hwithin, hfirst⟩
    refine ⟨hmem, alike_iff.2 hwithin.symm, ?_⟩
    intro y hy hqy
    exact (hfirst y hy (alike_iff.1 hqy).symm).imp_right compareLabels_iff.2

/-- **The set of labels stays searchable**, whatever the shape of its tree. -/
theorem labels_searchable (h : Reach Inserts empty labels) :
    labels.toList.Pairwise (fun x y => Apart x.time y.time) ∧
      (∀ p, (labels.insert p).2 = false ↔ ∃ x ∈ labels.toList, Within x.time p.time) ∧
      (∀ q x, labels.find q = some x ↔ Earliest labels q.time x) ∧
      ∀ q, labels.find q = none ↔ ∀ x ∈ labels.toList, ¬ Within x.time q.time := by
  have hs := sorted_of_reach h
  refine ⟨hs.imp compareLabels_iff.1, ?_, ?_, ?_⟩
  · intro p
    simp only [← alike_iff]
    rcases insert_cases hs p with ⟨hb, hno, -⟩ | ⟨hb, hyes, -⟩
    · rw [hb]
      refine iff_of_false Bool.noConfusion ?_
      rintro ⟨x, hx, halike⟩
      exact hno x hx halike
    · exact iff_of_true hb hyes
  · intro q x
    rw [find_eq hs, lookup_eq_some_iff strict_compareLabels hs, first_iff]
  · intro q
    rw [find_eq hs, lookup_eq_none_iff strict_compareLabels hs]
    refine forall₂_congr fun x _ => not_congr ?_
    rw [alike_iff]
    exact ⟨Within.symm, Within.symm⟩

/-- Three pairs, the second one between the others: one at 2 s is close to the first two,
    so it is rejected, and a search for it finds the earlier of them. -/
theorem labels_searchable_three :
    ∃ labels, Reach Inserts empty labels ∧
      labels.toList = [⟨1, some 0⟩, ⟨2, some 4000000⟩, ⟨3, some 8000000⟩] ∧
      (labels.insert ⟨4, some 2000000⟩).2 = false ∧
      Within (some 4000000) (some 2000000) ∧ Earliest labels (some 2000000) ⟨1, some 0⟩ ∧
      ∀ x ∈ labels.toList, ¬ Within x.time (some 20000000) := by
  have hsecond : Reach Inserts empty (node empty ⟨2, some 4000000⟩ empty) :=
    (Reach.refl empty).next (a := ⟨2, some 4000000⟩) rfl
  have hthird : Reach Inserts empty
      (node empty ⟨2, some 4000000⟩ (node empty ⟨3, some 8000000⟩ empty)) :=
    hsecond.next (a := ⟨3, some 8000000⟩) rfl
  have h : Reach Inserts empty (node (node empty ⟨1, some 0⟩ empty) ⟨2, some 4000000⟩
      (node empty ⟨3, some 8000000⟩ empty)) := hthird.next (a := ⟨1, some 0⟩) rfl
  obtain ⟨-, hinsert, hfind, hnone⟩ := labels_searchable h
  refine ⟨_, h, rfl, (hinsert _).2 ⟨⟨1, some 0⟩, .head _, ?_⟩, ?_, (hfind ⟨0, _⟩ _).1 rfl,
    (hnone ⟨0, _⟩).1 rfl⟩ <;>
  · rintro a ⟨⟩ b ⟨⟩
    decide

/-! ## Loading a list of pairs -/

/-- The pairs are inserted into an empty set one after the other. -/
def Loaded (pairs : List LabelTimePair) (labels : LabelSet) : Prop :=
  ∃ tr, Run Inserts empty tr labels ∧ tr.map (fun x => x.2.1) = pairs

variable {pairs pairs' : List LabelTimePair}

theorem Loaded.nil : Loaded [] empty := ⟨[], .nil, rfl⟩

theorem Loaded.snoc (h : Loaded pairs labels) (hi : Inserts labels p labels') :
    Loaded (pairs ++ [p]) labels' := by
  obtain ⟨tr, hrun, rfl⟩ := h
  exact ⟨_, hrun.snoc hi, by simp⟩

/-- **What is held**: some of the pairs, and one close to each of them. -/
structure Holds (pairs : List LabelTimePair) (labels : LabelSet) : Prop where
  sorted : labels.Sorted
  mem : ∀ x ∈ labels.toList, x ∈ pairs
  close : ∀ p ∈ pairs, ∃ x ∈ labels.toList, Within x.time p.time

theorem Holds.perm (h : Holds pairs labels) (hperm : pairs.Perm pairs') : Holds pairs' labels :=
  ⟨h.sorted, fun x hx => hperm.mem_iff.1 (h.mem x hx), fun p hp => h.close p (hperm.mem_iff.2 hp)⟩

theorem mem_toList_inserts (hs : labels.Sorted) (hi : Inserts labels p labels') :
    (∀ x ∈ labels.toList, x ∈ labels'.toList) ∧
      (∀ x ∈ labels'.toList, x ∈ labels.toList ∨ x = p) ∧
      ∃ x ∈ labels'.toList, Within x.time p.time := by
  rw [hi]
  rcases insert_cases hs p with ⟨-, -, heq⟩ | ⟨-, ⟨y, hy, halike⟩, heq⟩
  · have hmem : ∀ x, x ∈ (labels.insert p).1.toList ↔ x ∈ labels.toList ∨ x = p := by
      intro x
      rw [heq, List.mem_append, List.mem_cons, or_left_comm, ← List.mem_append, front_append_rear,
        or_comm]
    refine ⟨fun x hx => (hmem x).2 (Or.inl hx), fun x hx => (hmem x).1 hx, p,
      (hmem p).2 (Or.inr rfl), ?_⟩
    exact alike_iff.1 (strict_compareLabels.alike_self p)
  · rw [heq]
    exact ⟨fun x hx => hx, fun x hx => Or.inl hx, y, hy, alike_iff.1 halike⟩

theorem Loaded.holds (h : Loaded pairs labels) : Holds pairs labels := by
  obtain ⟨tr, hrun, rfl⟩ := h
  induction hrun with
  | nil =>
    refine ⟨List.Pairwise.nil, ?_, ?_⟩
    · rintro x ⟨⟩
    · rintro p ⟨⟩
  | snoc _ hi ih =>
    obtain ⟨hkeep, hmem, hclose⟩ := mem_toList_inserts ih.sorted hi
    refine ⟨ih.sorted.inserts hi, ?_, ?_⟩
    · intro x hx
      rw [List.map_append, List.mem_append]
      rcases hmem x hx with hx | rfl
      · exact Or.inl (ih.mem x hx)
      · exact Or.inr (List.mem_singleton_self _)
    · intro p hp
      rw [List.map_append, List.mem_append] at hp
      rcases hp with hp | hp
      · obtain ⟨x, hx, hwithin⟩ := ih.close p hp
        exact ⟨x, hkeep x hx, hwithin⟩
      · rw [List.map_singleton, List.mem_singleton] at hp
        rw [hp]
        exact hclose

/-- No two pairs that are held are close to each other. -/
theorem Holds.not_within (h : Holds pairs labels) (hx : x ∈ labels.toList) (hp : p ∈ labels.toList)
    (hne : x ≠ p) : ¬ Within x.time p.time := by
  have hapart : labels.toList.Pairwise fun x y => ¬ Within x.time y.time :=
    h.sorted.imp fun hxy => not_within_of_apart (compareLabels_iff.1 hxy)
  have hsymm : Std.Symm fun x y : LabelTimePair => ¬ Within x.time y.time :=
    ⟨fun _ _ hno hwithin => hno hwithin.symm⟩
  exact hapart.forall hx hp hne

/-- Further pairs can be loaded, and what is held stays. -/
theorem Loaded.append (h : Loaded pairs labels) (rest : List LabelTimePair) :
    ∃ labels', Loaded (pairs ++ rest) labels' ∧ ∀ x ∈ labels.toList, x ∈ labels'.toList := by
  induction rest generalizing pairs labels with
  | nil =>
    rw [List.append_nil]
    exact ⟨labels, h, fun x hx => hx⟩
  | cons p rest ih =>
    have hi : Inserts labels p (labels.insert p).1 := rfl
    obtain ⟨labels', h', hkeep⟩ := ih (h.snoc hi)
    rw [List.append_assoc, List.singleton_append] at h'
    exact ⟨labels', h', fun x hx => hkeep x ((mem_toList_inserts h.holds.sorted hi).1 x hx)⟩

end LabelSet

/-! ## The label of an event -/

open LabelSet EventLabelManager

section
variable {m : EventLabelManager F} {event : EventFeatures F} {pairs : List LabelTimePair}

theorem labelIsForEvent_iff {p : LabelTimePair} :
    labelIsForEvent p event = true ↔ Within p.time event.eventMetaData.eventTime := by
  rw [← alike_iff (q := ⟨0, event.eventMetaData.eventTime⟩)]
  simp [labelIsForEvent, Alike, and_comm]

/-- The search finds a label iff a pair that is held is one for the event. -/
theorem getEventLabel_cases (event : EventFeatures F) (h : Holds pairs m.labels) :
    (∃ p ∈ m.labels.toList, labelIsForEvent p event = true ∧
        m.getEventLabel event = some p.label) ∨
      (m.getEventLabel event = none ∧
        ∀ p ∈ m.labels.toList, labelIsForEvent p event = false) := by
  unfold getEventLabel
  rw [find_eq h.sorted]
  rcases lookup_cases (q := ⟨0, event.eventMetaData.eventTime⟩) strict_compareLabels h.sorted with
    ⟨p, hp, hfirst⟩ | ⟨hnone, hall⟩
  · rw [hp]
    exact Or.inl ⟨p, hfirst.mem, labelIsForEvent_iff.2 (alike_iff.1 hfirst.alike.symm), rfl⟩
  · rw [hnone]
    refine Or.inr ⟨rfl, ?_⟩
    intro p hp
    rw [← Bool.not_eq_true, labelIsForEvent_iff, ← alike_iff (q := ⟨0, _⟩)]
    exact fun halike => hall p hp halike.symm

/-- **The two lookups agree**, in whatever order the pairs are inserted, so that the
    order makes no difference. -/
structure LookupsAgree (pairs : List LabelTimePair) (event : EventFeatures F) : Prop where
  found : ∀ (m : EventLabelManager F) pairs', pairs'.Perm pairs → Loaded pairs' m.labels →
    ((∃ label, m.getEventLabel event = some label) ↔
      ∃ p ∈ pairs, labelIsForEvent p event = true)
  label : ∀ (m : EventLabelManager F) pairs' label, pairs'.Perm pairs → Loaded pairs' m.labels →
    m.getEventLabel event = some label →
      ∃ p ∈ pairs, labelIsForEvent p event = true ∧ p.label = label
  order : ∀ (m₁ m₂ : EventLabelManager F) pairs₁ pairs₂, pairs₁.Perm pairs → pairs₂.Perm pairs →
    Loaded pairs₁ m₁.labels → Loaded pairs₂ m₂.labels →
      ((∃ label, m₁.getEventLabel event = some label) ↔
        ∃ label, m₂.getEventLabel event = some label)

/-- A pair that is one for the event, as are all pairs close to it. -/
def Sheltered (pairs : List LabelTimePair) (event : EventFeatures F) (p : LabelTimePair) : Prop :=
  labelIsForEvent p event = true ∧
    ∀ p' ∈ pairs, Within p'.time p.time → labelIsForEvent p' event = true

/-- Such a pair is found, or one that kept it out. -/
theorem Sheltered.found {p : LabelTimePair} (h : Sheltered pairs event p) (hp : p ∈ pairs)
    (hholds : Holds pairs m.labels) : ∃ label, m.getEventLabel event = some label := by
  rcases getEventLabel_cases event hholds with ⟨x, -, -, hx⟩ | ⟨-, hnone⟩
  · exact ⟨_, hx⟩
  · obtain ⟨x, hx, hwithin⟩ := hholds.close p hp
    have hfor := h.2 x (hholds.mem x hx) hwithin
    rw [hnone x hx] at hfor
    cases hfor

/-- Pairs that are not for the event and keep out all pairs close to them: the last one
    that is too early, and the first one that is too late. -/
structure Blocks (pairs : List LabelTimePair) (event : EventFeatures F)
    (blockers : List LabelTimePair) : Prop where
  nodup : blockers.Nodup
  mem : ∀ x ∈ blockers, x ∈ pairs
  not_for : ∀ x ∈ blockers, labelIsForEvent x event = false
  apart : ∀ x ∈ blockers, ∀ y ∈ blockers, Within x.time y.time → x = y
  close : ∀ p ∈ pairs, ∀ p' ∈ pairs, labelIsForEvent p event = true → Within p'.time p.time →
    labelIsForEvent p' event = false → ∃ x ∈ blockers, Within x.time p.time

/-- A time between two that are close to a third is close to it. -/
theorem within_of_between {a b c : ℤ} {v : TimeType} (hb : a ≤ b ∧ b ≤ c ∨ c ≤ b ∧ b ≤ a)
    (ha : Within (some a) v) (hc : Within (some c) v) : Within (some b) v := by
  rintro b' ⟨⟩ d hd
  have had := ha a rfl d hd
  have hcd := hc c rfl d hd
  rw [abs_le] at *
  omega

/-- Between a pair that is too early and one that is close to it and in time there are
    only pairs that are close to the latter. -/
theorem within_of_earlier {s t u v : TimeType} (hs : Apart s u) (hst : s.getD 0 ≤ t.getD 0)
    (ht : Apart t u) (hv : Within v u) (hsv : Within s v) : Within t v := by
  obtain ⟨a, rfl, c, rfl, -⟩ := hs
  obtain ⟨b, rfl, c', ⟨⟩, hbc⟩ := ht
  rw [acceptedTimeDifference] at hbc
  exact within_of_between (Or.inl ⟨hst, by omega⟩) hsv hv.symm

theorem within_of_later {s t u v : TimeType} (hs : Apart u s) (hts : t.getD 0 ≤ s.getD 0)
    (ht : Apart u t) (hv : Within v u) (hsv : Within s v) : Within t v := by
  obtain ⟨c, rfl, a, rfl, -⟩ := hs
  obtain ⟨c', ⟨⟩, b, rfl, hbc⟩ := ht
  rw [acceptedTimeDifference] at hbc
  exact within_of_between (Or.inr ⟨by omega, hts⟩) hsv hv.symm

theorem not_for_iff {p : LabelTimePair} : labelIsForEvent p event = false ↔
    Apart p.time event.eventMetaData.eventTime ∨ Apart event.eventMetaData.eventTime p.time := by
  have hbefore := compareLabels_iff (p := p) (q := ⟨0, event.eventMetaData.eventTime⟩)
  have hafter := compareLabels_iff (q := p) (p := ⟨0, event.eventMetaData.eventTime⟩)
  rw [← hbefore, ← hafter, labelIsForEvent]
  cases compareLabels p ⟨0, event.eventMetaData.eventTime⟩ <;> simp

/-- The last of the pairs that are too early for an event at `t`. -/
noncomputable def lastEarly (pairs : List LabelTimePair) (t : TimeType) : Option LabelTimePair :=
  (pairs.filter fun p => compareLabels p ⟨0, t⟩).argmax (·.time.getD 0)

/-- The first of the pairs that are too late. -/
noncomputable def firstLate (pairs : List LabelTimePair) (t : TimeType) : Option LabelTimePair :=
  (pairs.filter fun p => compareLabels ⟨0, t⟩ p).argmin (·.time.getD 0)

section
variable {t : TimeType} {x y : LabelTimePair}

theorem early_of_mem_lastEarly (hx : x ∈ lastEarly pairs t) : x ∈ pairs ∧ Apart x.time t := by
  have hmem := List.argmax_mem hx
  rwa [List.mem_filter, compareLabels_iff] at hmem

theorem late_of_mem_firstLate (hx : x ∈ firstLate pairs t) : x ∈ pairs ∧ Apart t x.time := by
  have hmem := List.argmin_mem hx
  rwa [List.mem_filter, compareLabels_iff] at hmem

theorem exists_lastEarly (hy : y ∈ pairs) (hapart : Apart y.time t) :
    ∃ x ∈ lastEarly pairs t, y.time.getD 0 ≤ x.time.getD 0 := by
  have hmem : y ∈ pairs.filter fun p => compareLabels p ⟨0, t⟩ := by
    rw [List.mem_filter, compareLabels_iff]
    exact ⟨hy, hapart⟩
  obtain ⟨x, hx⟩ : ∃ x, lastEarly pairs t = some x :=
    Option.ne_none_iff_exists'.1 (mt List.argmax_eq_none.1 (List.ne_nil_of_mem hmem))
  exact ⟨x, hx, List.le_of_mem_argmax hmem hx⟩

theorem exists_firstLate (hy : y ∈ pairs) (hapart : Apart t y.time) :
    ∃ x ∈ firstLate pairs t, x.time.getD 0 ≤ y.time.getD 0 := by
  have hmem : y ∈ pairs.filter fun p => compareLabels ⟨0, t⟩ p := by
    rw [List.mem_filter, compareLabels_iff]
    exact ⟨hy, hapart⟩
  obtain ⟨x, hx⟩ : ∃ x, firstLate pairs t = some x :=
    Option.ne_none_iff_exists'.1 (mt List.argmin_eq_none.1 (List.ne_nil_of_mem hmem))
  exact ⟨x, hx, List.le_of_mem_argmin hmem hx⟩

theorem not_within_of_early_late (hx : Apart x.time t) (hy : Apart t y.time) :
    ¬ Within x.time y.time := by
  apply not_within_of_apart
  rw [← compareLabels_iff] at *
  exact strict_compareLabels.trans (b := ⟨0, t⟩) (compareLabels_iff.2 hx) (compareLabels_iff.2 hy)

end

/-- **There are blockers**: at most one on each side of the event. -/
theorem exists_blocks (pairs : List LabelTimePair) (event : EventFeatures F) :
    ∃ blockers, Blocks pairs event blockers := by
  set t := event.eventMetaData.eventTime
  have hmem : ∀ x, x ∈ (lastEarly pairs t).toList ++ (firstLate pairs t).toList ↔
      x ∈ lastEarly pairs t ∨ x ∈ firstLate pairs t := by
    intro x
    rw [List.mem_append, Option.mem_toList, Option.mem_toList]
    rfl
  have hcross : ∀ x y, x ∈ lastEarly pairs t → y ∈ firstLate pairs t →
      ¬ Within x.time y.time := fun x y hx hy =>
    not_within_of_early_late (early_of_mem_lastEarly hx).2 (late_of_mem_firstLate hy).2
  refine ⟨(lastEarly pairs t).toList ++ (firstLate pairs t).toList, ?_, ?_, ?_, ?_, ?_⟩
  · have hnodup : ∀ o : Option LabelTimePair, o.toList.Nodup := by
      rintro (_ | x) <;> simp
    refine List.Nodup.append (hnodup _) (hnodup _) ?_
    intro x hx hy
    refine hcross x x (Option.mem_toList.1 hx) (Option.mem_toList.1 hy) ?_
    exact alike_iff.1 (strict_compareLabels.alike_self x)
  · intro x hx
    rcases (hmem x).1 hx with hx | hx
    · exact (early_of_mem_lastEarly hx).1
    · exact (late_of_mem_firstLate hx).1
  · intro x hx
    rw [not_for_iff]
    rcases (hmem x).1 hx with hx | hx
    · exact Or.inl (early_of_mem_lastEarly hx).2
    · exact Or.inr (late_of_mem_firstLate hx).2
  · intro x hx y hy hwithin
    rcases (hmem x).1 hx with hx | hx <;> rcases (hmem y).1 hy with hy | hy
    · exact Option.mem_unique hx hy
    · exact absurd hwithin (hcross x y hx hy)
    · exact absurd hwithin.symm (hcross y x hy hx)
    · exact Option.mem_unique hx hy
  · intro p hp p' hp' hfor hwithin hnot
    rw [labelIsForEvent_iff] at hfor
    rcases not_for_iff.1 hnot with hapart | hapart
    · obtain ⟨x, hx, hle⟩ := exists_lastEarly hp' hapart
      refine ⟨x, (hmem x).2 (Or.inl hx), ?_⟩
      exact within_of_earlier hapart hle (early_of_mem_lastEarly hx).2 hfor hwithin
    · obtain ⟨x, hx, hle⟩ := exists_firstLate hp' hapart
      refine ⟨x, (hmem x).2 (Or.inr hx), ?_⟩
      exact within_of_later hapart hle (late_of_mem_firstLate hx).2 hfor hwithin

/-- Loaded first, the blockers keep out all pairs that are close to them. -/
theorem exists_loaded_blocked {blockers : List LabelTimePair} (h : Blocks pairs event blockers) :
    ∃ labels pairs', pairs'.Perm pairs ∧ Loaded pairs' labels ∧
      ∀ x ∈ blockers, x ∈ labels.toList := by
  obtain ⟨bs, hbs, hsub⟩ := List.subperm_of_subset h.nodup h.mem
  obtain ⟨rest, hrest⟩ := hsub.exists_perm_append
  obtain ⟨first, hfirst, -⟩ := Loaded.nil.append blockers
  obtain ⟨labels, hloaded, hkeep⟩ := hfirst.append rest
  refine ⟨labels, _, ?_, hloaded, fun x hx => hkeep x ?_⟩
  · exact ((hbs.symm.append_right rest).trans hrest.symm)
  · obtain ⟨y, hy, hwithin⟩ := hfirst.holds.close x (by simpa using hx)
    rw [← h.apart y (by simpa using hfirst.holds.mem y hy) x hx hwithin]
    exact hy

/-- If the lookups agree and there is a pair for the event, one is sheltered: any other
    is close to a blocker, and not held if the blockers are loaded first. -/
theorem LookupsAgree.exists_sheltered (h : LookupsAgree pairs event)
    (hsome : ∃ p ∈ pairs, labelIsForEvent p event = true) :
    ∃ p ∈ pairs, Sheltered pairs event p := by
  obtain ⟨blockers, hblocks⟩ := exists_blocks pairs event
  obtain ⟨labels, pairs', hperm, hloaded, hheld⟩ := exists_loaded_blocked hblocks
  have hholds := hloaded.holds
  obtain ⟨label, hlabel⟩ := (h.found { labels } pairs' hperm hloaded).2 hsome
  rcases getEventLabel_cases (m := { labels }) event hholds with
    ⟨p, hp, hfor, -⟩ | ⟨hnone, -⟩
  · have hmem := hperm.mem_iff.1 (hholds.mem p hp)
    refine ⟨p, hmem, hfor, ?_⟩
    intro p' hp' hwithin
    by_contra hnot
    obtain ⟨x, hx, hclose⟩ :=
      hblocks.close p hmem p' hp' hfor hwithin (Bool.not_eq_true _ ▸ hnot)
    have hxp : x ≠ p := by
      rintro rfl
      rw [hblocks.not_for x hx] at hfor
      cases hfor
    exact hholds.not_within (hheld x hx) hp hxp hclose
  · rw [hnone] at hlabel
    cases hlabel

/-- A label that is found is that of a pair for the event. -/
theorem exists_of_getEventLabel {label : ℚ} (hholds : Holds pairs m.labels)
    (hlabel : m.getEventLabel event = some label) :
    ∃ p ∈ pairs, labelIsForEvent p event = true ∧ p.label = label := by
  rcases getEventLabel_cases event hholds with ⟨p, hp, hfor, heq⟩ | ⟨hno, -⟩
  · rw [heq] at hlabel
    exact ⟨p, hholds.mem p hp, hfor, Option.some.inj hlabel⟩
  · rw [hno] at hlabel
    cases hlabel

theorem found_iff (h : (∀ p ∈ pairs, labelIsForEvent p event = false) ∨
      ∃ p ∈ pairs, Sheltered pairs event p) (hholds : Holds pairs m.labels) :
    (∃ label, m.getEventLabel event = some label) ↔
      ∃ p ∈ pairs, labelIsForEvent p event = true := by
  constructor
  · rintro ⟨label, hlabel⟩
    obtain ⟨p, hp, hfor, -⟩ := exists_of_getEventLabel hholds hlabel
    exact ⟨p, hp, hfor⟩
  · rintro ⟨p, hp, hfor⟩
    rcases h with hnone | ⟨p', hp', hsheltered⟩
    · rw [hnone p hp] at hfor
      cases hfor
    · exact hsheltered.found hp' hholds

/-- **When the lookups agree**: no pair is for the event, or one of those that are is
    close to no pair that is not. -/
theorem lookups_agree_iff (pairs : List LabelTimePair) (event : EventFeatures F) :
    LookupsAgree pairs event ↔
      (∀ p ∈ pairs, labelIsForEvent p event = false) ∨ ∃ p ∈ pairs, Sheltered pairs event p := by
  constructor
  · intro h
    by_cases hsome : ∃ p ∈ pairs, labelIsForEvent p event = true
    · exact Or.inr (h.exists_sheltered hsome)
    · refine Or.inl fun p hp => ?_
      rw [← Bool.not_eq_true]
      exact fun hfor => hsome ⟨p, hp, hfor⟩
  · intro h
    have hfound : ∀ (m : EventLabelManager F) pairs', pairs'.Perm pairs → Loaded pairs' m.labels →
        ((∃ label, m.getEventLabel event = some label) ↔
          ∃ p ∈ pairs, labelIsForEvent p event = true) := fun m pairs' hperm hloaded =>
      found_iff h (hloaded.holds.perm hperm)
    refine ⟨hfound, ?_, ?_⟩
    · intro m pairs' label hperm hloaded hlabel
      exact exists_of_getEventLabel (hloaded.holds.perm hperm) hlabel
    · intro m₁ m₂ pairs₁ pairs₂ hperm₁ hperm₂ hloaded₁ hloaded₂
      rw [hfound m₁ pairs₁ hperm₁ hloaded₁, hfound m₂ pairs₂ hperm₂ hloaded₂]

/-- The second pair is 2 s after the first one, and so is the event after it. -/
theorem close_label_dropped :
    ¬ LookupsAgree [⟨1, some 0⟩, ⟨2, some 2000000⟩]
      ({ eventMetaData := { eventTime := some 4000000 } } : EventFeatures ℚ) := by
  intro h
  have hfirst : Inserts empty ⟨1, some 0⟩ (node empty ⟨1, some 0⟩ empty) := rfl
  have hsecond : Inserts (node empty ⟨1, some 0⟩ empty) ⟨2, some 2000000⟩
      (node empty ⟨1, some 0⟩ empty) := rfl
  obtain ⟨label, hlabel⟩ := (h.found { labels := node empty ⟨1, some 0⟩ empty } _ (.refl _)
    ((Loaded.nil.snoc hfirst).snoc hsecond)).2 ⟨⟨2, some 2000000⟩, by simp, rfl⟩
  have hnone : ({ labels := node empty ⟨1, some 0⟩ empty } : EventLabelManager ℚ).getEventLabel
      { eventMetaData := { eventTime := some 4000000 } } = none := rfl
  rw [hnone] at hlabel
  cases hlabel

end

end SmartScreen
