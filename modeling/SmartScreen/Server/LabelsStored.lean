/-
  Labels that are added while the model is stored (`ModelSerialization.hpp`,
  `DataClassifier.h`).

  The message thread adds labels, the storing thread runs its cycles, and a third
  thread stops it.  `addLabelById` and `getEventLabelManager` hold the mutex of the
  classifier and are one step each; the storing thread waits with a time limit, so
  it may go on at any time.

  * `labels` are the labels that calls have added, `returned` counts those whose
    call has returned, and `acknowledged` those when the stop was called.
  * `covered` counts the labels in the last manager that was read for storing.
  * `labels_stored_iff`: what matters is where the thread is when the flag is set.
-/
import SmartScreen.Classifier.DataClassifier
import SmartScreen.Server.ModelStorage

namespace SmartScreen

open Files Loop LTS ModelStorage

variable {ι F : Type}

namespace LabelsStored

/-- Where `storeModelThreadFunction` is; `checking` is the head of its loop. -/
inductive StoringThread where
  | checking
  | waiting
  | storing
  | done
deriving DecidableEq

/-- Where `stopModelStorageThread` is. -/
inductive StoppingThread where
  | notCalled
  | called
  | shutdownSet
  | joining
  | returned
deriving DecidableEq

inductive Action (F : Type) where
  | addLabelById (id : ℕ) (label : ℚ)
  | returnFromCall
  | check
  | wake
  | store (a : ModelStorage.Action F)
  | callStop
  | setShutdown
  | notifyAll
  | join

structure System (ι F : Type) where
  dataClassifier : DataClassifier F
  storage : ModelStorage ι F
  storing : StoringThread := .checking
  stopping : StoppingThread := .notCalled
  shutdown : Bool := false
  labels : List (ℕ × ℚ) := []
  returned : ℕ := 0
  acknowledged : ℕ := 0
  covered : ℕ := 0

section
variable [FloatArith F] (A : TextArchive ι F)

/-- A step of the cycle; the manager that is stored is read from the classifier. -/
def storeStep (s : System ι F) : ModelStorage.Action F → Option (System ι F)
  | .getEventLabelManager _ =>
    (s.storage.step A (.getEventLabelManager s.dataClassifier.eventLabelManager)).map fun storage =>
      { s with storage, covered := s.labels.length }
  | .close => (s.storage.step A .close).map fun storage => { s with storage, storing := .checking }
  | a => (s.storage.step A a).map fun storage => { s with storage }

/-- The next call begins when the one before has returned.  A call that leaves with
    an exception ends the program. -/
def step (s : System ι F) : Action F → Option (System ι F)
  | .addLabelById id label =>
    if s.returned = s.labels.length then
      match s.dataClassifier.addLabelById id label with
      | .ok dataClassifier true =>
        some { s with dataClassifier, labels := s.labels ++ [(id, label)] }
      | .ok dataClassifier false => some { s with dataClassifier }
      | _ => none
    else none
  | .returnFromCall => some { s with returned := s.labels.length }
  | .check =>
    if s.storing = .checking then
      some { s with storing := if s.shutdown then .done else .waiting }
    else none
  | .wake => if s.storing = .waiting then some { s with storing := .storing } else none
  | .store a => if s.storing = .storing then storeStep A s a else none
  | .callStop =>
    if s.stopping = .notCalled then
      some { s with stopping := .called, acknowledged := s.returned }
    else none
  | .setShutdown =>
    if s.stopping = .called then some { s with stopping := .shutdownSet, shutdown := true }
    else none
  | .notifyAll => if s.stopping = .shutdownSet then some { s with stopping := .joining } else none
  | .join =>
    if s.stopping = .joining ∧ s.storing = .done then some { s with stopping := .returned }
    else none

def Steps (s : System ι F) (a : Action F) (s' : System ι F) : Prop := step A s a = some s'

/-- The storing thread is started. -/
def start (fs : FileSystem String ι) (dataClassifier : DataClassifier F) : System ι F :=
  { dataClassifier, storage := ModelStorage.start A fs }

/-! ## What is stored -/

/-- A manager has a label of the list, or one that replaced it. -/
def HasOrReplaced (m : EventLabelManager F) (labels : List (ℕ × ℚ)) (i id : ℕ) : Prop :=
  ∃ (j : ℕ) (label : ℚ), i ≤ j ∧ labels[j]? = some (id, label) ∧ m.HasLabel id label

/-- A manager has the labels of a list. -/
def HasLabels (m : EventLabelManager F) (labels : List (ℕ × ℚ)) : Prop :=
  ∀ i id label, labels[i]? = some (id, label) → HasOrReplaced m labels i id

/-- The model that is found has every label that was acknowledged when the stop was
    called, or one that replaced it before the stop was called or the manager read. -/
def Stored (s : System ι F) : Prop :=
  ∀ i id label, i < s.acknowledged → s.labels[i]? = some (id, label) →
    ∃ m, loadOldModel A s.storage.fs = some m ∧
      HasOrReplaced m (s.labels.take (max s.acknowledged s.covered)) i id

/-- The manager of the cycle in progress, or of the next one, will be read. -/
def ReadsAgain (s : System ι F) : Prop :=
  s.storing = .waiting ∨ (s.storing = .storing ∧ s.storage.beforeReading = true)

/-- The acknowledged labels that came after the last reading were there already. -/
def Covers (s : System ι F) : Prop :=
  ∀ i id label, s.covered ≤ i → i < s.acknowledged → s.labels[i]? = some (id, label) →
    ∃ m, s.storage.next A = some m ∧ HasOrReplaced m (s.labels.take s.acknowledged) i id

/-- The manager will be read once more, or need not be. -/
def InTime (s : System ι F) : Prop := ReadsAgain s ∨ Covers A s

end

/-! ## Labels and managers -/

section
variable {m m' : EventLabelManager F} {labels : List (ℕ × ℚ)}

theorem HasOrReplaced.append {i id : ℕ} (h : HasOrReplaced m labels i id) (l : List (ℕ × ℚ)) :
    HasOrReplaced m (labels ++ l) i id := by
  obtain ⟨j, label, hij, hj, hlabel⟩ := h
  refine ⟨j, label, hij, ?_, hlabel⟩
  rw [List.getElem?_append_left (List.getElem?_eq_some_iff.1 hj).1]
  exact hj

/-- **Adding a label.** -/
theorem HasLabels.addLabelById (h : HasLabels m labels) {id : ℕ} {label : ℚ}
    (hm : m.addLabelById id label = (m', true)) : HasLabels m' (labels ++ [(id, label)]) := by
  obtain ⟨hnew, hold⟩ := EventLabelManager.hasLabel_addLabelById hm
  have hlast : (labels ++ [(id, label)])[labels.length]? = some (id, label) := by simp
  intro i id' label' hi
  have hle : i ≤ labels.length := by
    have hlt := (List.getElem?_eq_some_iff.1 hi).1
    rw [List.length_append, List.length_singleton] at hlt
    exact Nat.lt_succ_iff.1 hlt
  by_cases hid : id' = id
  · -- the new label replaces what was there
    subst hid
    exact ⟨labels.length, label, hle, hlast, hnew⟩
  · have hlt : i < labels.length := by
      apply hle.lt_of_ne
      rintro rfl
      rw [hlast] at hi
      cases hi
      exact hid rfl
    rw [List.getElem?_append_left hlt] at hi
    obtain ⟨j, l, hij, hj, hlabel⟩ := h i id' label' hi
    exact HasOrReplaced.append ⟨j, l, hij, hj, hold id' l hid hlabel⟩ _

/-- The certainties have nothing to do with the labels. -/
theorem hasLabel_restored (A : TextArchive ι F) {id : ℕ} {label : ℚ} :
    (A.restored m).HasLabel id label ↔ m.HasLabel id label := by
  constructor
  · rintro ⟨e, he, hid, hlabel⟩
    obtain ⟨e', he', rfl⟩ := List.mem_map.1 he
    exact ⟨e', he', hid, hlabel⟩
  · rintro ⟨e, he, hid, hlabel⟩
    exact ⟨e.uncertain, List.mem_map_of_mem he, hid, hlabel⟩

end

/-! ## Steps -/

section
variable [FloatArith F] {A : TextArchive ι F} {s s' : System ι F} {a : Action F}

omit [FloatArith F] in
/-- What a step of a cycle does. -/
theorem storeStep_cases {b : ModelStorage.Action F} (h : storeStep A s b = some s') :
    ∃ storage c, ModelStorage.Steps A s.storage c storage ∧
      ((s' = { s with storage } ∧ storage.next A = s.storage.next A ∧
          storage.beforeReading = s.storage.beforeReading) ∨
        (s' = { s with storage, covered := s.labels.length } ∧
          s.storage.beforeReading = true ∧ storage.beforeReading = false ∧
          storage.next A = some (A.restored s.dataClassifier.eventLabelManager)) ∨
        (s' = { s with storage, storing := .checking } ∧ s.storage.beforeReading = false ∧
          storage.phase = .waiting ∧ storage.next A = s.storage.next A)) := by
  cases b with
  | getEventLabelManager m =>
    obtain ⟨storage, hstep, rfl⟩ := Option.map_eq_some_iff.1 h
    obtain ⟨hb, -⟩ | ⟨m', hm, hbefore, hafter, hnext⟩ | ⟨hb, -⟩ | ⟨hb, -⟩ :=
      ModelStorage.step_cases hstep
    · cases hb
    · cases hm
      exact ⟨storage, _, hstep, .inr (.inl ⟨rfl, hbefore, hafter, hnext⟩)⟩
    · cases hb
    · rcases hb with hb | hb | hb | hb <;> cases hb
  | close =>
    obtain ⟨storage, hstep, rfl⟩ := Option.map_eq_some_iff.1 h
    obtain ⟨hb, -⟩ | ⟨m', hb, -⟩ | ⟨-, hbefore, hphase, hnext⟩ | ⟨hb, -⟩ :=
      ModelStorage.step_cases hstep
    · cases hb
    · cases hb
    · exact ⟨storage, _, hstep, .inr (.inr ⟨rfl, hbefore, hphase, hnext⟩)⟩
    · rcases hb with hb | hb | hb | hb <;> cases hb
  | openStream | write | flush | remove | rename =>
    obtain ⟨storage, hstep, rfl⟩ := Option.map_eq_some_iff.1 h
    refine ⟨storage, _, hstep, .inl ⟨rfl, ?_⟩⟩
    obtain ⟨-, hbefore, hafter, hnext⟩ | ⟨m', hb, -⟩ | ⟨hb, -⟩ | ⟨-, hbefore, hafter, hnext⟩ :=
      ModelStorage.step_cases hstep
    · exact ⟨hnext, hafter.trans hbefore.symm⟩
    · cases hb
    · cases hb
    · exact ⟨hnext, hafter.trans hbefore.symm⟩

/-- What a call that adds a label does. -/
theorem addLabelById_cases {id : ℕ} {label : ℚ} (h : step A s (.addLabelById id label) = some s') :
    ∃ c, (s' = { s with dataClassifier := c, labels := s.labels ++ [(id, label)] } ∧
        s.dataClassifier.eventLabelManager.addLabelById id label = (c.eventLabelManager, true)) ∨
      (s' = { s with dataClassifier := c } ∧
        c.eventLabelManager = s.dataClassifier.eventLabelManager) := by
  simp only [step] at h
  split_ifs at h with hret
  cases hcall : s.dataClassifier.addLabelById id label with
  | fault e c =>
    rw [hcall] at h
    cases h
  | timeout =>
    rw [hcall] at h
    cases h
  | ok c found =>
    rw [hcall] at h
    refine ⟨c, ?_⟩
    rw [DataClassifier.addLabelById] at hcall
    cases hadd : s.dataClassifier.eventLabelManager.addLabelById id label with
    | mk manager b =>
      rw [hadd] at hcall
      cases b with
      | false =>
        cases hcall
        cases h
        right
        obtain ⟨-, hsame, -⟩ | ⟨hb, -⟩ := EventLabelManager.addLabelById_cases id label hadd
        · exact ⟨rfl, hsame⟩
        · cases hb
      | true =>
        dsimp only at hcall
        rw [if_pos rfl] at hcall
        obtain ⟨c', ⟨⟩, hregenerate, hok⟩ := Res.bind_eq_ok.1 hcall
        cases hok
        cases h
        have hcaught : DataClassifier.caught (DataClassifier.regenerateMatrix
            { s.dataClassifier with eventLabelManager := manager }) = some c := by
          rw [hregenerate]
          rfl
        have hframe := (DataClassifier.regenerateMatrix_frame hcaught).1
        exact .inl ⟨rfl, by rw [hframe]⟩

/-- What each action needs and does. -/
inductive Moves (A : TextArchive ι F) (s : System ι F) : Action F → System ι F → Prop
  | add {id : ℕ} {label : ℚ} {c : DataClassifier F} :
      s.dataClassifier.eventLabelManager.addLabelById id label = (c.eventLabelManager, true) →
      Moves A s (.addLabelById id label)
        { s with dataClassifier := c, labels := s.labels ++ [(id, label)] }
  | miss {id : ℕ} {label : ℚ} {c : DataClassifier F} :
      c.eventLabelManager = s.dataClassifier.eventLabelManager →
      Moves A s (.addLabelById id label) { s with dataClassifier := c }
  | returnFromCall : Moves A s .returnFromCall { s with returned := s.labels.length }
  | leave : s.storing = .checking → s.shutdown = true →
      Moves A s .check { s with storing := .done }
  | wait : s.storing = .checking → s.shutdown = false →
      Moves A s .check { s with storing := .waiting }
  | wake : s.storing = .waiting → Moves A s .wake { s with storing := .storing }
  | store {b c : ModelStorage.Action F} {storage : ModelStorage ι F} : s.storing = .storing →
      ModelStorage.Steps A s.storage c storage → storage.next A = s.storage.next A →
      storage.beforeReading = s.storage.beforeReading → Moves A s (.store b) { s with storage }
  | read {b c : ModelStorage.Action F} {storage : ModelStorage ι F} : s.storing = .storing →
      ModelStorage.Steps A s.storage c storage → s.storage.beforeReading = true →
      storage.beforeReading = false →
      storage.next A = some (A.restored s.dataClassifier.eventLabelManager) →
      Moves A s (.store b) { s with storage, covered := s.labels.length }
  | close {b c : ModelStorage.Action F} {storage : ModelStorage ι F} : s.storing = .storing →
      ModelStorage.Steps A s.storage c storage → s.storage.beforeReading = false →
      storage.phase = .waiting → storage.next A = s.storage.next A →
      Moves A s (.store b) { s with storage, storing := .checking }
  | callStop : s.stopping = .notCalled →
      Moves A s .callStop { s with stopping := .called, acknowledged := s.returned }
  | setShutdown : s.stopping = .called →
      Moves A s .setShutdown { s with stopping := .shutdownSet, shutdown := true }
  | notifyAll : s.stopping = .shutdownSet → Moves A s .notifyAll { s with stopping := .joining }
  | join : s.stopping = .joining → s.storing = .done →
      Moves A s .join { s with stopping := .returned }

/-- **Every step is one of these.** -/
theorem moves_of_step (h : Steps A s a s') : Moves A s a s' := by
  cases a with
  | addLabelById id label =>
    obtain ⟨c, ⟨rfl, hadd⟩ | ⟨rfl, hsame⟩⟩ := addLabelById_cases h
    · exact .add hadd
    · exact .miss hsame
  | returnFromCall =>
    cases h
    exact .returnFromCall
  | check =>
    simp only [Steps, LabelsStored.step] at h
    split_ifs at h with hstoring hshutdown
    all_goals cases h
    · exact .leave hstoring hshutdown
    · exact .wait hstoring (Bool.eq_false_iff.2 hshutdown)
  | store b =>
    simp only [Steps, LabelsStored.step] at h
    split_ifs at h with hstoring
    obtain ⟨storage, c, hstep, hcase⟩ := storeStep_cases h
    obtain ⟨rfl, hnext, hbefore⟩ | ⟨rfl, hbefore, hafter, hnext⟩ | ⟨rfl, hbefore, hphase, hnext⟩ :=
      hcase
    · exact .store hstoring hstep hnext hbefore
    · exact .read hstoring hstep hbefore hafter hnext
    · exact .close hstoring hstep hbefore hphase hnext
  | wake =>
    simp only [Steps, LabelsStored.step] at h
    split_ifs at h with hstoring
    cases h
    exact .wake hstoring
  | callStop =>
    simp only [Steps, LabelsStored.step] at h
    split_ifs at h with hstopping
    cases h
    exact .callStop hstopping
  | setShutdown =>
    simp only [Steps, LabelsStored.step] at h
    split_ifs at h with hstopping
    cases h
    exact .setShutdown hstopping
  | notifyAll =>
    simp only [Steps, LabelsStored.step] at h
    split_ifs at h with hstopping
    cases h
    exact .notifyAll hstopping
  | join =>
    simp only [Steps, LabelsStored.step] at h
    split_ifs at h with hjoin
    cases h
    exact .join hjoin.1 hjoin.2

/-- What the three threads keep. -/
structure Inv (A : TextArchive ι F) (s : System ι F) : Prop where
  storage : ModelStorage.Inv A s.storage
  labels : HasLabels s.dataClassifier.eventLabelManager s.labels
  covered_le : s.covered ≤ s.labels.length
  model : 0 < s.covered →
    ∃ m, s.storage.next A = some m ∧ HasLabels m (s.labels.take s.covered)
  idle : s.storing ≠ .storing → s.storage.phase = .waiting
  done : s.storing = .done → s.shutdown = true
  returned_le : s.returned ≤ s.labels.length
  acknowledged_le : s.acknowledged ≤ s.labels.length
  shutdown_iff : s.shutdown = true ↔ s.stopping ≠ .notCalled ∧ s.stopping ≠ .called
  joined : s.stopping = .returned → s.storing = .done

omit [FloatArith F] in
/-- The stop does not return before the thread is done. -/
theorem Inv.not_returned (hi : Inv A s) (h : s.storing ≠ .done) : s.stopping ≠ .returned :=
  fun hreturned => h (hi.joined hreturned)

omit [FloatArith F] in
/-- Between two cycles nothing is open. -/
theorem Inv.phase (hi : Inv A s) {t : StoringThread} (h : s.storing = t) (ht : t ≠ .storing) :
    s.storage.phase = .waiting :=
  hi.idle (h.trans_ne ht)

omit [FloatArith F] in
theorem Inv.start (fs : FileSystem String ι) (c : DataClassifier F) :
    Inv A (LabelsStored.start A fs c) where
  storage := rfl
  labels := by
    intro i id label hi
    cases hi
  covered_le := le_rfl
  model := by
    intro hpos
    cases hpos
  idle := fun _ => rfl
  done := by
    intro hdone
    cases hdone
  returned_le := le_rfl
  acknowledged_le := le_rfl
  shutdown_iff := by
    constructor
    · intro hshutdown
      cases hshutdown
    · rintro ⟨hne, -⟩
      exact absurd rfl hne
  joined := by
    intro hreturned
    cases hreturned

theorem Inv.step (h : Steps A s a s') (hi : Inv A s) : Inv A s' := by
  cases moves_of_step h with
  | @add id label c hadd =>
    have hlen : s.labels.length ≤ (s.labels ++ [(id, label)]).length := by
      rw [List.length_append]
      exact Nat.le_add_right _ _
    refine { hi with
      labels := hi.labels.addLabelById hadd
      covered_le := hi.covered_le.trans hlen
      model := ?_
      returned_le := hi.returned_le.trans hlen
      acknowledged_le := hi.acknowledged_le.trans hlen }
    intro hpos
    obtain ⟨m, hm, hlabels⟩ := hi.model hpos
    refine ⟨m, hm, ?_⟩
    dsimp only
    rwa [List.take_append_of_le_length hi.covered_le]
  | miss hsame => exact { hi with labels := by rw [hsame]; exact hi.labels }
  | returnFromCall => exact { hi with returned_le := le_rfl }
  | leave hstoring hshutdown =>
    exact { hi with
      idle := fun _ => hi.phase hstoring (by rintro ⟨⟩)
      done := fun _ => hshutdown
      joined := fun _ => rfl }
  | wait hstoring _ =>
    exact { hi with
      idle := fun _ => hi.phase hstoring (by rintro ⟨⟩)
      done := fun hdone => by cases hdone
      joined := fun hreturned =>
        absurd hreturned (hi.not_returned (by rw [hstoring]; rintro ⟨⟩)) }
  | wake hstoring =>
    exact { hi with
      idle := fun hne => absurd rfl hne
      done := fun hdone => by cases hdone
      joined := fun hreturned =>
        absurd hreturned (hi.not_returned (by rw [hstoring]; rintro ⟨⟩)) }
  | store hstoring hstep hnext _ =>
    exact { hi with
      storage := hi.storage.step hstep
      model := by dsimp only; rw [hnext]; exact hi.model
      idle := fun hne => absurd hstoring hne }
  | read hstoring hstep _ _ hnext =>
    -- the model now has all labels
    refine { hi with
      storage := hi.storage.step hstep
      covered_le := le_rfl
      model := fun _ => ⟨_, hnext, ?_⟩
      idle := fun hne => absurd hstoring hne }
    intro i id label hlabel
    dsimp only at hlabel ⊢
    rw [List.take_length] at hlabel ⊢
    obtain ⟨j, l, hij, hj, hl⟩ := hi.labels i id label hlabel
    exact ⟨j, l, hij, hj, (hasLabel_restored A).2 hl⟩
  | close hstoring hstep _ hphase hnext =>
    exact { hi with
      storage := hi.storage.step hstep
      model := by dsimp only; rw [hnext]; exact hi.model
      idle := fun _ => hphase
      done := fun hdone => by cases hdone
      joined := fun hreturned =>
        absurd hreturned (hi.not_returned (by rw [hstoring]; rintro ⟨⟩)) }
  | callStop hstopping =>
    exact { hi with
      acknowledged_le := hi.returned_le
      shutdown_iff := by rw [hi.shutdown_iff, hstopping]; simp
      joined := fun hreturned => by cases hreturned }
  | setShutdown _ =>
    exact { hi with
      done := fun _ => rfl
      shutdown_iff := by simp
      joined := fun hreturned => by cases hreturned }
  | notifyAll hstopping =>
    exact { hi with
      shutdown_iff := by rw [hi.shutdown_iff, hstopping]; simp
      joined := fun hreturned => by cases hreturned }
  | join hstopping hdone =>
    exact { hi with
      shutdown_iff := by rw [hi.shutdown_iff, hstopping]; simp
      joined := fun _ => hdone }

/-! ### After the flag is set -/

/-- Only setting it changes the flag. -/
theorem shutdown_step (h : Steps A s a s') :
    s'.shutdown = s.shutdown ∨ (a = .setShutdown ∧ s'.shutdown = true) := by
  cases moves_of_step h with
  | setShutdown _ => exact .inr ⟨rfl, rfl⟩
  | add | miss | returnFromCall | leave | wait | wake | store | read | close | callStop
  | notifyAll | join => exact .inl rfl

omit [FloatArith F] in
/-- What `Covers` looks at. -/
theorem covers_congr (hcovered : s'.covered = s.covered)
    (hacknowledged : s'.acknowledged = s.acknowledged)
    (hlabels : s'.labels.take s.acknowledged = s.labels.take s.acknowledged)
    (hnext : s'.storage.next A = s.storage.next A) : Covers A s' ↔ Covers A s := by
  have hget : ∀ i, i < s.acknowledged → s'.labels[i]? = s.labels[i]? := by
    intro i hi
    rw [← List.getElem?_take_of_lt hi, hlabels, List.getElem?_take_of_lt hi]
  unfold Covers
  rw [hcovered, hacknowledged, hlabels, hnext]
  constructor
  · intro hcovers i id label hle hlt hi
    exact hcovers i id label hle hlt ((hget i hlt).trans hi)
  · intro hcovers i id label hle hlt hi
    exact hcovers i id label hle hlt ((hget i hlt).symm.trans hi)

/-- **The step that sets the flag and those after it** do not change whether the
    labels are in time. -/
theorem inTime_step (h : Steps A s a s') (hi : Inv A s) (hshutdown : s'.shutdown = true) :
    InTime A s' ↔ InTime A s := by
  cases moves_of_step h with
  | add _ =>
    apply or_congr Iff.rfl
    refine covers_congr (by rfl) (by rfl) ?_ (by rfl)
    exact List.take_append_of_le_length hi.acknowledged_le
  | leave hstoring _ =>
    -- there is no further cycle, before and after
    unfold InTime ReadsAgain
    rw [hstoring]
    simp only [reduceCtorEq, false_and, or_self, false_or]
    exact Iff.rfl
  | wait _ hset =>
    rw [show s.shutdown = true from hshutdown] at hset
    cases hset
  | wake hstoring =>
    have hphase := hi.phase hstoring (by rintro ⟨⟩)
    refine iff_of_true (.inl (.inr ⟨rfl, ?_⟩)) (.inl (.inl hstoring))
    show s.storage.beforeReading = true
    rw [ModelStorage.beforeReading, hphase]
  | store _ _ hnext hbefore =>
    apply or_congr
    · unfold ReadsAgain
      rw [hbefore]
    · exact covers_congr rfl rfl rfl hnext
  | read hstoring _ hbefore _ _ =>
    -- the manager is read, with all that was acknowledged
    refine iff_of_true (.inr ?_) (.inl (.inr ⟨hstoring, hbefore⟩))
    intro i id label hle hlt
    exact absurd (hle.trans_lt hlt) (not_lt.2 hi.acknowledged_le)
  | close hstoring _ hbefore _ hnext =>
    apply or_congr
    · apply iff_of_false
      · rintro (hwaiting | ⟨hstoring', -⟩)
        · cases hwaiting
        · cases hstoring'
      · rintro (hwaiting | ⟨-, hbefore'⟩)
        · rw [hstoring] at hwaiting
          cases hwaiting
        · rw [hbefore] at hbefore'
          cases hbefore'
    · exact covers_congr rfl rfl rfl hnext
  | callStop hstopping => exact absurd hstopping (hi.shutdown_iff.1 hshutdown).1
  | miss | returnFromCall | setShutdown | notifyAll | join => exact Iff.rfl

omit [FloatArith F] in
/-- When the stop has returned, the last model is at the new path. -/
theorem stored_iff_inTime (hi : Inv A s) (hret : s.stopping = .returned) :
    Stored A s ↔ InTime A s := by
  have hdone := hi.joined hret
  have hphase := hi.phase hdone (by rintro ⟨⟩)
  have hload : loadOldModel A s.storage.fs = s.storage.next A := by
    have hinv := hi.storage
    rw [ModelStorage.Inv, hphase] at hinv
    rw [hinv, ModelStorage.next, ModelStorage.current, hphase]
  have hreads : ¬ ReadsAgain s := by
    rintro (hwaiting | ⟨hstoring, -⟩)
    · rw [hdone] at hwaiting
      cases hwaiting
    · rw [hdone] at hstoring
      cases hstoring
  constructor
  · intro hstored
    right
    intro i id label hle hlt hlabel
    obtain ⟨m, hm, hhas⟩ := hstored i id label hlt hlabel
    rw [max_eq_left (hle.trans hlt.le)] at hhas
    exact ⟨m, hload.symm.trans hm, hhas⟩
  · rintro (hreads' | hcovers)
    · exact absurd hreads' hreads
    intro i id label hlt hlabel
    rw [hload]
    rcases lt_or_ge i s.covered with hcovered | hcovered
    · -- the manager that was read has the label
      obtain ⟨m, hm, hlabels⟩ := hi.model (Nat.zero_lt_of_lt hcovered)
      have hhas := hlabels i id label ((List.getElem?_take_of_lt hcovered).trans hlabel)
      refine ⟨m, hm, ?_⟩
      obtain ⟨l, hl⟩ := List.take_prefix_take_left (le_max_right s.acknowledged s.covered)
        (l := s.labels)
      rw [← hl]
      exact hhas.append l
    · rw [max_eq_left (hcovered.trans hlt.le)]
      exact hcovers i id label hcovered hlt hlabel

end

/-- **The acknowledged labels are stored** iff the flag is set while the manager will
    still be read, or when nothing that was acknowledged has come after its reading. -/
theorem labels_stored_iff [FloatArith F] (A : TextArchive ι F) {fs : FileSystem String ι}
    {c : DataClassifier F} {tr : List (System ι F × Action F × System ι F)} {s : System ι F}
    (hrun : Run (Steps A) (start A fs c) tr s) (hret : s.stopping = .returned) :
    Stored A s ↔ ∀ x ∈ tr, x.2.1 = .setShutdown → InTime A x.1 := by
  have hinv : Inv A s := hrun.inv (Inv.start fs c) fun x _ hx hi => hi.step hx
  have hshutdown : s.shutdown = true := by
    rw [hinv.shutdown_iff, hret]
    exact ⟨StoppingThread.noConfusion, StoppingThread.noConfusion⟩
  have hdecided : (∀ x ∈ tr, x.2.1 = .setShutdown → InTime A x.1) ↔
      (s.shutdown = true → InTime A s) := by
    apply hrun.decided_iff (J := Inv A) (D := fun s => s.shutdown = true)
      (E := fun a => a = .setShutdown) (Inv.start fs c)
    · exact Bool.false_ne_true
    · intro s a s' hstep hi
      exact hi.step hstep
    · rintro s a s' hstep hi rfl
      cases moves_of_step hstep with
      | setShutdown hstopping =>
        refine ⟨?_, rfl⟩
        rw [hi.shutdown_iff, hstopping]
        exact fun hne => hne.2 rfl
    · intro s a s' hstep hi hne
      obtain hsame | ⟨ha, -⟩ := shutdown_step hstep
      · rw [hsame]
      · exact absurd ha hne
    · intro s a s' hstep hi hset
      exact inTime_step hstep hi hset
  rw [hdecided, stored_iff_inTime hinv hret]
  exact ⟨fun hin _ => hin, fun hin => hin hshutdown⟩

/-! ## One label -/

/-- A classifier with one event, which has no label. -/
def unlabeled : DataClassifier ℚ where
  eventLabelManager :=
    { unlabeledEvents := [{ eventMetaData := { eventId := some 7 }, featureVector := [0] }] }

/-- The storing thread has begun, and there is a model without events. -/
def plainStart : System (Item ℚ) ℚ :=
  start (plainTextArchive ℚ) (oneModel (plainTextArchive ℚ) {}) unlabeled

/-- A cycle that stores `n` items. -/
def cycle (n : ℕ) : List (Action ℚ) :=
  let actions : List (ModelStorage.Action ℚ) :=
    [.openStream, .getEventLabelManager {}] ++ .replicate n .write ++ .replicate (n + 1) .flush ++
      [.remove, .rename, .close]
  actions.map .store

/-- The flag is set before the thread looks at it for the first time. -/
theorem label_lost :
    ∃ tr s, Run (Steps (plainTextArchive ℚ)) plainStart tr s ∧ s.stopping = .returned ∧
      ¬ Stored (plainTextArchive ℚ) s := by
  obtain ⟨s, hs, hret, hacknowledged, hlabel, hload⟩ : ∃ s,
      List.foldlM (step (plainTextArchive ℚ)) plainStart
        [.addLabelById 7 1, .returnFromCall, .callStop, .setShutdown, .check, .notifyAll,
          .join] = some s ∧
      s.stopping = .returned ∧ s.acknowledged = 1 ∧ s.labels[0]? = some (7, 1) ∧
      loadOldModel (plainTextArchive ℚ) s.storage.fs = some {} := ⟨_, rfl, rfl, rfl, rfl, rfl⟩
  refine ⟨_, s, Run.trace hs, hret, ?_⟩
  intro hstored
  obtain ⟨m, hm, j, label, -, -, e, he, -⟩ :=
    hstored 0 7 1 (by rw [hacknowledged]; exact Nat.zero_lt_one) hlabel
  rw [hload] at hm
  cases hm
  cases he

/-- The flag is set while the thread waits; the label is in the manager of its last
    cycle. -/
theorem labels_stored_iff_cycle :
    ∃ tr s, Run (Steps (plainTextArchive ℚ)) plainStart tr s ∧ s.stopping = .returned ∧
      s.covered = 1 ∧ (Stored (plainTextArchive ℚ) s ↔
        ∀ x ∈ tr, x.2.1 = .setShutdown → InTime (plainTextArchive ℚ) x.1) := by
  obtain ⟨s, hs, hret, hcovered⟩ : ∃ s,
      List.foldlM (step (plainTextArchive ℚ)) plainStart
        ([.addLabelById 7 1, .returnFromCall, .check, .callStop, .setShutdown, .notifyAll, .wake] ++
          cycle 16 ++ [.check, .join]) = some s ∧
      s.stopping = .returned ∧ s.covered = 1 := ⟨_, rfl, rfl, rfl⟩
  exact ⟨_, s, Run.trace hs, hret, hcovered, labels_stored_iff _ (Run.trace hs) hret⟩

end LabelsStored

end SmartScreen
