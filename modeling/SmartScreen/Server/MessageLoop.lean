/-
  The message loop of the server (`Init.h`).

  * One iteration is run on a message that was received; it goes on, ends the loop,
    or is left by an exception.  The thread has no handler, so that an exception
    ends the server.
  * `label` is how a `double` is read as a label.
  * `Accepts` is when an iteration finishes; nothing else makes a difference
    (`survives_iff`).
-/
import SmartScreen.Classifier.Totality
import SmartScreen.Server.Commands

namespace SmartScreen

open Loop NumberText

variable {α F : Type}

/-- What the message loop works on. -/
structure NoFaReApp (F : Type) where
  dataClassifier : DataClassifier F := {}
  shutdownNofareApp : Bool := false

/-- What leaves an iteration. -/
inductive LoopError where
  | deserialize (error : DeserializeError)
  | classifier (error : Fault)

namespace MessageLoop

variable [FloatArith F] (lib : Libraries α F) (label : Double → ℚ)

/-- Go on with what a call of the classifier leaves. -/
def afterCall {β : Type} (app : NoFaReApp F) :
    Res Fault (DataClassifier F) β → Res LoopError (NoFaReApp F) Bool
  | .ok dataClassifier _ => .ok { app with dataClassifier } true
  | .fault e dataClassifier => .fault (.classifier e) { app with dataClassifier }
  | .timeout => .timeout

/-- One iteration of `messageLoop`; it answers whether the loop goes on. -/
def iteration (app : NoFaReApp F) (message : List Char) : Res LoopError (NoFaReApp F) Bool :=
  match Command.deserialize message with
  | .error e => .fault (.deserialize e) app
  | .ok none => .ok app true
  | .ok (some (.addLabel c)) =>
    afterCall app (app.dataClassifier.addLabelById c.eventId.toNat (label c.label))
  | .ok (some (.reclassify c)) =>
    afterCall app (app.dataClassifier.reclassify lib c.eventId.toNat)
  | .ok (some (.shutdown _)) => .ok { app with shutdownNofareApp := true } false

/-- The state after a piece of code, also when an exception leaves it. -/
def stateAfter {ε σ β : Type} : Res ε σ β → Option σ
  | .ok s _ => some s
  | .fault _ s => some s
  | .timeout => none

/-! ## Surviving -/

/-- A message that has no command, that names no known event, or that asks to
    reclassify while too few events are labelled. -/
def Ignorable (c : DataClassifier F) (message : List Char) : Prop :=
  (∀ command, Command.deserialize message ≠ .ok (some command)) ∨
  (∃ command, Command.deserialize message = .ok (some (.addLabel command)) ∧
    ¬ c.eventLabelManager.Knows command.eventId.toNat) ∨
  (∃ command, Command.deserialize message = .ok (some (.reclassify command)) ∧
    (¬ c.eventLabelManager.Knows command.eventId.toNat ∨
      c.eventLabelManager.labeledEvents.length ≤ DataClassifier.numberOfNeighbors))

/-- The iteration finishes, and a message that has no effect leaves the classifier
    as it was. -/
structure Survives (app : NoFaReApp F) (message : List Char) : Prop where
  finishes : ∃ app' again, iteration lib label app message = .ok app' again
  unchanged : Ignorable app.dataClassifier message →
    ∀ app', stateAfter (iteration lib label app message) = some app' →
      app'.dataClassifier.eventLabelManager = app.dataClassifier.eventLabelManager ∧
      app'.dataClassifier.labeledMatrix = app.dataClassifier.labeledMatrix ∧
      app'.dataClassifier.nns = app.dataClassifier.nns

/-- Behind `add-label:` there are a number and, after the first comma, a label; and
    if an event has the number, the matrix can be regenerated with it. -/
def AcceptsAddLabel (c : DataClassifier F) (rest : List Char) : Prop :=
  ∃ idText labelText eventId d, rest = idText ++ ',' :: labelText ∧ ',' ∉ idText ∧
    labelText ≠ [] ∧ stoul idText = .ok eventId ∧ stod labelText = .ok d ∧
    (c.eventLabelManager.Knows eventId.toNat → c.Regenerable
      ((c.eventLabelManager.labeledWith eventId.toNat).map EventFeatures.featureVector))

/-- Behind `reclassify:` there is a number; and if an unlabelled event has it, the
    classification of the event answers. -/
def AcceptsReclassify (c : DataClassifier F) (rest : List Char) : Prop :=
  ∃ eventId, stoul rest = .ok eventId ∧
    ∀ f ∈ c.eventLabelManager.getEvent eventId.toNat, c.Answers lib f

/-- Every other message is accepted. -/
structure Accepts (c : DataClassifier F) (message : List Char) : Prop where
  addLabel : ∀ rest, message = AddLabelCommand.commandPrefix ++ rest → AcceptsAddLabel c rest
  reclassify : ∀ rest, message = ReclassifyCommand.commandPrefix ++ rest →
    AcceptsReclassify lib c rest

section
variable {lib label} {app : NoFaReApp F} {message rest : List Char}

omit [FloatArith F] in
theorem afterCall_ok_iff {β : Type} {r : Res Fault (DataClassifier F) β} :
    (∃ app' again, afterCall app r = .ok app' again) ↔ ∃ c b, r = .ok c b := by
  cases r with
  | ok c b => exact iff_of_true ⟨_, _, rfl⟩ ⟨_, _, rfl⟩
  | fault e c => simp [afterCall]
  | timeout => simp [afterCall]

/-- **A message that adds a label** is accepted iff its iteration finishes. -/
theorem iteration_addLabel_ok_iff :
    (∃ app' again, iteration lib label app (AddLabelCommand.commandPrefix ++ rest) =
      .ok app' again) ↔ AcceptsAddLabel app.dataClassifier rest := by
  constructor
  · rintro ⟨app', again, h⟩
    rw [iteration, Command.deserialize_addLabel] at h
    cases hread : AddLabelCommand.deserialize (AddLabelCommand.commandPrefix ++ rest) with
    | error e =>
      rw [hread] at h
      cases h
    | ok c =>
      rw [hread] at h
      obtain ⟨idText, labelText, hrest, hid, hlabel, hstoul, hstod⟩ :=
        AddLabelCommand.deserialize_eq_ok_iff.1 hread
      have hcall := afterCall_ok_iff.1 ⟨app', again, h⟩
      exact ⟨idText, labelText, c.eventId, c.label, hrest, hid, hlabel, hstoul, hstod,
        (DataClassifier.addLabelById_ok_iff _ _).1 hcall⟩
  · rintro ⟨idText, labelText, eventId, d, hrest, hid, hlabel, hstoul, hstod, hadd⟩
    have hread : AddLabelCommand.deserialize (AddLabelCommand.commandPrefix ++ rest) =
        .ok ⟨eventId, d⟩ :=
      AddLabelCommand.deserialize_eq_ok_iff.2 ⟨idText, labelText, hrest, hid, hlabel, hstoul, hstod⟩
    rw [iteration, Command.deserialize_addLabel, hread]
    exact afterCall_ok_iff.2 ((DataClassifier.addLabelById_ok_iff _ _).2 hadd)

/-- **A message that reclassifies** is accepted iff its iteration finishes. -/
theorem iteration_reclassify_ok_iff :
    (∃ app' again, iteration lib label app (ReclassifyCommand.commandPrefix ++ rest) =
      .ok app' again) ↔ AcceptsReclassify lib app.dataClassifier rest := by
  rw [iteration, Command.deserialize_reclassify, ReclassifyCommand.deserialize_eq]
  unfold AcceptsReclassify
  cases stoul rest with
  | error e => simp [Except.map]
  | ok eventId =>
    simp only [Except.map, Except.ok.injEq, exists_eq_left']
    rw [afterCall_ok_iff, ← DataClassifier.reclassify_ok_iff]
    exact ⟨fun ⟨c, _, h⟩ => ⟨c, h⟩, fun ⟨c, h⟩ => ⟨c, (), h⟩⟩

/-- **When an iteration finishes.** -/
theorem iteration_ok_iff :
    (∃ app' again, iteration lib label app message = .ok app' again) ↔
      Accepts lib app.dataClassifier message := by
  constructor
  · intro h
    constructor
    · rintro rest rfl
      exact iteration_addLabel_ok_iff.1 h
    · rintro rest rfl
      exact iteration_reclassify_ok_iff.1 h
  · intro h
    by_cases hadd : AddLabelCommand.isAddLabelCommand message = true
    · obtain ⟨rest, rfl⟩ := hasPrefix_iff.1 hadd
      exact iteration_addLabel_ok_iff.2 (h.addLabel rest rfl)
    by_cases hreclassify : ReclassifyCommand.isReclassifyCommand message = true
    · obtain ⟨rest, rfl⟩ := hasPrefix_iff.1 hreclassify
      exact iteration_reclassify_ok_iff.2 (h.reclassify rest rfl)
    · rw [iteration, Command.deserialize, if_neg hadd, if_neg hreclassify]
      split_ifs <;> exact ⟨_, _, rfl⟩

/-! ## What has no effect -/

/-- **A message without effect** leaves the classifier as it was, also when an
    exception leaves the iteration. -/
theorem dataClassifier_of_ignorable {app' : NoFaReApp F}
    (h : Ignorable app.dataClassifier message)
    (h' : stateAfter (iteration lib label app message) = some app') :
    app'.dataClassifier = app.dataClassifier := by
  rw [iteration] at h'
  rcases h with h | ⟨c, h, hknows⟩ | ⟨c, h, hfew⟩
  · cases hread : Command.deserialize message with
    | error e =>
      rw [hread] at h'
      cases h'
      rfl
    | ok command =>
      cases command with
      | none =>
        rw [hread] at h'
        cases h'
        rfl
      | some command => exact absurd hread (h command)
  · rw [h] at h'
    dsimp only at h'
    rw [DataClassifier.addLabelById, EventLabelManager.addLabelById_of_not_knows _ hknows] at h'
    cases h'
    rfl
  · rw [h] at h'
    dsimp only at h'
    rw [DataClassifier.reclassify] at h'
    cases hget : app.dataClassifier.eventLabelManager.getEvent c.eventId.toNat with
    | none =>
      rw [hget] at h'
      cases h'
      rfl
    | some f =>
      -- an event that is found is known, so too few are labelled
      have hlen : app.dataClassifier.eventLabelManager.labeledEvents.length ≤
          DataClassifier.numberOfNeighbors := by
        refine hfew.resolve_left (not_not.2 ⟨f, ?_, List.find?_some hget⟩)
        exact List.mem_append_right _ (List.mem_of_find?_eq_some hget)
      have herror : app.dataClassifier.classifyOneEvent lib f = .error .exception :=
        DataClassifier.classifyOneEvent_exception_iff.2 (Or.inl hlen)
      rw [hget] at h'
      dsimp only at h'
      rw [herror] at h'
      cases h'
      rfl

/-- **The message loop survives exactly the messages that it accepts.** -/
theorem survives_iff (lib : Libraries α F) (label : Double → ℚ) (app : NoFaReApp F)
    (message : List Char) :
    Survives lib label app message ↔ Accepts lib app.dataClassifier message := by
  constructor
  · intro h
    exact iteration_ok_iff.1 h.finishes
  · intro h
    constructor
    · exact iteration_ok_iff.2 h
    · intro hignorable app' happ'
      rw [dataClassifier_of_ignorable hignorable happ']
      exact ⟨rfl, rfl, rfl⟩

end

/-- A label that is not there, and an event that cannot be classified because too
    few are labelled. -/
theorem not_survives :
    ¬ Survives DataClassifier.flatLibraries (fun _ => 0) ({} : NoFaReApp ℚ) "add-label:7,".toList ∧
      ¬ Survives DataClassifier.flatLibraries (fun _ => 0)
        { dataClassifier := { eventLabelManager :=
          { unlabeledEvents := [{ eventMetaData := { eventId := some 7 } }] } } }
        "reclassify:7".toList := by
  constructor
  · intro h
    obtain ⟨app', again, h⟩ := h.finishes
    have hread : Command.deserialize "add-label:7,".toList = .error (.int (-1)) := by decide
    rw [iteration, hread] at h
    cases h
  · intro h
    obtain ⟨app', again, h⟩ := h.finishes
    have hread : Command.deserialize "reclassify:7".toList = .ok (some (.reclassify ⟨7⟩)) := by
      decide
    rw [iteration, hread] at h
    cases h

end MessageLoop

end SmartScreen
