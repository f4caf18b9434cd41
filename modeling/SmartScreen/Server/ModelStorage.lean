/-
  How the model is stored and loaded (`ModelSerialization.hpp`, `Init.h`).

  A cycle of `storeModelThreadFunction` writes an archive to the old path, removes
  the new path and renames.  The stream is a local variable: what its buffer holds
  is written when the scope ends, after the renaming.

  * The operations on files are the steps, and each item is written and flushed by
    a step of its own.  A crash leaves the file system as it is.
  * A phase carries the file and the buffer of its stream.
  * `last` is what is loaded from the model of the last cycle.
-/
import SmartScreen.Classifier.Serialization
import SmartScreen.Lib.FileSystem
import SmartScreen.Lib.Run

namespace SmartScreen

open Archive Codec Files LTS

variable {ι F : Type}

/-! ## Archives -/

/-- Text archives start with a header. -/
structure TextArchive (ι F : Type) extends Boost ι F where
  header : Codec ι Unit
  header_lawful : header.Lawful id

namespace TextArchive

/-- The archive of a manager. -/
def model (A : TextArchive ι F) : Codec ι (Unit × EventLabelManager F) :=
  A.header.prod A.eventLabelManager

theorem lawful_model (A : TextArchive ι F) : A.model.Lawful (Prod.map id A.restored) :=
  A.header_lawful.prod A.lawful_eventLabelManager

end TextArchive

def oldSerializedPath : String := "model.archive.backup"

def newSerializedPath : String := "model.archive"

/-- `loadOldModel`: the manager, or none after an exception. -/
def loadOldModel (A : TextArchive ι F) (fs : FileSystem String ι) :
    Option (EventLabelManager F) := do
  let contents ← fs.read newSerializedPath
  let ((_, manager), _) ← A.model.load contents
  some manager

/-! ## Storing -/

/-- Where the thread is in its cycle. -/
inductive StoragePhase (ι F : Type) where
  | waiting
  /-- the stream is open, and the archive has written its header -/
  | opened (file : ℕ) (buffer : List ι)
  /-- `pending` is still to be written of the manager -/
  | writing (file : ℕ) (buffer pending : List ι) (manager : EventLabelManager F)
  | removed (file : ℕ) (buffer : List ι) (manager : EventLabelManager F)
  | renamed (file : ℕ) (buffer : List ι) (manager : EventLabelManager F)

structure ModelStorage (ι F : Type) where
  fs : FileSystem String ι
  phase : StoragePhase ι F := .waiting
  last : Option (EventLabelManager F)

namespace ModelStorage

inductive Action (F : Type) where
  | openStream
  | getEventLabelManager (manager : EventLabelManager F)
  | write
  | flush
  | remove
  | rename
  | close

variable (A : TextArchive ι F)

/-- One step of a cycle. -/
def step (s : ModelStorage ι F) : Action F → Option (ModelStorage ι F)
  | .openStream =>
    match s.phase with
    | .waiting =>
      let (fs, file) := s.fs.truncate oldSerializedPath
      some { s with fs, phase := .opened file (A.header.save ()) }
    | _ => none
  | .getEventLabelManager manager =>
    match s.phase with
    | .opened file buffer =>
      some { s with phase := .writing file buffer (A.eventLabelManager.save manager) manager }
    | _ => none
  | .write =>
    match s.phase with
    | .writing file buffer (x :: pending) manager =>
      some { s with phase := .writing file (buffer ++ [x]) pending manager }
    | _ => none
  | .flush =>
    match s.phase with
    | .writing file (x :: buffer) pending manager =>
      some { s with fs := s.fs.append file [x], phase := .writing file buffer pending manager }
    | .renamed file (x :: buffer) manager =>
      some { s with fs := s.fs.append file [x], phase := .renamed file buffer manager }
    | _ => none
  | .remove =>
    match s.phase with
    | .writing file buffer [] manager =>
      some { s with fs := s.fs.remove newSerializedPath, phase := .removed file buffer manager }
    | _ => none
  | .rename =>
    match s.phase with
    | .removed file buffer manager =>
      some { s with fs := s.fs.rename oldSerializedPath newSerializedPath
                    phase := .renamed file buffer manager }
    | _ => none
  | .close =>
    match s.phase with
    | .renamed _ [] manager =>
      some { s with phase := .waiting, last := some (A.restored manager) }
    | _ => none

/-- What the thread does, as a relation. -/
def Steps (s : ModelStorage ι F) (a : Action F) (s' : ModelStorage ι F) : Prop :=
  s.step A a = some s'

/-- The thread is started on a file system. -/
def start (fs : FileSystem String ι) : ModelStorage ι F :=
  { fs, last := loadOldModel A fs }

/-- The manager of the cycle in progress. -/
def current (s : ModelStorage ι F) : Option (EventLabelManager F) :=
  match s.phase with
  | .waiting | .opened .. => none
  | .writing _ _ _ manager | .removed _ _ manager | .renamed _ _ manager => some manager

/-- What is loaded after the cycle in progress, unless a manager is still read for it. -/
def next (s : ModelStorage ι F) : Option (EventLabelManager F) :=
  match s.current with
  | some m => some (A.restored m)
  | none => s.last

/-- The manager of the cycle has not been read. -/
def beforeReading (s : ModelStorage ι F) : Bool :=
  match s.phase with
  | .waiting | .opened .. => true
  | .writing .. | .removed .. | .renamed .. => false

/-- After a crash the model of the last cycle is loaded, or that of the cycle in
    progress. -/
def Recovers (s : ModelStorage ι F) : Prop :=
  ∃ manager, loadOldModel A s.fs = some manager ∧
    (s.last = some manager ∨ ∃ m, s.current = some m ∧ manager = A.restored m)

/-- There is a file at the new path, and no stream has something left for it. -/
def CrashSafe (s : ModelStorage ι F) : Prop :=
  match s.phase with
  | .waiting | .opened .. | .writing .. => True
  | .removed .. => False
  | .renamed _ buffer _ => buffer = []

/-! ## What a cycle leaves -/

/-- Where the archive is, and what is loaded meanwhile. -/
def Inv (s : ModelStorage ι F) : Prop :=
  match s.phase with
  | .waiting => loadOldModel A s.fs = s.last
  | .opened file buffer =>
    s.fs.names oldSerializedPath = some file ∧
      s.fs.contents file ++ buffer = A.header.save () ∧ loadOldModel A s.fs = s.last
  | .writing file buffer pending manager =>
    s.fs.names oldSerializedPath = some file ∧
      s.fs.contents file ++ buffer ++ pending = A.model.save ((), manager) ∧
        loadOldModel A s.fs = s.last
  | .removed file buffer manager =>
    s.fs.names oldSerializedPath = some file ∧
      s.fs.contents file ++ buffer = A.model.save ((), manager) ∧
        s.fs.read newSerializedPath = none
  | .renamed file buffer manager =>
    s.fs.names newSerializedPath = some file ∧
      s.fs.contents file ++ buffer = A.model.save ((), manager)

section
variable {A} {s s' : ModelStorage ι F} {a : Action F} {fs fs' : FileSystem String ι} {file : ℕ}
  {buffer : List ι} {m : EventLabelManager F}

theorem newSerializedPath_ne : newSerializedPath ≠ oldSerializedPath := by decide

theorem loadOldModel_congr (h : fs'.read newSerializedPath = fs.read newSerializedPath) :
    loadOldModel A fs' = loadOldModel A fs := by
  rw [loadOldModel, h]
  rfl

/-- A complete archive is loaded. -/
theorem loadOldModel_complete (h : fs.read newSerializedPath = some (A.model.save ((), m))) :
    loadOldModel A fs = some (A.restored m) := by
  rw [loadOldModel, h]
  show (A.model.load (A.model.save ((), m))).bind _ = _
  rw [A.lawful_model.restores_nil]
  rfl

/-- What has been cut off is not. -/
theorem loadOldModel_cut (h : fs.names newSerializedPath = some file)
    (hcut : fs.contents file ++ buffer = A.model.save ((), m)) (hne : buffer ≠ []) :
    loadOldModel A fs = none := by
  have hread : fs.read newSerializedPath = some (fs.contents file) := by
    rw [FileSystem.read, h]
    rfl
  have hload : A.model.load (fs.contents file) = none := by
    apply A.lawful_model.complete ((), m)
    · rw [← hcut]
      exact List.prefix_append ..
    · rw [← hcut]
      intro heq
      exact hne (List.append_cancel_left ((List.append_nil _).trans heq)).symm
  rw [loadOldModel, hread]
  show (A.model.load (fs.contents file)).bind _ = _
  rw [hload]
  rfl

theorem loadOldModel_absent (h : fs.read newSerializedPath = none) : loadOldModel A fs = none := by
  rw [loadOldModel, h]
  rfl

theorem loadOldModel_append (h : fs.names oldSerializedPath = some file) (xs : List ι) :
    loadOldModel A (fs.append file xs) = loadOldModel A fs := by
  apply loadOldModel_congr
  apply FileSystem.read_append_of_ne
  intro hnew
  exact newSerializedPath_ne (fs.injective _ _ file hnew h)

/-! ### Steps -/

theorem Inv.openStream (h : s.phase = .waiting) (hi : Inv A s) :
    Inv A { s with fs := (s.fs.truncate oldSerializedPath).1
                   phase := .opened (s.fs.truncate oldSerializedPath).2 (A.header.save ()) } := by
  rw [Inv, h] at hi
  refine ⟨FileSystem.names_truncate, ?_, ?_⟩
  · dsimp only
    rw [FileSystem.contents_truncate, List.nil_append]
  · rw [← hi]
    exact loadOldModel_congr (FileSystem.read_truncate_of_ne newSerializedPath_ne)

theorem Inv.step (h : Steps A s a s') (hi : Inv A s) : Inv A s' := by
  obtain ⟨fs, phase, last⟩ := s
  cases a with
  | openStream =>
    cases phase <;> cases h
    exact Inv.openStream rfl hi
  | getEventLabelManager manager =>
    cases phase <;> cases h
    obtain ⟨hnames, hcontents, hload⟩ := hi
    refine ⟨hnames, ?_, hload⟩
    dsimp only at hcontents ⊢
    rw [hcontents]
    rfl
  | write =>
    cases phase with
    | writing file buffer pending manager =>
      cases pending with
      | nil => cases h
      | cons x pending =>
        cases h
        obtain ⟨hnames, hcontents, hload⟩ := hi
        refine ⟨hnames, ?_, hload⟩
        rw [← hcontents]
        simp
    | _ => cases h
  | flush =>
    cases phase with
    | writing file buffer pending manager =>
      cases buffer with
      | nil => cases h
      | cons x buffer =>
        cases h
        obtain ⟨hnames, hcontents, hload⟩ := hi
        refine ⟨hnames, ?_, ?_⟩
        · rw [← hcontents]
          dsimp only
          rw [FileSystem.contents_append]
          simp
        · exact (loadOldModel_append hnames [x]).trans hload
    | renamed file buffer manager =>
      cases buffer with
      | nil => cases h
      | cons x buffer =>
        cases h
        obtain ⟨hnames, hcontents⟩ := hi
        refine ⟨hnames, ?_⟩
        rw [← hcontents]
        dsimp only
        rw [FileSystem.contents_append]
        simp
    | _ => cases h
  | remove =>
    cases phase with
    | writing file buffer pending manager =>
      cases pending with
      | cons x pending => cases h
      | nil =>
        cases h
        obtain ⟨hnames, hcontents, -⟩ := hi
        rw [List.append_nil] at hcontents
        refine ⟨?_, hcontents, FileSystem.read_remove⟩
        rw [← hnames]
        exact FileSystem.names_remove_of_ne newSerializedPath_ne.symm
    | _ => cases h
  | rename =>
    cases phase <;> cases h
    obtain ⟨hnames, hcontents, -⟩ := hi
    exact ⟨FileSystem.names_rename hnames, hcontents⟩
  | close =>
    cases phase with
    | renamed file buffer manager =>
      cases buffer with
      | cons x buffer => cases h
      | nil =>
        cases h
        obtain ⟨hnames, hcontents⟩ := hi
        apply loadOldModel_complete
        rw [FileSystem.read, hnames, ← hcontents, List.append_nil]
        rfl
    | _ => cases h

/-- What a step does to the model that will be loaded. -/
theorem step_cases (h : Steps A s a s') :
    (a = .openStream ∧ s.beforeReading = true ∧ s'.beforeReading = true ∧
      s'.next A = s.next A) ∨
    (∃ m, a = .getEventLabelManager m ∧ s.beforeReading = true ∧ s'.beforeReading = false ∧
      s'.next A = some (A.restored m)) ∨
    (a = .close ∧ s.beforeReading = false ∧ s'.phase = .waiting ∧ s'.next A = s.next A) ∨
    ((a = .write ∨ a = .flush ∨ a = .remove ∨ a = .rename) ∧ s.beforeReading = false ∧
      s'.beforeReading = false ∧ s'.next A = s.next A) := by
  obtain ⟨fs, phase, last⟩ := s
  cases a with
  | openStream =>
    cases phase <;> cases h
    exact .inl ⟨rfl, rfl, rfl, rfl⟩
  | getEventLabelManager manager =>
    cases phase <;> cases h
    exact .inr (.inl ⟨manager, rfl, rfl, rfl, rfl⟩)
  | close =>
    cases phase with
    | renamed file buffer manager =>
      cases buffer <;> cases h
      exact .inr (.inr (.inl ⟨rfl, rfl, rfl, rfl⟩))
    | _ => cases h
  | write | flush | remove =>
    refine .inr (.inr (.inr ⟨by simp, ?_⟩))
    cases phase with
    | writing file buffer pending manager =>
      cases buffer <;> cases pending <;> cases h
      all_goals exact ⟨rfl, rfl, rfl⟩
    | renamed file buffer manager =>
      cases buffer <;> cases h
      all_goals exact ⟨rfl, rfl, rfl⟩
    | _ => cases h
  | rename =>
    cases phase <;> cases h
    exact .inr (.inr (.inr ⟨by simp, rfl, rfl, rfl⟩))

/-- The last cycle has a model, once there is one. -/
theorem last_isSome_step (h : Steps A s a s') (hs : s.last.isSome) : s'.last.isSome := by
  obtain ⟨fs, phase, last⟩ := s
  cases a with
  | close =>
    cases phase with
    | renamed file buffer manager =>
      cases buffer <;> cases h
      rfl
    | _ => cases h
  | flush | write | remove =>
    cases phase with
    | writing file buffer pending manager =>
      cases buffer <;> cases pending <;> cases h
      all_goals exact hs
    | renamed file buffer manager =>
      cases buffer <;> cases h
      all_goals exact hs
    | _ => cases h
  | _ =>
    cases phase <;> cases h
    exact hs

/-- A state is recovered iff it is safe to crash in it. -/
theorem recovers_iff (hi : Inv A s) (hlast : s.last.isSome) : Recovers A s ↔ CrashSafe s := by
  obtain ⟨m, hm⟩ := Option.isSome_iff_exists.1 hlast
  obtain ⟨fs, phase, last⟩ := s
  dsimp only at hm
  subst hm
  cases phase with
  | waiting => exact iff_of_true ⟨m, hi, .inl rfl⟩ trivial
  | opened file buffer => exact iff_of_true ⟨m, hi.2.2, .inl rfl⟩ trivial
  | writing file buffer pending manager => exact iff_of_true ⟨m, hi.2.2, .inl rfl⟩ trivial
  | removed file buffer manager =>
    refine iff_of_false ?_ id
    rintro ⟨m', hm', -⟩
    rw [loadOldModel_absent hi.2.2] at hm'
    cases hm'
  | renamed file buffer manager =>
    obtain ⟨hnames, hcontents⟩ := hi
    constructor
    · rintro ⟨m', hm', -⟩
      by_contra hne
      rw [loadOldModel_cut hnames hcontents hne] at hm'
      cases hm'
    · intro hnil
      have hbuffer : buffer = [] := hnil
      refine ⟨A.restored manager, ?_, .inr ⟨manager, rfl, rfl⟩⟩
      apply loadOldModel_complete
      rw [FileSystem.read, hnames, ← hcontents, hbuffer, List.append_nil]
      rfl

end

/-- **After a crash a model is found** iff the crash falls neither between removing
    and renaming nor between renaming and the last flush. -/
theorem crash_safe_iff (A : TextArchive ι F) {fs : FileSystem String ι}
    {m : EventLabelManager F} {tr : List (ModelStorage ι F × Action F × ModelStorage ι F)}
    {s : ModelStorage ι F}
    (hfs : fs.read newSerializedPath = some (A.model.save ((), m)))
    (hrun : Run (Steps A) (start A fs) tr s) : Recovers A s ↔ CrashSafe s := by
  have hload : (start A fs).last = some (A.restored m) := loadOldModel_complete hfs
  have hinv := hrun.inv (I := fun s => Inv A s ∧ s.last.isSome)
    ⟨rfl, Option.isSome_iff_exists.2 ⟨_, hload⟩⟩
    fun x _ hx hi => ⟨hi.1.step hx, last_isSome_step hx hi.2⟩
  exact recovers_iff hinv.1 hinv.2

/-! ## One cycle -/

/-- Plain archives, with one item as header. -/
def plainTextArchive (F : Type) : TextArchive (Item F) F where
  toBoost := plainBoost F
  header := (plainUnsignedLong F).via (fun _ => 0) fun _ => ()
  header_lawful := lawful_plainUnsignedLong.via _ _

/-- A file system with one model. -/
def oneModel (A : TextArchive ι F) (m : EventLabelManager F) : FileSystem String ι where
  names p := if p = newSerializedPath then some 0 else none
  contents _ := A.model.save ((), m)
  next := 1
  lt_next p k h := by
    split_ifs at h
    cases h
    decide
  injective p q k hp hq := by
    split_ifs at hp hq with h h'
    rw [h, h']

/-- The thread on a file system with a model without events. -/
def plainStart : ModelStorage (Item ℚ) ℚ :=
  start (plainTextArchive ℚ) (oneModel (plainTextArchive ℚ) {})

/-- The steps of a cycle that stores a manager without events, up to removing. -/
def cycle : List (Action ℚ) :=
  [.openStream, .getEventLabelManager {}, .write, .write, .write, .remove]

/-- After removing there is no model, and after renaming it still is in the buffer. -/
theorem model_lost :
    ∃ tr s s', Run (Steps (plainTextArchive ℚ)) plainStart tr s ∧
      Run (Steps (plainTextArchive ℚ)) plainStart (tr ++ [(s, .rename, s')]) s' ∧
      ¬ Recovers (plainTextArchive ℚ) s ∧ ¬ Recovers (plainTextArchive ℚ) s' := by
  obtain ⟨s, hs, hload, s', hs', hload'⟩ : ∃ s,
      cycle.foldlM (step (plainTextArchive ℚ)) plainStart = some s ∧
      loadOldModel (plainTextArchive ℚ) s.fs = none ∧
      ∃ s', s.step (plainTextArchive ℚ) .rename = some s' ∧
        loadOldModel (plainTextArchive ℚ) s'.fs = none := ⟨_, rfl, rfl, _, rfl, rfl⟩
  have hrun : Run (Steps (plainTextArchive ℚ)) plainStart _ s := Run.trace hs
  refine ⟨_, s, s', hrun, hrun.snoc hs', ?_, ?_⟩
  · rintro ⟨manager, hmanager, -⟩
    rw [hload] at hmanager
    cases hmanager
  · rintro ⟨manager, hmanager, -⟩
    rw [hload'] at hmanager
    cases hmanager

/-- A whole cycle that stores a manager with one event, and the next one up to its first
    item. -/
def secondCycle : List (Action ℚ) :=
  [.openStream, .getEventLabelManager { unlabeledEvents := [{ featureVector := [1] }] }] ++
    .replicate 14 .write ++ [.remove, .rename] ++ .replicate 15 .flush ++
    [.close, .openStream, .getEventLabelManager {}, .write, .flush]

/-- After a crash in the second cycle the manager with the event is loaded. -/
theorem crash_safe_iff_secondCycle :
    ∃ tr s, Run (Steps (plainTextArchive ℚ)) plainStart tr s ∧
      s.last.map (·.unlabeledEvents.length) = some 1 ∧ s.current = some {} ∧
      Recovers (plainTextArchive ℚ) s := by
  obtain ⟨s, hs, hlast, hcurrent, hsafe⟩ : ∃ s,
      secondCycle.foldlM (step (plainTextArchive ℚ)) plainStart = some s ∧
      s.last.map (·.unlabeledEvents.length) = some 1 ∧ s.current = some {} ∧ CrashSafe s :=
    ⟨_, rfl, rfl, rfl, trivial⟩
  have hrun : Run (Steps (plainTextArchive ℚ)) plainStart _ s := Run.trace hs
  exact ⟨_, s, hrun, hlast, hcurrent, (crash_safe_iff (m := {}) _ rfl hrun).2 hsafe⟩

end ModelStorage

end SmartScreen
