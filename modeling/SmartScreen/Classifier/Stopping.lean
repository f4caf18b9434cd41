/-
  Stopping the classifier (`DataClassifier.h`).

  Threads that push events, the thread in `run`, and the thread that stops it,
  over one mutex and one condition variable.  The stopping thread waits for no
  events and the running one for some; both wait for the same variable.

  `processOneEvent` works on the labels and the matrix, which no thread waits for.

  * `Inv` says where the threads can be; it holds in every interleaving.
  * `deadlocked_iff`: when the classifier can not be stopped any more.
  * `stop_never_deadlocks_iff`: the step that leads there.
-/
import SmartScreen.Lib.Monitor
import SmartScreen.Lib.Run

namespace SmartScreen.Stopping

open Monitor LTS

variable {π ε : Type}

/-! ## The threads -/

/-- What the threads share. -/
structure Shared (ε : Type) where
  events : List ε := []
  continueAnalyzing : Bool := true

inductive Variable where
  | eventsEmpty
deriving DecidableEq

inductive ThreadId (π : Type) where
  | pusher (p : π)
  | runner
  | stopper
deriving DecidableEq, Fintype

/-- A thread that calls `pushEvent` for the events `es` in turn. -/
inductive PushEvent (ε : Type) where
  | call (es : List ε)
  | pushBack (e : ε) (es : List ε)
  | unlock (es : List ε)
  | notify (es : List ε)
deriving DecidableEq

inductive RunLoop where
  | lock
  | wait
  | test
  | processOneEvent
  | popBack
  | unlock
  | quit
  | done
deriving DecidableEq

/-- `stopAnalyzingWhenDone`, from `stopAnalyzingImmediately` on without the mutex. -/
inductive StopAnalyzing where
  | lock
  | wait
  | unlock
  | stopAnalyzingImmediately
  | notify
  | join
  | done
deriving DecidableEq

abbrev Point (ε : Type) : ThreadId π → Type
  | .pusher _ => PushEvent ε
  | .runner => RunLoop
  | .stopper => StopAnalyzing

/-! ## The code -/

def pushEvent : PushEvent ε → Instr (ThreadId π) (Shared ε) Variable (PushEvent ε)
  | .call [] => .halt
  | .call (e :: es) => .lock (.pushBack e es)
  | .pushBack e es => .update (fun s => { s with events := s.events ++ [e] }) fun _ => .unlock es
  | .unlock es => .unlock (.notify es)
  | .notify es => .notifyOne .eventsEmpty (.call es)

def run : RunLoop → Instr (ThreadId π) (Shared ε) Variable RunLoop
  | .lock => .lock .wait
  | .wait => .wait .eventsEmpty (fun s => !s.events.isEmpty || !s.continueAnalyzing) .test
  | .test => .update id fun s => if !s.continueAnalyzing then .quit else .processOneEvent
  | .processOneEvent => .update id fun _ => .popBack
  | .popBack => .update (fun s => { s with events := s.events.dropLast }) fun _ => .unlock
  | .unlock => .unlock .lock
  | .quit => .unlock .done
  | .done => .halt

def stopAnalyzingWhenDone :
    StopAnalyzing → Instr (ThreadId π) (Shared ε) Variable StopAnalyzing
  | .lock => .lock .wait
  | .wait => .wait .eventsEmpty (fun s => s.events.isEmpty) .unlock
  | .unlock => .unlock .stopAnalyzingImmediately
  | .stopAnalyzingImmediately =>
    .update (fun s => { s with continueAnalyzing := false }) fun _ => .notify
  | .notify => .notifyAll .eventsEmpty .join
  | .join => .join .runner .done
  | .done => .halt

def PushEvent.holds : PushEvent ε → Bool
  | .pushBack _ _ | .unlock _ => true
  | .call _ | .notify _ => false

def RunLoop.holds : RunLoop → Bool
  | .wait | .test | .processOneEvent | .popBack | .unlock | .quit => true
  | .lock | .done => false

def StopAnalyzing.holds : StopAnalyzing → Bool
  | .wait | .unlock => true
  | .lock | .stopAnalyzingImmediately | .notify | .join | .done => false

def code (π ε : Type) : Program (ThreadId π) (Shared ε) Variable (Point ε) where
  instr
    | .pusher _ => pushEvent
    | .runner => run
    | .stopper => stopAnalyzingWhenDone
  holds
    | .pusher _ => PushEvent.holds
    | .runner => RunLoop.holds
    | .stopper => StopAnalyzing.holds
  disciplined := by
    intro i t
    match i with
    | .pusher _ =>
      match t with
      | .call [] => rfl
      | .call (_ :: _) | .unlock _ => exact ⟨rfl, rfl⟩
      | .pushBack _ _ => exact fun _ => rfl
      | .notify _ => rfl
    | .runner =>
      match t with
      | .lock | .wait | .unlock | .quit => exact ⟨rfl, rfl⟩
      | .test => intro s; simp only; split <;> rfl
      | .processOneEvent | .popBack => exact fun _ => rfl
      | .done => rfl
    | .stopper =>
      match t with
      | .lock | .wait | .unlock | .join => exact ⟨rfl, rfl⟩
      | .stopAnalyzingImmediately => exact fun _ => rfl
      | .notify | .done => rfl

/-- A state of the classifier. -/
abbrev System (π ε : Type) := State (ThreadId π) (Shared ε) (Point ε)

/-- The classifier has been started; the thread `p` will push `events p`. -/
def start (events : π → List ε) : System π ε where
  shared := {}
  threads
    | .pusher p => .running (.call (events p))
    | .runner => .running .lock
    | .stopper => .running .lock

/-! ## Where the threads are -/

/-- The stopping thread has cleared `continue_analyzing`. -/
def Stopped : Status StopAnalyzing → Prop
  | .running .notify | .running .join | .running .done => True
  | _ => False

/-- The running thread has seen `continue_analyzing` cleared. -/
def Quit : Status RunLoop → Prop
  | .running .quit | .running .done => True
  | _ => False

structure Inv (s : System π ε) : Prop where
  mutex : Monitor.Inv (code π ε) s
  flag : s.shared.continueAnalyzing = false ↔ Stopped (s.threads .stopper)
  quit : Quit (s.threads .runner) → s.shared.continueAnalyzing = false
  joined : s.threads .stopper = .running .done → s.threads .runner = .running .done

variable {s s' : System π ε} {x x' : Shared ε}

theorem pusher_flag {p : π} {st st' : Status (PushEvent ε)}
    (h : advance (code π ε) (.pusher p) x st = some (st', x')) :
    x'.continueAnalyzing = x.continueAnalyzing := by
  cases st with
  | running t =>
    match t with
    | .call [] => cases h
    | .call (_ :: _) | .pushBack _ _ | .unlock _ | .notify _ => cases h; rfl
  | blocking t => cases h; rfl
  | blocked t => cases h
  | woken t => cases h; rfl

theorem runner_flag {st st' : Status RunLoop}
    (h : advance (code π ε) .runner x st = some (st', x')) :
    x'.continueAnalyzing = x.continueAnalyzing := by
  cases st with
  | running t => cases t <;> cases h <;> rfl
  | blocking t => cases h; rfl
  | blocked t => cases h
  | woken t => cases h; rfl

/-- The running thread quits only after the flag was cleared. -/
theorem runner_quit {st st' : Status RunLoop}
    (h : advance (code π ε) .runner x st = some (st', x'))
    (hw : ∀ t, st = .woken t → t = .wait) (hq : Quit st → x.continueAnalyzing = false) :
    Quit st' → x'.continueAnalyzing = false := by
  intro hq'
  cases st with
  | running t =>
    cases t with
    | test =>
      cases h
      by_contra hflag
      rw [Bool.not_eq_false] at hflag
      simp [show x.continueAnalyzing = true from hflag] at hq'
      exact hq'
    | quit => cases h; exact hq trivial
    | wait =>
      cases h
      split at hq' <;> exact hq'.elim
    | done => cases h
    | lock | processOneEvent | popBack | unlock => cases h; exact hq'.elim
  | blocking t => cases h; exact hq'.elim
  | blocked t => cases h
  | woken t =>
    obtain rfl := hw t rfl
    cases h
    exact hq'.elim

theorem stopper_flag {st st' : Status StopAnalyzing}
    (h : advance (code π ε) .stopper x st = some (st', x'))
    (hw : ∀ t, st = .woken t → t = .wait) (hf : x.continueAnalyzing = false ↔ Stopped st) :
    x'.continueAnalyzing = false ↔ Stopped st' := by
  cases st with
  | running t =>
    cases t with
    | wait =>
      cases h
      rw [hf]
      split <;> exact Iff.rfl
    | stopAnalyzingImmediately => cases h; exact iff_of_true rfl trivial
    | done => cases h
    | lock | unlock => cases h; exact hf
    | notify | join => cases h; exact hf
  | blocking t => cases h; exact hf
  | blocked t => cases h
  | woken t =>
    obtain rfl := hw t rfl
    cases h
    exact hf

theorem stopper_clears {st st' : Status StopAnalyzing}
    (h : advance (code π ε) .stopper x st = some (st', x'))
    (hf : x.continueAnalyzing = false) : x'.continueAnalyzing = false := by
  cases st with
  | running t => cases t <;> cases h <;> first | exact hf | rfl
  | blocking t => cases h; exact hf
  | blocked t => cases h
  | woken t => cases h; exact hf

/-- The last thing that a pusher does is to notify. -/
theorem pusher_done {p : π} {st : Status (PushEvent ε)}
    (h : advance (code π ε) (.pusher p) x st = some (.running (.call []), x'))
    (hw : ∀ t, st ≠ .woken t) : st = .running (.notify []) := by
  cases st with
  | running t =>
    match t with
    | .notify [] => rfl
    | .call [] | .call (_ :: _) | .pushBack _ _ | .unlock _ | .notify (_ :: _) => cases h
  | blocking t | blocked t => cases h
  | woken t => exact absurd rfl (hw t)

/-- The stopping thread gets to its end, and to the `join`, in one way only. -/
theorem stopper_done {st : Status StopAnalyzing}
    (h : advance (code π ε) .stopper x st = some (.running .done, x'))
    (hw : ∀ t, st = .woken t → t = .wait) : st = .running .join := by
  cases st with
  | running t =>
    cases t with
    | wait => simp [advance, code, stopAnalyzingWhenDone] at h; split_ifs at h <;> cases h.1
    | join => rfl
    | _ => cases h
  | blocking t | blocked t => cases h
  | woken t =>
    obtain rfl := hw t rfl
    cases h

theorem stopper_join {st : Status StopAnalyzing}
    (h : advance (code π ε) .stopper x st = some (.running .join, x'))
    (hw : ∀ t, st = .woken t → t = .wait) : st = .running .notify := by
  cases st with
  | running t =>
    cases t with
    | wait => simp [advance, code, stopAnalyzingWhenDone] at h; split_ifs at h <;> cases h.1
    | notify => rfl
    | _ => cases h
  | blocking t | blocked t => cases h
  | woken t =>
    obtain rfl := hw t rfl
    cases h

theorem halted_pusher {p : π} {st : Status (PushEvent ε)} :
    Halted (code π ε) (.pusher p) st ↔ st = .running (.call []) := by
  constructor
  · rintro ⟨t, rfl, h⟩
    match t with
    | .call [] => rfl
    | .call (_ :: _) | .pushBack _ _ | .unlock _ | .notify _ => cases h
  · rintro rfl
    exact ⟨_, rfl, rfl⟩

theorem halted_runner {st : Status RunLoop} :
    Halted (code π ε) .runner st ↔ st = .running .done := by
  constructor
  · rintro ⟨t, rfl, h⟩
    cases t <;> first | rfl | cases h
  · rintro rfl
    exact ⟨_, rfl, rfl⟩

theorem halted_stopper {st : Status StopAnalyzing} :
    Halted (code π ε) .stopper st ↔ st = .running .done := by
  constructor
  · rintro ⟨t, rfl, h⟩
    cases t <;> first | rfl | cases h
  · rintro rfl
    exact ⟨_, rfl, rfl⟩

/-- The running and the stopping thread are blocked at their waits only, and the
    others not at all. -/
theorem wait_of_waits {i : ThreadId π} {t : Point ε i}
    (h : ∃ cv waiter next, (code π ε).instr i t = .wait cv waiter next) :
    match i, t with
    | .pusher _, _ => False
    | .runner, t => t = .wait
    | .stopper, t => t = .wait := by
  obtain ⟨cv, waiter, next, h⟩ := h
  match i, t with
  | .pusher _, .call [] | .pusher _, .call (_ :: _) | .pusher _, .pushBack _ _
  | .pusher _, .unlock _ | .pusher _, .notify _ => cases h
  | .runner, t => cases t <;> first | rfl | cases h
  | .stopper, t => cases t <;> first | rfl | cases h

theorem Inv.runner_waits (h : Inv s) {t : RunLoop} (ht : s.threads .runner = .blocking t ∨
    s.threads .runner = .blocked t ∨ s.threads .runner = .woken t) : t = .wait :=
  wait_of_waits (h.mutex.waits .runner t ht)

theorem Inv.stopper_waits (h : Inv s) {t : StopAnalyzing}
    (ht : s.threads .stopper = .blocking t ∨ s.threads .stopper = .blocked t ∨
      s.threads .stopper = .woken t) : t = .wait :=
  wait_of_waits (h.mutex.waits .stopper t ht)

theorem Inv.pusher_waits (h : Inv s) {p : π} {t : PushEvent ε} :
    s.threads (.pusher p) ≠ .blocked t :=
  fun ht => wait_of_waits (h.mutex.waits (.pusher p) t (Or.inr (Or.inl ht)))

theorem waitsOn_runner : WaitsOn (code π ε) .eventsEmpty .runner (.blocked .wait) :=
  ⟨_, _, rfl⟩

variable [DecidableEq π] {a : Monitor.Action (ThreadId π)}

/-- Notifying neither sets nor clears what the invariant speaks of. -/
theorem quit_other (h : Moves (code π ε) s a s') (ha : .runner ≠ a.thread) :
    Quit (s'.threads .runner) ↔ Quit (s.threads .runner) :=
  h.other_iff ha fun _ => Iff.rfl

theorem stopped_other (h : Moves (code π ε) s a s') (ha : .stopper ≠ a.thread) :
    Stopped (s'.threads .stopper) ↔ Stopped (s.threads .stopper) :=
  h.other_iff ha fun _ => Iff.rfl

/-- **The invariant** is kept by every step of every thread. -/
theorem Inv.step (h : Inv s) (hs : Moves (code π ε) s a s') : Inv s' := by
  have hself := hs.self
  have hmutex := h.mutex.step hs
  obtain ⟨i, w⟩ := a
  cases i with
  | pusher p =>
    have hflag := pusher_flag hself
    refine ⟨hmutex, ?_, ?_, ?_⟩
    · rw [hflag, stopped_other hs (by simp)]
      exact h.flag
    · rw [hflag, quit_other hs (by simp)]
      exact h.quit
    · rw [hs.running (by simp), hs.running (by simp)]
      exact h.joined
  | runner =>
    have hflag := runner_flag hself
    refine ⟨hmutex, ?_, ?_, ?_⟩
    · rw [hflag, stopped_other hs (by simp)]
      exact h.flag
    · exact runner_quit hself (fun t ht => h.runner_waits (Or.inr (Or.inr ht))) h.quit
    · rw [hs.running (by simp)]
      intro hdone
      -- a thread at its end does not step
      rw [h.joined hdone] at hself
      cases hself
  | stopper =>
    refine ⟨hmutex, ?_, ?_, ?_⟩
    · exact stopper_flag hself (fun t ht => h.stopper_waits (Or.inr (Or.inr ht))) h.flag
    · rw [quit_other hs (by simp)]
      exact fun hq => stopper_clears hself (h.quit hq)
    · intro hdone
      have hjoin : s.threads .stopper = .running .join :=
        stopper_done (hself.trans (by rw [hdone]))
          fun t ht => h.stopper_waits (Or.inr (Or.inr ht))
      rw [hs.running (by simp)]
      exact halted_runner.1 (hs.halted_of_join hjoin rfl)

/-! ## Deadlocks -/

/-- Nothing moves, and a thread is blocked although what it waits for is there,
    or the running thread although it has been told to quit. -/
def Deadlocked [Fintype π] (s : System π ε) : Prop :=
  Stuck (code π ε) s ∧
    (((∃ t, s.threads .stopper = .blocked t) ∧ s.shared.events = []) ∨
      (∃ t, s.threads .runner = .blocked t) ∧
        (s.shared.events ≠ [] ∨ s.shared.continueAnalyzing = false))

/-- All events have been pushed, and their pushers have notified. -/
def Pushed (s : System π ε) : Prop := ∀ p, s.threads (.pusher p) = .running (.call [])

/-- The stopping thread waits for the running one: for it to empty the stack, or
    to end. -/
def StopperWaits (s : System π ε) : Prop :=
  s.threads .stopper = .blocked .wait ∨ s.threads .stopper = .running .join

/-- **Deadlocks.**  No pusher is left, and the two other threads wait for each other. -/
theorem deadlocked_iff [Fintype π] (h : Inv s) :
    Deadlocked s ↔ Pushed s ∧ s.threads .runner = .blocked .wait ∧ StopperWaits s := by
  rw [Deadlocked, stuck_iff h.mutex]
  constructor
  · rintro ⟨hrest, hblocked⟩
    have hpushed : Pushed s := by
      intro p
      rcases hrest (.pusher p) with hr | ⟨t, ht⟩ | ⟨t, j, next, ht, hi, -⟩
      · exact halted_pusher.1 hr
      · exact absurd ht h.pusher_waits
      · match t with
        | .call [] | .call (_ :: _) | .pushBack _ _ | .unlock _ | .notify _ => cases hi
    have hrunner : s.threads .runner = .blocked .wait ∨ s.threads .runner = .running .done := by
      rcases hrest .runner with hr | ⟨t, ht⟩ | ⟨t, j, next, ht, hi, -⟩
      · exact Or.inr (halted_runner.1 hr)
      · exact Or.inl (h.runner_waits (Or.inr (Or.inl ht)) ▸ ht)
      · cases t <;> cases hi
    have hstopper : StopperWaits s ∨ s.threads .stopper = .running .done := by
      rcases hrest .stopper with hr | ⟨t, ht⟩ | ⟨t, j, next, ht, hi, -⟩
      · exact Or.inr (halted_stopper.1 hr)
      · exact Or.inl (Or.inl (h.stopper_waits (Or.inr (Or.inl ht)) ▸ ht))
      · cases t <;> cases hi
        exact Or.inl (Or.inr ht)
    -- a thread at its end means that nobody is blocked
    have hnotQuit : s.threads .runner ≠ .running .done := by
      intro hdone
      have hstopped := h.flag.1 (h.quit (by rw [hdone]; trivial))
      rcases hblocked with ⟨⟨t, ht⟩, -⟩ | ⟨⟨t, ht⟩, -⟩
      · rw [ht] at hstopped
        exact hstopped
      · rw [hdone] at ht
        cases ht
    exact ⟨hpushed, hrunner.resolve_right hnotQuit,
      hstopper.resolve_right fun hdone => hnotQuit (h.joined hdone)⟩
  · rintro ⟨hpushed, hrunner, hstopper⟩
    refine ⟨?_, ?_⟩
    · rintro (p | _ | _)
      · exact Or.inl (halted_pusher.2 (hpushed p))
      · exact Or.inr (Or.inl ⟨_, hrunner⟩)
      · rcases hstopper with hblocked | hjoin
        · exact Or.inr (Or.inl ⟨_, hblocked⟩)
        · refine Or.inr (Or.inr ⟨_, .runner, .done, hjoin, rfl, fun hhalted => ?_⟩)
          rw [hrunner] at hhalted
          cases halted_runner.1 hhalted
    · rcases hstopper with hblocked | hjoin
      · by_cases hevents : s.shared.events = []
        · exact Or.inl ⟨⟨_, hblocked⟩, hevents⟩
        · exact Or.inr ⟨⟨_, hrunner⟩, Or.inl hevents⟩
      · have hflag := h.flag.2 (by rw [hjoin]; trivial)
        exact Or.inr ⟨⟨_, hrunner⟩, Or.inr hflag⟩

/-- All events are pushed, and the last thread awake goes to sleep: the running
    one while the stopping one waits for it, or the stopping one while the running
    one sleeps. -/
def SleepsLast (s : System π ε) (a : Monitor.Action (ThreadId π)) : Prop :=
  Pushed s ∧
    (a.thread = .runner ∧ s.threads .runner = .blocking .wait ∧ StopperWaits s ∨
      a.thread = .stopper ∧ s.threads .stopper = .blocking .wait ∧
        s.threads .runner = .blocked .wait)

/-- A pusher's last notification wakes one of the two others. -/
theorem notified_of_pushed (h : Inv s) {p : π} {w : Option (ThreadId π)}
    (hs : Moves (code π ε) s ⟨.pusher p, w⟩ s') (hp : s'.threads (.pusher p) = .running (.call []))
    (hrunner : s'.threads .runner = .blocked .wait) : ¬ StopperWaits s' := by
  have hbefore : s.threads .runner = .blocked .wait :=
    (hs.blocked hrunner).resolve_right (by simp)
  have hnotify : s.threads (.pusher p) = .running (.notify []) :=
    pusher_done (hs.self.trans (by rw [hp]))
      fun t ht => wait_of_waits (h.mutex.waits (.pusher p) t (Or.inr (Or.inr ht)))
  obtain ⟨k, hk, hwoken⟩ := hs.wakes_one hnotify rfl (j := .runner)
    (by rw [hbefore]; exact waitsOn_runner)
  obtain ⟨t, ht, hwake, hwaits⟩ := hk.blocked
  rw [hwake] at hwoken
  cases k with
  | pusher q => exact absurd ht h.pusher_waits
  | runner => rw [hrunner] at hwoken; cases hwoken
  | stopper => rintro (hst | hst) <;> rw [hst] at hwoken <;> cases hwoken

/-- **The step into a deadlock.** -/
theorem deadlocked_step_iff [Fintype π] (h : Inv s) (hs : Moves (code π ε) s a s') :
    Deadlocked s' ↔ SleepsLast s a := by
  rw [deadlocked_iff (h.step hs)]
  have hself := hs.self
  obtain ⟨i, w⟩ := a
  constructor
  · rintro ⟨hpushed, hrunner, hstopper⟩
    have hpushers : ∀ p, i ≠ .pusher p → s.threads (.pusher p) = .running (.call []) := by
      intro p hp
      exact (hs.running (Ne.symm hp)).1 (hpushed p)
    cases i with
    | pusher p => exact absurd hstopper (notified_of_pushed h hs (hpushed p) hrunner)
    | runner =>
      refine ⟨fun p => hpushers p (by simp), Or.inl ⟨rfl, ?_, ?_⟩⟩
      · rcases hs.blocked hrunner with hr | ⟨-, hr⟩
        · simp only [hr] at hself
          cases hself
        · exact hr
      · rcases hstopper with hst | hst
        · exact Or.inl ((hs.blocked hst).resolve_right (by simp))
        · exact Or.inr ((hs.running (by simp)).1 hst)
    | stopper =>
      have hr : s.threads .runner = .blocked .wait :=
        (hs.blocked hrunner).resolve_right (by simp)
      refine ⟨fun p => hpushers p (by simp), Or.inr ⟨rfl, ?_, hr⟩⟩
      rcases hstopper with hst | hst
      · rcases hs.blocked hst with hst | ⟨-, hst⟩
        · simp only [hst] at hself
          cases hself
        · exact hst
      · -- before the join all waiters were notified
        exfalso
        have hnotify : s.threads .stopper = .running .notify :=
          stopper_join (hself.trans (by rw [hst]))
            fun t ht => h.stopper_waits (Or.inr (Or.inr ht))
        have hwoken := hs.wakes_all hnotify rfl (j := .runner)
          (by rw [hr]; exact waitsOn_runner)
        rw [hrunner, hr] at hwoken
        cases hwoken
  · rintro ⟨hpushed, ⟨rfl, hr, hst⟩ | ⟨rfl, hst, hr⟩⟩
    · refine ⟨fun p => (hs.running (by simp)).2 (hpushed p), ?_, ?_⟩
      · rw [hr] at hself
        exact (Prod.mk.inj (Option.some.inj hself)).1.symm
      · rw [StopperWaits, hs.other_of_blocking hr (by simp)]
        exact hst
    · refine ⟨fun p => (hs.running (by simp)).2 (hpushed p), ?_, ?_⟩
      · rw [hs.other_of_blocking hst (by simp)]
        exact hr
      · rw [hst] at hself
        exact Or.inl (Prod.mk.inj (Option.some.inj hself)).1.symm

/-! ## Runs -/

/-- The steps as a relation. -/
def Steps [Fintype π] (s : System π ε) (a : Monitor.Action (ThreadId π)) (s' : System π ε) : Prop :=
  Monitor.step (code π ε) s a = some s'

omit [DecidableEq π] in
theorem inv_start (events : π → List ε) : Inv (start events) := by
  refine ⟨⟨?_, ?_⟩, ?_, ?_, ?_⟩
  · rintro (p | _ | _) <;> simp [start, Inside, code, PushEvent.holds, RunLoop.holds,
      StopAnalyzing.holds]
  · rintro (p | _ | _) t ht <;> simp [start] at ht
  · simp [start, Stopped]
  · simp [start, Quit]
  · simp [start]

theorem inv_of_reach [Fintype π] {events : π → List ε} (h : Reach Steps (start events) s) :
    Inv s :=
  h.inv (inv_start events) fun _ _ _ hs hi => hi.step (moves_of_step hs)

/-- **Stopping.**  For any number of pushers and events, an interleaving has no
    deadlock iff none of its steps sends the last thread awake to sleep. -/
theorem stop_never_deadlocks_iff [Fintype π] (events : π → List ε)
    {tr : List (System π ε × Monitor.Action (ThreadId π) × System π ε)}
    (hrun : LTS.Run Steps (start events) tr s) :
    (¬ Deadlocked (start events) ∧ ∀ x ∈ tr, ¬ Deadlocked x.2.2) ↔
      ∀ x ∈ tr, ¬ SleepsLast x.1 x.2.1 := by
  have hstart : ¬ Deadlocked (start events) := by
    rw [deadlocked_iff (inv_start events)]
    rintro ⟨-, hrunner, -⟩
    cases hrunner
  rw [and_iff_right hstart]
  refine forall₂_congr fun x hx => not_congr ?_
  exact deadlocked_step_iff (inv_of_reach (hrun.reach_of_mem x hx).1)
    (moves_of_step (hrun.step_of_mem x hx))

/-- `n` steps of a thread that notifies nobody. -/
def steps (i : ThreadId π) (n : ℕ) : List (Monitor.Action (ThreadId π)) := .replicate n ⟨i, none⟩

/-- One event is pushed; the stopping thread waits for it to be done; the running
    thread takes it off the stack, tells nobody, and waits for the next one. -/
theorem stop_deadlocks :
    ∃ tr s, LTS.Run Steps (start fun _ : Unit => [0] : System Unit ℕ) tr s ∧ Deadlocked s := by
  obtain ⟨s, hs, hpusher, hrunner, hstopper⟩ : ∃ s, List.foldlM (Monitor.step (code Unit ℕ))
      (start fun _ : Unit => [0])
      (steps (.pusher ()) 4 ++ steps .stopper 3 ++ steps .runner 9) = some s ∧
      s.threads (.pusher ()) = .running (.call []) ∧ s.threads .runner = .blocked .wait ∧
        s.threads .stopper = .blocked .wait := ⟨_, rfl, rfl, rfl, rfl⟩
  have hrun := Run.trace hs
  exact ⟨_, s, hrun, (deadlocked_iff (inv_of_reach ⟨_, hrun⟩)).2
    ⟨fun _ => hpusher, hrunner, Or.inl hstopper⟩⟩

/-- The event is done before the stopping thread comes: it gets to its end. -/
theorem stop_never_deadlocks_iff_stopped :
    ∃ tr s, LTS.Run Steps (start fun _ : Unit => [0] : System Unit ℕ) tr s ∧
      s.threads .stopper = .running .done ∧
      ((¬ Deadlocked (start fun _ : Unit => [0] : System Unit ℕ) ∧
        ∀ x ∈ tr, ¬ Deadlocked x.2.2) ↔ ∀ x ∈ tr, ¬ SleepsLast x.1 x.2.1) := by
  obtain ⟨s, hs, hstopper⟩ : ∃ s, List.foldlM (Monitor.step (code Unit ℕ))
      (start fun _ : Unit => [0])
      (steps (.pusher ()) 4 ++ steps .runner 6 ++ steps .stopper 5 ++ steps .runner 4 ++
        steps .stopper 1) = some s ∧ s.threads .stopper = .running .done := ⟨_, rfl, rfl⟩
  exact ⟨_, s, Run.trace hs, hstopper, stop_never_deadlocks_iff _ (Run.trace hs)⟩

end SmartScreen.Stopping
