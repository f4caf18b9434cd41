/-
  The stack of the classifier: what becomes of the events that are pushed.

  `run` takes the last event of the stack, processes it, and removes it, all while it
  holds the mutex.  A run of the threads records what is pushed and what is processed; its
  steps are those of the threads and the spurious wakeups of those that are blocked.

  * `Accounted`: what has been pushed is what has been processed and what is left;
  * `exists_finds_empty`: who is behind the wait of `stopAnalyzingWhenDone` has found the
    stack empty in one step of the run;
  * `processed_once`: no interleaving loses an event, processes one twice, or looks at an
    empty stack.
-/
import SmartScreen.Classifier.Stopping

namespace SmartScreen.Stopping

open Monitor LTS

variable {π ε : Type}

/-! ## What a thread does with events -/

/-- What the thread pushes with its next step. -/
def pushes : Status (PushEvent ε) → List ε
  | .running (.pushBack e _) => [e]
  | _ => []

/-- What a pusher has still to push. -/
def PushEvent.left : PushEvent ε → List ε
  | .call es | .unlock es | .notify es => es
  | .pushBack e es => e :: es

def left : Status (PushEvent ε) → List ε
  | .running t | .blocking t | .blocked t | .woken t => t.left

/-- What `run` processes with its next step. -/
def processes (events : List ε) : Status RunLoop → List ε
  | .running .processOneEvent => events.getLast?.toList
  | _ => []

/-- The events that are still to be processed; the last one has been before it is
    removed. -/
def waitingAt (events : List ε) : Status RunLoop → List ε
  | .running .popBack => events.dropLast
  | _ => events

/-- Behind its wait `run` finds an event, unless it has been told to quit. -/
def FindsEvent (x : Shared ε) : Status RunLoop → Prop
  | .running .test => x.events ≠ [] ∨ x.continueAnalyzing = false
  | .running .processOneEvent | .running .popBack => x.events ≠ []
  | _ => True

section
variable {x x' : Shared ε}

theorem pusher_events {p : π} {st st' : Status (PushEvent ε)}
    (h : advance (code π ε) (.pusher p) x st = some (st', x')) :
    x'.events = x.events ++ pushes st ∧ pushes st ++ left st' = left st := by
  cases st with
  | running t =>
    match t with
    | .call [] => cases h
    | .call (_ :: _) | .unlock _ | .notify _ =>
      cases h
      exact ⟨(List.append_nil _).symm, rfl⟩
    | .pushBack _ _ =>
      cases h
      exact ⟨rfl, rfl⟩
  | blocking t | woken t =>
    cases h
    exact ⟨(List.append_nil _).symm, rfl⟩
  | blocked t => cases h

theorem stopper_events {st st' : Status StopAnalyzing}
    (h : advance (code π ε) .stopper x st = some (st', x')) : x'.events = x.events := by
  cases st with
  | running t => cases t <;> cases h <;> rfl
  | blocking t | woken t => cases h; rfl
  | blocked t => cases h

/-- An event moves from those that wait to those that are processed. -/
theorem runner_events {st st' : Status RunLoop}
    (h : advance (code π ε) .runner x st = some (st', x'))
    (hw : ∀ t, st = .woken t → t = .wait) (hfinds : FindsEvent x st) :
    (processes x.events st ++ waitingAt x'.events st').Perm (waitingAt x.events st) := by
  cases st with
  | running t =>
    cases t with
    | wait =>
      cases h
      split <;> exact .refl _
    | test =>
      cases h
      cases hquit : x.continueAnalyzing <;> simp [processes, waitingAt, hquit]
    | processOneEvent =>
      cases h
      have hlast : x.events.getLast?.toList = [x.events.getLast hfinds] := by
        rw [List.getLast?_eq_some_getLast hfinds]
        rfl
      show (x.events.getLast?.toList ++ x.events.dropLast).Perm x.events
      rw [hlast]
      refine List.perm_append_comm.trans ?_
      rw [List.dropLast_append_getLast hfinds]
    | lock | popBack | unlock | quit =>
      cases h
      exact .refl _
    | done => cases h
  | blocking t =>
    cases h
    exact .refl _
  | blocked t => cases h
  | woken t =>
    obtain rfl := hw t rfl
    cases h
    exact .refl _

theorem runner_finds {st st' : Status RunLoop}
    (h : advance (code π ε) .runner x st = some (st', x'))
    (hw : ∀ t, st = .woken t → t = .wait) (hfinds : FindsEvent x st) : FindsEvent x' st' := by
  cases st with
  | running t =>
    cases t with
    | wait =>
      cases h
      split
      · rename_i hwaiter
        show x.events ≠ [] ∨ x.continueAnalyzing = false
        simpa using hwaiter
      · trivial
    | test =>
      cases h
      have hfinds : x.events ≠ [] ∨ x.continueAnalyzing = false := hfinds
      by_cases hquit : x.continueAnalyzing = true
      · simpa [hquit, FindsEvent] using hfinds
      · simp [hquit, FindsEvent]
    | processOneEvent =>
      cases h
      exact hfinds
    | lock | popBack | unlock | quit =>
      cases h
      trivial
    | done => cases h
  | blocking t =>
    cases h
    trivial
  | blocked t => cases h
  | woken t =>
    obtain rfl := hw t rfl
    cases h
    trivial

/-- The other threads take no event away and do not take back that `run` is to quit. -/
theorem FindsEvent.mono {st : Status RunLoop} (h : FindsEvent x st)
    (hevents : x.events ≠ [] → x'.events ≠ [])
    (hflag : x.continueAnalyzing = false → x'.continueAnalyzing = false) : FindsEvent x' st := by
  cases st with
  | running t =>
    cases t with
    | test => exact h.imp hevents hflag
    | processOneEvent | popBack => exact hevents h
    | _ => trivial
  | _ => trivial

end

/-! ## Runs -/

variable [DecidableEq π]

/-- The events of the stack that are still to be processed. -/
def waiting (s : System π ε) : List ε := waitingAt s.shared.events (s.threads .runner)

/-- The pushes of the thread `p`, in order. -/
def pushedBy (p : π) (tr : List (System π ε × Monitor.Action (ThreadId π) × System π ε)) : List ε :=
  tr.flatMap fun x => if x.2.1.thread = .pusher p then pushes (x.1.threads (.pusher p)) else []

def pushed (tr : List (System π ε × Monitor.Action (ThreadId π) × System π ε)) : List ε :=
  tr.flatMap fun x =>
    match x.2.1.thread with
    | .pusher p => pushes (x.1.threads (.pusher p))
    | .runner | .stopper => []

/-- The events that `run` has processed, in order. -/
def processed (tr : List (System π ε × Monitor.Action (ThreadId π) × System π ε)) : List ε :=
  tr.flatMap fun x =>
    match x.2.1.thread with
    | .runner => processes x.1.shared.events (x.1.threads .runner)
    | .pusher _ | .stopper => []

/-- The steps of the threads, and the wakeups that nobody has caused. -/
def StepsOrWakes [Fintype π] (s : System π ε) (a : Monitor.Action (ThreadId π))
    (s' : System π ε) : Prop :=
  Monitor.stepOrWake (code π ε) s a = some s'

/-- What has been pushed is what has been processed and what waits. -/
structure Accounted (events : π → List ε)
    (tr : List (System π ε × Monitor.Action (ThreadId π) × System π ε))
    (s : System π ε) : Prop where
  inv : Inv s
  finds : FindsEvent s.shared (s.threads .runner)
  perm : (pushed tr).Perm (processed tr ++ waiting s)
  pushers : ∀ p, pushedBy p tr ++ left (s.threads (.pusher p)) = events p

section
variable {events : π → List ε} {s s' : System π ε} {a : Monitor.Action (ThreadId π)}
  {tr : List (System π ε × Monitor.Action (ThreadId π) × System π ε)}

theorem accounted_start (events : π → List ε) : Accounted events [] (start events) :=
  ⟨inv_start events, trivial, .refl _, fun _ => rfl⟩

omit [DecidableEq π] in
/-- Two threads are not inside the sections of the mutex. -/
theorem Inv.inside_unique (h : Inv s) {i j : ThreadId π}
    (hi : Inside (code π ε) i (s.threads i) = true)
    (hj : Inside (code π ε) j (s.threads j) = true) : i = j := by
  have howner := (h.mutex.owner i).2 hi
  rw [(h.mutex.owner j).2 hj] at howner
  exact (Option.some.inj howner).symm

/-- A pusher that is left alone or woken has as much to push. -/
theorem left_other {st st' : Status (PushEvent ε)}
    (h : st' = st ∨ ∃ t, st = .blocked t ∧ st' = .woken t) : left st' = left st := by
  rcases h with rfl | ⟨t, rfl, rfl⟩ <;> rfl

/-- What the others do to `run`. -/
theorem runner_other {x x' : Shared ε} {st st' : Status RunLoop}
    (h : st' = st ∨ ∃ t, st = .blocked t ∧ st' = .woken t) (hfinds : FindsEvent x st)
    (hevents : x.events ≠ [] → x'.events ≠ [])
    (hflag : x.continueAnalyzing = false → x'.continueAnalyzing = false) : FindsEvent x' st' := by
  rcases h with rfl | ⟨t, -, rfl⟩
  · exact hfinds.mono hevents hflag
  · trivial

theorem waitingAt_other {st st' : Status RunLoop}
    (h : st' = st ∨ ∃ t, st = .blocked t ∧ st' = .woken t) (es : List ε) :
    waitingAt es st' = waitingAt es st := by
  rcases h with rfl | ⟨t, rfl, rfl⟩ <;> rfl

omit [DecidableEq π] in
/-- While a thread pushes, `run` is not about to remove an event. -/
theorem Inv.waitingAt_append (h : Inv s) {p : π} (es : List ε) :
    waitingAt (es ++ pushes (s.threads (.pusher p))) (s.threads .runner) =
      waitingAt es (s.threads .runner) ++ pushes (s.threads (.pusher p)) := by
  cases hr : s.threads .runner with
  | running t =>
    cases t with
    | popBack =>
      have hnil : pushes (s.threads (.pusher p)) = [] := by
        match hp : s.threads (.pusher p) with
        | .running (.pushBack e es) =>
          have hunique := h.inside_unique (i := .pusher p) (j := .runner) (by rw [hp]; rfl)
            (by rw [hr]; rfl)
          cases hunique
        | .running (.call _) | .running (.unlock _) | .running (.notify _) | .blocking _
        | .blocked _ | .woken _ => rfl
      rw [hnil, List.append_nil, List.append_nil]
    | _ => rfl
  | _ => rfl

/-- **Every step keeps the account.** -/
theorem Accounted.step (h : Accounted events tr s) (hs : Moves (code π ε) s a s') :
    Accounted events (tr ++ [(s, a, s')]) s' := by
  have hself := hs.self
  have hinv := h.inv.step hs
  obtain ⟨i, w⟩ := a
  cases i with
  | pusher p =>
    obtain ⟨hevents, hleft⟩ := pusher_events hself
    refine ⟨hinv, ?_, ?_, fun q => ?_⟩
    · refine runner_other (hs.other (by simp)) h.finds ?_ ?_
      · rw [hevents]
        simp +contextual
      · rw [pusher_flag hself]
        exact id
    · have hwaiting : waiting s' = waiting s ++ pushes (s.threads (.pusher p)) := by
        rw [waiting, waitingAt_other (hs.other (by simp)), hevents]
        exact h.inv.waitingAt_append _
      simp only [pushed, processed, List.flatMap_append, List.flatMap_singleton, List.append_nil]
      rw [hwaiting, ← List.append_assoc]
      exact h.perm.append_right _
    · simp only [pushedBy, List.flatMap_append, List.flatMap_singleton]
      rw [← h.pushers q, pushedBy, List.append_assoc]
      by_cases hq : p = q
      · subst hq
        rw [if_pos rfl, hleft]
      · rw [if_neg (by simpa using hq), List.nil_append,
          left_other (hs.other (by simpa using Ne.symm hq))]
  | runner =>
    have hwaits : ∀ t, s.threads .runner = .woken t → t = .wait :=
      fun t ht => h.inv.runner_waits (Or.inr (Or.inr ht))
    refine ⟨hinv, runner_finds hself hwaits h.finds, ?_, fun q => ?_⟩
    · simp only [pushed, processed, List.flatMap_append, List.flatMap_singleton, List.append_nil]
      refine h.perm.trans ?_
      rw [List.append_assoc]
      exact (runner_events hself hwaits h.finds).symm.append_left _
    · simp only [pushedBy, List.flatMap_append, List.flatMap_singleton]
      rw [if_neg (by simp), List.append_nil, left_other (hs.other (by simp))]
      exact h.pushers q
  | stopper =>
    have hevents := stopper_events hself
    refine ⟨hinv, ?_, ?_, fun q => ?_⟩
    · exact runner_other (hs.other (by simp)) h.finds (by rw [hevents]; exact id)
        (stopper_clears hself)
    · have hwaiting : waiting s' = waiting s := by
        rw [waiting, waitingAt_other (hs.other (by simp)), hevents, waiting]
      simp only [pushed, processed, List.flatMap_append, List.flatMap_singleton, List.append_nil]
      rw [hwaiting]
      exact h.perm
    · simp only [pushedBy, List.flatMap_append, List.flatMap_singleton]
      rw [if_neg (by simp), List.append_nil, left_other (hs.other (by simp))]
      exact h.pushers q

/-- Who is woken was at its wait, so the invariant speaks of it as before. -/
theorem Inv.wakes (h : Inv s) {i : ThreadId π} (hw : Wakes s i s') : Inv s' := by
  refine ⟨h.mutex.wakes hw, ?_, ?_, ?_⟩
  · rw [hw.shared, hw.iff (j := .stopper) (p := Stopped) fun _ => Iff.rfl]
    exact h.flag
  · rw [hw.shared, hw.iff (j := .runner) (p := Quit) fun _ => Iff.rfl]
    exact h.quit
  · rw [hw.iff (j := .stopper) (p := (· = .running .done)) (by simp),
      hw.iff (j := .runner) (p := (· = .running .done)) (by simp)]
    exact h.joined

omit [DecidableEq π] in
theorem pushed_append (tr tr' : List (System π ε × Monitor.Action (ThreadId π) × System π ε)) :
    pushed (tr ++ tr') = pushed tr ++ pushed tr' :=
  List.flatMap_append

omit [DecidableEq π] in
theorem processed_append
    (tr tr' : List (System π ε × Monitor.Action (ThreadId π) × System π ε)) :
    processed (tr ++ tr') = processed tr ++ processed tr' :=
  List.flatMap_append

theorem pushedBy_append (p : π)
    (tr tr' : List (System π ε × Monitor.Action (ThreadId π) × System π ε)) :
    pushedBy p (tr ++ tr') = pushedBy p tr ++ pushedBy p tr' :=
  List.flatMap_append

/-- Who is blocked pushes nothing and processes nothing. -/
theorem quiet_of_blocked {t : Point ε a.thread} (ht : s.threads a.thread = .blocked t)
    (s' : System π ε) :
    pushed [(s, a, s')] = [] ∧ processed [(s, a, s')] = [] ∧
      ∀ p, pushedBy p [(s, a, s')] = [] := by
  obtain ⟨i, w⟩ := a
  cases i with
  | pusher q =>
    have hnil : pushes (s.threads (.pusher q)) = [] := by
      rw [ht]
      rfl
    refine ⟨by simp [pushed, hnil], rfl, fun p => ?_⟩
    by_cases hp : q = p
    · subst hp
      simp [pushedBy, hnil]
    · simp [pushedBy, hp]
  | runner =>
    have hnil : processes s.shared.events (s.threads .runner) = [] := by
      rw [ht]
      rfl
    exact ⟨rfl, by simp [processed, hnil], fun p => by simp [pushedBy]⟩
  | stopper => exact ⟨rfl, rfl, fun p => by simp [pushedBy]⟩

/-- **Every spurious wakeup keeps the account.** -/
theorem Accounted.wakes (h : Accounted events tr s) (hw : Wakes s a.thread s') :
    Accounted events (tr ++ [(s, a, s')]) s' := by
  have hshared := hw.shared
  have hthreads := hw.threads
  obtain ⟨hpushed, hprocessed, hpushedBy⟩ := quiet_of_blocked hw.choose_spec.1 s'
  refine ⟨h.inv.wakes hw, ?_, ?_, fun p => ?_⟩
  · rw [hshared]
    exact runner_other (hthreads .runner) h.finds id id
  · have hwaiting : waiting s' = waiting s := by
      rw [waiting, waitingAt_other (hthreads .runner), hshared, waiting]
    rw [pushed_append, processed_append, hpushed, hprocessed, hwaiting, List.append_nil,
      List.append_nil]
    exact h.perm
  · rw [pushedBy_append, hpushedBy, List.append_nil, left_other (hthreads (.pusher p))]
    exact h.pushers p

theorem Accounted.of_run [Fintype π] (hrun : LTS.Run StepsOrWakes (start events) tr s) :
    Accounted events tr s := by
  induction hrun with
  | nil => exact accounted_start events
  | snoc _ hs ih => exact (moves_or_wakes hs).elim ih.step ih.wakes

/-! ## Stopping -/

/-- The stopping thread is behind its wait. -/
def PastWait : Status StopAnalyzing → Prop
  | .running .lock | .running .wait => False
  | .running _ => True
  | _ => False

omit [DecidableEq π] in
/-- Only the test that finds the stack empty leads behind the wait. -/
theorem stopper_past {x x' : Shared ε} {st st' : Status StopAnalyzing}
    (h : advance (code π ε) .stopper x st = some (st', x'))
    (hw : ∀ t, st = .woken t → t = .wait) (hpast : PastWait st') :
    PastWait st ∨ st = .running .wait ∧ x.events = [] ∧ st' = .running .unlock := by
  cases st with
  | running t =>
    cases t with
    | wait =>
      right
      cases h
      split at hpast
      · rename_i hwaiter
        exact ⟨rfl, by simpa using hwaiter, if_pos hwaiter⟩
      · exact hpast.elim
    | lock =>
      cases h
      exact hpast.elim
    | _ => exact Or.inl trivial
  | blocking t =>
    cases h
    exact hpast.elim
  | blocked t => cases h
  | woken t =>
    obtain rfl := hw t rfl
    cases h
    exact hpast.elim

/-- The stopping thread tests the stack and finds it empty. -/
structure FindsEmpty (x : System π ε × Monitor.Action (ThreadId π) × System π ε) : Prop where
  thread : x.2.1.thread = .stopper
  waits : x.1.threads .stopper = .running .wait
  empty : x.1.shared.events = []
  passes : x.2.2.threads .stopper = .running .unlock

omit [DecidableEq π] in
theorem FindsEmpty.pushed_eq {x : System π ε × Monitor.Action (ThreadId π) × System π ε}
    (h : FindsEmpty x) : pushed [x] = [] := by
  simp [pushed, h.thread]

omit [DecidableEq π] in
theorem FindsEmpty.processed_eq {x : System π ε × Monitor.Action (ThreadId π) × System π ε}
    (h : FindsEmpty x) : processed [x] = [] := by
  simp [processed, h.thread]

omit [DecidableEq π] in
theorem waiting_of_nil (h : s.shared.events = []) : waiting s = [] := by
  rw [waiting, h]
  cases s.threads .runner with
  | running t => cases t <;> rfl
  | _ => rfl

/-- Who is behind the wait has found the stack empty in one step of the run. -/
theorem exists_finds_empty [Fintype π] (hrun : LTS.Run StepsOrWakes (start events) tr s)
    (hpast : PastWait (s.threads .stopper)) :
    ∃ tr₁ x tr₂, tr = tr₁ ++ x :: tr₂ ∧ FindsEmpty x ∧
      LTS.Run StepsOrWakes (start events) tr₁ x.1 := by
  induction hrun with
  | nil => exact hpast.elim
  | @snoc tr t t' a hrun hs ih =>
    suffices hlast : PastWait (t.threads .stopper) ∨ FindsEmpty (t, a, t') by
      rcases hlast with hbefore | hempty
      · obtain ⟨tr₁, x, tr₂, rfl, hempty, hrun₁⟩ := ih hbefore
        exact ⟨tr₁, x, tr₂ ++ [(t, a, t')], by simp, hempty, hrun₁⟩
      · exact ⟨tr, (t, a, t'), [], rfl, hempty, hrun⟩
    rcases moves_or_wakes hs with hmoves | hwakes
    · by_cases ha : a.thread = .stopper
      · obtain ⟨i, w⟩ := a
        obtain rfl : i = .stopper := ha
        have hw : ∀ u, t.threads .stopper = .woken u → u = .wait :=
          fun u hu => (Accounted.of_run hrun).inv.stopper_waits (Or.inr (Or.inr hu))
        rcases stopper_past hmoves.self hw hpast with hbefore | ⟨hwait, hnil, hunlock⟩
        · exact Or.inl hbefore
        · exact Or.inr ⟨rfl, hwait, hnil, hunlock⟩
      · left
        exact (hmoves.other_iff (Ne.symm ha) fun _ => Iff.rfl).1 hpast
    · left
      exact (hwakes.iff (j := .stopper) (p := PastWait) fun _ => Iff.rfl).1 hpast

end

/-- **Every event is processed once.**  In every interleaving: each pusher has pushed its
    events in order, up to those it has left; `run` looks at no empty stack; what has been
    pushed is what has been processed and what waits; and when `stopAnalyzingWhenDone` is
    behind its wait, the run has a step `x` in which it found the stack empty: all that had
    been pushed before `x` had been processed before it, and what still waits has been pushed
    after it. -/
theorem processed_once [Fintype π] (events : π → List ε) {s : System π ε}
    {tr : List (System π ε × Monitor.Action (ThreadId π) × System π ε)}
    (hrun : LTS.Run StepsOrWakes (start events) tr s) :
    (∀ p, pushedBy p tr ++ left (s.threads (.pusher p)) = events p) ∧
      (s.threads .runner = .running .processOneEvent → s.shared.events ≠ []) ∧
      (pushed tr).Perm (processed tr ++ waiting s) ∧
      (PastWait (s.threads .stopper) → ∃ tr₁ x tr₂, tr = tr₁ ++ x :: tr₂ ∧ FindsEmpty x ∧
        (pushed tr₁).Perm (processed tr₁) ∧
        (pushed tr₂).Perm (processed tr₂ ++ waiting s)) := by
  have h := Accounted.of_run hrun
  refine ⟨h.pushers, fun hr => ?_, h.perm, fun hpast => ?_⟩
  · have hfinds := h.finds
    rw [hr] at hfinds
    exact hfinds
  · obtain ⟨tr₁, x, tr₂, rfl, hempty, hrun₁⟩ := exists_finds_empty hrun hpast
    have hbefore := (Accounted.of_run hrun₁).perm
    rw [waiting_of_nil hempty.empty, List.append_nil] at hbefore
    refine ⟨tr₁, x, tr₂, rfl, hempty, hbefore, ?_⟩
    -- the step `x` itself pushes nothing and processes nothing
    have hall := h.perm
    rw [List.append_cons, pushed_append, pushed_append, hempty.pushed_eq, processed_append,
      processed_append, hempty.processed_eq, List.append_nil, List.append_nil,
      List.append_assoc] at hall
    exact (List.perm_append_left_iff _).1 ((hbefore.symm.append_right _).trans hall)

/-- The stopping thread sleeps on a stack of two events and is woken twice without need:
    the second time both have been processed, so it stops `run`, which sleeps. -/
theorem processed_once_two :
    ∃ tr s, LTS.Run StepsOrWakes (start fun _ : Unit => [0, 1] : System Unit ℕ) tr s ∧
      processed tr = [1, 0] ∧ s.threads .stopper = .running .done ∧
      ∃ tr₁ x tr₂, tr = tr₁ ++ x :: tr₂ ∧ FindsEmpty x ∧
        (pushed tr₁).Perm (processed tr₁) ∧
        (pushed tr₂).Perm (processed tr₂ ++ waiting s) := by
  obtain ⟨s, hs, hprocessed, hstopper⟩ : ∃ s, List.foldlM (Monitor.stepOrWake (code Unit ℕ))
      (start fun _ : Unit => [0, 1])
      (steps (.pusher ()) 8 ++ steps .stopper 7 ++ steps .runner 15 ++ steps .stopper 6 ++
        steps .runner 4 ++ steps .stopper 1) = some s ∧
      processed (LTS.trace (Monitor.stepOrWake (code Unit ℕ)) (start fun _ : Unit => [0, 1])
        (steps (.pusher ()) 8 ++ steps .stopper 7 ++ steps .runner 15 ++ steps .stopper 6 ++
          steps .runner 4 ++ steps .stopper 1)) = [1, 0] ∧
      s.threads .stopper = .running .done := ⟨_, rfl, rfl, rfl⟩
  refine ⟨_, s, Run.trace hs, hprocessed, hstopper, ?_⟩
  exact (processed_once _ (Run.trace hs)).2.2.2 (by rw [hstopper]; trivial)

end SmartScreen.Stopping
