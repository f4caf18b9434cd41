/-
  Threads that share a state, one mutex and condition variables.

  The code of a thread is a table of instructions by control points.  `wait` is
  what `std::condition_variable::wait` with a predicate does: it evaluates the
  predicate while it holds the mutex; if it is false, the thread blocks and
  releases the mutex in a later step, and then only a notification helps.

  * `Program` carries the proof that the mutex is taken and released in turns.
  * `Moves` says what a step can do; `moves_of_step` says that it does nothing else.
  * `Moves.self`, `Moves.other` say what a step does to each thread.
  * `Inv` is mutual exclusion, kept by every step.
  * `stuck_iff`: nothing can move iff every thread has halted, waits for a
    thread to halt, or is blocked.
  * `stepOrWake` has spurious wakeups too, which `step` and `stuck_iff` leave out;
    `Wakes.threads` says what they do to each thread.
-/
import Mathlib.Data.Fintype.Basic
import Mathlib.Data.Fintype.Sum
import Mathlib.Logic.Function.Basic

namespace Monitor

variable {ι σ κ : Type}

/-! ## Programs -/

/-- What a thread does at a control point, and where it goes. -/
inductive Instr (ι σ κ τ : Type) where
  | lock (next : τ)
  | unlock (next : τ)
  /-- reads and writes the shared state, whether it holds the mutex or not -/
  | update (f : σ → σ) (next : σ → τ)
  | wait (cv : κ) (waiter : σ → Bool) (next : τ)
  | notifyOne (cv : κ) (next : τ)
  | notifyAll (cv : κ) (next : τ)
  | join (j : ι) (next : τ)
  | halt

/-- The instruction fits `holds`, which says where the thread holds the mutex. -/
def Instr.Disciplined {τ : Type} (holds : τ → Bool) (t : τ) : Instr ι σ κ τ → Prop
  | lock next => holds t = false ∧ holds next = true
  | unlock next => holds t = true ∧ holds next = false
  | update _ next => ∀ s, holds (next s) = holds t
  | wait _ _ next => holds t = true ∧ holds next = true
  | notifyOne _ next => holds next = holds t
  | notifyAll _ next => holds next = holds t
  | join _ next => holds t = false ∧ holds next = false
  | halt => holds t = false

/-- The code of all threads. -/
structure Program (ι σ κ : Type) (τ : ι → Type) where
  instr : ∀ i, τ i → Instr ι σ κ (τ i)
  holds : ∀ i, τ i → Bool
  disciplined : ∀ i t, (instr i t).Disciplined (holds i) t

/-! ## States -/

/-- How a thread is with its control point. -/
inductive Status (τ : Type) where
  | running (t : τ)
  /-- the predicate was false; the mutex is still held -/
  | blocking (t : τ)
  | blocked (t : τ)
  /-- notified, and in need of the mutex -/
  | woken (t : τ)
deriving DecidableEq

structure State (ι σ : Type) (τ : ι → Type) where
  shared : σ
  owner : Option ι := none
  threads : ∀ i, Status (τ i)

/-- A step of a thread; `woken` is the waiter that `notify_one` picks. -/
structure Action (ι : Type) where
  thread : ι
  woken : Option ι := none

def Status.wake {τ : Type} : Status τ → Status τ
  | .blocked t => .woken t
  | s => s

/-- What being notified leaves, holds of who is left alone or woken as before. -/
theorem iff_of_woken {τ : Type} {st st' : Status τ} {p : Status τ → Prop}
    (h : st' = st ∨ ∃ t, st = .blocked t ∧ st' = .woken t)
    (hp : ∀ t, p (.woken t) ↔ p (.blocked t)) : p st' ↔ p st := by
  rcases h with rfl | ⟨t, rfl, rfl⟩
  · rfl
  · exact hp t

section
variable {τ : ι → Type} (P : Program ι σ κ τ)

/-- The thread waits on the condition variable. -/
def WaitsOn (cv : κ) (i : ι) : Status (τ i) → Prop
  | .blocked t => ∃ waiter next, P.instr i t = .wait cv waiter next
  | _ => False

instance instDecidableWaitsOn [DecidableEq κ] (cv : κ) (i : ι) (s : Status (τ i)) :
    Decidable (WaitsOn P cv i s) :=
  match s with
  | .blocked t =>
    match h : P.instr i t with
    | .wait cv' waiter next =>
      decidable_of_iff (cv' = cv) (by
        simp only [WaitsOn, h, Instr.wait.injEq]
        exact ⟨fun h => ⟨waiter, next, h, rfl, rfl⟩, fun ⟨_, _, h, _⟩ => h⟩)
    | .lock _ | .unlock _ | .update _ _ | .notifyOne _ _ | .notifyAll _ _ | .join _ _ | .halt =>
      .isFalse (by simp [WaitsOn, h])
  | .running _ | .blocking _ | .woken _ => .isFalse (by simp [WaitsOn])

/-- The thread has come to its end. -/
def Halted (i : ι) (s : Status (τ i)) : Prop := ∃ t, s = .running t ∧ P.instr i t = .halt

instance instDecidableHalted (i : ι) (s : Status (τ i)) : Decidable (Halted P i s) :=
  match s with
  | .running t =>
    match h : P.instr i t with
    | .halt => .isTrue ⟨t, rfl, h⟩
    | .lock _ | .unlock _ | .update _ _ | .wait _ _ _ | .notifyOne _ _ | .notifyAll _ _
    | .join _ _ =>
      .isFalse (by rintro ⟨t, ⟨⟩, ht⟩; rw [h] at ht; cases ht)
  | .blocking _ | .blocked _ | .woken _ => .isFalse (by rintro ⟨t, ⟨⟩, -⟩)

theorem WaitsOn.blocked {P : Program ι σ κ τ} {cv : κ} {i : ι} {s : Status (τ i)}
    (h : WaitsOn P cv i s) :
    ∃ t, s = .blocked t ∧ s.wake = .woken t ∧
      ∃ waiter next, P.instr i t = .wait cv waiter next := by
  cases s with
  | blocked t => exact ⟨t, rfl, rfl, h⟩
  | running | blocking | woken => exact h.elim

/-! ## Mutual exclusion -/

/-- The thread is in a section that holds the mutex. -/
def Inside (P : Program ι σ κ τ) (i : ι) : Status (τ i) → Bool
  | .running t => P.holds i t
  | .blocking _ => true
  | .blocked _ | .woken _ => false

/-- The owner of the mutex is the thread inside a section, and who is blocked is
    so at a `wait`. -/
structure Inv (P : Program ι σ κ τ) (s : State ι σ τ) : Prop where
  owner : ∀ i, s.owner = some i ↔ Inside P i (s.threads i) = true
  waits : ∀ i t, s.threads i = .blocking t ∨ s.threads i = .blocked t ∨ s.threads i = .woken t →
    ∃ cv waiter next, P.instr i t = .wait cv waiter next

variable {P} {s s' : State ι σ τ}

theorem inside_wake (i : ι) (t : Status (τ i)) : Inside P i t.wake = Inside P i t := by
  cases t <;> rfl

/-- Notifying takes nothing from anyone. -/
theorem Inv.wake (h : Inv P s) (ho : s'.owner = s.owner)
    (ht : ∀ j, s'.threads j = s.threads j ∨ s'.threads j = (s.threads j).wake) : Inv P s' := by
  constructor
  · intro i
    have hin : Inside P i (s'.threads i) = Inside P i (s.threads i) := by
      rcases ht i with ht | ht <;> rw [ht]
      exact inside_wake i _
    rw [ho, hin]
    exact h.owner i
  · intro i t hi
    refine h.waits i t ?_
    rcases ht i with ht | ht
    · rwa [ht] at hi
    · rw [ht] at hi
      cases hs : s.threads i with
      | running | blocking | woken => rwa [hs] at hi
      | blocked t' =>
        rw [hs] at hi
        rcases hi with hi | hi | hi <;> cases hi
        exact Or.inr (Or.inl rfl)

variable [DecidableEq ι]

/-- The thread goes on at another control point. -/
def State.goto (s : State ι σ τ) (i : ι) (t : Status (τ i)) : State ι σ τ :=
  { s with threads := Function.update s.threads i t }

/-- One thread goes on: as it was, into a section, or out of one. -/
theorem Inv.goto (h : Inv P s) {i : ι} {st : Status (τ i)}
    (ht : s'.threads = Function.update s.threads i st)
    (hw : ∀ t, st = .blocking t ∨ st = .blocked t ∨ st = .woken t →
      ∃ cv waiter next, P.instr i t = .wait cv waiter next)
    (ho : (s'.owner = s.owner ∧ Inside P i st = Inside P i (s.threads i)) ∨
      (s.owner = none ∧ s'.owner = some i ∧ Inside P i st = true) ∨
      (Inside P i (s.threads i) = true ∧ s'.owner = none ∧ Inside P i st = false)) : Inv P s' := by
  constructor
  · intro j
    rw [ht]
    by_cases hj : j = i
    · subst hj
      rw [Function.update_self]
      rcases ho with ⟨ho, hin⟩ | ⟨-, ho, hin⟩ | ⟨-, ho, hin⟩
      · rw [ho, hin]
        exact h.owner j
      · simp [ho, hin]
      · simp [ho, hin]
    · rw [Function.update_of_ne hj, ← h.owner j]
      rcases ho with ⟨ho, -⟩ | ⟨hnone, ho, -⟩ | ⟨hin, ho, -⟩
      · rw [ho]
      · simp [ho, hnone, Ne.symm hj]
      · simp [ho, (h.owner i).2 hin, Ne.symm hj]
  · intro j t hjt
    rw [ht] at hjt
    by_cases hj : j = i
    · subst hj
      rw [Function.update_self] at hjt
      exact hw t hjt
    · rw [Function.update_of_ne hj] at hjt
      exact h.waits j t hjt

/-! ## Steps -/

variable (P)

variable [DecidableEq κ]

/-- All waiters of a condition variable are notified. -/
def State.wakeAll (s : State ι σ τ) (cv : κ) : State ι σ τ :=
  { s with threads := fun j =>
      if WaitsOn P cv j (s.threads j) then (s.threads j).wake else s.threads j }

/-- What a step can do. -/
inductive Moves (s : State ι σ τ) : Action ι → State ι σ τ → Prop
  | lock {i : ι} {w : Option ι} {t next : τ i} : s.threads i = .running t →
      P.instr i t = .lock next → s.owner = none →
      Moves s ⟨i, w⟩ { s.goto i (.running next) with owner := some i }
  | unlock {i : ι} {w : Option ι} {t next : τ i} : s.threads i = .running t →
      P.instr i t = .unlock next → Moves s ⟨i, w⟩ { s.goto i (.running next) with owner := none }
  | update {i : ι} {w : Option ι} {t : τ i} {f : σ → σ} {next : σ → τ i} :
      s.threads i = .running t → P.instr i t = .update f next →
      Moves s ⟨i, w⟩ { s.goto i (.running (next s.shared)) with shared := f s.shared }
  | pass {i : ι} {w : Option ι} {t next : τ i} {cv : κ} {waiter : σ → Bool} :
      s.threads i = .running t → P.instr i t = .wait cv waiter next → waiter s.shared = true →
      Moves s ⟨i, w⟩ (s.goto i (.running next))
  | fail {i : ι} {w : Option ι} {t next : τ i} {cv : κ} {waiter : σ → Bool} :
      s.threads i = .running t → P.instr i t = .wait cv waiter next → waiter s.shared = false →
      Moves s ⟨i, w⟩ (s.goto i (.blocking t))
  | block {i : ι} {w : Option ι} {t : τ i} : s.threads i = .blocking t →
      Moves s ⟨i, w⟩ { s.goto i (.blocked t) with owner := none }
  | retry {i : ι} {w : Option ι} {t : τ i} : s.threads i = .woken t → s.owner = none →
      Moves s ⟨i, w⟩ { s.goto i (.running t) with owner := some i }
  | notifyOne {i j : ι} {t next : τ i} {cv : κ} : s.threads i = .running t →
      P.instr i t = .notifyOne cv next → WaitsOn P cv j (s.threads j) →
      Moves s ⟨i, some j⟩ ((s.goto j (s.threads j).wake).goto i (.running next))
  | notifyNone {i : ι} {t next : τ i} {cv : κ} : s.threads i = .running t →
      P.instr i t = .notifyOne cv next → (∀ j, ¬ WaitsOn P cv j (s.threads j)) →
      Moves s ⟨i, none⟩ (s.goto i (.running next))
  | notifyAll {i : ι} {w : Option ι} {t next : τ i} {cv : κ} : s.threads i = .running t →
      P.instr i t = .notifyAll cv next →
      Moves s ⟨i, w⟩ ((s.wakeAll P cv).goto i (.running next))
  | join {i j : ι} {w : Option ι} {t next : τ i} : s.threads i = .running t →
      P.instr i t = .join j next → Halted P j (s.threads j) →
      Moves s ⟨i, w⟩ (s.goto i (.running next))

variable {P} {a : Action ι}

/-! ## Mutual exclusion at every step -/

/-- **Mutual exclusion.**  Every step keeps the invariant. -/
theorem Inv.step (h : Inv P s) (hs : Moves P s a s') : Inv P s' := by
  cases hs with
  | @lock i _ t next ht hi ho =>
    have hd := P.disciplined i t
    rw [hi] at hd
    exact h.goto rfl (by simp) (Or.inr (Or.inl ⟨ho, rfl, hd.2⟩))
  | @unlock i _ t next ht hi =>
    have hd := P.disciplined i t
    rw [hi] at hd
    exact h.goto rfl (by simp) (Or.inr (Or.inr ⟨by rw [ht]; exact hd.1, rfl, hd.2⟩))
  | @update i _ t f next ht hi =>
    have hd := P.disciplined i t
    rw [hi] at hd
    exact h.goto rfl (by simp) (Or.inl ⟨rfl, by rw [ht]; exact hd s.shared⟩)
  | @pass i _ t next cv waiter ht hi =>
    have hd := P.disciplined i t
    rw [hi] at hd
    exact h.goto rfl (by simp) (Or.inl ⟨rfl, by rw [ht]; exact hd.2.trans hd.1.symm⟩)
  | @fail i _ t next cv waiter ht hi =>
    have hd := P.disciplined i t
    rw [hi] at hd
    refine h.goto rfl ?_ (Or.inl ⟨rfl, by rw [ht]; exact hd.1.symm⟩)
    rintro t' (ht' | ht' | ht') <;> cases ht'
    exact ⟨cv, waiter, next, hi⟩
  | @block i _ t ht =>
    refine h.goto rfl ?_ (Or.inr (Or.inr ⟨by rw [ht]; rfl, rfl, rfl⟩))
    rintro t' (ht' | ht' | ht') <;> cases ht'
    exact h.waits i t (Or.inl ht)
  | @retry i _ t ht ho =>
    obtain ⟨cv, waiter, next, hi⟩ := h.waits i t (Or.inr (Or.inr ht))
    have hd := P.disciplined i t
    rw [hi] at hd
    exact h.goto rfl (by simp) (Or.inr (Or.inl ⟨ho, rfl, hd.1⟩))
  | @notifyOne i j t next cv ht hi hj =>
    have hd := P.disciplined i t
    rw [hi] at hd
    have hwake : Inv P (s.goto j (s.threads j).wake) := by
      refine h.wake rfl fun k => ?_
      by_cases hk : k = j
      · subst hk
        exact Or.inr (Function.update_self ..)
      · exact Or.inl (Function.update_of_ne hk ..)
    have hij : i ≠ j := by
      rintro rfl
      rw [ht] at hj
      exact hj
    have hsame : (s.goto j (s.threads j).wake).threads i = .running t := by
      rw [State.goto, ← ht]
      exact Function.update_of_ne hij ..
    refine hwake.goto rfl (by simp) (Or.inl ⟨rfl, ?_⟩)
    rw [hsame]
    exact hd
  | @notifyNone i t next cv ht hi hj =>
    have hd := P.disciplined i t
    rw [hi] at hd
    exact h.goto rfl (by simp) (Or.inl ⟨rfl, by rw [ht]; exact hd⟩)
  | @notifyAll i _ t next cv ht hi =>
    have hd := P.disciplined i t
    rw [hi] at hd
    have hwake : Inv P (s.wakeAll P cv) := by
      refine h.wake rfl fun k => ?_
      by_cases hk : WaitsOn P cv k (s.threads k)
      · exact Or.inr (if_pos hk)
      · exact Or.inl (if_neg hk)
    have hwaits : ¬ WaitsOn P cv i (s.threads i) := by
      rw [ht]
      exact id
    have hsame : (s.wakeAll P cv).threads i = .running t := (if_neg hwaits).trans ht
    refine hwake.goto rfl (by simp) (Or.inl ⟨rfl, ?_⟩)
    rw [hsame]
    exact hd
  | @join i j _ t next ht hi hj =>
    have hd := P.disciplined i t
    rw [hi] at hd
    exact h.goto rfl (by simp) (Or.inl ⟨rfl, by rw [ht]; exact hd.2.trans hd.1.symm⟩)

/-! ## What a step does to each thread -/

variable (P) in
/-- Where a thread goes by itself, and what it makes of the shared state. -/
def advance (i : ι) (x : σ) : Status (τ i) → Option (Status (τ i) × σ)
  | .running t =>
    match P.instr i t with
    | .lock next => some (.running next, x)
    | .unlock next => some (.running next, x)
    | .update f next => some (.running (next x), f x)
    | .wait _ waiter next => some (if waiter x then .running next else .blocking t, x)
    | .notifyOne _ next => some (.running next, x)
    | .notifyAll _ next => some (.running next, x)
    | .join _ next => some (.running next, x)
    | .halt => none
  | .blocking t => some (.blocked t, x)
  | .blocked _ => none
  | .woken t => some (.running t, x)

/-- The thread that steps, and the shared state. -/
theorem Moves.self (h : Moves P s a s') :
    advance P a.thread s.shared (s.threads a.thread) =
      some (s'.threads a.thread, s'.shared) := by
  cases h with
  | lock ht hi _ => simp [advance, ht, hi, State.goto]
  | unlock ht hi => simp [advance, ht, hi, State.goto]
  | update ht hi => simp [advance, ht, hi, State.goto]
  | pass ht hi hw => simp [advance, ht, hi, hw, State.goto]
  | fail ht hi hw => simp [advance, ht, hi, hw, State.goto]
  | block ht => simp [advance, ht, State.goto]
  | retry ht _ => simp [advance, ht, State.goto]
  | notifyOne ht hi _ => simp [advance, ht, hi, State.goto]
  | notifyNone ht hi _ => simp [advance, ht, hi, State.goto]
  | notifyAll ht hi => simp [advance, ht, hi, State.goto, State.wakeAll]
  | join ht hi _ => simp [advance, ht, hi, State.goto]

/-- The other threads are left alone, or notified. -/
theorem Moves.other (h : Moves P s a s') {j : ι} (hj : j ≠ a.thread) :
    s'.threads j = s.threads j ∨
      ∃ t, s.threads j = .blocked t ∧ s'.threads j = .woken t := by
  cases h with
  | @notifyOne i k t next cv ht hi hk =>
    change Function.update _ i _ j = _ ∨ _
    rw [Function.update_of_ne hj]
    by_cases hjk : j = k
    · subst hjk
      refine Or.inr ?_
      obtain ⟨t', hs, hw, -⟩ := hk.blocked
      exact ⟨t', hs, (Function.update_of_ne hj ..).trans ((Function.update_self ..).trans hw)⟩
    · exact Or.inl (Function.update_of_ne hjk ..)
  | @notifyAll i _ t next cv ht hi =>
    have hsame : (((s.wakeAll P cv).goto i (.running next)).threads j) =
        if WaitsOn P cv j (s.threads j) then (s.threads j).wake else s.threads j :=
      Function.update_of_ne hj ..
    rw [hsame]
    by_cases hw : WaitsOn P cv j (s.threads j)
    · rw [if_pos hw]
      obtain ⟨t', hs, hw, -⟩ := hw.blocked
      exact Or.inr ⟨t', hs, hw⟩
    · rw [if_neg hw]
      exact Or.inl rfl
  | lock | unlock | update | pass | fail | block | retry | notifyNone | join =>
    exact Or.inl (Function.update_of_ne hj ..)

/-- What being notified leaves, the steps of other threads leave. -/
theorem Moves.other_iff (h : Moves P s a s') {j : ι} (hj : j ≠ a.thread)
    {p : Status (τ j) → Prop} (hp : ∀ t, p (.woken t) ↔ p (.blocked t)) :
    p (s'.threads j) ↔ p (s.threads j) :=
  iff_of_woken (h.other hj) hp

/-- Nobody is notified by a thread that blocks. -/
theorem Moves.other_of_blocking (h : Moves P s a s') {t : τ a.thread}
    (ht : s.threads a.thread = .blocking t) {j : ι} (hj : j ≠ a.thread) :
    s'.threads j = s.threads j := by
  cases h with
  | block => exact Function.update_of_ne hj ..
  | _ => simp_all

theorem Moves.other_of_update (h : Moves P s a s') {t : τ a.thread} {f : σ → σ}
    {next : σ → τ a.thread} (ht : s.threads a.thread = .running t)
    (hi : P.instr a.thread t = .update f next) {j : ι} (hj : j ≠ a.thread) :
    s'.threads j = s.threads j := by
  cases h with
  | update => exact Function.update_of_ne hj ..
  | _ => simp_all

/-- Who is blocked after a step was so before, or blocks in it. -/
theorem Moves.blocked (h : Moves P s a s') {j : ι} {t : τ j} (hj : s'.threads j = .blocked t) :
    s.threads j = .blocked t ∨ j = a.thread ∧ s.threads j = .blocking t := by
  by_cases hja : j = a.thread
  · subst hja
    refine Or.inr ⟨rfl, ?_⟩
    have hself := h.self
    rw [hj] at hself
    generalize s'.shared = x at hself
    cases hs : s.threads a.thread with
    | running t' =>
      rw [hs, advance] at hself
      cases hi : P.instr a.thread t' with
      | wait cv waiter next =>
        simp only [hi, Option.some.injEq, Prod.mk.injEq] at hself
        split_ifs at hself <;> cases hself.1
      | _ => simp [hi] at hself
    | blocking t' =>
      rw [hs] at hself
      cases hself
      rfl
    | blocked t' =>
      rw [hs] at hself
      cases hself
    | woken t' =>
      rw [hs] at hself
      cases hself
  · rcases h.other hja with hs | ⟨t', -, hs⟩
    · exact Or.inl (hs ▸ hj)
    · rw [hs] at hj
      cases hj

/-- Who is about to block has found its predicate false, in this step or before. -/
theorem Moves.blocking (h : Moves P s a s') {j : ι} {t : τ j} (hj : s'.threads j = .blocking t) :
    j ≠ a.thread ∧ s.threads j = .blocking t ∨
      j = a.thread ∧ s'.shared = s.shared ∧
        ∃ cv waiter next, P.instr j t = .wait cv waiter next ∧ waiter s.shared = false := by
  by_cases hja : j = a.thread
  · subst hja
    refine Or.inr ⟨rfl, ?_⟩
    have hself := h.self
    rw [hj] at hself
    generalize s'.shared = x at hself
    cases hs : s.threads a.thread with
    | running t' =>
      rw [hs, advance] at hself
      cases hi : P.instr a.thread t' with
      | wait cv waiter next =>
        simp only [hi, Option.some.injEq, Prod.mk.injEq] at hself
        split_ifs at hself with hw
        · cases hself.1
        · obtain ⟨ht, rfl⟩ := hself
          cases ht
          exact ⟨rfl, cv, waiter, next, hi, Bool.not_eq_true _ ▸ hw⟩
      | _ => simp [hi] at hself
    | blocking t' | blocked t' | woken t' =>
      rw [hs] at hself
      cases hself
  · rcases h.other hja with hs | ⟨t', -, hs⟩
    · exact Or.inl ⟨hja, hs ▸ hj⟩
    · rw [hs] at hj
      cases hj

/-- The other threads run where they ran. -/
theorem Moves.running (h : Moves P s a s') {j : ι} (hja : j ≠ a.thread) {t : τ j} :
    s'.threads j = .running t ↔ s.threads j = .running t := by
  rcases h.other hja with hs | ⟨t', hs, hs'⟩
  · rw [hs]
  · rw [hs, hs']
    exact ⟨by simp, by simp⟩

/-- `notify_one` wakes one waiter. -/
theorem Moves.wakes_one (h : Moves P s a s') {t next : τ a.thread} {cv : κ} {j : ι}
    (ht : s.threads a.thread = .running t) (hi : P.instr a.thread t = .notifyOne cv next)
    (hj : WaitsOn P cv j (s.threads j)) :
    ∃ k, WaitsOn P cv k (s.threads k) ∧ s'.threads k = (s.threads k).wake := by
  cases h with
  | @notifyOne i k t' next' cv' ht' hi' hk =>
    obtain rfl : t = t' := by simpa [ht] using ht'
    obtain ⟨rfl, rfl⟩ : cv = cv' ∧ next = next' := by simpa [hi] using hi'
    refine ⟨k, hk, ?_⟩
    have hki : k ≠ i := by
      rintro rfl
      rw [ht] at hk
      exact hk
    exact (Function.update_of_ne hki ..).trans (Function.update_self ..)
  | @notifyNone i t' next' cv' ht' hi' hk =>
    obtain rfl : t = t' := by simpa [ht] using ht'
    obtain ⟨rfl, rfl⟩ : cv = cv' ∧ next = next' := by simpa [hi] using hi'
    exact absurd hj (hk j)
  | _ => simp_all

/-- `notify_all` wakes all waiters. -/
theorem Moves.wakes_all (h : Moves P s a s') {t next : τ a.thread} {cv : κ} {j : ι}
    (ht : s.threads a.thread = .running t) (hi : P.instr a.thread t = .notifyAll cv next)
    (hj : WaitsOn P cv j (s.threads j)) : s'.threads j = (s.threads j).wake := by
  cases h with
  | @notifyAll i _ t' next' cv' ht' hi' =>
    obtain rfl : t = t' := by simpa [ht] using ht'
    obtain ⟨rfl, rfl⟩ : cv = cv' ∧ next = next' := by simpa [hi] using hi'
    have hji : j ≠ i := by
      rintro rfl
      rw [ht] at hj
      exact hj
    exact (Function.update_of_ne hji ..).trans (if_pos hj)
  | _ => simp_all

/-- Who wakes a thread is at a notification of what it waits on. -/
theorem Moves.notifies_of_woken (h : Moves P s a s') {j : ι} {t : τ j}
    (hj : s.threads j = .blocked t) (hw : s'.threads j = .woken t) :
    ∃ u cv next, s.threads a.thread = .running u ∧ WaitsOn P cv j (.blocked t) ∧
      (P.instr a.thread u = .notifyOne cv next ∨ P.instr a.thread u = .notifyAll cv next) := by
  have hja : j ≠ a.thread := by
    rintro rfl
    have hself := h.self
    rw [hj] at hself
    cases hself
  have hsame : ∀ st, Function.update s.threads a.thread st j = .woken t → False := by
    intro st hst
    rw [Function.update_of_ne hja, hj] at hst
    cases hst
  cases h with
  | @notifyOne i k u next cv ht hi hk =>
    refine ⟨u, cv, next, ht, ?_, Or.inl hi⟩
    by_cases hjk : j = k
    · subst hjk
      rwa [hj] at hk
    · have hsame : ((s.goto k (s.threads k).wake).goto i (.running next)).threads j =
          s.threads j := (Function.update_of_ne hja ..).trans (Function.update_of_ne hjk ..)
      rw [hsame, hj] at hw
      cases hw
  | @notifyAll i _ u next cv ht hi =>
    refine ⟨u, cv, next, ht, ?_, Or.inr hi⟩
    by_contra hwaits
    have hsame : ((s.wakeAll P cv).goto i (.running next)).threads j = s.threads j :=
      (Function.update_of_ne hja ..).trans (if_neg (by rwa [hj]))
    rw [hsame, hj] at hw
    cases hw
  | _ => exact (hsame _ hw).elim

/-- Who goes on from a join joined a thread at its end. -/
theorem Moves.halted_of_join (h : Moves P s a s') {t next : τ a.thread} {j : ι}
    (ht : s.threads a.thread = .running t) (hi : P.instr a.thread t = .join j next) :
    Halted P j (s.threads j) := by
  cases h with
  | @join i k _ t' next' ht' hi' hk =>
    obtain rfl : t = t' := by simpa [ht] using ht'
    obtain ⟨rfl, -⟩ : j = k ∧ next = next' := by simpa [hi] using hi'
    exact hk
  | _ => simp_all

/-! ## Resting threads -/

/-- The thread has halted, waits for another one to halt, or is blocked. -/
def Resting (P : Program ι σ κ τ) (s : State ι σ τ) (i : ι) : Prop :=
  Halted P i (s.threads i) ∨ (∃ t, s.threads i = .blocked t) ∨
    ∃ t j next, s.threads i = .running t ∧ P.instr i t = .join j next ∧ ¬ Halted P j (s.threads j)

/-- A thread that rests does not move. -/
theorem not_resting_of_moves (h : Moves P s a s') : ¬ Resting P s a.thread := by
  rintro (⟨t', ht', hi'⟩ | ⟨t', ht'⟩ | ⟨t', j', next', ht', hi', hj'⟩)
  · cases h <;> simp_all
  · cases h <;> simp_all
  · cases h with
    | @join i j _ t next ht hi hj =>
      obtain rfl : t = t' := by simpa [ht] using ht'
      obtain ⟨rfl, -⟩ : j = j' ∧ next = next' := by simpa [hi] using hi'
      exact hj' hj
    | _ => simp_all

/-! ## The step function -/

variable [Fintype ι]

/-- One step; `none` if it is not possible. -/
def step (P : Program ι σ κ τ) (s : State ι σ τ) (a : Action ι) : Option (State ι σ τ) :=
  let i := a.thread
  match s.threads i with
  | .running t =>
    match P.instr i t with
    | .lock next =>
      if s.owner = none then some { s.goto i (.running next) with owner := some i } else none
    | .unlock next => some { s.goto i (.running next) with owner := none }
    | .update f next => some { s.goto i (.running (next s.shared)) with shared := f s.shared }
    | .wait _ waiter next =>
      some (s.goto i (if waiter s.shared then .running next else .blocking t))
    | .notifyOne cv next =>
      match a.woken with
      | some j =>
        if WaitsOn P cv j (s.threads j) then
          some ((s.goto j (s.threads j).wake).goto i (.running next))
        else none
      | none =>
        if ∀ j, ¬ WaitsOn P cv j (s.threads j) then some (s.goto i (.running next)) else none
    | .notifyAll cv next =>
      some ((s.wakeAll P cv).goto i (.running next))
    | .join j next => if Halted P j (s.threads j) then some (s.goto i (.running next)) else none
    | .halt => none
  | .blocking t => some { s.goto i (.blocked t) with owner := none }
  | .blocked _ => none
  | .woken t => if s.owner = none then some { s.goto i (.running t) with owner := some i } else none

theorem moves_of_step (h : step P s a = some s') : Moves P s a s' := by
  obtain ⟨i, w⟩ := a
  simp only [step] at h
  cases ht : s.threads i with
  | running t =>
    rw [ht] at h
    cases hi : P.instr i t with
    | lock next =>
      simp only [hi] at h
      split_ifs at h with ho
      cases h
      exact .lock ht hi ho
    | unlock next =>
      simp only [hi] at h
      cases h
      exact .unlock ht hi
    | update f next =>
      simp only [hi] at h
      cases h
      exact .update ht hi
    | wait cv waiter next =>
      simp only [hi] at h
      cases h
      split_ifs with hw
      · exact .pass ht hi hw
      · exact .fail ht hi (Bool.not_eq_true _ ▸ hw)
    | notifyOne cv next =>
      simp only [hi] at h
      cases w with
      | none =>
        simp only at h
        split_ifs at h with hw
        cases h
        exact .notifyNone ht hi hw
      | some j =>
        simp only at h
        split_ifs at h with hw
        cases h
        exact .notifyOne ht hi hw
    | notifyAll cv next =>
      simp only [hi] at h
      cases h
      exact .notifyAll ht hi
    | join j next =>
      simp only [hi] at h
      split_ifs at h with hj
      cases h
      exact .join ht hi hj
    | halt =>
      simp only [hi] at h
      cases h
  | blocking t =>
    rw [ht] at h
    cases h
    exact .block ht
  | blocked t =>
    rw [ht] at h
    cases h
  | woken t =>
    rw [ht] at h
    simp only at h
    split_ifs at h with ho
    cases h
    exact .retry ht ho

/-! ## Spurious wakeups -/

/-- A blocked thread is woken although nobody has notified it. -/
def Wakes (s : State ι σ τ) (i : ι) (s' : State ι σ τ) : Prop :=
  ∃ t, s.threads i = .blocked t ∧ s' = s.goto i (.woken t)

/-- One step of a thread, or the spurious wakeup of a blocked one. -/
def stepOrWake (P : Program ι σ κ τ) (s : State ι σ τ) (a : Action ι) : Option (State ι σ τ) :=
  match s.threads a.thread with
  | .blocked t => some (s.goto a.thread (.woken t))
  | .running _ | .blocking _ | .woken _ => Monitor.step P s a

theorem moves_or_wakes (h : stepOrWake P s a = some s') :
    Moves P s a s' ∨ Wakes s a.thread s' := by
  rw [stepOrWake] at h
  cases ht : s.threads a.thread with
  | blocked t =>
    rw [ht] at h
    exact Or.inr ⟨t, ht, (Option.some.inj h).symm⟩
  | running | blocking | woken =>
    rw [ht] at h
    exact Or.inl (moves_of_step h)

omit [DecidableEq κ] [Fintype ι] in
/-- A wakeup is to every thread what being notified is to a waiter. -/
theorem Wakes.threads {i : ι} (h : Wakes s i s') (j : ι) :
    s'.threads j = s.threads j ∨
      ∃ t, s.threads j = .blocked t ∧ s'.threads j = .woken t := by
  obtain ⟨t, ht, rfl⟩ := h
  by_cases hj : j = i
  · subst hj
    exact Or.inr ⟨t, ht, Function.update_self ..⟩
  · exact Or.inl (Function.update_of_ne hj ..)

omit [DecidableEq κ] [Fintype ι] in
theorem Wakes.shared {i : ι} (h : Wakes s i s') : s'.shared = s.shared := by
  obtain ⟨_, -, rfl⟩ := h
  rfl

omit [DecidableEq κ] [Fintype ι] in
/-- What being notified leaves, a wakeup leaves of every thread. -/
theorem Wakes.iff {i : ι} (h : Wakes s i s') {j : ι} {p : Status (τ j) → Prop}
    (hp : ∀ t, p (.woken t) ↔ p (.blocked t)) : p (s'.threads j) ↔ p (s.threads j) :=
  iff_of_woken (h.threads j) hp

omit [DecidableEq κ] [Fintype ι] in
/-- Mutual exclusion does not depend on who is woken. -/
theorem Inv.wakes {i : ι} (h : Inv P s) (hw : Wakes s i s') : Inv P s' := by
  refine h.wake ?_ fun j => ?_
  · obtain ⟨_, -, rfl⟩ := hw
    rfl
  · rcases hw.threads j with hs | ⟨t, hs, hs'⟩
    · exact Or.inl hs
    · exact Or.inr (by rw [hs, hs']; rfl)

/-! ## Stuck states -/

/-- No thread can move. -/
def Stuck (P : Program ι σ κ τ) (s : State ι σ τ) : Prop := ∀ a s', Monitor.step P s a ≠ some s'

/-- A thread that does not rest, and can have the mutex if it needs it, can move. -/
theorem exists_step {i : ι} (hrest : ¬ Resting P s i)
    (ho : s.owner = none ∨ Inside P i (s.threads i) = true) :
    ∃ a s', Monitor.step P s a = some s' := by
  cases ht : s.threads i with
  | running t =>
    have hd := P.disciplined i t
    rw [ht] at ho
    cases hi : P.instr i t with
    | lock next =>
      rw [hi] at hd
      have hnone : s.owner = none := ho.resolve_right (by simp [Inside, hd.1])
      exact ⟨⟨i, none⟩, _, by simp only [Monitor.step, ht, hi, if_pos hnone]; rfl⟩
    | unlock next => exact ⟨⟨i, none⟩, _, by simp only [Monitor.step, ht, hi]; rfl⟩
    | update f next => exact ⟨⟨i, none⟩, _, by simp only [Monitor.step, ht, hi]; rfl⟩
    | wait cv waiter next => exact ⟨⟨i, none⟩, _, by simp only [Monitor.step, ht, hi]; rfl⟩
    | notifyOne cv next =>
      by_cases hw : ∃ j, WaitsOn P cv j (s.threads j)
      · obtain ⟨j, hj⟩ := hw
        exact ⟨⟨i, some j⟩, _, by simp only [Monitor.step, ht, hi, if_pos hj]; rfl⟩
      · exact ⟨⟨i, none⟩, _, by simp only [Monitor.step, ht, hi, if_pos (not_exists.1 hw)]; rfl⟩
    | notifyAll cv next => exact ⟨⟨i, none⟩, _, by simp only [Monitor.step, ht, hi]; rfl⟩
    | join j next =>
      by_cases hj : Halted P j (s.threads j)
      · exact ⟨⟨i, none⟩, _, by simp only [Monitor.step, ht, hi, if_pos hj]; rfl⟩
      · exact absurd (Or.inr (Or.inr ⟨t, j, next, ht, hi, hj⟩)) hrest
    | halt => exact absurd (Or.inl ⟨t, ht, hi⟩) hrest
  | blocking t => exact ⟨⟨i, none⟩, _, by simp only [Monitor.step, ht]; rfl⟩
  | blocked t => exact absurd (Or.inr (Or.inl ⟨t, ht⟩)) hrest
  | woken t =>
    rw [ht] at ho
    have hnone : s.owner = none := ho.resolve_right (by simp [Inside])
    exact ⟨⟨i, none⟩, _, by simp only [Monitor.step, ht, if_pos hnone]; rfl⟩

/-! ## Lost wakeups -/

/-- A thread is blocked although what it waits for is there, and no step would
    notify it. -/
def LostWakeup (P : Program ι σ κ τ) (s : State ι σ τ) : Prop :=
  ∃ i t, s.threads i = .blocked t ∧
    (∃ cv waiter next, P.instr i t = .wait cv waiter next ∧ waiter s.shared = true) ∧
    ¬ ∃ a s', Monitor.step P s a = some s' ∧ s'.threads i = .woken t

/-- Who is at a notification can wake any of the waiters. -/
theorem exists_wakes {i j : ι} {u next : τ j} {t : τ i} {cv : κ}
    (hj : s.threads j = .running u)
    (hn : P.instr j u = .notifyOne cv next ∨ P.instr j u = .notifyAll cv next)
    (hi : s.threads i = .blocked t) (hw : WaitsOn P cv i (.blocked t)) :
    ∃ a s', Monitor.step P s a = some s' ∧ s'.threads i = .woken t := by
  have hij : i ≠ j := by
    rintro rfl
    rw [hi] at hj
    cases hj
  rcases hn with hn | hn
  · refine ⟨⟨j, some i⟩, _, by simp only [Monitor.step, hj, hn, hi, if_pos hw]; rfl, ?_⟩
    exact (Function.update_of_ne hij ..).trans (Function.update_self ..)
  · refine ⟨⟨j, none⟩, _, by simp only [Monitor.step, hj, hn]; rfl, ?_⟩
    refine (Function.update_of_ne hij ..).trans ?_
    simp only [State.wakeAll, hi, if_pos hw, Status.wake]

/-- **When nothing moves.** -/
theorem stuck_iff (h : Inv P s) : Stuck P s ↔ ∀ i, Resting P s i := by
  constructor
  · intro hstuck
    -- the owner of the mutex could always go on
    have hnone : s.owner = none := by
      by_contra ho
      obtain ⟨i, hi⟩ := Option.ne_none_iff_exists'.1 ho
      have hin := (h.owner i).1 hi
      have hrest : ¬ Resting P s i := by
        have hd := fun t => P.disciplined i t
        rintro (⟨t, ht, hi⟩ | ⟨t, ht⟩ | ⟨t, j, next, ht, hi, -⟩)
        · have := hd t
          rw [ht] at hin
          simp_all [Inside, Instr.Disciplined]
        · rw [ht] at hin
          cases hin
        · have := hd t
          rw [ht] at hin
          simp_all [Inside, Instr.Disciplined]
      obtain ⟨a, s', hs⟩ := exists_step hrest (Or.inr hin)
      exact hstuck a s' hs
    intro i
    by_contra hrest
    obtain ⟨a, s', hs⟩ := exists_step hrest (Or.inl hnone)
    exact hstuck a s' hs
  · intro hrest a s' hs
    exact not_resting_of_moves (moves_of_step hs) (hrest a.thread)

end

end Monitor
