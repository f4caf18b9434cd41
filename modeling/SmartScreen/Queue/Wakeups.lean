/-
  The notifications of an `AsyncDataQueue`.

  A producer adds ranges and then ends the stream, a consumer pops, and a third
  thread may discard the rest of the stream.  Here the sections are taken apart:
  a wait evaluates its waiter, blocks, and is notified in steps of their own.

  * `Inv`: what the waiters wait for comes with a notification, the end of the
    stream excepted.
  * `lostWakeup_iff`: only the consumer can sleep on, and only at that end.
  * `no_lost_wakeup_iff`: the steps that lead there.
-/
import SmartScreen.Lib.Monitor
import SmartScreen.Lib.Run
import SmartScreen.Queue.AsyncDataQueue

namespace SmartScreen.AsyncDataQueue.Wakeups

open Monitor LTS

variable {α : Type}

/-! ## The threads -/

inductive Variable where
  | dequeOverflow
  | dequeUnderflow
deriving DecidableEq

inductive ThreadId where
  | producer
  | consumer
  | discarder
deriving DecidableEq

instance instFintypeThreadId : Fintype ThreadId where
  elems := {.producer, .consumer, .discarder}
  complete i := by cases i <;> simp

/-- `addDataPoints` for the ranges `rs` in turn, then `notifyStreamEnd`.  `rest` is
    what is left of a range. -/
inductive Producer (α : Type) where
  | next (rs : List (List α))
  | test (rest : List α) (rs : List (List α))
  | lock (rest : List α) (rs : List (List α))
  | wait (rest : List α) (rs : List (List α))
  | insert (rest : List α) (rs : List (List α))
  | notify (rest : List α) (rs : List (List α))
  | unlock (rest : List α) (rs : List (List α))
  | notifyStreamEnd
  | done

/-- `popDataPoints` for ranges of the lengths `ns` in turn.  `popped` is what has
    been written to a range, `n` what is left of it. -/
inductive Consumer (α : Type) where
  | next (ns : List ℕ)
  | lock (popped : List α) (n : ℕ) (ns : List ℕ)
  | wait (popped : List α) (n : ℕ) (ns : List ℕ)
  | pop (popped : List α) (n : ℕ) (ns : List ℕ)
  | notify (popped : List α) (n : ℕ) (ns : List ℕ)
  | unlock (popped : List α) (n : ℕ) (ns : List ℕ)
  | test (popped : List α) (n : ℕ) (ns : List ℕ)

/-- Some calls of `discardRestOfStream`. -/
inductive Discarder where
  | next (calls : ℕ)
  | discard (calls : ℕ)
  | notify (calls : ℕ)
  | unlock (calls : ℕ)

abbrev Point (α : Type) : ThreadId → Type
  | .producer => Producer α
  | .consumer => Consumer α
  | .discarder => Discarder

/-! ## The code -/

def produce : Producer α → Instr ThreadId (AsyncDataQueue α) Variable (Producer α)
  | .next [] => .update notifyStreamEnd fun _ => .notifyStreamEnd
  | .next (r :: rs) => .update id fun _ => .test r rs
  | .test rest rs => .update id fun q =>
    if !rest.isEmpty && !q.streamEnded then .lock rest rs else .next rs
  | .lock rest rs => .lock (.wait rest rs)
  | .wait rest rs => .wait .dequeOverflow notFull (.insert rest rs)
  | .insert rest rs =>
    let elementsPushed (q : AsyncDataQueue α) :=
      min rest.length (sizeSub q.queueMaxSize q.dataQueue.length)
    .update (fun q => q.pushBack (rest.take (elementsPushed q)))
      fun q => .notify (rest.drop (elementsPushed q)) rs
  | .notify rest rs => .notifyOne .dequeUnderflow (.unlock rest rs)
  | .unlock rest rs => .unlock (.test rest rs)
  | .notifyStreamEnd => .notifyOne .dequeUnderflow .done
  | .done => .halt

def consume : Consumer α → Instr ThreadId (AsyncDataQueue α) Variable (Consumer α)
  | .next [] => .halt
  | .next (n :: ns) => .update id fun _ => .lock [] n ns
  | .lock popped n ns => .lock (.wait popped n ns)
  | .wait popped n ns => .wait .dequeUnderflow notEmpty (.pop popped n ns)
  | .pop popped n ns =>
    let elementsPulled (q : AsyncDataQueue α) := min n q.dataQueue.length
    .update (fun q => q.removePointsFromQueue (elementsPulled q))
      fun q => .notify (popped ++ q.dataQueue.take (elementsPulled q)) (n - elementsPulled q) ns
  | .notify popped n ns => .notifyOne .dequeOverflow (.unlock popped n ns)
  | .unlock popped n ns => .unlock (.test popped n ns)
  | .test popped n ns => .update id fun q =>
    if n ≠ 0 && !q.streamEnded then .lock popped n ns else .next ns

/-- The queue is cleared and the stream ended in one section; a test of the end in
    between finds what it would have found before. -/
def discard : Discarder → Instr ThreadId (AsyncDataQueue α) Variable Discarder
  | .next 0 => .halt
  | .next (calls + 1) => .lock (.discard calls)
  | .discard calls => .update discardRestOfStream fun _ => .notify calls
  | .notify calls => .notifyAll .dequeOverflow (.unlock calls)
  | .unlock calls => .unlock (.next calls)

def Producer.holds : Producer α → Bool
  | .wait _ _ | .insert _ _ | .notify _ _ | .unlock _ _ => true
  | .next _ | .test _ _ | .lock _ _ | .notifyStreamEnd | .done => false

def Consumer.holds : Consumer α → Bool
  | .wait _ _ _ | .pop _ _ _ | .notify _ _ _ | .unlock _ _ _ => true
  | .next _ | .lock _ _ _ | .test _ _ _ => false

def Discarder.holds : Discarder → Bool
  | .discard _ | .notify _ | .unlock _ => true
  | .next _ => false

def code (α : Type) : Program ThreadId (AsyncDataQueue α) Variable (Point α) where
  instr
    | .producer => produce
    | .consumer => consume
    | .discarder => discard
  holds
    | .producer => Producer.holds
    | .consumer => Consumer.holds
    | .discarder => Discarder.holds
  disciplined := by
    intro i t
    match i with
    | .producer =>
      match t with
      | .next [] | .next (_ :: _) | .insert _ _ => exact fun _ => rfl
      | .test _ _ =>
        intro q
        simp only
        split <;> rfl
      | .lock _ _ | .wait _ _ | .unlock _ _ => exact ⟨rfl, rfl⟩
      | .notify _ _ | .notifyStreamEnd | .done => rfl
    | .consumer =>
      match t with
      | .next [] => rfl
      | .next (_ :: _) | .pop _ _ _ => exact fun _ => rfl
      | .test _ _ _ =>
        intro q
        simp only
        split <;> rfl
      | .lock _ _ _ | .wait _ _ _ | .unlock _ _ _ => exact ⟨rfl, rfl⟩
      | .notify _ _ _ => rfl
    | .discarder =>
      match t with
      | .next 0 => rfl
      | .next (_ + 1) | .unlock _ => exact ⟨rfl, rfl⟩
      | .discard _ => exact fun _ => rfl
      | .notify _ => rfl

/-- A state of the queue and its threads. -/
abbrev System (α : Type) := State ThreadId (AsyncDataQueue α) (Point α)

/-- An empty queue, and the calls that the threads will make. -/
def start (maxSize : ℕ) (ranges : List (List α)) (lengths : List ℕ) (discards : ℕ) : System α where
  shared := { queueMaxSize := maxSize }
  threads
    | .producer => .running (.next ranges)
    | .consumer => .running (.next lengths)
    | .discarder => .running (.next discards)

/-! ## Where the threads are -/

/-- About to notify who waits for data points, or for the end. -/
def NotifiesUnderflow : Status (Producer α) → Prop
  | .running (.notify _ _) | .running .notifyStreamEnd => True
  | _ => False

/-- About to notify who waits for room. -/
def NotifiesOverflow (s : System α) : Prop :=
  (∃ popped n ns, s.threads .consumer = .running (.notify popped n ns)) ∨
    ∃ calls, s.threads .discarder = .running (.notify calls)

structure Inv (s : System α) : Prop where
  mutex : Monitor.Inv (code α) s
  /-- the consumer has found the queue empty, and holds the mutex -/
  empty : ∀ t, s.threads .consumer = .blocking t → s.shared.dataQueue = []
  /-- the producer has found the queue full, and holds the mutex -/
  full : ∀ t, s.threads .producer = .blocking t → s.shared.notFull = false
  underflow : ∀ t, s.threads .consumer = .blocked t → s.shared.dataQueue ≠ [] →
    NotifiesUnderflow (s.threads .producer)
  overflow : ∀ t, s.threads .producer = .blocked t → s.shared.notFull = true →
    NotifiesOverflow s

variable {s s' : System α} {q q' : AsyncDataQueue α} {a : Monitor.Action ThreadId}

theorem wait_of_waits {i : ThreadId} {t : Point α i}
    (h : ∃ cv waiter next, (code α).instr i t = .wait cv waiter next) :
    match i, t with
    | .producer, t => ∃ rest rs, t = .wait rest rs
    | .consumer, t => ∃ popped n ns, t = .wait popped n ns
    | .discarder, _ => False := by
  obtain ⟨cv, waiter, next, h⟩ := h
  match i, t with
  | .producer, .wait rest rs => exact ⟨rest, rs, rfl⟩
  | .producer, .next [] | .producer, .next (_ :: _) | .producer, .test _ _
  | .producer, .lock _ _ | .producer, .insert _ _ | .producer, .notify _ _
  | .producer, .unlock _ _ | .producer, .notifyStreamEnd | .producer, .done => cases h
  | .consumer, .wait popped n ns => exact ⟨popped, n, ns, rfl⟩
  | .consumer, .next [] | .consumer, .next (_ :: _) | .consumer, .lock _ _ _
  | .consumer, .pop _ _ _ | .consumer, .notify _ _ _ | .consumer, .unlock _ _ _
  | .consumer, .test _ _ _ => cases h
  | .discarder, .next 0 | .discarder, .next (_ + 1) | .discarder, .discard _
  | .discarder, .notify _ | .discarder, .unlock _ => cases h

theorem waits_cases {i : ThreadId} {t : Point α i} {cv : Variable}
    {waiter : AsyncDataQueue α → Bool} {next : Point α i}
    (h : (code α).instr i t = .wait cv waiter next) :
    i = .producer ∧ cv = .dequeOverflow ∧ waiter = notFull ∨
      i = .consumer ∧ cv = .dequeUnderflow ∧ waiter = notEmpty := by
  have hw := wait_of_waits ⟨cv, waiter, next, h⟩
  cases i with
  | producer =>
    obtain ⟨rest, rs, rfl⟩ := hw
    cases h
    exact Or.inl ⟨rfl, rfl, rfl⟩
  | consumer =>
    obtain ⟨popped, n, ns, rfl⟩ := hw
    cases h
    exact Or.inr ⟨rfl, rfl, rfl⟩
  | discarder => exact hw.elim

/-- The producer inserts inside a section only, and is then about to notify. -/
theorem producer_inserts {st st' : Status (Producer α)}
    (h : advance (code α) .producer q st = some (st', q')) :
    q'.dataQueue = q.dataQueue ∧ q'.queueMaxSize = q.queueMaxSize ∧
        (q'.streamEnded = q.streamEnded ∨ NotifiesUnderflow st') ∨
      Inside (code α) .producer st = true ∧ NotifiesUnderflow st' ∧
        q'.streamEnded = q.streamEnded := by
  cases st with
  | running t =>
    match t with
    | .next [] => cases h; exact Or.inl ⟨rfl, rfl, Or.inr trivial⟩
    | .insert rest rs => cases h; exact Or.inr ⟨rfl, trivial, rfl⟩
    | .next (_ :: _) | .test _ _ | .lock _ _ | .wait _ _ | .notify _ _ | .unlock _ _
    | .notifyStreamEnd => cases h; exact Or.inl ⟨rfl, rfl, Or.inl rfl⟩
    | .done => cases h
  | blocking t | woken t => cases h; exact Or.inl ⟨rfl, rfl, Or.inl rfl⟩
  | blocked t => cases h

/-- The consumer removes inside a section only, and is then about to notify. -/
theorem consumer_removes {st st' : Status (Consumer α)}
    (h : advance (code α) .consumer q st = some (st', q')) :
    q' = q ∨ Inside (code α) .consumer st = true ∧ q'.streamEnded = q.streamEnded ∧
      ∃ popped n ns, st' = .running (.notify popped n ns) := by
  cases st with
  | running t =>
    match t with
    | .pop popped n ns =>
      cases h
      refine Or.inr ⟨rfl, ?_, _, _, _, rfl⟩
      simp only [removePointsFromQueue_eq]
    | .next [] => cases h
    | .next (_ :: _) | .test _ _ _ | .lock _ _ _ | .wait _ _ _ | .notify _ _ _
    | .unlock _ _ _ => cases h; exact Or.inl rfl
  | blocking t | woken t => cases h; exact Or.inl rfl
  | blocked t => cases h

/-- The third thread leaves the queue alone, or discards it inside a section. -/
theorem discarder_discards {st st' : Status Discarder}
    (h : advance (code α) .discarder q st = some (st', q')) :
    q' = q ∨ ∃ calls, st = .running (.discard calls) ∧ st' = .running (.notify calls) ∧
      q' = q.discardRestOfStream := by
  cases st with
  | running t =>
    match t with
    | .discard calls => cases h; exact Or.inr ⟨calls, rfl, rfl, rfl⟩
    | .next 0 => cases h
    | .next (_ + 1) | .notify _ | .unlock _ => cases h; exact Or.inl rfl
  | blocking t | woken t => cases h; exact Or.inl rfl
  | blocked t => cases h

/-- The consumer is the only one that waits for data points. -/
theorem wakes_consumer {w : Option ThreadId} (h : Moves (code α) s ⟨.producer, w⟩ s')
    (hn : NotifiesUnderflow (s.threads .producer)) {t : Consumer α}
    (ht : s.threads .consumer = .blocked t) (hinv : Monitor.Inv (code α) s) :
    s'.threads .consumer = .woken t := by
  have hwaits : WaitsOn (code α) .dequeUnderflow .consumer (s.threads .consumer) := by
    obtain ⟨cv, waiter, next, hi⟩ := hinv.waits .consumer t (Or.inr (Or.inl ht))
    obtain ⟨hc, -⟩ | ⟨-, rfl, -⟩ := waits_cases hi
    · cases hc
    · rw [ht]
      exact ⟨waiter, next, hi⟩
  obtain ⟨u, next, hu, hi⟩ : ∃ u next, s.threads .producer = .running u ∧
      (code α).instr .producer u = .notifyOne .dequeUnderflow next := by
    cases hp : s.threads .producer with
    | running u =>
      rw [hp] at hn
      match u, hn with
      | .notify rest rs, _ => exact ⟨_, _, rfl, rfl⟩
      | .notifyStreamEnd, _ => exact ⟨_, _, rfl, rfl⟩
    | blocking | blocked | woken => rw [hp] at hn; exact hn.elim
  obtain ⟨k, hk, hwoken⟩ := h.wakes_one hu hi hwaits
  obtain ⟨t', ht', hwake, waiter, next, hi⟩ := hk.blocked
  obtain ⟨-, hcv, -⟩ | ⟨rfl, -, -⟩ := waits_cases hi
  · cases hcv
  · rw [hwake] at hwoken
    rw [ht] at ht'
    cases ht'
    exact hwoken

/-- The producer is the only one that waits for room. -/
theorem wakes_producer (h : Moves (code α) s a s') {u next : Point α a.thread}
    (hu : s.threads a.thread = .running u)
    (hi : (code α).instr a.thread u = .notifyOne .dequeOverflow next ∨
      (code α).instr a.thread u = .notifyAll .dequeOverflow next) {t : Producer α}
    (ht : s.threads .producer = .blocked t) (hinv : Monitor.Inv (code α) s) :
    s'.threads .producer = .woken t := by
  have hwaits : WaitsOn (code α) .dequeOverflow .producer (s.threads .producer) := by
    obtain ⟨cv, waiter, next, hi⟩ := hinv.waits .producer t (Or.inr (Or.inl ht))
    obtain ⟨-, rfl, -⟩ | ⟨hc, -⟩ := waits_cases hi
    · rw [ht]
      exact ⟨waiter, next, hi⟩
    · cases hc
  rcases hi with hi | hi
  · obtain ⟨k, hk, hwoken⟩ := h.wakes_one hu hi hwaits
    obtain ⟨t', ht', hwake, waiter, next, hi⟩ := hk.blocked
    obtain ⟨rfl, -, -⟩ | ⟨-, hcv, -⟩ := waits_cases hi
    · rw [hwake] at hwoken
      rw [ht] at ht'
      cases ht'
      exact hwoken
    · cases hcv
  · rw [h.wakes_all hu hi hwaits, ht]
    rfl

/-! ## The invariant -/

theorem inside_unique (h : Inv s) {i j : ThreadId} (hi : Inside (code α) i (s.threads i) = true)
    (hj : Inside (code α) j (s.threads j) = true) : i = j :=
  Option.some.inj (((h.mutex.owner i).2 hi).symm.trans ((h.mutex.owner j).2 hj))

theorem notEmpty_eq_false : q.notEmpty = false ↔ q.dataQueue = [] ∧ q.streamEnded = false := by
  simp [notEmpty]

theorem empty_step (h : Inv s) (hs : Moves (code α) s a s') (t : Consumer α)
    (ht : s'.threads .consumer = .blocking t) : s'.shared.dataQueue = [] := by
  rcases hs.blocking ht with ⟨hne, hbefore⟩ | ⟨-, hq, cv, waiter, next, hi, hw⟩
  · have hempty := h.empty t hbefore
    have hin : Inside (code α) .consumer (s.threads .consumer) = true := by rw [hbefore]; rfl
    have hself := hs.self
    obtain ⟨i, w⟩ := a
    cases i with
    | producer =>
      rcases producer_inserts hself with ⟨hd, -⟩ | ⟨hinside, -⟩
      · rw [hd, hempty]
      · cases inside_unique h hin hinside
    | consumer => exact absurd rfl hne
    | discarder =>
      rcases discarder_discards hself with hq | ⟨calls, -, -, hq⟩
      · rw [hq, hempty]
      · rw [hq]; rfl
  · obtain ⟨hc, -⟩ | ⟨-, -, rfl⟩ := waits_cases hi
    · cases hc
    · rw [hq]
      exact (notEmpty_eq_false.1 hw).1

theorem full_step (h : Inv s) (hs : Moves (code α) s a s') (t : Producer α)
    (ht : s'.threads .producer = .blocking t) : s'.shared.notFull = false := by
  rcases hs.blocking ht with ⟨hne, hbefore⟩ | ⟨-, hq, cv, waiter, next, hi, hw⟩
  · have hfull := h.full t hbefore
    have hin : Inside (code α) .producer (s.threads .producer) = true := by rw [hbefore]; rfl
    have hself := hs.self
    obtain ⟨i, w⟩ := a
    cases i with
    | producer => exact absurd rfl hne
    | consumer =>
      rcases consumer_removes hself with hq | ⟨hinside, -⟩
      · rw [hq, hfull]
      · cases inside_unique h hin hinside
    | discarder =>
      rcases discarder_discards hself with hq | ⟨calls, hd, -, -⟩
      · rw [hq, hfull]
      · have hinside : Inside (code α) .discarder (s.threads .discarder) = true := by
          rw [hd]; rfl
        cases inside_unique h hin hinside
  · obtain ⟨-, -, rfl⟩ | ⟨hc, -⟩ := waits_cases hi
    · rw [hq]
      exact hw
    · cases hc

theorem notifiesUnderflow_other (hs : Moves (code α) s a s') (ha : .producer ≠ a.thread) :
    NotifiesUnderflow (s'.threads .producer) ↔ NotifiesUnderflow (s.threads .producer) :=
  hs.other_iff ha fun _ => Iff.rfl

/-- A consumer that is blocked after a step of the producer was not notified. -/
theorem not_notified {w : Option ThreadId} (h : Inv s)
    (hs : Moves (code α) s ⟨.producer, w⟩ s') {t : Consumer α}
    (ht : s'.threads .consumer = .blocked t) : ¬ NotifiesUnderflow (s.threads .producer) := by
  intro hn
  have hbefore := (hs.blocked ht).resolve_right (by simp)
  have hwoken := wakes_consumer hs hn hbefore h.mutex
  rw [ht] at hwoken
  cases hwoken

theorem underflow_step (h : Inv s) (hs : Moves (code α) s a s') (t : Consumer α)
    (ht : s'.threads .consumer = .blocked t) (hdata : s'.shared.dataQueue ≠ []) :
    NotifiesUnderflow (s'.threads .producer) := by
  have hself := hs.self
  rcases hs.blocked ht with hbefore | ⟨ha, hbefore⟩
  · have hunder := h.underflow t hbefore
    obtain ⟨i, w⟩ := a
    cases i with
    | producer =>
      rcases producer_inserts hself with ⟨hd, -⟩ | ⟨-, hn, -⟩
      · exact absurd (hunder (hd ▸ hdata)) (not_notified h hs ht)
      · exact hn
    | consumer =>
      rw [hbefore] at hself
      cases hself
    | discarder =>
      rw [notifiesUnderflow_other hs (by simp)]
      rcases discarder_discards hself with hq | ⟨calls, -, -, hq⟩
      · exact hunder (hq ▸ hdata)
      · rw [hq] at hdata
        exact absurd rfl hdata
  · obtain ⟨i, w⟩ := a
    cases ha
    rw [hbefore] at hself
    have hq : s.shared = s'.shared := (Prod.mk.inj (Option.some.inj hself)).2
    exact absurd (hq ▸ h.empty t hbefore) hdata

theorem overflow_step (h : Inv s) (hs : Moves (code α) s a s') (t : Producer α)
    (ht : s'.threads .producer = .blocked t) (hroom : s'.shared.notFull = true) :
    NotifiesOverflow s' := by
  have hself := hs.self
  rcases hs.blocked ht with hbefore | ⟨ha, hbefore⟩
  · have hover := h.overflow t hbefore
    have hwoken : ∀ u next, s.threads a.thread = .running u →
        ((code α).instr a.thread u = .notifyOne .dequeOverflow next ∨
          (code α).instr a.thread u = .notifyAll .dequeOverflow next) → False := by
      intro u next hu hi
      have hw := wakes_producer hs hu hi hbefore h.mutex
      rw [ht] at hw
      cases hw
    obtain ⟨i, w⟩ := a
    cases i with
    | producer =>
      rw [hbefore] at hself
      cases hself
    | consumer =>
      rcases consumer_removes hself with hq | ⟨-, -, hn⟩
      · rcases hover (hq ▸ hroom) with ⟨popped, n, ns, hc⟩ | ⟨calls, hd⟩
        · exact (hwoken _ _ hc (Or.inl rfl)).elim
        · exact Or.inr ⟨calls, (hs.running (by simp)).2 hd⟩
      · exact Or.inl hn
    | discarder =>
      rcases discarder_discards hself with hq | ⟨calls, -, hd, -⟩
      · rcases hover (hq ▸ hroom) with ⟨popped, n, ns, hc⟩ | ⟨calls, hd⟩
        · exact Or.inl ⟨popped, n, ns, (hs.running (by simp)).2 hc⟩
        · exact (hwoken _ _ hd (Or.inr rfl)).elim
      · exact Or.inr ⟨calls, hd⟩
  · obtain ⟨i, w⟩ := a
    cases ha
    rw [hbefore] at hself
    have hq : s.shared = s'.shared := (Prod.mk.inj (Option.some.inj hself)).2
    rw [← hq, h.full t hbefore] at hroom
    cases hroom

/-- **The invariant** is kept by every step of every thread. -/
theorem Inv.step (h : Inv s) (hs : Moves (code α) s a s') : Inv s' :=
  ⟨h.mutex.step hs, empty_step h hs, full_step h hs, underflow_step h hs, overflow_step h hs⟩

/-! ## Lost wakeups -/

/-- The consumer sleeps on after the end of the stream. -/
def SleepsOn (s : System α) : Prop :=
  (∃ t, s.threads .consumer = .blocked t) ∧ s.shared.streamEnded = true ∧
    ¬ NotifiesUnderflow (s.threads .producer)

/-- Who is about to notify the consumer could do it now. -/
theorem exists_wakes_consumer (h : Inv s) {t : Consumer α}
    (ht : s.threads .consumer = .blocked t) (hn : NotifiesUnderflow (s.threads .producer)) :
    ∃ a s', Monitor.step (code α) s a = some s' ∧ s'.threads .consumer = .woken t := by
  obtain ⟨cv, waiter, next, hi⟩ := h.mutex.waits .consumer t (Or.inr (Or.inl ht))
  obtain ⟨hc, -⟩ | ⟨-, rfl, -⟩ := waits_cases hi
  · cases hc
  have hwaits : WaitsOn (code α) .dequeUnderflow .consumer (.blocked t) := ⟨waiter, next, hi⟩
  cases hp : s.threads .producer with
  | running u =>
    rw [hp] at hn
    match u, hn with
    | .notify rest rs, _ => exact exists_wakes hp (Or.inl rfl) ht hwaits
    | .notifyStreamEnd, _ => exact exists_wakes hp (Or.inl rfl) ht hwaits
  | blocking | blocked | woken => rw [hp] at hn; exact hn.elim

/-- Only the producer notifies who waits for data points. -/
theorem notifies_underflow {i : ThreadId} {u next : Point α i}
    (h : (code α).instr i u = .notifyOne .dequeUnderflow next ∨
      (code α).instr i u = .notifyAll .dequeUnderflow next) :
    match i, u with
    | .producer, u => NotifiesUnderflow (.running u)
    | .consumer, _ | .discarder, _ => False := by
  match i, u with
  | .producer, .notify _ _ | .producer, .notifyStreamEnd => trivial
  | .producer, .next [] | .producer, .next (_ :: _) | .producer, .test _ _
  | .producer, .lock _ _ | .producer, .wait _ _ | .producer, .insert _ _
  | .producer, .unlock _ _ | .producer, .done => rcases h with h | h <;> cases h
  | .consumer, .next [] | .consumer, .next (_ :: _) | .consumer, .lock _ _ _
  | .consumer, .wait _ _ _ | .consumer, .pop _ _ _ | .consumer, .notify _ _ _
  | .consumer, .unlock _ _ _ | .consumer, .test _ _ _ => rcases h with h | h <;> cases h
  | .discarder, .next 0 | .discarder, .next (_ + 1) | .discarder, .discard _
  | .discarder, .notify _ | .discarder, .unlock _ => rcases h with h | h <;> cases h

/-- **Lost wakeups.**  The producer never sleeps on, and the consumer only at the
    end of the stream. -/
theorem lostWakeup_iff (h : Inv s) : LostWakeup (code α) s ↔ SleepsOn s := by
  constructor
  · rintro ⟨i, t, ht, ⟨cv, waiter, next, hi, hw⟩, hlost⟩
    obtain ⟨rfl, rfl, rfl⟩ | ⟨rfl, rfl, rfl⟩ := waits_cases hi
    · exfalso
      apply hlost
      rcases h.overflow t ht hw with ⟨popped, n, ns, hc⟩ | ⟨calls, hd⟩
      · exact exists_wakes hc (Or.inl rfl) ht ⟨_, next, hi⟩
      · exact exists_wakes hd (Or.inr rfl) ht ⟨_, next, hi⟩
    · have hn : ¬ NotifiesUnderflow (s.threads .producer) :=
        fun hn => hlost (exists_wakes_consumer h ht hn)
      refine ⟨⟨t, ht⟩, ?_, hn⟩
      by_contra hended
      have hdata : s.shared.dataQueue ≠ [] := by
        intro hdata
        simp [notEmpty, hdata, hended] at hw
      exact hn (h.underflow t ht hdata)
  · rintro ⟨⟨t, ht⟩, hended, hn⟩
    obtain ⟨cv, waiter, next, hi⟩ := h.mutex.waits .consumer t (Or.inr (Or.inl ht))
    obtain ⟨hc, -⟩ | ⟨-, rfl, rfl⟩ := waits_cases hi
    · cases hc
    refine ⟨.consumer, t, ht, ⟨_, _, next, hi, by simp [notEmpty, hended]⟩, ?_⟩
    rintro ⟨a, s', hs, hwoken⟩
    have hm := moves_of_step hs
    obtain ⟨u, cv, next', hu, ⟨waiter, next'', hi'⟩, hnotify⟩ := hm.notifies_of_woken ht hwoken
    rw [hi] at hi'
    cases hi'
    have hproducer := notifies_underflow hnotify
    obtain ⟨i, w⟩ := a
    cases i with
    | producer =>
      rw [hu] at hn
      exact hn hproducer
    | consumer | discarder => exact hproducer

/-- The consumer blocks although the stream has ended while it was about to, or
    the stream is discarded while it is blocked; and the producer is not about to
    notify it. -/
def MissesEnd (s : System α) (a : Monitor.Action ThreadId) : Prop :=
  ¬ NotifiesUnderflow (s.threads .producer) ∧
    (a.thread = .consumer ∧ (∃ t, s.threads .consumer = .blocking t) ∧
        s.shared.streamEnded = true ∨
      a.thread = .discarder ∧ (∃ calls, s.threads .discarder = .running (.discard calls)) ∧
        ∃ t, s.threads .consumer = .blocked t)

/-- **The step into a lost wakeup.** -/
theorem sleepsOn_step_iff (h : Inv s) (hs : Moves (code α) s a s') (hp : ¬ SleepsOn s) :
    SleepsOn s' ↔ MissesEnd s a := by
  have hself := hs.self
  obtain ⟨i, w⟩ := a
  constructor
  · rintro ⟨⟨t, ht⟩, hended, hn⟩
    cases i with
    | producer =>
      exfalso
      have hbefore := (hs.blocked ht).resolve_right (by simp)
      refine hp ⟨⟨t, hbefore⟩, ?_, not_notified h hs ht⟩
      rcases producer_inserts hself with ⟨-, -, he | hn'⟩ | ⟨-, hn', -⟩
      · exact he ▸ hended
      · exact absurd hn' hn
      · exact absurd hn' hn
    | consumer =>
      rw [notifiesUnderflow_other hs (by simp)] at hn
      refine ⟨hn, Or.inl ⟨rfl, ?_⟩⟩
      rcases hs.blocked ht with hbefore | ⟨-, hbefore⟩
      · simp only [hbefore] at hself
        cases hself
      · simp only [hbefore] at hself
        have hq : s.shared = s'.shared := (Prod.mk.inj (Option.some.inj hself)).2
        exact ⟨⟨t, hbefore⟩, hq ▸ hended⟩
    | discarder =>
      rw [notifiesUnderflow_other hs (by simp)] at hn
      have hbefore := (hs.blocked ht).resolve_right (by simp)
      rcases discarder_discards hself with hq | ⟨calls, hd, -, -⟩
      · exact absurd ⟨⟨t, hbefore⟩, hq ▸ hended, hn⟩ hp
      · exact ⟨hn, Or.inr ⟨rfl, ⟨calls, hd⟩, t, hbefore⟩⟩
  · rintro ⟨hn, ⟨rfl, ⟨t, ht⟩, hended⟩ | ⟨rfl, ⟨calls, hd⟩, t, ht⟩⟩
    · simp only [ht] at hself
      obtain ⟨ht', hq⟩ := Prod.mk.inj (Option.some.inj hself)
      refine ⟨⟨t, ht'.symm⟩, hq ▸ hended, ?_⟩
      rwa [notifiesUnderflow_other hs (by simp)]
    · simp only [hd] at hself
      obtain ⟨-, hq⟩ := Prod.mk.inj (Option.some.inj hself)
      refine ⟨⟨t, ?_⟩, by rw [← hq]; rfl, ?_⟩
      · rw [hs.other_of_update hd rfl (by simp)]
        exact ht
      · rwa [notifiesUnderflow_other hs (by simp)]

/-! ## Runs -/

/-- The steps as a relation. -/
def Steps (s : System α) (a : Monitor.Action ThreadId) (s' : System α) : Prop :=
  Monitor.step (code α) s a = some s'

theorem inv_start (maxSize : ℕ) (ranges : List (List α)) (lengths : List ℕ) (discards : ℕ) :
    Inv (start maxSize ranges lengths discards) := by
  refine ⟨⟨?_, ?_⟩, ?_, ?_, ?_, ?_⟩
  · rintro (_ | _ | _) <;> simp [start, Inside, code, Producer.holds, Consumer.holds,
      Discarder.holds]
  · rintro (_ | _ | _) t ht <;> simp [start] at ht
  all_goals intro t ht; simp [start] at ht

/-- **Wakeups.**  For every capacity and all calls of the threads, an interleaving
    loses no wakeup iff in none of its steps the consumer misses the end. -/
theorem no_lost_wakeup_iff (maxSize : ℕ) (ranges : List (List α)) (lengths : List ℕ)
    (discards : ℕ) {tr : List (System α × Monitor.Action ThreadId × System α)}
    (hrun : Run Steps (start maxSize ranges lengths discards) tr s) :
    (¬ LostWakeup (code α) (start maxSize ranges lengths discards) ∧
      ∀ x ∈ tr, ¬ LostWakeup (code α) x.2.2) ↔ ∀ x ∈ tr, ¬ MissesEnd x.1 x.2.1 := by
  have hinv := inv_start maxSize ranges lengths discards
  have hstart : ¬ SleepsOn (start maxSize ranges lengths discards) := by
    rintro ⟨⟨t, ht⟩, -⟩
    cases ht
  rw [lostWakeup_iff hinv, and_iff_right hstart]
  have hreach : ∀ x ∈ tr, Inv x.2.2 := fun x hx =>
    (hrun.reach_of_mem x hx).2.inv hinv fun _ _ _ hs hi => hi.step (moves_of_step hs)
  rw [forall₂_congr fun x hx => not_congr (lostWakeup_iff (hreach x hx))]
  exact hrun.forall_iff (P := fun s => ¬ SleepsOn s) (C := fun s a => ¬ MissesEnd s a) hinv hstart
    (fun _ _ _ hs hi => hi.step (moves_of_step hs))
    fun _ _ _ hs hi hp => not_congr (sleepsOn_step_iff hi (moves_of_step hs) hp)

/-- `n` steps of a thread that notifies nobody. -/
def steps (i : ThreadId) (n : ℕ) : List (Monitor.Action ThreadId) := .replicate n ⟨i, none⟩

/-- The consumer finds the queue empty and the stream open; before it blocks, the
    producer ends the stream and notifies nobody.  The consumer waits for ever. -/
theorem wakeup_lost :
    ∃ tr s, Run Steps (start 1 [] [1] 0 : System ℕ) tr s ∧ LostWakeup (code ℕ) s ∧
      Stuck (code ℕ) s := by
  obtain ⟨s, hs, hproducer, hconsumer, hdiscarder, hended⟩ : ∃ s, List.foldlM
      (Monitor.step (code ℕ)) (start 1 [] [1] 0)
      (steps .consumer 3 ++ steps .producer 2 ++ steps .consumer 1) = some s ∧
      s.threads .producer = .running .done ∧ s.threads .consumer = .blocked (.wait [] 1 []) ∧
        s.threads .discarder = .running (.next 0) ∧ s.shared.streamEnded = true :=
    ⟨_, rfl, rfl, rfl, rfl, rfl⟩
  have hrun := Run.trace hs
  have hinv : Inv s := hrun.inv (inv_start 1 [] [1] 0)
    fun _ _ hs hi => hi.step (moves_of_step hs)
  refine ⟨_, s, hrun, (lostWakeup_iff hinv).2 ⟨⟨_, hconsumer⟩, hended, ?_⟩,
    (stuck_iff hinv.mutex).2 ?_⟩
  · rw [hproducer]
    exact id
  · rintro (_ | _ | _)
    · exact Or.inl ⟨_, hproducer, rfl⟩
    · exact Or.inr (Or.inl ⟨_, hconsumer⟩)
    · exact Or.inl ⟨_, hdiscarder, rfl⟩

/-- The consumer blocks in time and is notified. -/
theorem no_lost_wakeup_iff_notified :
    ∃ tr s, Run Steps (start 1 [] [1] 0 : System ℕ) tr s ∧
      s.threads .consumer = .running (.next []) ∧
      ((¬ LostWakeup (code ℕ) (start 1 [] [1] 0) ∧ ∀ x ∈ tr, ¬ LostWakeup (code ℕ) x.2.2) ↔
        ∀ x ∈ tr, ¬ MissesEnd x.1 x.2.1) := by
  obtain ⟨s, hs, hconsumer⟩ : ∃ s, List.foldlM (Monitor.step (code ℕ)) (start 1 [] [1] 0)
      (steps .consumer 4 ++ steps .producer 1 ++ [⟨.producer, some .consumer⟩] ++
        steps .consumer 6) = some s ∧ s.threads .consumer = .running (.next []) :=
    ⟨_, rfl, rfl⟩
  exact ⟨_, s, Run.trace hs, hconsumer, no_lost_wakeup_iff 1 [] [1] 0 (Run.trace hs)⟩

end SmartScreen.AsyncDataQueue.Wakeups
