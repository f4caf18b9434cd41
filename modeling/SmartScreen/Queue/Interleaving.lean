/-
  Threads that share an `AsyncDataQueue`.

  `System.step` lets one thread enter a call, take one section or make one test,
  or changes the capacity or the end of the stream; a run of it is one
  interleaving.  The logs record what was inserted and removed, with the call
  that did it, and what the calls returned.

  * `Effect.Sound` says what a section does, `Inv` what holds in between.
  * `lossless_fifo`: no interleaving loses, repeats or reorders data.
-/
import SmartScreen.Lib.Log
import SmartScreen.Lib.Run
import SmartScreen.Queue.AsyncDataQueue

namespace SmartScreen.AsyncDataQueue

open LTS

variable {ι α : Type}

/-! ## The system -/

/-- A call: its thread, and its number among the calls of the thread. -/
abbrev CallId (ι : Type) := ι × ℕ

structure System (ι α : Type) where
  queue : AsyncDataQueue α := {}
  threads : ι → Thread α := fun _ => .idle
  number : ι → ℕ := fun _ => 0
  inserted : List (CallId ι × α) := []
  removed : List (CallId ι × α) := []
  returned : List (CallId ι × Return α) := []

inductive Action (ι α : Type) where
  | call (i : ι) (op : Op α)
  | test (i : ι)
  | locked (i : ι)
  | setQueueMaxSize (maxSize : ℕ)
  | notifyStreamEnd
  | restartStreaming
  | discardRestOfStream

namespace System

/-- The call that a thread is in, or has made last. -/
def current (s : System ι α) (i : ι) : CallId ι := (i, s.number i)

variable [DecidableEq ι]

def apply (s : System ι α) (i : ι) (e : Effect α) : System ι α :=
  { s with
    queue := e.queue
    threads := Function.update s.threads i e.thread
    inserted := s.inserted ++ Log.entries (s.current i) e.inserted
    removed := s.removed ++ Log.entries (s.current i) e.removed
    returned := s.returned ++ Log.entries (s.current i) e.returned.toList }

/-- One step; `none` if it is not possible. -/
def step (s : System ι α) : Action ι α → Option (System ι α)
  | .call i op =>
    match s.threads i with
    | .idle => some { s with threads := Function.update s.threads i (Thread.start op)
                             number := Function.update s.number i (s.number i + 1) }
    | _ => none
  | .test i => (Thread.test s.queue (s.threads i)).map (s.apply i)
  | .locked i => (Thread.locked s.queue (s.threads i)).map (s.apply i)
  | .setQueueMaxSize n => some { s with queue := s.queue.setQueueMaxSize n }
  | .notifyStreamEnd => some { s with queue := s.queue.notifyStreamEnd }
  | .restartStreaming => some { s with queue := s.queue.restartStreaming }
  | .discardRestOfStream => some { s with queue := s.queue.discardRestOfStream }

/-- The steps as a relation. -/
def Steps (s : System ι α) (a : Action ι α) (s' : System ι α) : Prop := s.step a = some s'

end System

/-! ## What a section does -/

/-- `xs` was written into a range with the contents `given`, from its start on. -/
structure Written (xs given range : List α) (begin : ℕ) : Prop where
  length : xs.length = begin
  begin_le : begin ≤ given.length
  range_eq : range = xs ++ given.drop begin

/-- What is known of a thread whose call has inserted `ins` and removed `rem`. -/
def Thread.Ok (ins rem : List α) : Thread α → Prop
  | .addDataPoint _ => ins = []
  | .addDataPointsTest range begin => begin ≤ range.length ∧ ins = range.take begin
  | .addDataPoints range begin => begin ≤ range.length ∧ ins = range.take begin
  | .popDataPoints given range begin => Written rem given range begin
  | .popDataPointsTest given range begin => Written rem given range begin
  | _ => True

/-- What is known of a call that has inserted `ins` and removed `rem` and returned. -/
def Return.Ok (ins rem : List α) : Return α → Prop
  | .addDataPoint x => ins = [x]
  | .addDataPoints range ended => ended = false → ins = range
  | .popDataPoints given range begin => Written rem given range begin
  | _ => True

/-- A step of a thread whose call had inserted `ins` and removed `rem`: it adds
    data points at the back, takes them from the front, and keeps what is known. -/
structure Effect.Sound (q : AsyncDataQueue α) (ins rem : List α) (e : Effect α) : Prop where
  fifo : q.dataQueue ++ e.inserted = e.removed ++ e.queue.dataQueue
  thread : e.thread.Ok (ins ++ e.inserted) (rem ++ e.removed)
  returned : ∀ r ∈ e.returned, e.thread = .idle ∧ r.Ok (ins ++ e.inserted) (rem ++ e.removed)

section
variable {q : AsyncDataQueue α} {t : Thread α} {e : Effect α} {ins rem xs given range : List α}
  {begin : ℕ}

theorem Written.length_range (h : Written xs given range begin) : range.length = given.length := by
  have := h.begin_le
  rw [h.range_eq, List.length_append, h.length, List.length_drop]
  omega

theorem Written.copyN (h : Written xs given range begin) {source : List α} {n : ℕ}
    (hn : n ≤ given.length - begin) (hs : n ≤ source.length) :
    Written (xs ++ source.take n) given (copyN source n range begin) (begin + n) := by
  have hb := h.begin_le
  refine ⟨by rw [List.length_append, h.length, List.length_take, min_eq_left hs], by omega, ?_⟩
  have htake : range.take begin = xs := by
    rw [h.range_eq, List.take_append_of_le_length h.length.ge, List.take_of_length_le h.length.le]
  have hdrop : range.drop (begin + n) = given.drop (begin + n) := by
    rw [h.range_eq, ← h.length, List.drop_append, List.drop_of_length_le (Nat.le_add_right _ _),
      List.nil_append, Nat.add_sub_cancel_left, List.drop_drop]
  rw [AsyncDataQueue.copyN, htake, hdrop]

theorem Thread.start_ok (op : Op α) : (Thread.start op).Ok [] [] := by
  cases op with
  | addDataPoint x => rfl
  | addDataPoints range => exact ⟨Nat.zero_le _, rfl⟩
  | popDataPoints range => exact ⟨rfl, Nat.zero_le _, rfl⟩
  | nextDataPoints n => trivial
  | getDataPoints range offset => trivial

/-- A loop condition that fails with the stream not ended has reached the end of
    the range. -/
theorem Thread.test_sound (h : Thread.test q t = some e) (ht : t.Ok ins rem) :
    t ≠ .idle ∧ e.Sound q ins rem := by
  have hbusy : t ≠ .idle := by
    rintro rfl
    cases h
  refine ⟨hbusy, ?_⟩
  cases t with
  | addDataPointsTest range begin =>
    simp only [Thread.test] at h
    split_ifs at h with hc <;> cases h
    · exact ⟨by simp, by simpa [Thread.Ok] using ht, by simp⟩
    · refine ⟨by simp, trivial, ?_⟩
      rintro r ⟨⟩
      refine ⟨rfl, fun hended => ?_⟩
      have hend : begin = range.length := by
        by_contra hne
        exact hc ⟨hne, hended⟩
      rw [List.append_nil, ht.2, hend, List.take_length]
  | popDataPointsTest given range begin =>
    simp only [Thread.test] at h
    split_ifs at h with hc <;> cases h
    · exact ⟨by simp, by simpa [Thread.Ok] using ht, by simp⟩
    · refine ⟨by simp, trivial, ?_⟩
      rintro r ⟨⟩
      exact ⟨rfl, by simpa [Return.Ok, Thread.Ok] using ht⟩
  | _ => cases h

/-- A test does nothing to the queue. -/
theorem Thread.test_frame (h : Thread.test q t = some e) :
    e.queue = q ∧ e.inserted = [] ∧ e.removed = [] := by
  cases t with
  | addDataPointsTest | popDataPointsTest =>
    simp only [Thread.test] at h
    split_ifs at h
    all_goals cases h
    all_goals exact ⟨rfl, rfl, rfl⟩
  | _ => cases h

/-- A section adds data points at the back and takes them from the front. -/
theorem Thread.locked_fifo (h : Thread.locked q t = some e) :
    q.dataQueue ++ e.inserted = e.removed ++ e.queue.dataQueue := by
  cases t with
  | idle | addDataPointsTest | popDataPointsTest => cases h
  | addDataPoint | addDataPoints =>
    simp only [Thread.locked] at h
    split_ifs at h
    cases h
    rfl
  | popDataPoints | nextDataPoints =>
    simp only [Thread.locked] at h
    split_ifs at h
    cases h
    rw [removePointsFromQueue_eq, List.append_nil, List.take_append_drop]
  | getDataPoints =>
    simp only [Thread.locked] at h
    split_ifs at h
    cases h
    exact List.append_nil _

theorem Thread.locked_sound (h : Thread.locked q t = some e) (ht : t.Ok ins rem) :
    t ≠ .idle ∧ e.Sound q ins rem := by
  have hbusy : t ≠ .idle := by
    rintro rfl
    cases h
  refine ⟨hbusy, ?_⟩
  have hfifo := Thread.locked_fifo h
  cases t with
  | addDataPoint x =>
    simp only [Thread.locked] at h
    split_ifs at h; cases h
    refine ⟨hfifo, trivial, ?_⟩
    rintro r ⟨⟩
    exact ⟨rfl, by rw [show ins = [] from ht]; rfl⟩
  | addDataPoints range begin =>
    simp only [Thread.locked] at h
    split_ifs at h; cases h
    obtain ⟨hb, rfl⟩ := ht
    refine ⟨hfifo, ⟨by omega, ?_⟩, by simp⟩
    rw [List.take_add]
  | popDataPoints given range begin =>
    simp only [Thread.locked] at h
    split_ifs at h; cases h
    have hlen := ht.length_range
    exact ⟨hfifo, ht.copyN (by omega) (min_le_right _ _), by simp⟩
  | nextDataPoints n =>
    simp only [Thread.locked] at h
    split_ifs at h; cases h
    refine ⟨hfifo, trivial, ?_⟩
    rintro r ⟨⟩
    exact ⟨rfl, trivial⟩
  | getDataPoints given offset =>
    simp only [Thread.locked] at h
    split_ifs at h; cases h
    refine ⟨hfifo, trivial, ?_⟩
    rintro r ⟨⟩
    exact ⟨rfl, trivial⟩
  | _ => cases h

end

/-! ## Losslessness -/

namespace System

variable [DecidableEq ι] {s s' : System ι α} {i : ι} {e : Effect α} {a : Action ι α}

/-- What a call has inserted. -/
def insertedBy (s : System ι α) (c : CallId ι) : List α := Log.of s.inserted c

/-- What a call has removed. -/
def removedBy (s : System ι α) (c : CallId ι) : List α := Log.of s.removed c

/-- The invariant of all runs without `discardRestOfStream`. -/
structure Inv (s : System ι α) : Prop where
  fifo : Log.values s.inserted = Log.values s.removed ++ s.queue.dataQueue
  threads : ∀ i, (s.threads i).Ok (s.insertedBy (s.current i)) (s.removedBy (s.current i))
  returned : ∀ r ∈ s.returned, r.2.Ok (s.insertedBy r.1) (s.removedBy r.1)
  /-- a call that has returned inserts and removes nothing more -/
  finished : ∀ r ∈ s.returned, r.1.2 ≤ s.number r.1.1 ∧
    (r.1 = s.current r.1.1 → s.threads r.1.1 = .idle)
  /-- calls to come have done nothing yet -/
  fresh : ∀ i n, s.number i < n → s.insertedBy (i, n) = [] ∧ s.removedBy (i, n) = []

theorem inv_start (maxSize : ℕ) : Inv ({ queue := { queueMaxSize := maxSize } } : System ι α) :=
  ⟨rfl, fun _ => trivial, by simp, by simp, fun _ _ _ => ⟨rfl, rfl⟩⟩

theorem Inv.withQueue (h : Inv s) {q : AsyncDataQueue α} (hq : q.dataQueue = s.queue.dataQueue) :
    Inv { s with queue := q } :=
  ⟨by rw [h.fifo, hq], h.threads, h.returned, h.finished, h.fresh⟩

theorem Inv.call (h : Inv s) (hi : s.threads i = .idle) (op : Op α) :
    Inv { s with threads := Function.update s.threads i (Thread.start op)
                 number := Function.update s.number i (s.number i + 1) } := by
  refine ⟨h.fifo, fun j => ?_, h.returned, fun r hr => ?_, fun j n hn => ?_⟩
  · by_cases hj : j = i
    · subst hj
      obtain ⟨hins, hrem⟩ := h.fresh j (s.number j + 1) (Nat.lt_succ_self _)
      simp only [insertedBy, removedBy, current, Function.update_self] at hins hrem ⊢
      rw [hins, hrem]
      exact Thread.start_ok op
    · simp only [insertedBy, removedBy, current, Function.update_of_ne hj]
      exact h.threads j
  · obtain ⟨⟨j, n⟩, r⟩ := r
    obtain ⟨hle, hidle⟩ := h.finished _ hr
    by_cases hj : j = i
    · subst hj
      simp only [current, Function.update_self, Prod.mk.injEq, true_and] at hle ⊢
      exact ⟨by omega, fun hn => by omega⟩
    · simp only [current, Function.update_of_ne hj] at hle hidle ⊢
      exact ⟨hle, hidle⟩
  · refine h.fresh j n ?_
    by_cases hj : j = i
    · subst hj
      simp only [Function.update_self] at hn
      omega
    · simpa only [Function.update_of_ne hj] using hn

theorem insertedBy_apply_self :
    (s.apply i e).insertedBy (s.current i) = s.insertedBy (s.current i) ++ e.inserted :=
  Log.of_append_entries _ _ _

theorem removedBy_apply_self :
    (s.apply i e).removedBy (s.current i) = s.removedBy (s.current i) ++ e.removed :=
  Log.of_append_entries _ _ _

theorem insertedBy_apply_of_ne {c : CallId ι} (hc : c ≠ s.current i) :
    (s.apply i e).insertedBy c = s.insertedBy c :=
  Log.of_append_entries_of_ne _ hc _

theorem removedBy_apply_of_ne {c : CallId ι} (hc : c ≠ s.current i) :
    (s.apply i e).removedBy c = s.removedBy c :=
  Log.of_append_entries_of_ne _ hc _

/-- **A sound step of a thread keeps the invariant.** -/
theorem Inv.apply (h : Inv s) (hi : s.threads i ≠ .idle)
    (he : e.Sound s.queue (s.insertedBy (s.current i)) (s.removedBy (s.current i))) :
    Inv (s.apply i e) := by
  refine ⟨?_, fun j => ?_, fun r hr => ?_, fun r hr => ?_, fun j n hn => ?_⟩
  · simp only [System.apply, Log.values_append_entries]
    rw [h.fifo, List.append_assoc, he.fifo, List.append_assoc]
  · by_cases hj : j = i
    · subst hj
      rw [show (s.apply j e).current j = s.current j from rfl, insertedBy_apply_self,
        removedBy_apply_self]
      simpa only [System.apply, Function.update_self] using he.thread
    · have hc : s.current j ≠ s.current i := fun hc => hj (congrArg Prod.fst hc)
      rw [show (s.apply i e).current j = s.current j from rfl, insertedBy_apply_of_ne hc,
        removedBy_apply_of_ne hc]
      simpa only [System.apply, Function.update_of_ne hj] using h.threads j
  · rcases List.mem_append.1 hr with hr | hr
    · have hc : r.1 ≠ s.current i := by
        intro hc
        have hidle := (h.finished r hr).2
        rw [hc] at hidle
        exact hi (hidle rfl)
      rw [insertedBy_apply_of_ne hc, removedBy_apply_of_ne hc]
      exact h.returned r hr
    · obtain ⟨r', hr', rfl⟩ := Log.mem_entries.1 hr
      rw [insertedBy_apply_self, removedBy_apply_self]
      exact (he.returned r' (Option.mem_toList.1 hr')).2
  · rcases List.mem_append.1 hr with hr | hr
    · obtain ⟨hle, hidle⟩ := h.finished r hr
      refine ⟨hle, fun hc => ?_⟩
      by_cases hj : r.1.1 = i
      · have := hidle hc
        rw [hj] at this
        exact absurd this hi
      · simpa only [System.apply, Function.update_of_ne hj] using hidle hc
    · obtain ⟨r', hr', rfl⟩ := Log.mem_entries.1 hr
      refine ⟨le_rfl, fun _ => ?_⟩
      simpa only [System.apply, current, Function.update_self] using
        (he.returned r' (Option.mem_toList.1 hr')).1
  · have hc : (j, n) ≠ s.current i := by
      rintro ⟨⟩
      exact lt_irrefl _ hn
    rw [insertedBy_apply_of_ne hc, removedBy_apply_of_ne hc]
    exact h.fresh j n hn

/-- What a step can do, apart from `discardRestOfStream`. -/
theorem Inv.step (h : Inv s) (ha : a ≠ .discardRestOfStream) (hs : s.Steps a s') : Inv s' := by
  cases a with
  | call i op =>
    simp only [Steps, System.step] at hs
    split at hs <;> cases hs
    exact h.call (by assumption) op
  | test i =>
    obtain ⟨e, he, rfl⟩ := Option.map_eq_some_iff.1 hs
    obtain ⟨hi, he⟩ := Thread.test_sound he (h.threads i)
    exact h.apply hi he
  | locked i =>
    obtain ⟨e, he, rfl⟩ := Option.map_eq_some_iff.1 hs
    obtain ⟨hi, he⟩ := Thread.locked_sound he (h.threads i)
    exact h.apply hi he
  | setQueueMaxSize n => cases hs; exact h.withQueue rfl
  | notifyStreamEnd => cases hs; exact h.withQueue rfl
  | restartStreaming => cases hs; exact h.withQueue rfl
  | discardRestOfStream => exact absurd rfl ha

end System

/-- **The queue is a lossless FIFO.**  In every state reached without
    `discardRestOfStream`, what was inserted is what was removed followed by what
    the queue holds; a call of `popDataPoints`, during and after it, has written
    what it removed into its range, from the start on and nothing else; and a
    call of `addDataPoints` that returned with the stream not ended has inserted
    its range. -/
theorem lossless_fifo [DecidableEq ι] (maxSize : ℕ) {s : System ι α}
    {tr : List (System ι α × Action ι α × System ι α)}
    (hrun : Run System.Steps { queue := { queueMaxSize := maxSize } } tr s)
    (hdiscard : ∀ x ∈ tr, x.2.1 ≠ .discardRestOfStream) :
    Log.values s.inserted = Log.values s.removed ++ s.queue.dataQueue ∧
    (∀ i given range begin,
      s.threads i = .popDataPoints given range begin ∨
        s.threads i = .popDataPointsTest given range begin →
      Written (s.removedBy (s.current i)) given range begin) ∧
    (∀ c given range begin, (c, .popDataPoints given range begin) ∈ s.returned →
      Written (s.removedBy c) given range begin) ∧
    (∀ c range, (c, .addDataPoints range false) ∈ s.returned → s.insertedBy c = range) := by
  have h : s.Inv := hrun.inv (System.inv_start maxSize) fun x hx hs h => h.step (hdiscard x hx) hs
  refine ⟨h.fifo, ?_, ?_, ?_⟩
  · rintro i given range begin (hi | hi) <;>
    · have := h.threads i
      rw [hi] at this
      exact this
  · intro c given range begin hr
    exact h.returned _ hr
  · intro c range hr
    exact h.returned _ hr rfl

/-- A producer and a consumer over a queue with room for two data points. -/
theorem lossless_fifo_small :
    ∃ tr s, Run System.Steps ({ queue := { queueMaxSize := 2 } } : System Bool ℕ) tr s ∧
      Log.values s.inserted = Log.values s.removed ++ s.queue.dataQueue ∧
      Written (s.removedBy (true, 1)) [0, 0, 0] [1, 2, 3] 3 ∧
      s.insertedBy (false, 1) = [1, 2, 3] := by
  obtain ⟨s, hs, hpop, hadd⟩ : ∃ s, List.foldlM System.step
      ({ queue := { queueMaxSize := 2 } } : System Bool ℕ)
      [.call false (.addDataPoints [1, 2, 3]), .test false, .call true (.popDataPoints [0, 0, 0]),
        .locked false, .locked true, .test true, .test false, .locked false, .locked true,
        .test true, .test false] = some s ∧
      ((true, 1), .popDataPoints [0, 0, 0] [1, 2, 3] 3) ∈ s.returned ∧
      ((false, 1), .addDataPoints [1, 2, 3] false) ∈ s.returned :=
    ⟨_, rfl, .head _, .tail _ (.head _)⟩
  have hrun := Run.trace hs
  obtain ⟨hfifo, -, hpopped, hadded⟩ := lossless_fifo 2 hrun (by
    intro x hx hd
    have hmem := action_mem_of_mem_trace hx
    rw [hd] at hmem
    simp at hmem)
  exact ⟨_, s, hrun, hfifo, hpopped _ _ _ _ hpop, hadded _ _ hadd⟩

end SmartScreen.AsyncDataQueue
