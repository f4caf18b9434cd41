/-
  The main loop of the server (`run` in `Init.h`), and the thread that fills its queue.

  The loop calls `loopWorkersOnce` until it answers `false`, or until it is told to shut
  down; exceptions are caught.  In a pass the loop is the consumer of the queue: it asks
  for a range, and when `popDataPoints` returns, it runs the workers on what is there.

  * `Steps` are the steps of both threads; a run of them is a schedule.
  * `Flow`: what has been added is what the passes have read, what the current read has
    got, what the queue holds, and what the producer has still to insert.
  * `mainLoop_refines`: if the stream ends in time, the loop does what it would do on the
    complete stream, whatever the workers and the schedule.
-/
import SmartScreen.Stream.Hdf5Converter
import SmartScreen.Stream.Refinement

namespace SmartScreen

open LTS Loop AsyncDataQueue
open BluedHdf5Converter (received Pops locked_pop)

variable {α S Q : Type}

/-! ## Rounds -/

namespace DataStreamDistributor

/-- A round of the loop, with its `catch`. -/
def guardedPass (C : CppInt) (W : DataStreamWorker α S) (pop : Q → ℕ → List α × Q) (n : ℕ)
    (dq : DataStreamDistributor α S × Q) : Res Fault (DataStreamDistributor α S × Q) Bool :=
  match loopWorkersOnce C W pop n dq with
  | .fault .exception dq => .ok dq true
  | r => r

/-- What `readBufferForNextRun` asks `popDataPoints` for, if it calls it. -/
def asked (d : DataStreamDistributor α S) : Option ℕ :=
  d.dataPointsNeededForNextRun.bind fun needed => if 0 < needed then some needed.toNat else none

/-- A read that brings `xs`. -/
def reads (xs : List α) : Unit → ℕ → List α × Unit := fun _ _ => (xs, ())

section
variable {C : CppInt} {W : DataStreamWorker α S} {pop : Q → ℕ → List α × Q}
  {d : DataStreamDistributor α S} {q q' : Q} {xs : List α}

theorem steady_guardedPass (C : CppInt) (W : DataStreamWorker α S) (pop : Q → ℕ → List α × Q)
    (dq : DataStreamDistributor α S × Q) : Steady fun n => guardedPass C W pop n dq := by
  intro n m hnm h
  have hne : loopWorkersOnce C W pop n dq ≠ .timeout := by
    intro htimeout
    exact h (by simp only [guardedPass, htimeout])
  have hpass : loopWorkersOnce C W pop m dq = loopWorkersOnce C W pop n dq :=
    steady_loopWorkersOnce W C pop dq hnm hne
  simp only [guardedPass, hpass]

/-- A pass looks at no more of the queue than what it reads. -/
theorem readBufferForNextRun_reads (C : CppInt) (h : ∀ n ∈ d.asked, pop q n = (xs, q'))
    (hnone : d.asked = none → q' = q) :
    readBufferForNextRun C pop (d, q) =
      (readBufferForNextRun C (reads xs) (d, ())).lift fun p => (p.1, q') := by
  simp only [asked] at h hnone
  unfold readBufferForNextRun
  cases hneeded : d.dataPointsNeededForNextRun with
  | none =>
    rw [hneeded] at hnone
    rw [hnone rfl]
    rfl
  | some needed =>
    rw [hneeded, Option.bind_some] at h hnone
    by_cases hpos : 0 < needed
    · rw [if_pos hpos] at h
      simp only [C.toSize_of_nonneg hpos.le, h _ rfl, reads]
      rw [if_neg (by omega), if_neg (by omega), if_neg (by omega), if_neg (by omega)]
      rfl
    · rw [hnone (if_neg hpos)]
      simp only
      cases hsize : C.toSize needed with
      | none => rfl
      | some n =>
        simp only
        split_ifs with hn hneg
        · rfl
        · rfl
        · rw [show needed = 0 by omega, C.toSize_of_nonneg le_rfl] at hsize
          cases hsize
          exact absurd le_rfl hn

theorem guardedPass_reads (C : CppInt) (W : DataStreamWorker α S)
    (h : ∀ n ∈ d.asked, pop q n = (xs, q')) (hnone : d.asked = none → q' = q) (k : ℕ) :
    guardedPass C W pop k (d, q) =
      (guardedPass C W (reads xs) k (d, ())).lift fun p => (p.1, q') := by
  have hpass : loopWorkersOnce C W pop k (d, q) =
      (loopWorkersOnce C W (reads xs) k (d, ())).lift fun p => (p.1, q') := by
    simp only [loopWorkersOnce, readBufferForNextRun_reads C h hnone]
    cases readBufferForNextRun C (reads xs) (d, ()) with
    | ok dq _ =>
      simp only [Res.lift_ok, Res.bind_ok]
      cases executeWorkers W k dq.1 with
      | ok d' b =>
        simp only [Res.lift_ok, Res.bind_ok]
        cases freeUnusedBuffer d' <;> rfl
      | fault e d' => rfl
      | timeout => rfl
    | fault e dq => rfl
    | timeout => rfl
  simp only [guardedPass, hpass]
  rcases loopWorkersOnce C W (reads xs) k (d, ()) with _ | ⟨_ | _ | _, _⟩ | _ <;> rfl

theorem returns_guardedPass_reads (C : CppInt) (W : DataStreamWorker α S)
    (h : ∀ n ∈ d.asked, pop q n = (xs, q')) (hnone : d.asked = none → q' = q)
    {d' : DataStreamDistributor α S} {b : Bool} :
    Returns (fun k => guardedPass C W pop k (d, q)) (d', q') b ↔
      Returns (fun k => guardedPass C W (reads xs) k (d, ())) (d', ()) b := by
  simp only [guardedPass_reads C W h hnone, returns_lift]
  constructor
  · rintro ⟨⟨d₁, ⟨⟩⟩, hret, heq⟩
    cases heq
    exact hret
  · exact fun hret => ⟨_, hret, rfl⟩

end

end DataStreamDistributor

open DataStreamDistributor

/-! ## Schedules -/

/-- Where the loop is: it goes on, a pass has answered `false`, or it was told to shut
    down. -/
inductive Status where
  | running
  | ended
  | shutDown

/-- The loop after a round that answers `b`. -/
def Status.after (b : Bool) : Status := if b then .running else .ended

/-- The queue with both threads, and the distributor.  `added` are the ranges that the
    producer has passed to `addDataPoints`, `popped` is what the passes have read. -/
structure MainLoop (α S : Type) where
  system : System Party α
  distributor : DataStreamDistributor α S
  status : Status := .running
  shutdown : Bool := false
  added : List (List α) := []
  popped : List α := []

namespace MainLoop

inductive Action (α : Type) where
  /-- the loop begins a round, or stops -/
  | loop
  | shutdown
  | queue (a : AsyncDataQueue.Action Party α)

/-- A step within a call of `popDataPoints` or of the producer, or the end of the
    stream. -/
def within : AsyncDataQueue.Action Party α → Bool
  | .locked _ | .test .producer | .notifyStreamEnd => true
  | _ => false

inductive Steps [Inhabited α] (C : CppInt) (W : DataStreamWorker α S) (s : MainLoop α S) :
    Action α → MainLoop α S → Prop
  | stop : s.status = .running → s.system.threads .consumer = .idle → s.shutdown = true →
      Steps C W s .loop { s with status := .shutDown }
  /-- the buffer is resized, and `popDataPoints` is called -/
  | read {n : ℕ} {system : System Party α} : s.status = .running → s.shutdown = false →
      s.distributor.asked = some n →
      StreamSteps s.system (.call .consumer (.popDataPoints (List.replicate n default))) system →
      Steps C W s .loop { s with system }
  /-- a round that need not read -/
  | round {d : DataStreamDistributor α S} {b : Bool} : s.status = .running →
      s.shutdown = false → s.system.threads .consumer = .idle → s.distributor.asked = none →
      Returns (fun k => guardedPass C W (reads []) k (s.distributor, ())) (d, ()) b →
      Steps C W s .loop { s with distributor := d, status := .after b }
  /-- `popDataPoints` returns, and the round goes on -/
  | leave {given range : List α} {begin : ℕ} {system : System Party α}
      {d : DataStreamDistributor α S} {b : Bool} :
      s.system.threads .consumer = .popDataPointsTest given range begin →
      StreamSteps s.system (.test .consumer) system → system.threads .consumer = .idle →
      Returns (fun k => guardedPass C W (reads (range.take begin)) k (s.distributor, ())) (d, ())
        b →
      Steps C W s (.queue (.test .consumer))
        { s with system, distributor := d, status := .after b,
                 popped := s.popped ++ range.take begin }
  | again {system : System Party α} : StreamSteps s.system (.test .consumer) system →
      system.threads .consumer ≠ .idle → Steps C W s (.queue (.test .consumer)) { s with system }
  | add {range : List α} {system : System Party α} :
      StreamSteps s.system (.call .producer (.addDataPoints range)) system →
      Steps C W s (.queue (.call .producer (.addDataPoints range)))
        { s with system, added := s.added ++ [range] }
  | within {a : AsyncDataQueue.Action Party α} {system : System Party α} : within a = true →
      StreamSteps s.system a system → Steps C W s (.queue a) { s with system }
  | shutdown : Steps C W s .shutdown { s with shutdown := true }

def start (maxSize : ℕ) (d : DataStreamDistributor α S) : MainLoop α S where
  system := { queue := { queueMaxSize := maxSize } }
  distributor := d

/-! ## The flow of the data -/

/-- What holds on the way of the data points, whatever the workers do. -/
structure Flow (s : MainLoop α S) : Prop where
  stream : StreamInv s.system
  producer : Adds (s.system.threads .producer)
  consumer : s.system.threads .consumer ≠ .idle → s.status = .running ∧
    ∃ n ∈ s.distributor.asked, Pops n (s.system.threads .consumer)
  /-- nothing is lost on the way to the workers -/
  conserved : s.added.flatten = s.popped ++ received (s.system.threads .consumer) ++
    s.system.queue.dataQueue ++ pending (s.system.threads .producer)

section
variable [Inhabited α] {C : CppInt} {W : DataStreamWorker α S} {s s' : MainLoop α S}
  {system : System Party α} {range : List α}

omit [Inhabited α] in
theorem flow_start (maxSize : ℕ) (d : DataStreamDistributor α S) : Flow (start maxSize d) where
  stream := streamInv_start maxSize
  producer := trivial
  consumer := by
    intro h
    exact absurd rfl h
  conserved := rfl

omit [Inhabited α] in
theorem Flow.popped_prefix (h : Flow s) : s.popped <+: s.added.flatten := by
  rw [h.conserved, List.append_assoc, List.append_assoc]
  exact List.prefix_append _ _

omit [Inhabited α] in
theorem Flow.read {n : ℕ} (h : Flow s) (hrunning : s.status = .running)
    (hasked : s.distributor.asked = some n) (hlen : range.length = n)
    (hs : StreamSteps s.system (.call .consumer (.popDataPoints range)) system) :
    Flow { s with system } := by
  have hstream := h.stream.step hs
  have hraw := (streamSteps_iff.1 hs).1
  simp only [System.Steps, System.step] at hraw
  split at hraw <;> cases hraw
  rename_i hidle
  have hconserved := h.conserved
  rw [hidle] at hconserved
  exact {
    stream := hstream
    producer := h.producer
    consumer := fun _ => ⟨hrunning, n, hasked, hlen, Nat.zero_le _⟩
    conserved := hconserved }

omit [Inhabited α] in
theorem Flow.add (h : Flow s)
    (hs : StreamSteps s.system (.call .producer (.addDataPoints range)) system) :
    Flow { s with system, added := s.added ++ [range] } := by
  have hstream := h.stream.step hs
  have hraw := (streamSteps_iff.1 hs).1
  simp only [System.Steps, System.step] at hraw
  split at hraw <;> cases hraw
  rename_i hidle
  have hconserved := h.conserved
  rw [hidle, pending_idle, List.append_nil] at hconserved
  refine ⟨hstream, trivial, h.consumer, ?_⟩
  show (s.added ++ [range]).flatten = _
  rw [List.flatten_append, hconserved]
  simp [pending, Thread.start]

omit [Inhabited α] in
/-- A test or a section of the producer. -/
theorem Flow.produce {e : Effect α} (h : Flow s) (hs : StreamInv (s.system.apply .producer e))
    (he : Thread.test s.system.queue (s.system.threads .producer) = some e ∨
      Thread.locked s.system.queue (s.system.threads .producer) = some e) :
    Flow { s with system := s.system.apply .producer e } := by
  have hbusy : s.system.threads .producer ≠ .idle := by
    intro hidle
    rw [hidle] at he
    rcases he with he | he <;> cases he
  obtain ⟨hadds, hpending, hqueue, -⟩ := h.producer.effect (h.stream.not_ended hbusy) he
  refine ⟨hs, ?_, ?_, ?_⟩
  · simpa [System.apply] using hadds
  · simpa [System.apply] using h.consumer
  · simp only [System.apply, Function.update_self, hqueue]
    rw [h.conserved, ← hpending]
    simp

omit [Inhabited α] in
/-- A section of the consumer. -/
theorem Flow.pull {e : Effect α} (h : Flow s) (hs : StreamInv (s.system.apply .consumer e))
    (he : Thread.locked s.system.queue (s.system.threads .consumer) = some e) :
    Flow { s with system := s.system.apply .consumer e } := by
  have hconserved := h.conserved
  have hconsumer := h.consumer
  cases ht : s.system.threads .consumer with
  | popDataPoints given range begin =>
    rw [ht] at he hconserved hconsumer
    obtain ⟨hrunning, n, hasked, hlen, hb⟩ := hconsumer (by rintro ⟨⟩)
    obtain ⟨range', begin', hthread, hlen', hb', hmoved, -⟩ := locked_pop he hlen hb
    refine ⟨hs, ?_, ?_, ?_⟩
    · simpa [System.apply] using h.producer
    · simp only [System.apply, Function.update_self, hthread]
      exact fun _ => ⟨hrunning, n, hasked, hlen', hb'⟩
    · simp only [System.apply, Function.update_self, hthread, received]
      rw [hconserved, received, List.append_assoc s.popped (range.take begin), ← hmoved]
      simp
  | idle | popDataPointsTest => rw [ht] at he; cases he
  | _ =>
    rw [ht] at hconsumer
    obtain ⟨-, n, -, hpops⟩ := hconsumer (by rintro ⟨⟩)
    cases hpops

omit [Inhabited α] in
theorem Flow.within {a : AsyncDataQueue.Action Party α} (h : Flow s) (ha : within a = true)
    (hs : StreamSteps s.system a system) : Flow { s with system } := by
  have hstream := h.stream.step hs
  have hraw := (streamSteps_iff.1 hs).1
  cases a with
  | locked i =>
    obtain ⟨e, he, rfl⟩ := Option.map_eq_some_iff.1 hraw
    cases i with
    | producer => exact h.produce hstream (.inr he)
    | consumer => exact h.pull hstream he
  | test i =>
    cases i with
    | producer =>
      obtain ⟨e, he, rfl⟩ := Option.map_eq_some_iff.1 hraw
      exact h.produce hstream (.inl he)
    | consumer => cases ha
  | notifyStreamEnd =>
    cases hraw
    exact ⟨hstream, h.producer, h.consumer, h.conserved⟩
  | _ => cases ha

omit [Inhabited α] in
theorem Flow.again (h : Flow s) (hs : StreamSteps s.system (.test .consumer) system)
    (hbusy : system.threads .consumer ≠ .idle) : Flow { s with system } := by
  have hstream := h.stream.step hs
  cases h.stream.moves hs with
  | produce ha => simp at ha
  | leave _ _ _ _ _ _ _ hidle => exact absurd hidle hbusy
  | again given range begin ht _ hq hp hc =>
    have hconserved := h.conserved
    have hconsumer := h.consumer
    rw [ht] at hconserved hconsumer
    refine ⟨hstream, ?_, ?_, ?_⟩
    · show Adds (system.threads .producer)
      rw [hp]
      exact h.producer
    · show system.threads .consumer ≠ .idle → _ ∧ ∃ n ∈ _, Pops n (system.threads .consumer)
      rw [hc]
      exact fun _ => hconsumer (by rintro ⟨⟩)
    · show s.added.flatten = s.popped ++ received (system.threads .consumer) ++
        system.queue.dataQueue ++ pending (system.threads .producer)
      rw [hp, hq, hc]
      exact hconserved

/-- What is known when `popDataPoints` returns: it has read in full, or the stream has
    ended. -/
structure Leaves (s : MainLoop α S) (system : System Party α) (n : ℕ) (xs : List α) : Prop where
  running : s.status = .running
  asked : s.distributor.asked = some n
  le : xs.length ≤ n
  short : xs.length < n → s.system.queue.streamEnded = true
  overtaken : xs.length < n → s.system.queue.dataQueue ≠ [] → Overtaken s.system
  queue : system.queue = s.system.queue
  producer : system.threads .producer = s.system.threads .producer
  conserved : s.added.flatten =
    s.popped ++ xs ++ s.system.queue.dataQueue ++ pending (s.system.threads .producer)

omit [Inhabited α] in
theorem Flow.leaves {given : List α} {begin : ℕ} (h : Flow s)
    (ht : s.system.threads .consumer = .popDataPointsTest given range begin)
    (hs : StreamSteps s.system (.test .consumer) system)
    (hidle : system.threads .consumer = .idle) : ∃ n, Leaves s system n (range.take begin) := by
  have hconserved := h.conserved
  have hconsumer := h.consumer
  rw [ht] at hconserved hconsumer
  obtain ⟨hrunning, n, hasked, hlen, hb⟩ := hconsumer (by rintro ⟨⟩)
  have htake : (range.take begin).length = begin := by
    rw [List.length_take]
    omega
  cases h.stream.moves hs with
  | produce ha => simp at ha
  | again _ _ _ _ _ _ _ hc => rw [hc] at hidle; cases hidle
  | leave _ _ _ ht' hend hq hp _ =>
    rw [ht] at ht'
    cases ht'
    exact ⟨n, hrunning, hasked, by omega, fun hlt => hend.resolve_left (by omega),
      fun hlt hne => ⟨given, range, begin, ht, by omega, hne⟩, hq, hp, hconserved⟩

omit [Inhabited α] in
theorem Flow.leave {n : ℕ} {xs : List α} (h : Flow s) (hl : Leaves s system n xs)
    (hs : StreamSteps s.system (.test .consumer) system)
    (hidle : system.threads .consumer = .idle) (d : DataStreamDistributor α S) (status : Status) :
    Flow { s with system, distributor := d, status, popped := s.popped ++ xs } := by
  refine ⟨h.stream.step hs, ?_, fun hbusy => absurd hidle hbusy, ?_⟩
  · show Adds (system.threads .producer)
    rw [hl.producer]
    exact h.producer
  · show s.added.flatten = s.popped ++ xs ++ received (system.threads .consumer) ++
      system.queue.dataQueue ++ pending (system.threads .producer)
    rw [hidle, hl.queue, hl.producer, hl.conserved]
    simp [received]

/-- **Every step keeps the flow.** -/
theorem Flow.step {a : Action α} (h : Flow s) (hs : Steps C W s a s') : Flow s' := by
  cases hs with
  | stop _ hidle _ => exact ⟨h.stream, h.producer, fun hbusy => absurd hidle hbusy, h.conserved⟩
  | read hrunning _ hasked hs => exact h.read hrunning hasked List.length_replicate hs
  | round _ _ hidle _ _ =>
    exact ⟨h.stream, h.producer, fun hbusy => absurd hidle hbusy, h.conserved⟩
  | leave ht hs hidle _ =>
    obtain ⟨n, hl⟩ := h.leaves ht hs hidle
    exact h.leave hl hs hidle _ _
  | again hs hbusy => exact h.again hs hbusy
  | add hs => exact h.add hs
  | within ha hs => exact h.within ha hs
  | shutdown => exact ⟨h.stream, h.producer, h.consumer, h.conserved⟩

/-! ## The complete stream -/

/-- The loop is where it would be on the stream `l`. -/
def Follows (C : CppInt) (W : DataStreamWorker α S) (d₀ : DataStreamDistributor α S) (l : List α)
    (s : MainLoop α S) : Prop :=
  match s.status with
  | .ended => ∃ b, Returns (fun k => whileTrue (guardedPass C W popRemaining) k (d₀, l))
      (s.distributor, l.drop s.popped.length) b
  | .running | .shutDown =>
    Heads (guardedPass C W popRemaining) (d₀, l) (s.distributor, l.drop s.popped.length)

omit [Inhabited α] in
theorem follows_of_running {d₀ : DataStreamDistributor α S} {l : List α}
    (h : s.status = .running) : Follows C W d₀ l s ↔
      Heads (guardedPass C W popRemaining) (d₀, l) (s.distributor, l.drop s.popped.length) := by
  rw [Follows, h]

omit [Inhabited α] in
/-- A round that reads what the complete stream would have brought. -/
theorem Follows.round {d₀ d : DataStreamDistributor α S} {l xs : List α} {b : Bool}
    (h : Follows C W d₀ l s) (hrunning : s.status = .running)
    (hread : ∀ n ∈ s.distributor.asked,
      popRemaining (l.drop s.popped.length) n = (xs, l.drop (s.popped ++ xs).length))
    (hnone : s.distributor.asked = none → xs = [])
    (hround : Returns (fun k => guardedPass C W (reads xs) k (s.distributor, ())) (d, ()) b)
    (system : System Party α) :
    Follows C W d₀ l { s with system, distributor := d, status := .after b,
                              popped := s.popped ++ xs } := by
  have hround' := (returns_guardedPass_reads C W hread
    (fun hn => by rw [hnone hn, List.append_nil])).2 hround
  have hheads := (follows_of_running hrunning).1 h
  cases b with
  | true => exact hheads.next hround'
  | false => exact Returns.whileTrue_of_heads (steady_guardedPass C W popRemaining) hheads hround'

/-! ## Streams that end in time -/

/-- What holds as long as the stream has not ended while the consumer was overtaken: the
    loop is where it would be on any stream that may still come. -/
structure OnTime (C : CppInt) (W : DataStreamWorker α S) (d₀ : DataStreamDistributor α S)
    (s : MainLoop α S) : Prop where
  flow : Flow s
  not_late : ¬ AboutToLose s.system
  follows : ∀ more, (s.system.queue.streamEnded = true → more = []) →
    Follows C W d₀ (s.added.flatten ++ more) s

/-- The stream does not end with this step while the consumer is overtaken. -/
def InTime (s : MainLoop α S) (a : Action α) : Prop :=
  a = .queue .notifyStreamEnd → ¬ Overtaken s.system

omit [Inhabited α] in
/-- A stream that has ended stays so. -/
theorem streamEnded_mono {a : AsyncDataQueue.Action Party α} (h : StreamInv s.system)
    (hs : StreamSteps s.system a system) (hended : s.system.queue.streamEnded = true) :
    system.queue.streamEnded = true := by
  cases h.moves hs with
  | add _ hnot | produce _ hnot => rw [hnot] at hended; cases hended
  | pop _ _ hq | again _ _ _ _ _ hq | leave _ _ _ _ _ hq => rw [hq, hended]
  | pull _ _ _ _ _ _ hq => rw [hq]; exact hended
  | notify _ _ hq => rw [hq]

omit [Inhabited α] in
theorem not_late_of_step {a : AsyncDataQueue.Action Party α} (h : StreamInv s.system)
    (hlate : ¬ AboutToLose s.system) (htime : a = .notifyStreamEnd → ¬ Overtaken s.system)
    (hs : StreamSteps s.system a system) : ¬ AboutToLose system := by
  rw [h.aboutToLose_iff hs]
  rintro (⟨hlose, -⟩ | ⟨ha, hover⟩)
  · exact hlate hlose
  · exact htime ha hover

omit [Inhabited α] in
/-- A step of the queue that leaves the loop where it is. -/
theorem OnTime.within {d₀ : DataStreamDistributor α S} {a : AsyncDataQueue.Action Party α}
    (h : OnTime C W d₀ s) (htime : a = .notifyStreamEnd → ¬ Overtaken s.system)
    (hs : StreamSteps s.system a system) (hflow : Flow { s with system }) :
    OnTime C W d₀ { s with system } where
  flow := hflow
  not_late := not_late_of_step h.flow.stream h.not_late htime hs
  follows more hmore :=
    h.follows more fun hended => hmore (streamEnded_mono h.flow.stream hs hended)

omit [Inhabited α] in
/-- **A read brings what the complete stream would have brought**: it is short only when
    there is nothing more to come. -/
theorem OnTime.popRemaining_eq {d₀ : DataStreamDistributor α S} {n : ℕ} {xs : List α}
    (h : OnTime C W d₀ s) (hl : Leaves s system n xs) {more : List α}
    (hmore : s.system.queue.streamEnded = true → more = []) :
    popRemaining ((s.added.flatten ++ more).drop s.popped.length) n =
      (xs, (s.added.flatten ++ more).drop (s.popped ++ xs).length) := by
  have hrest : (s.added.flatten ++ more).drop s.popped.length =
      xs ++ (s.system.queue.dataQueue ++ (pending (s.system.threads .producer) ++ more)) := by
    rw [hl.conserved]
    simp
  have hdrop : (s.added.flatten ++ more).drop (s.popped ++ xs).length =
      s.system.queue.dataQueue ++ (pending (s.system.threads .producer) ++ more) := by
    rw [List.length_append, ← List.drop_drop, hrest, List.drop_left]
  rw [hdrop, popRemaining, hrest]
  rcases hl.le.eq_or_lt with hfull | hshort
  · rw [← hfull, List.take_left, List.drop_left]
  · have hended := hl.short hshort
    have hidle := h.flow.stream.ended hended
    have hnil : s.system.queue.dataQueue = [] := by
      by_contra hne
      exact h.not_late ⟨hended, hl.overtaken hshort hne⟩
    rw [hnil, hidle, hmore hended, pending_idle]
    rw [List.append_nil, List.append_nil, List.append_nil, List.take_of_length_le hl.le,
      List.drop_of_length_le hl.le]

/-- **Every step in time keeps the loop where it would be.** -/
theorem OnTime.step {d₀ : DataStreamDistributor α S} {a : Action α} (h : OnTime C W d₀ s)
    (htime : InTime s a) (hs : Steps C W s a s') : OnTime C W d₀ s' := by
  have hflow := h.flow.step hs
  cases hs with
  | stop hrunning _ _ =>
    refine ⟨hflow, h.not_late, fun more hmore => ?_⟩
    exact (follows_of_running hrunning).1 (h.follows more hmore)
  | read _ _ _ hs => exact h.within (by rintro ⟨⟩) hs hflow
  | @round d b hrunning _ _ hasked hround =>
    refine ⟨hflow, h.not_late, fun more hmore => ?_⟩
    have hround' := (h.follows more hmore).round hrunning (by rw [hasked]; rintro _ ⟨⟩)
      (fun _ => rfl) hround s.system
    rwa [List.append_nil] at hround'
  | leave ht hs hidle hround =>
    obtain ⟨n, hl⟩ := h.flow.leaves ht hs hidle
    refine ⟨hflow, not_late_of_step h.flow.stream h.not_late (by rintro ⟨⟩) hs, ?_⟩
    intro more hmore
    have hmore' : s.system.queue.streamEnded = true → more = [] :=
      fun hended => hmore (streamEnded_mono h.flow.stream hs hended)
    refine (h.follows more hmore').round hl.running ?_ (by rw [hl.asked]; rintro ⟨⟩) hround _
    rintro m hm
    rw [hl.asked] at hm
    cases hm
    exact h.popRemaining_eq hl hmore'
  | again hs _ => exact h.within (by rintro ⟨⟩) hs hflow
  | @add range system hs =>
    refine ⟨hflow, not_late_of_step h.flow.stream h.not_late (by rintro ⟨⟩) hs, ?_⟩
    intro more _
    have hrunning : s.system.queue.streamEnded = false := by
      cases h.flow.stream.moves hs with
      | add _ hnot => exact hnot
      | produce ha => simp at ha
    have hfollows := h.follows (range ++ more) (by rw [hrunning]; rintro ⟨⟩)
    rw [← List.append_assoc] at hfollows
    show Follows C W d₀ ((s.added ++ [range]).flatten ++ more) _
    rw [List.flatten_append, List.flatten_singleton]
    exact hfollows
  | within _ hs => exact h.within (fun ha => htime (by rw [ha])) hs hflow
  | shutdown => exact ⟨hflow, h.not_late, h.follows⟩

omit [Inhabited α] in
theorem onTime_start (maxSize : ℕ) (d₀ : DataStreamDistributor α S) :
    OnTime C W d₀ (start maxSize d₀) :=
  ⟨flow_start maxSize d₀, fun h => absurd h.1 (by rintro ⟨⟩), fun _ _ => .refl⟩

theorem OnTime.of_run {maxSize : ℕ} {d₀ : DataStreamDistributor α S}
    {tr : List (MainLoop α S × Action α × MainLoop α S)}
    (hrun : Run (Steps C W) (start maxSize d₀) tr s) (htime : ∀ x ∈ tr, InTime x.1 x.2.1) :
    OnTime C W d₀ s :=
  hrun.inv (onTime_start maxSize d₀) fun x hx hs hi => hi.step (htime x hx) hs

/-- **The main loop refines the loop on the complete stream.**  In every schedule in
    which the stream does not end while the consumer is overtaken, and for any workers:
    the loop has done so far what it does on the data points that were added, and when a
    pass has answered `false`, it has ended there as well. -/
theorem mainLoop_refines (C : CppInt) (W : DataStreamWorker α S) (maxSize : ℕ)
    (d₀ : DataStreamDistributor α S) {tr : List (MainLoop α S × Action α × MainLoop α S)}
    (hrun : Run (Steps C W) (start maxSize d₀) tr s) (htime : ∀ x ∈ tr, InTime x.1 x.2.1) :
    s.popped <+: s.added.flatten ∧
      (s.status ≠ .ended → Heads (guardedPass C W popRemaining) (d₀, s.added.flatten)
        (s.distributor, s.added.flatten.drop s.popped.length)) ∧
      (s.status = .ended → ∃ b, Returns
        (fun k => whileTrue (guardedPass C W popRemaining) k (d₀, s.added.flatten))
        (s.distributor, s.added.flatten.drop s.popped.length) b) := by
  have h : OnTime C W d₀ s := .of_run hrun htime
  have hfollows := h.follows [] fun _ => rfl
  rw [List.append_nil, Follows] at hfollows
  refine ⟨h.flow.popped_prefix, fun hne => ?_, fun he => ?_⟩
  · cases hstatus : s.status with
    | ended => exact absurd hstatus hne
    | running | shutDown => simpa only [hstatus] using hfollows
  · simpa only [he] using hfollows

end

/-- One of the counting workers, which waits for two data points. -/
def countingLoop : DataStreamDistributor ℕ (ℕ × ℤ) := ⟨[⟨(2, 0), ⟨0, 2, 0⟩⟩], 0, []⟩

set_option maxRecDepth 4000 in
/-- A stream of one data point, which ends while the loop waits. -/
theorem mainLoop_refines_short :
    ∃ tr s, Run (Steps CppInt.wrapping simpleCountingWorker) (start 4 countingLoop) tr s ∧
      s.status = .ended ∧ ∃ b, Returns (fun k => whileTrue
        (guardedPass CppInt.wrapping simpleCountingWorker popRemaining) k (countingLoop, [5]))
        (s.distributor, []) b := by
  obtain ⟨s₁, h₁, s₂, h₂, s₃, h₃, s₄, h₄, s₅, h₅, s₆, h₆, s₇, h₇, s₈, h₈, ht₆, ht, hidle⟩ :
      ∃ s₁, streamStep ({ queue := { queueMaxSize := 4 } } : System Party ℕ)
        (.call .consumer (.popDataPoints (List.replicate 2 default))) = some s₁ ∧
      ∃ s₂, streamStep s₁ (.call .producer (.addDataPoints [5])) = some s₂ ∧
      ∃ s₃, streamStep s₂ (.test .producer) = some s₃ ∧
      ∃ s₄, streamStep s₃ (.locked .producer) = some s₄ ∧
      ∃ s₅, streamStep s₄ (.test .producer) = some s₅ ∧
      ∃ s₆, streamStep s₅ .notifyStreamEnd = some s₆ ∧
      ∃ s₇, streamStep s₆ (.locked .consumer) = some s₇ ∧
      ∃ s₈, streamStep s₇ (.test .consumer) = some s₈ ∧
        s₅.threads .consumer = .popDataPoints [0, 0] [0, 0] 0 ∧
        s₇.threads .consumer = .popDataPointsTest [0, 0] [5, 0] 1 ∧ s₈.threads .consumer = .idle :=
    ⟨_, rfl, _, rfl, _, rfl, _, rfl, _, rfl, _, rfl, _, rfl, _, rfl, rfl, rfl, rfl⟩
  have hread : Run (Steps CppInt.wrapping simpleCountingWorker) (start 4 countingLoop) _ _ :=
    Run.nil.snoc (.read rfl rfl rfl h₁)
  have hadd := hread.snoc (.add h₂)
  have htest := hadd.snoc (.within (a := .test .producer) rfl h₃)
  have hinsert := htest.snoc (.within (a := .locked .producer) rfl h₄)
  have hadded := hinsert.snoc (.within (a := .test .producer) rfl h₅)
  have hended := hadded.snoc (.within (a := .notifyStreamEnd) rfl h₆)
  have hpull := hended.snoc (.within (a := .locked .consumer) rfl h₇)
  have hrun := hpull.snoc (.leave ht h₈ hidle ⟨3, rfl⟩)
  refine ⟨_, _, hrun, rfl, (mainLoop_refines CppInt.wrapping simpleCountingWorker 4 countingLoop
    hrun ?_).2.2 rfl⟩
  -- the loop waits for data when the stream ends
  have hwaits : ¬ Overtaken s₅ := by
    rintro ⟨_, _, _, ht', -⟩
    rw [ht₆] at ht'
    cases ht'
  simp [InTime, hwaits]

end MainLoop

end SmartScreen
