/-
  The main loop comes to rest.

  Every step of the loop, and every step within a call of the queue, lowers a rank: how
  often the workers are still served, the data points that the producer has still to
  insert and those in the queue, and how far the threads are from the end of their calls.

  * `rank_step`: what the steps of the queue do to their part of the rank;
  * `Left.step`: every step lowers the whole of it;
  * `OnTime.comes_to_rest`: a schedule without new calls of the producer is finite.
-/
import SmartScreen.App.OrderlyLoop

namespace SmartScreen

open LTS Loop Window DataStreamDistributor AsyncDataQueue

namespace AsyncDataQueue

variable {α : Type}

/-! ## Threads in their loops -/

/-- A thread in its loop has a part of its range left. -/
def Thread.Busy : Thread α → Prop
  | .addDataPoints range begin | .popDataPoints _ range begin => begin < range.length
  | _ => True

/-- A range to be filled is not empty. -/
def AsksForData : Action Party α → Prop
  | .call _ (.popDataPoints range) => range ≠ []
  | _ => True

section
variable {q : AsyncDataQueue α} {t : Thread α} {e : Effect α} {s s' : System Party α}
  {a : Action Party α}

theorem Thread.start_busy {op : Op α} (h : ∀ range, op = .popDataPoints range → range ≠ []) :
    (Thread.start op).Busy := by
  cases op with
  | popDataPoints range => exact List.length_pos_iff.2 (h range rfl)
  | _ => trivial

theorem Thread.test_busy {ins rem : List α} (h : t.Ok ins rem) (he : Thread.test q t = some e) :
    e.thread.Busy := by
  cases t with
  | addDataPointsTest range begin =>
    simp only [Thread.test] at he
    split_ifs at he with hmore <;> cases he
    · have hle : begin ≤ range.length := h.1
      show begin < range.length
      omega
    · trivial
  | popDataPointsTest given range begin =>
    have hwritten : Written rem given range begin := h
    have hle := hwritten.begin_le
    have hlen := hwritten.length_range
    simp only [Thread.test] at he
    split_ifs at he with hmore <;> cases he
    · show begin < range.length
      omega
    · trivial
  | _ => cases he

theorem Thread.locked_busy (he : Thread.locked q t = some e) : e.thread.Busy := by
  cases t with
  | idle | addDataPointsTest | popDataPointsTest => cases he
  | _ =>
    simp only [Thread.locked] at he
    split_ifs at he
    cases he
    trivial

theorem busy_step (h : ∀ i, (s.threads i).Busy) (hinv : s.Inv) (hs : StreamSteps s a s')
    (ha : AsksForData a) (i : Party) : (s'.threads i).Busy := by
  obtain ⟨hs, hallowed⟩ := streamSteps_iff.1 hs
  have hupdate : ∀ {j t}, t.Busy → (Function.update s.threads j t i).Busy := by
    intro j t ht
    by_cases hij : i = j
    · subst hij
      rwa [Function.update_self]
    · rw [Function.update_of_ne hij]
      exact h i
  cases a with
  | call j op =>
    simp only [System.Steps, System.step] at hs
    split at hs <;> cases hs
    refine hupdate (Thread.start_busy ?_)
    rintro range rfl
    exact ha
  | test j =>
    obtain ⟨e, he, rfl⟩ := Option.map_eq_some_iff.1 hs
    exact hupdate (Thread.test_busy (hinv.threads j) he)
  | locked j =>
    obtain ⟨e, he, rfl⟩ := Option.map_eq_some_iff.1 hs
    exact hupdate (Thread.locked_busy he)
  | notifyStreamEnd =>
    cases hs
    exact h i
  | setQueueMaxSize | restartStreaming | discardRestOfStream => cases hallowed

/-! ## The rank of the queue -/

/-- How far the consumer is from the end of its call.  While the stream runs, a section
    takes something from the queue; after its end no section is followed by another. -/
def consumerPhase (ended : Bool) : Thread α → ℕ
  | .idle => 3
  | .popDataPoints _ _ _ => if ended then 2 else 1
  | .popDataPointsTest _ _ _ => if ended then 1 else 2
  | _ => 0

def producerPhase : Thread α → ℕ
  | .addDataPointsTest _ _ => 2
  | .addDataPoints _ _ => 1
  | _ => 0

/-- Data points count twice in the queue, and four times before that. -/
def rank (s : System Party α) : ℕ :=
  consumerPhase s.queue.streamEnded (s.threads .consumer) + 2 * s.queue.dataQueue.length +
    (producerPhase (s.threads .producer) + 4 * (pending (s.threads .producer)).length)

/-- A step of the producer. -/
theorem Adds.rank_lt (ht : Adds t) (hbusy : t.Busy) (hq : q.streamEnded = false)
    (he : Thread.test q t = some e ∨ Thread.locked q t = some e) :
    2 * e.queue.dataQueue.length + (producerPhase e.thread + 4 * (pending e.thread).length) <
      2 * q.dataQueue.length + (producerPhase t + 4 * (pending t).length) := by
  obtain ⟨-, hpending, hqueue, -⟩ := ht.effect hq he
  have hlen : (pending t).length = e.inserted.length + (pending e.thread).length := by
    rw [← hpending, List.length_append]
  rw [hqueue, List.length_append, hlen]
  cases t with
  | idle => rcases he with he | he <;> cases he
  | addDataPointsTest range begin =>
    rcases he with he | he
    · simp only [Thread.test] at he
      split_ifs at he <;> cases he <;> simp [producerPhase]
    · cases he
  | addDataPoints range begin =>
    rcases he with he | he
    · cases he
    · simp only [Thread.locked] at he
      split_ifs at he with hnotFull
      cases he
      have hbegin : begin < range.length := hbusy
      have hroom : q.dataQueue.length < q.queueMaxSize := by
        simpa [notFull, hq] using hnotFull
      rw [sizeSub_of_le hroom.le]
      simp only [producerPhase, List.length_take, List.length_drop]
      omega
  | _ => cases ht

/-- The thread can move on its own. -/
def moves : Action Party α → Bool
  | .locked _ | .test _ => true
  | _ => false

/-- A step within a call lowers the rank, but for the end of `popDataPoints`, which raises
    it by two at most. -/
theorem rank_step (h : StreamInv s) (hbusy : ∀ i, (s.threads i).Busy)
    (hadds : Adds (s.threads .producer)) (hmoves : moves a = true) (hs : StreamSteps s a s') :
    rank s' < rank s ∨ a = .test .consumer ∧ s'.threads .consumer = .idle ∧
      rank s' ≤ rank s + 2 := by
  have hraw := (streamSteps_iff.1 hs).1
  cases h.moves hs with
  | add | pop | notify => cases hmoves
  | produce ha hnot hnot' hc =>
    left
    have hlt : 2 * s'.queue.dataQueue.length +
        (producerPhase (s'.threads .producer) + 4 * (pending (s'.threads .producer)).length) <
          2 * s.queue.dataQueue.length +
            (producerPhase (s.threads .producer) + 4 * (pending (s.threads .producer)).length) := by
      rcases ha with rfl | rfl <;> obtain ⟨e, he, rfl⟩ := Option.map_eq_some_iff.1 hraw <;>
        simp only [System.apply, Function.update_self]
      · exact hadds.rank_lt (hbusy _) hnot (.inl he)
      · exact hadds.rank_lt (hbusy _) hnot (.inr he)
    rw [rank, rank, hc, hnot, hnot']
    omega
  | pull given range begin n ht hn hq hp hc =>
    left
    have hbegin : begin < range.length := by
      have := hbusy .consumer
      rwa [ht] at this
    have hdrop : s'.queue.dataQueue.length = s.queue.dataQueue.length - n := by
      rw [hq, List.length_drop]
    have hended : s'.queue.streamEnded = s.queue.streamEnded := by rw [hq]
    rw [rank, rank, hp, hc, ht, hdrop, hended]
    cases hstream : s.queue.streamEnded with
    | true => simp [consumerPhase]; omega
    | false =>
      -- something is taken from the queue
      have hsome : 0 < s.queue.dataQueue.length := by
        obtain ⟨e, he, -⟩ := Option.map_eq_some_iff.1 hraw
        rw [ht] at he
        simp only [Thread.locked] at he
        split_ifs at he with hnotEmpty
        simpa [notEmpty, hstream] using hnotEmpty
      simp [consumerPhase]
      omega
  | again given range begin ht hnot hq hp hc =>
    left
    rw [rank, rank, hp, hc, ht, hq, hnot]
    simp [consumerPhase]
  | leave given range begin ht hend hq hp hc =>
    refine Or.inr ⟨rfl, hc, ?_⟩
    rw [rank, rank, hp, hc, ht, hq]
    cases s.queue.streamEnded <;> simp [consumerPhase] <;> omega

/-- The call of `popDataPoints`. -/
theorem rank_call (h : StreamInv s) {range : List α}
    (hs : StreamSteps s (.call .consumer (.popDataPoints range)) s') : rank s' < rank s := by
  cases h.moves hs with
  | pop _ hidle hq hp hc =>
    rw [rank, rank, hp, hc, hq, hidle]
    cases s.queue.streamEnded <;> simp [consumerPhase]
  | produce ha => simp at ha

/-- Only `notifyStreamEnd` ends the stream. -/
theorem streamEnded_eq (h : StreamInv s) (ha : a ≠ .notifyStreamEnd) (hs : StreamSteps s a s') :
    s'.queue.streamEnded = s.queue.streamEnded := by
  cases h.moves hs with
  | add _ _ hq | pop _ _ hq | again _ _ _ _ _ hq | leave _ _ _ _ _ hq => rw [hq]
  | produce _ hnot hnot' => rw [hnot, hnot']
  | pull _ _ _ _ _ _ hq => rw [hq]
  | notify => exact absurd rfl ha

end

end AsyncDataQueue

namespace MainLoop

/-! ## The rank of the loop -/

/-- How often the workers are still served, as long as the loop runs. -/
def stillServed (k : ℕ) : Status → ℕ
  | .running => 4 * (k + 1)
  | .ended | .shutDown => 0

section
variable {α S : Type} [Inhabited α] {C : CppInt} {W : DataStreamWorker α S} {r : ℕ}
  {I : ℕ → Slot S → Prop} {l : List α} {s s' : MainLoop α S} {d₀ : DataStreamDistributor α S}
  {n : ℕ} {system : System Party α}

/-- At most `n` steps are left on the complete stream `l`. -/
structure Left (C : CppInt) (W : DataStreamWorker α S) (r : ℕ) (I : ℕ → Slot S → Prop)
    (l : List α) (d₀ : DataStreamDistributor α S) (n : ℕ) (s : MainLoop α S) : Prop where
  onTime : OnTime C W d₀ s
  mayCome : MayCome W r I d₀ s l
  busy : ∀ i, (s.system.threads i).Busy
  rank_eq : ∃ (w : Window l) (k : ℕ), Holds r I w k s.distributor (l.drop s.popped.length) ∧
    n = rank s.system + stillServed k s.status

/-- The loop asks for data points. -/
theorem asksForData_of_asked {d : DataStreamDistributor α S} (h : d.asked = some n) :
    AsksForData (.call .consumer (.popDataPoints (List.replicate n (default : α)))) := by
  obtain ⟨needed, -, hneeded⟩ := Option.bind_eq_some_iff.1 h
  split_ifs at hneeded with hpos
  cases hneeded
  simp only [AsksForData, ne_eq, List.replicate_eq_nil_iff]
  omega

/-- A thread in its loop has a part of its range left, in every step. -/
theorem busy_steps (hbusy : ∀ i, (s.system.threads i).Busy) (hstream : StreamInv s.system)
    {a : Action α} (hs : Steps C W s a s') : ∀ i, (s'.system.threads i).Busy := by
  cases hs with
  | stop | round | shutdown => exact hbusy
  | read _ _ hasked hs => exact busy_step hbusy hstream.inv hs (asksForData_of_asked hasked)
  | leave _ hs | again hs | add hs => exact busy_step hbusy hstream.inv hs trivial
  | @within a system hwithin hs =>
    refine busy_step hbusy hstream.inv hs ?_
    cases a with
    | call => cases hwithin
    | _ => trivial

omit [Inhabited α] in
/-- Without new data points the same stream may come. -/
theorem MayCome.of_eq (h : MayCome W r I d₀ s l) (hadded : s'.added = s.added)
    (hended : s'.system.queue.streamEnded = s.system.queue.streamEnded) :
    MayCome W r I d₀ s' l where
  orderly := h.orderly
  holds := h.holds
  slots_ne_nil := h.slots_ne_nil
  prefix_of := by
    rw [hadded]
    exact h.prefix_of
  ended := by
    rw [hadded, hended]
    exact h.ended

omit [Inhabited α] in
/-- A round serves some worker, or is the last one. -/
theorem Left.round (h : Left C W r I l d₀ n s) (hrunning : s.status = .running) {xs : List α}
    (hread : ∀ m ∈ s.distributor.asked,
      popRemaining (l.drop s.popped.length) m = (xs, l.drop (s.popped ++ xs).length))
    (hnone : s.distributor.asked = none → xs = []) {d : DataStreamDistributor α S} {b : Bool}
    (hround : Returns (fun k => guardedPass C W (reads xs) k (s.distributor, ())) (d, ()) b)
    (hrank : rank system ≤ rank s.system + 2) :
    ∃ (w : Window l) (k : ℕ), Holds r I w k d (l.drop (s.popped ++ xs).length) ∧
      rank system + stillServed k (.after b) < n := by
  obtain ⟨w, k, hholds, rfl⟩ := h.rank_eq
  obtain ⟨-, -, -, hpath, -⟩ := h.onTime.holds h.mayCome
  have hd := ne_nil_of_forall₂ hpath h.mayCome.slots_ne_nil
  have hround' := (returns_guardedPass_reads C W hread
    (fun hn => by rw [hnone hn, List.append_nil])).2 hround
  obtain ⟨-, w', k', hpass⟩ := hholds.round h.mayCome.orderly hd hround'
  refine ⟨w', k', hpass.holds, ?_⟩
  rw [hrunning]
  rcases hpass.value with ⟨rfl, hlt⟩ | ⟨rfl, -⟩
  · simp only [Status.after, stillServed, if_true]
    omega
  · simp only [Status.after, stillServed, Bool.false_eq_true, if_false]
    omega

omit [Inhabited α] in
/-- A step that leaves the workers where they are. -/
theorem Left.move (h : Left C W r I l d₀ n s) (hon : OnTime C W d₀ s')
    (hcome : MayCome W r I d₀ s' l) (hbusy : ∀ i, (s'.system.threads i).Busy)
    (hdistributor : s'.distributor = s.distributor) (hpopped : s'.popped = s.popped)
    (hstatus : s'.status = s.status) :
    ∃ n', Left C W r I l d₀ n' s' ∧ n' + rank s.system = n + rank s'.system := by
  obtain ⟨w, k, hholds, rfl⟩ := h.rank_eq
  rw [← hdistributor, ← hpopped] at hholds
  refine ⟨_, ⟨hon, hcome, hbusy, w, k, hholds, rfl⟩, ?_⟩
  rw [hstatus]
  omega

omit [Inhabited α] in
/-- A step of the queue that leaves the loop where it is. -/
theorem Left.within (h : Left C W r I l d₀ n s) (hon : OnTime C W d₀ { s with system })
    (hbusy : ∀ i, (system.threads i).Busy)
    (hended : system.queue.streamEnded = s.system.queue.streamEnded)
    (hrank : rank system < rank s.system) : ∃ n' < n, Left C W r I l d₀ n' { s with system } := by
  obtain ⟨n', hn', heq⟩ := h.move hon (h.mayCome.of_eq rfl hended) hbusy rfl rfl rfl
  have hlt : n' + rank s.system = n + rank system := heq
  exact ⟨n', by omega, hn'⟩

/-- **Every step lowers the rank.** -/
theorem Left.step (h : Left C W r I l d₀ n s) {a : Action α} (ha : inner a = true)
    (hs : Steps C W s a s') : ∃ n' < n, Left C W r I l d₀ n' s' := by
  have htime : InTime s a := by
    rintro rfl
    cases ha
  have hon := h.onTime.step htime hs
  have hstream := h.onTime.flow.stream
  have hadds := h.onTime.flow.producer
  have hbusy := busy_steps h.busy hstream hs
  cases hs with
  | stop hrunning _ _ =>
    obtain ⟨w, k, hholds, rfl⟩ := h.rank_eq
    refine ⟨rank s.system, ?_, hon, h.mayCome.of_eq rfl rfl, hbusy, w, k, hholds, rfl⟩
    rw [hrunning, stillServed]
    omega
  | read _ _ _ hs =>
    exact h.within hon hbusy (streamEnded_eq hstream (by rintro ⟨⟩) hs) (rank_call hstream hs)
  | @round d b hrunning _ _ hasked hround =>
    obtain ⟨w, k, hholds, hlt⟩ := h.round hrunning (by rw [hasked]; rintro _ ⟨⟩) (fun _ => rfl)
      hround (Nat.le_add_right (rank s.system) 2)
    rw [List.append_nil] at hholds
    exact ⟨_, hlt, hon, h.mayCome.of_eq rfl rfl, hbusy, w, k, hholds, rfl⟩
  | @leave _ _ _ system _ _ ht hs hidle hround =>
    obtain ⟨n, hleaves⟩ := h.onTime.flow.leaves ht hs hidle
    have hrank : rank system ≤ rank s.system + 2 := by
      rcases rank_step hstream h.busy hadds rfl hs with hlt | ⟨-, -, hle⟩
      · omega
      · exact hle
    obtain ⟨w, k, hholds, hlt⟩ := h.round hleaves.running
      (h.mayCome.popRemaining_eq h.onTime hleaves) (by rw [hleaves.asked]; rintro ⟨⟩) hround hrank
    exact ⟨_, hlt, hon, h.mayCome.of_eq rfl (streamEnded_eq hstream (by rintro ⟨⟩) hs), hbusy, w, k,
      hholds, rfl⟩
  | again hs hagain =>
    refine h.within hon hbusy (streamEnded_eq hstream (by rintro ⟨⟩) hs) ?_
    rcases rank_step hstream h.busy hadds rfl hs with hlt | ⟨-, hidle, -⟩
    · exact hlt
    · exact absurd hidle hagain
  | @within a system hwithin hs =>
    cases a with
    | locked i =>
      refine h.within hon hbusy (streamEnded_eq hstream (by rintro ⟨⟩) hs) ?_
      rcases rank_step hstream h.busy hadds rfl hs with hlt | ⟨⟨⟩, -⟩
      exact hlt
    | test i =>
      refine h.within hon hbusy (streamEnded_eq hstream (by rintro ⟨⟩) hs) ?_
      rcases rank_step hstream h.busy hadds rfl hs with hlt | ⟨hi, -⟩
      · exact hlt
      · cases hi
        cases hwithin
    | _ => cases ha
  | add | shutdown => cases ha

/-! ## Rest -/

/-- **The loop comes to rest**: a schedule without new calls of the producer is
    finite. -/
theorem OnTime.comes_to_rest (h : OnTime C W d₀ s) (hl : MayCome W r I d₀ s l)
    (hbusy : ∀ i, (s.system.threads i).Busy) :
    ∃ n, ∀ tr' s', Run (Steps C W) s tr' s' → (∀ x ∈ tr', inner x.2.1 = true) →
      tr'.length ≤ n := by
  obtain ⟨w, k, hholds, -⟩ := h.holds hl
  refine ⟨rank s.system + stillServed k s.status, fun tr' s' hrun hinner => ?_⟩
  obtain ⟨k', -, hle⟩ := hrun.length_add_le (J := Left C W r I l d₀)
    ⟨h, hl, hbusy, w, k, hholds, rfl⟩ fun x hx hs k hk => hk.step (hinner x hx) hs
  omega

/-- After the end of the stream the producer makes no more calls. -/
theorem inner_of_ended (hstream : StreamInv s.system)
    (hended : s.system.queue.streamEnded = true) {a : Action α} (ha : a ≠ .shutdown)
    (hs : Steps C W s a s') : inner a = true := by
  cases hs with
  | stop | read | round | leave | again => rfl
  | add hs =>
    cases hstream.moves hs with
    | add _ hnot => rw [hnot] at hended; cases hended
    | produce ha => simp at ha
  | @within a system hwithin hs =>
    cases a with
    | notifyStreamEnd =>
      cases hstream.moves hs with
      | notify _ hnot => rw [hnot] at hended; cases hended
      | produce ha => simp at ha
    | locked | test => rfl
    | _ => cases hwithin
  | shutdown => exact absurd rfl ha

theorem ended_step (hstream : StreamInv s.system) (hended : s.system.queue.streamEnded = true)
    {a : Action α} (hs : Steps C W s a s') : s'.system.queue.streamEnded = true := by
  cases hs with
  | stop | round | shutdown => exact hended
  | read _ _ _ hs | leave _ hs | again hs | add hs | within _ hs =>
    exact streamEnded_mono hstream hs hended

/-- The main loop without the message queue is never told to shut down. -/
theorem running_step {a : Action α} (h : s.shutdown = false ∧ s.status ≠ .shutDown)
    (ha : a ≠ .shutdown) (hs : Steps C W s a s') :
    s'.shutdown = false ∧ s'.status ≠ .shutDown := by
  cases hs with
  | stop _ _ hshutdown =>
    rw [h.1] at hshutdown
    cases hshutdown
  | @round d b => exact ⟨h.1, by cases b <;> simp [Status.after]⟩
  | @leave _ _ _ _ _ b => exact ⟨h.1, by cases b <;> simp [Status.after]⟩
  | read | again | add | within => exact h
  | shutdown => exact absurd rfl ha

/-- A step that is not one of the producer's leaves the stream as it is. -/
theorem inner_step {a : Action α} (hstream : StreamInv s.system)
    (ha : inner a = true) (hs : Steps C W s a s') :
    s'.added = s.added ∧
      s'.system.queue.streamEnded = s.system.queue.streamEnded := by
  cases hs with
  | stop | round => exact ⟨rfl, rfl⟩
  | read _ _ _ hs => exact ⟨rfl, streamEnded_eq hstream (by rintro ⟨⟩) hs⟩
  | leave _ hs | again hs => exact ⟨rfl, streamEnded_eq hstream (by rintro ⟨⟩) hs⟩
  | @within a _ _ hs =>
    refine ⟨rfl, streamEnded_eq hstream ?_ hs⟩
    rintro rfl
    cases ha
  | add | shutdown => cases ha

/-- **Every schedule after the end of the stream is finite.** -/
theorem OnTime.ends (h : OnTime C W d₀ s) (hl : MayCome W r I d₀ s l)
    (hbusy : ∀ i, (s.system.threads i).Busy) (hended : s.system.queue.streamEnded = true) :
    ∃ n, ∀ tr' s', Run (Steps C W) s tr' s' → (∀ x ∈ tr', x.2.1 ≠ .shutdown) →
      tr'.length ≤ n := by
  obtain ⟨n, hn⟩ := h.comes_to_rest hl hbusy
  refine ⟨n, fun tr' s' hrun hne => hn tr' s' hrun fun x hx => ?_⟩
  have hx' : Flow x.1 ∧ x.1.system.queue.streamEnded = true :=
    (hrun.reach_of_mem x hx).1.inv (I := fun s => Flow s ∧ s.system.queue.streamEnded = true)
      ⟨h.flow, hended⟩ fun _ _ _ hs hi => ⟨hi.1.step hs, ended_step hi.1.stream hi.2 hs⟩
  exact inner_of_ended hx'.1.stream hx'.2 (hne x hx) (hrun.step_of_mem x hx)

/-! ## To the end -/

/-- From `s` the loop has come to `t` without the producer, after the end of the stream. -/
structure Later (C : CppInt) (W : DataStreamWorker α S) (s : MainLoop α S)
    (tr : List (MainLoop α S × Action α × MainLoop α S)) (t : MainLoop α S) : Prop where
  run : Run (Steps C W) s tr t
  inner : ∀ x ∈ tr, inner x.2.1 = true
  flow : Flow t
  ended : t.system.queue.streamEnded = true
  added : t.added = s.added
  running : t.shutdown = false ∧ t.status ≠ .shutDown

variable (C W) in
theorem Later.start (hflow : Flow s) (hended : s.system.queue.streamEnded = true)
    (hrunning : s.shutdown = false ∧ s.status ≠ .shutDown) : Later C W s [] s :=
  ⟨.nil, by simp, hflow, hended, rfl, hrunning⟩

section
variable {t t' : MainLoop α S} {tr : List (MainLoop α S × Action α × MainLoop α S)}

theorem Later.snoc (h : Later C W s tr t) {a : Action α} (ha : MainLoop.inner a = true)
    (hs : Steps C W t a t') : Later C W s (tr ++ [(t, a, t')]) t' := by
  obtain ⟨hadded, hended⟩ := inner_step h.flow.stream ha hs
  refine ⟨h.run.snoc hs, ?_, h.flow.step hs, hended.trans h.ended, hadded.trans h.added,
    running_step h.running (by rintro rfl; cases ha) hs⟩
  rw [List.forall_mem_append]
  exact ⟨h.inner, by simpa using ha⟩

end

end

end MainLoop

end SmartScreen
