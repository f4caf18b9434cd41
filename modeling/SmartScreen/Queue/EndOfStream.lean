/-
  The end of a stream: one producer, which adds ranges and then ends the stream,
  and one consumer, which pops.

  `popDataPoints` tests `stream_ended` after it has released the mutex.  If the
  producer adds its last data points and ends the stream in between, the consumer
  returns and leaves them in the queue.

  * `InTime` is the condition under which this does not happen, `AboutToLose` the
    state in which it is bound to happen.
  * `aboutToLose_iff` and `losesNothing_iff` say what a step does to it.
  * `length_lt_of_false`: `loopWorkersOnce` returns `false` only after a short read.
-/
import SmartScreen.Queue.Interleaving
import SmartScreen.Stream.DistributorSpec

namespace SmartScreen.AsyncDataQueue

open LTS

variable {α : Type}

inductive Party where
  | producer
  | consumer
deriving DecidableEq

def Thread.isIdle : Thread α → Bool
  | .idle => true
  | _ => false

theorem Thread.isIdle_iff {t : Thread α} : t.isIdle = true ↔ t = .idle := by
  cases t <;> simp [Thread.isIdle]

/-- What the parties do: the producer ends the stream once, after its calls. -/
def allowed (s : System Party α) : Action Party α → Bool
  | .call .producer (.addDataPoints _) => !s.queue.streamEnded
  | .call .consumer (.popDataPoints _) => true
  | .test _ => true
  | .locked _ => true
  | .notifyStreamEnd => (s.threads .producer).isIdle && !s.queue.streamEnded
  | _ => false

def streamStep (s : System Party α) (a : Action Party α) : Option (System Party α) :=
  if allowed s a then s.step a else none

/-- The steps as a relation. -/
def StreamSteps (s : System Party α) (a : Action Party α) (s' : System Party α) : Prop :=
  streamStep s a = some s'

theorem streamSteps_iff {s s' : System Party α} {a : Action Party α} :
    StreamSteps s a s' ↔ s.Steps a s' ∧ allowed s a = true := by
  rw [StreamSteps, streamStep, System.Steps]
  split_ifs with h <;> simp [h]

/-- The consumer has released the mutex with its range not filled, and since then
    the producer has added data points. -/
def Overtaken (s : System Party α) : Prop :=
  ∃ given range begin, s.threads .consumer = .popDataPointsTest given range begin ∧
    begin ≠ range.length ∧ s.queue.dataQueue ≠ []

/-- The stream does not end while the consumer is overtaken. -/
def InTime (s : System Party α) (a : Action Party α) : Prop :=
  a = .notifyStreamEnd → ¬ Overtaken s

/-- The consumer will find that the stream has ended and return. -/
def AboutToLose (s : System Party α) : Prop := s.queue.streamEnded = true ∧ Overtaken s

/-- With this step `popDataPoints` returns: asked for `n` data points, it delivers
    `xs`. -/
def PopReturns (s : System Party α) (a : Action Party α) (s' : System Party α) (n : ℕ)
    (xs : List α) : Prop :=
  a = .test .consumer ∧ s'.threads .consumer = .idle ∧
    ∃ given range begin, s.threads .consumer = .popDataPointsTest given range begin ∧
      n = given.length ∧ xs = range.take begin

/-- The stream has ended and there is nothing left to read. -/
def Drained (q : AsyncDataQueue α) : Prop := q.streamEnded = true ∧ q.dataQueue = []

/-- A short read happens only at the end of the stream. -/
def LosesNothing (s : System Party α) (a : Action Party α) (s' : System Party α) : Prop :=
  ∀ n xs, PopReturns s a s' n xs → xs.length < n → Drained s'.queue

/-! ## Steps of the parties -/

/-- Where the parties can stand. -/
structure StreamInv (s : System Party α) : Prop where
  inv : s.Inv
  ended : s.queue.streamEnded = true → s.threads .producer = .idle
  producer : s.threads .producer = .idle ∨
    ∃ range begin, s.threads .producer = .addDataPointsTest range begin ∨
      s.threads .producer = .addDataPoints range begin
  consumer : s.threads .consumer = .idle ∨
    ∃ given range begin, s.threads .consumer = .popDataPoints given range begin ∨
      s.threads .consumer = .popDataPointsTest given range begin

section
variable {s s' : System Party α} {a : Action Party α}

theorem streamInv_start (maxSize : ℕ) :
    StreamInv ({ queue := { queueMaxSize := maxSize } } : System Party α) :=
  ⟨System.inv_start maxSize, fun _ => rfl, Or.inl rfl, Or.inl rfl⟩

/-- What a step of the parties can do, and from where. -/
inductive Moves (s : System Party α) : Action Party α → System Party α → Prop
  | add (range : List α) {s' : System Party α} : s.queue.streamEnded = false →
      s'.queue = s.queue → s'.threads .consumer = s.threads .consumer →
      s'.threads .producer = .addDataPointsTest range 0 →
      Moves s (.call .producer (.addDataPoints range)) s'
  | pop (range : List α) {s' : System Party α} : s.threads .consumer = .idle →
      s'.queue = s.queue → s'.threads .producer = s.threads .producer →
      s'.threads .consumer = .popDataPoints range range 0 →
      Moves s (.call .consumer (.popDataPoints range)) s'
  | produce {a : Action Party α} {s' : System Party α} :
      a = .test .producer ∨ a = .locked .producer →
      s.queue.streamEnded = false → s'.queue.streamEnded = false →
      s'.threads .consumer = s.threads .consumer →
      (s'.threads .producer = .idle ∨
        ∃ range begin, s'.threads .producer = .addDataPointsTest range begin ∨
          s'.threads .producer = .addDataPoints range begin) → Moves s a s'
  | pull (given range : List α) (begin n : ℕ) {s' : System Party α} :
      s.threads .consumer = .popDataPoints given range begin →
      n = min (range.length - begin) s.queue.dataQueue.length →
      s'.queue = { s.queue with dataQueue := s.queue.dataQueue.drop n } →
      s'.threads .producer = s.threads .producer →
      s'.threads .consumer = .popDataPointsTest given (copyN s.queue.dataQueue n range begin)
        (begin + n) → Moves s (.locked .consumer) s'
  | again (given range : List α) (begin : ℕ) {s' : System Party α} :
      s.threads .consumer = .popDataPointsTest given range begin →
      s.queue.streamEnded = false → s'.queue = s.queue →
      s'.threads .producer = s.threads .producer →
      s'.threads .consumer = .popDataPoints given range begin → Moves s (.test .consumer) s'
  | leave (given range : List α) (begin : ℕ) {s' : System Party α} :
      s.threads .consumer = .popDataPointsTest given range begin →
      begin = range.length ∨ s.queue.streamEnded = true → s'.queue = s.queue →
      s'.threads .producer = s.threads .producer → s'.threads .consumer = .idle →
      Moves s (.test .consumer) s'
  | notify {s' : System Party α} : s.threads .producer = .idle → s.queue.streamEnded = false →
      s'.queue = { s.queue with streamEnded := true } → s'.threads = s.threads →
      Moves s .notifyStreamEnd s'

/-- A producer in a call has not ended the stream. -/
theorem StreamInv.not_ended (h : StreamInv s) (hbusy : s.threads .producer ≠ .idle) :
    s.queue.streamEnded = false := by
  rw [← Bool.not_eq_true]
  intro hended
  exact hbusy (h.ended hended)

theorem StreamInv.moves (h : StreamInv s) (hs : StreamSteps s a s') : Moves s a s' := by
  obtain ⟨hs, hallowed⟩ := streamSteps_iff.1 hs
  cases a with
  | call i op =>
    simp only [System.Steps, System.step] at hs
    split at hs
    case h_2 => cases hs
    case h_1 hi =>
      cases hs
      cases i with
      | producer =>
        cases op with
        | addDataPoints range => exact .add range (by simpa [allowed] using hallowed) rfl rfl rfl
        | _ => cases hallowed
      | consumer =>
        cases op with
        | popDataPoints range => exact .pop range hi rfl rfl rfl
        | _ => cases hallowed
  | test i =>
    obtain ⟨e, he, rfl⟩ := Option.map_eq_some_iff.1 hs
    cases i with
    | producer =>
      obtain hi | ⟨range, begin, hi | hi⟩ := h.producer <;> rw [hi] at he
      · cases he
      · have hended := h.not_ended (by rw [hi]; rintro ⟨⟩)
        simp only [Thread.test, hended] at he
        split_ifs at he <;> cases he
        · exact .produce (Or.inl rfl) hended hended rfl (Or.inr ⟨range, begin, Or.inr rfl⟩)
        · exact .produce (Or.inl rfl) hended hended rfl (Or.inl rfl)
      · cases he
    | consumer =>
      obtain hi | ⟨given, range, begin, hi | hi⟩ := h.consumer <;> rw [hi] at he
      · cases he
      · cases he
      · simp only [Thread.test] at he
        split_ifs at he with hc <;> cases he
        · exact .again given range begin hi hc.2 rfl rfl rfl
        · refine .leave given range begin hi ?_ rfl rfl rfl
          by_cases hb : begin = range.length
          · exact Or.inl hb
          · exact Or.inr (by simpa using fun hended => hc ⟨hb, hended⟩)
  | locked i =>
    obtain ⟨e, he, rfl⟩ := Option.map_eq_some_iff.1 hs
    cases i with
    | producer =>
      obtain hi | ⟨range, begin, hi | hi⟩ := h.producer <;> rw [hi] at he
      · cases he
      · cases he
      · have hended := h.not_ended (by rw [hi]; rintro ⟨⟩)
        simp only [Thread.locked] at he
        split_ifs at he; cases he
        exact .produce (Or.inr rfl) hended hended rfl (Or.inr ⟨range, _, Or.inl rfl⟩)
    | consumer =>
      obtain hi | ⟨given, range, begin, hi | hi⟩ := h.consumer <;> rw [hi] at he
      · cases he
      · simp only [Thread.locked] at he
        split_ifs at he; cases he
        exact .pull given range begin _ hi rfl (removePointsFromQueue_eq _ _) rfl rfl
      · cases he
  | notifyStreamEnd =>
    simp only [allowed, Bool.and_eq_true, Thread.isIdle_iff, Bool.not_eq_true'] at hallowed
    cases hs; exact .notify hallowed.1 hallowed.2 rfl rfl
  | setQueueMaxSize | restartStreaming | discardRestOfStream => cases hallowed

theorem StreamInv.step (h : StreamInv s) (hs : StreamSteps s a s') : StreamInv s' := by
  obtain ⟨hstep, hallowed⟩ := streamSteps_iff.1 hs
  have hinv : s'.Inv := h.inv.step (by rintro rfl; cases hallowed) hstep
  cases h.moves hs with
  | add range hended hq hc hp =>
    exact ⟨hinv, by rw [hq, hended]; rintro ⟨⟩, Or.inr ⟨range, 0, Or.inl hp⟩,
      by rw [hc]; exact h.consumer⟩
  | pop range _ hq hp hc =>
    exact ⟨hinv, by rw [hq, hp]; exact h.ended, by rw [hp]; exact h.producer,
      Or.inr ⟨range, range, 0, Or.inl hc⟩⟩
  | produce _ _ hended hc hp =>
    exact ⟨hinv, by rw [hended]; rintro ⟨⟩, hp, by rw [hc]; exact h.consumer⟩
  | pull given range begin n _ _ hq hp hc =>
    exact ⟨hinv, by rw [hq, hp]; exact h.ended, by rw [hp]; exact h.producer,
      Or.inr ⟨given, _, _, Or.inr hc⟩⟩
  | again given range begin _ _ hq hp hc =>
    exact ⟨hinv, by rw [hq, hp]; exact h.ended, by rw [hp]; exact h.producer,
      Or.inr ⟨given, range, begin, Or.inl hc⟩⟩
  | leave _ _ _ _ _ hq hp hc =>
    exact ⟨hinv, by rw [hq, hp]; exact h.ended, by rw [hp]; exact h.producer, Or.inl hc⟩
  | notify hp _ hq ht =>
    exact ⟨hinv, by rw [ht]; exact fun _ => hp, by rw [ht]; exact h.producer,
      by rw [ht]; exact h.consumer⟩

/-- **How the consumer gets into, and out of, the bad state.** -/
theorem StreamInv.aboutToLose_iff (h : StreamInv s) (hs : StreamSteps s a s') :
    AboutToLose s' ↔
      (AboutToLose s ∧ a ≠ .test .consumer) ∨ (a = .notifyStreamEnd ∧ Overtaken s) := by
  have h' := h.step hs
  cases h.moves hs with
  | add range hended hq hc hp => simp [AboutToLose, hq, hended]
  | pop range hi hq hp hc => simp [AboutToLose, Overtaken, hi, hc]
  | produce ha hended hended' hc hp =>
    have : a ≠ .notifyStreamEnd := by rintro rfl; simp at ha
    simp [AboutToLose, hended, hended', this]
  | pull given range begin n hi hn hq hp hc =>
    -- a section that does not fill the range has emptied the queue
    have hw := h.inv.threads .consumer
    have hw' := h'.inv.threads .consumer
    rw [hi] at hw
    rw [hc] at hw'
    have hlen := hw.length_range
    have hlen' := hw'.length_range
    have hb := hw.begin_le
    have hnot : ¬ Overtaken s' := by
      rintro ⟨given', range', begin', ht, hne, hnil⟩
      rw [hc] at ht
      cases ht
      rw [hq] at hnil
      exact hnil (List.drop_of_length_le (by omega))
    have hnot' : ¬ Overtaken s := by simp [Overtaken, hi]
    simp [AboutToLose, hnot, hnot']
  | again given range begin hi hended hq hp hc => simp [AboutToLose, Overtaken, hq, hended]
  | leave given range begin hi _ hq hp hc => simp [AboutToLose, Overtaken, hc]
  | notify hp hended hq ht => simp [AboutToLose, Overtaken, hq, ht, hended]

/-- **A step loses data exactly when the consumer was about to.** -/
theorem StreamInv.losesNothing_iff (h : StreamInv s) (hs : StreamSteps s a s') :
    LosesNothing s a s' ↔ ¬ (AboutToLose s ∧ a = .test .consumer) := by
  by_cases ha : a = .test .consumer
  swap
  · exact ⟨fun _ h => ha h.2, fun _ n xs hr => absurd hr.1 ha⟩
  subst ha
  cases h.moves hs with
  | produce ha => simp at ha
  | again given range begin hi hended hq hp hc =>
    refine ⟨fun _ h => ?_, fun _ n xs hr => ?_⟩
    · rw [h.1.1] at hended
      cases hended
    · have hidle := hr.2.1
      rw [hc] at hidle
      cases hidle
  | leave given range begin hi hend hq hp hc =>
    have hw := h.inv.threads .consumer
    rw [hi] at hw
    have hlen := hw.length_range
    have hb := hw.begin_le
    constructor
    · rintro hloses ⟨⟨hended, _, _, _, hi', hne, hnil⟩, -⟩
      rw [hi] at hi'
      cases hi'
      refine hnil ?_
      have := hloses _ _ ⟨rfl, hc, given, range, begin, hi, rfl, rfl⟩
        (by rw [List.length_take]; omega)
      rw [hq] at this
      exact this.2
    · rintro hnot n xs ⟨-, -, _, _, _, hi', rfl, rfl⟩ hlt
      rw [hi] at hi'
      cases hi'
      rw [List.length_take] at hlt
      have hne : begin ≠ range.length := by omega
      have hended := hend.resolve_left hne
      rw [hq]
      refine ⟨hended, ?_⟩
      by_contra hnil
      exact hnot ⟨⟨hended, given, range, begin, hi, hne, hnil⟩, rfl⟩

/-- Once the stream is drained it stays so. -/
theorem StreamInv.drained (h : StreamInv s) (hs : StreamSteps s a s') (hd : Drained s.queue) :
    Drained s'.queue := by
  obtain ⟨hended, hnil⟩ := hd
  cases h.moves hs with
  | add _ hended' _ _ _ => rw [hended] at hended'; cases hended'
  | produce _ hended' _ _ _ => rw [hended] at hended'; cases hended'
  | notify _ hended' _ _ => rw [hended] at hended'; cases hended'
  | pop _ _ hq _ _ => rw [hq]; exact ⟨hended, hnil⟩
  | again _ _ _ _ _ hq _ _ => rw [hq]; exact ⟨hended, hnil⟩
  | leave _ _ _ _ _ hq _ _ => rw [hq]; exact ⟨hended, hnil⟩
  | pull _ _ _ _ _ _ hq _ _ => rw [hq]; exact ⟨hended, by simp [hnil]⟩

end

/-! ## Runs -/

section
variable {maxSize : ℕ} {s : System Party α}
  {tr : List (System Party α × Action Party α × System Party α)}

theorem streamInv_of_run
    (hrun : Run StreamSteps ({ queue := { queueMaxSize := maxSize } } : System Party α) tr s) :
    StreamInv s :=
  hrun.inv (streamInv_start maxSize) fun _ _ hs h => h.step hs

/-- The stream ends in time iff no read was short too early and none will be. -/
theorem inTime_iff
    (hrun : Run StreamSteps ({ queue := { queueMaxSize := maxSize } } : System Party α) tr s) :
    (∀ x ∈ tr, InTime x.1 x.2.1) ↔
      (∀ x ∈ tr, LosesNothing x.1 x.2.1 x.2.2) ∧ ¬ AboutToLose s := by
  induction hrun with
  | nil => simp [AboutToLose]
  | @snoc tr t t' a hrun hs ih =>
    have ht := streamInv_of_run hrun
    simp only [List.mem_append, List.mem_singleton, or_imp, forall_and, forall_eq]
    rw [ih, ht.losesNothing_iff hs, ht.aboutToLose_iff hs, InTime]
    tauto

/-- What was drained is still drained at the end of the run. -/
theorem drained_of_mem
    (hrun : Run StreamSteps ({ queue := { queueMaxSize := maxSize } } : System Party α) tr s) :
    ∀ x ∈ tr, Drained x.2.2.queue → Drained s.queue := by
  induction hrun with
  | nil => simp
  | @snoc tr t t' a hrun hs ih =>
    intro x hx hd
    rcases List.mem_append.1 hx with hx | hx
    · exact (streamInv_of_run hrun).drained hs (ih x hx hd)
    · rw [List.mem_singleton] at hx; subst hx
      exact hd

end

/-! ## The distributor -/

section
open Loop DataStreamDistributor

variable {S Q : Type} {C : CppInt} {W : DataStreamWorker α S} {pop : Q → ℕ → List α × Q}
  {d : DataStreamDistributor α S} {q : Q} {dq' : DataStreamDistributor α S × Q}

/-- If no worker is executed, all loop conditions are false. -/
theorem round_of_forEach_false {pos : ℤ} {dataQueue : List α} {xs ys : List (Slot S)}
    (h : Returns (fun n => forEach (runWorker W pos dataQueue) n xs) ys false) {x : Slot S}
    (hx : x ∈ xs) : ∃ x', executeWorkerRound W pos dataQueue x = .ok x' false := by
  obtain ⟨x', h⟩ := h.of_forEach_false x hx
  obtain ⟨-, h⟩ | ⟨hb, -⟩ := h.of_whileTrue
  · obtain ⟨-, h⟩ | ⟨hb, -⟩ := h.of_whileTrue
    · exact ⟨x', returns_const.1 h⟩
    · cases hb
  · cases hb

/-- Reading in full brings all that is asked for into the buffer. -/
theorem le_readBufferForNextRun {n : ℕ} (hn : d.dataPointsNeededForNextRun.bind C.toSize = some n)
    (hfull : n ≤ (pop q n).1.length) {dq : DataStreamDistributor α S × Q}
    (h : readBufferForNextRun C pop (d, q) = .ok dq ()) :
    dq.1.slots = d.slots ∧ dq.1.currentGlobalBufferPos = d.currentGlobalBufferPos ∧
      ∀ x ∈ d.slots, x.readInfos.readEnd ≤ d.currentGlobalBufferPos + dq.1.dataQueue.length := by
  obtain ⟨needed, hneeded, hsize⟩ := Option.bind_eq_some_iff.1 hn
  obtain ⟨m, hm, rfl⟩ := Option.map_eq_some_iff.1 hneeded
  have hmax : ∀ x ∈ d.slots, x.readInfos.readEnd ≤ m := fun x hx =>
    (List.max?_eq_some_iff.1 hm).2 _ (List.mem_map_of_mem hx)
  have hexact : 0 ≤ m - d.dataQueue.length - d.currentGlobalBufferPos →
      n = (m - d.dataQueue.length - d.currentGlobalBufferPos).toNat := fun h₀ => by
    rw [C.toSize_of_nonneg h₀] at hsize
    exact (Option.some.inj hsize).symm
  simp only [readBufferForNextRun, hneeded, hsize] at h
  split_ifs at h with h₀ <;> cases h
  · refine ⟨rfl, rfl, fun x hx => (hmax x hx).trans ?_⟩
    simp only
    omega
  · refine ⟨rfl, rfl, fun x hx => (hmax x hx).trans ?_⟩
    simp only [List.length_append]
    omega

/-- **No worker is executed only after a short read.**  There, `n` data points
    were asked for, and some worker waits for data that is not yet freed. -/
theorem length_lt_of_false {n : ℕ} (hn : d.dataPointsNeededForNextRun.bind C.toSize = some n)
    (h : Returns (fun k => loopWorkersOnce C W pop k (d, q)) dq' false)
    (hwaits : ∃ x ∈ d.slots, d.currentGlobalBufferPos ≤ x.readInfos.nextReadLocation) :
    (pop q n).1.length < n := by
  by_contra hfull
  obtain ⟨x, hx, hpos⟩ := hwaits
  obtain ⟨d₁, ys, hread, hret, -⟩ := returns_loopWorkersOnce_cases h
  obtain ⟨hslots, hbuf, hend⟩ := le_readBufferForNextRun hn (not_lt.1 hfull) hread
  obtain ⟨x', hround⟩ := round_of_forEach_false hret (hslots ▸ hx)
  dsimp only at hbuf
  rw [hbuf] at hround
  exact (hend x hx).not_gt (lt_readEnd_of_stop hround hpos)

end

/-! ## No data is lost -/

/-- **The end of a stream.**  In a run of a producer and a consumer, the stream
    never ends while the consumer is overtaken iff every short read of
    `popDataPoints` has found the stream ended and the queue empty and none is
    about to do otherwise.  In such a run, if a pass of `loopWorkersOnce` reads by a
    call of `popDataPoints` that has returned, executes no worker although one
    waits for data to come, then from that return on the stream has ended and no
    unread data point is left. -/
theorem end_of_stream_iff (maxSize : ℕ) {s : System Party α}
    {tr : List (System Party α × Action Party α × System Party α)}
    (hrun : Run StreamSteps { queue := { queueMaxSize := maxSize } } tr s) :
    ((∀ x ∈ tr, InTime x.1 x.2.1) ↔
      (∀ x ∈ tr, LosesNothing x.1 x.2.1 x.2.2) ∧ ¬ AboutToLose s) ∧
    ((∀ x ∈ tr, InTime x.1 x.2.1) → ∀ x ∈ tr, ∀ n xs, PopReturns x.1 x.2.1 x.2.2 n xs →
      ∀ {S : Type} (C : CppInt) (W : DataStreamWorker α S) (d d' : DataStreamDistributor α S),
        d.dataPointsNeededForNextRun.bind C.toSize = some n →
        Loop.Returns
          (fun k => DataStreamDistributor.loopWorkersOnce C W (fun _ _ => (xs, ())) k (d, ()))
          (d', ()) false →
        (∃ y ∈ d.slots, d.currentGlobalBufferPos ≤ y.readInfos.nextReadLocation) →
        Drained s.queue) := by
  refine ⟨inTime_iff hrun, fun h x hx n xs hpop S C W d d' hn hret hwaits => ?_⟩
  refine drained_of_mem hrun x hx (((inTime_iff hrun).1 h).1 x hx n xs hpop ?_)
  have hlt := length_lt_of_false hn hret hwaits
  exact hlt

/-- The producer adds a data point and ends the stream after the consumer has
    emptied the queue: the consumer leaves the data point in the queue. -/
theorem end_of_stream_loses :
    ∃ tr s, Run StreamSteps ({} : System Party ℕ) tr s ∧
      ¬ ∀ x ∈ tr, LosesNothing x.1 x.2.1 x.2.2 := by
  obtain ⟨s, hs, s', hstep, ht, ht', hleft⟩ : ∃ s, List.foldlM streamStep ({} : System Party ℕ)
      [.call .consumer (.popDataPoints [0, 0]), .call .producer (.addDataPoints [1]),
        .test .producer, .locked .producer, .test .producer, .locked .consumer,
        .call .producer (.addDataPoints [2]), .test .producer, .locked .producer, .test .producer,
        .notifyStreamEnd] = some s ∧
      ∃ s', streamStep s (.test .consumer) = some s' ∧
        s.threads .consumer = .popDataPointsTest [0, 0] [1, 0] 1 ∧
        s'.threads .consumer = .idle ∧ s'.queue.dataQueue = [2] :=
    ⟨_, rfl, _, rfl, rfl, rfl, rfl⟩
  refine ⟨_, s', (Run.trace hs).snoc hstep, fun h => ?_⟩
  have hloses := h _ (List.mem_append_right _ (List.mem_singleton.2 rfl)) 2 [1]
    ⟨rfl, ht', _, _, _, ht, rfl, rfl⟩ (by decide)
  rw [hloses.2] at hleft
  cases hleft

/-- A worker that waits for two data points, of which the stream has one. -/
theorem end_of_stream_iff_short :
    ∃ tr s, Run StreamSteps ({} : System Party ℕ) tr s ∧
      ((∀ x ∈ tr, InTime x.1 x.2.1) ↔
        (∀ x ∈ tr, LosesNothing x.1 x.2.1 x.2.2) ∧ ¬ AboutToLose s) ∧
      Drained s.queue := by
  obtain ⟨s, hs, s₁, h₁, s₂, h₂, s₃, h₃, ht, ht₂, ht₃⟩ : ∃ s, List.foldlM streamStep
      ({} : System Party ℕ) [.call .consumer (.popDataPoints [0, 0]),
        .call .producer (.addDataPoints [1]), .test .producer, .locked .producer,
        .test .producer] = some s ∧
      ∃ s₁, streamStep s .notifyStreamEnd = some s₁ ∧
      ∃ s₂, streamStep s₁ (.locked .consumer) = some s₂ ∧
      ∃ s₃, streamStep s₂ (.test .consumer) = some s₃ ∧
        s.threads .consumer = .popDataPoints [0, 0] [0, 0] 0 ∧
        s₂.threads .consumer = .popDataPointsTest [0, 0] [1, 0] 1 ∧ s₃.threads .consumer = .idle :=
    ⟨_, rfl, _, rfl, _, rfl, _, rfl, rfl, rfl, rfl⟩
  have hrun := (((Run.trace hs).snoc h₁).snoc h₂).snoc h₃
  obtain ⟨hiff, hdrained⟩ := end_of_stream_iff 4096 hrun
  refine ⟨_, s₃, hrun, hiff, hdrained ?_ _ (List.mem_append_right _ (List.mem_singleton.2 rfl)) 2
    [1] ⟨rfl, ht₃, _, _, _, ht₂, rfl, rfl⟩ CppInt.wrapping (fun (u : Unit) _ _ => .ok u ⟨0, 2, 0⟩)
    ⟨[⟨(), ⟨0, 2, 0⟩⟩], 0, []⟩ ⟨[⟨(), ⟨0, 2, 0⟩⟩], 0, [1]⟩ (by decide) ⟨3, rfl⟩
    ⟨_, .head _, le_rfl⟩⟩
  -- only the step after the calls of the producer ends the stream
  simp only [List.mem_append, List.mem_singleton, or_imp, forall_and, forall_eq]
  refine ⟨⟨⟨fun x hx ha => ?_, ?_⟩, by rintro ⟨⟩⟩, by rintro ⟨⟩⟩
  · have hmem := action_mem_of_mem_trace hx
    rw [ha] at hmem
    simp at hmem
  · rintro - ⟨_, _, _, ht', -⟩
    rw [ht] at ht'
    cases ht'

end SmartScreen.AsyncDataQueue
