/-
  The converter of BLUED files (`BluedHdf5Converter::writeData`).

  It pops data points from the queue of a `BluedInputSource`, and writes what it gets
  behind what it has written, until a read is empty.  Its thread is the consumer of a
  stream (`StreamSteps`).

  * A read may be short although data is left (`Overtaken`), but it is not empty:
    `locked_pop` finds the stream ended and the queue empty then.
  * `Inv.conserved`: what has been added is what is written, what the current read has
    got, what the queue holds, and what the producer has still to insert.
  * `writeData_writes_stream`: when `writeData` returns, everything is written.
-/
import SmartScreen.Detector.DataPoint
import SmartScreen.Queue.Roles

namespace SmartScreen

open LTS AsyncDataQueue

/-- The local variables of `writeData`, and the rows of the data set; `written` records
    the rows that were written, with their offsets. -/
structure BluedHdf5Converter (F : Type) where
  buffer : List (BluedDataPoint F)
  offset : ℕ := 0
  dataset : List (BluedDataPoint F) := []
  written : List (ℕ × List (BluedDataPoint F)) := []
  returned : Bool := false

namespace BluedHdf5Converter

variable {F : Type}

def bufferSize : ℕ := 1000

section
variable [Zero F]

/-- `DataSet::extend`: new rows are zero. -/
def extend (size : ℕ) (rows : List (BluedDataPoint F)) : List (BluedDataPoint F) :=
  rows ++ List.replicate (size - rows.length) ⟨0, 0, 0, 0⟩

/-- What `writeData` does with a read that has brought `begin` data points. -/
def processRead (c : BluedHdf5Converter F) (range : List (BluedDataPoint F)) (begin : ℕ) :
    Except Fault (BluedHdf5Converter F) :=
  let bufferLen := begin
  let c := { c with buffer := range }
  if bufferLen = 0 then .ok { c with returned := true }
  else
    let dataset := extend (c.offset + bufferLen) c.dataset
    if c.offset + bufferLen ≤ dataset.length then
      .ok { c with
        dataset := copyN range bufferLen dataset c.offset
        written := c.written ++ [(c.offset, range.take bufferLen)]
        offset := c.offset + bufferLen }
    else .error .exception

/-! ## The run of a conversion -/

/-- The queue, the converter, and the ranges that the producer has passed to
    `addDataPoints`. -/
structure Conversion (F : Type) where
  system : System Party (BluedDataPoint F)
  converter : BluedHdf5Converter F
  added : List (List (BluedDataPoint F)) := []

/-- The converter calls `popDataPoints`, or there is a step at the queue. -/
inductive Action (F : Type) where
  | pop
  | queue (a : AsyncDataQueue.Action Party (BluedDataPoint F))

/-- When `popDataPoints` returns, the converter goes on with what it has read. -/
def step (s : Conversion F) : Action F → Option (Conversion F)
  | .pop =>
    if s.converter.returned then none
    else (streamStep s.system (.call .consumer (.popDataPoints s.converter.buffer))).map
      fun system => { s with system }
  | .queue (.call .consumer _) => none
  | .queue (.call .producer (.addDataPoints range)) =>
    (streamStep s.system (.call .producer (.addDataPoints range))).map fun system =>
      { s with system, added := s.added ++ [range] }
  | .queue (.test .consumer) =>
    (streamStep s.system (.test .consumer)).bind fun system =>
      match s.system.threads .consumer, system.threads .consumer with
      | .popDataPointsTest _ range begin, .idle =>
        match s.converter.processRead range begin with
        | .ok converter => some { s with system, converter }
        | .error _ => none
      | _, _ => some { s with system }
  | .queue a => (streamStep s.system a).map fun system => { s with system }

/-- The steps as a relation. -/
def Steps (s : Conversion F) (a : Action F) (s' : Conversion F) : Prop := step s a = some s'

/-- `createNewDataSpace` has created an empty data set. -/
def start (maxSize : ℕ) : Conversion F where
  system := { queue := { queueMaxSize := maxSize } }
  converter := { buffer := List.replicate bufferSize ⟨0, 0, 0, 0⟩ }

end

/-! ## Reads -/

section
variable {α : Type}

/-- What the current read has got. -/
def received : Thread α → List α
  | .popDataPoints _ range begin | .popDataPointsTest _ range begin => range.take begin
  | _ => []

/-- The thread is in no call, or it reads into a range of `n` data points. -/
def Pops (n : ℕ) : Thread α → Prop
  | .idle => True
  | .popDataPoints _ range begin | .popDataPointsTest _ range begin =>
    range.length = n ∧ begin ≤ n
  | _ => False

/-- A section moves data points from the queue into the range.  If it leaves the range
    empty, the stream has ended. -/
theorem locked_pop {q : AsyncDataQueue α} {given range : List α} {begin n : ℕ} {e : Effect α}
    (he : Thread.locked q (.popDataPoints given range begin) = some e) (hlen : range.length = n)
    (hb : begin ≤ n) :
    ∃ range' begin', e.thread = .popDataPointsTest given range' begin' ∧ range'.length = n ∧
      begin' ≤ n ∧ range'.take begin' ++ e.queue.dataQueue = range.take begin ++ q.dataQueue ∧
      (begin' = 0 → 0 < n → Drained e.queue) := by
  subst hlen
  simp only [Thread.locked] at he
  split_ifs at he with hnotEmpty
  cases he
  have hsource : min (range.length - begin) q.dataQueue.length ≤ q.dataQueue.length :=
    min_le_right _ _
  have hroom : min (range.length - begin) q.dataQueue.length ≤ range.length - begin :=
    min_le_left _ _
  have htaken : (q.dataQueue.take (min (range.length - begin) q.dataQueue.length)).length =
      min (range.length - begin) q.dataQueue.length := by
    rw [List.length_take, min_eq_left hsource]
  have hbegin : (range.take begin).length = begin := by rw [List.length_take, min_eq_left hb]
  refine ⟨_, _, rfl, ?_, by omega, ?_, ?_⟩
  · rw [copyN, List.length_append, List.length_append, hbegin, htaken, List.length_drop]
    omega
  · rw [copyN, List.take_left' (by rw [List.length_append, hbegin, htaken]),
      removePointsFromQueue_eq, List.append_assoc, List.take_append_drop]
  · intro hzero hpos
    have hnil : q.dataQueue = [] := by
      rw [← List.length_eq_zero_iff]
      omega
    rw [removePointsFromQueue_eq]
    refine ⟨?_, by rw [hnil, List.drop_nil]⟩
    simpa [notEmpty, hnil] using hnotEmpty

end

/-! ## Writing -/

/-- The slabs lie one behind the other. -/
def Consecutive {α : Type} (written : List (ℕ × List α)) : Prop :=
  ∀ i x, written[i]? = some x → x.1 = ((written.take i).map Prod.snd).flatten.length

theorem Consecutive.snoc {α : Type} {written : List (ℕ × List α)} (h : Consecutive written)
    {x : ℕ × List α} (hx : x.1 = (written.map Prod.snd).flatten.length) :
    Consecutive (written ++ [x]) := by
  intro i y hy
  rcases lt_trichotomy i written.length with hi | rfl | hi
  · rw [List.getElem?_append_left hi] at hy
    rw [List.take_append_of_le_length hi.le]
    exact h i y hy
  · rw [List.getElem?_concat_length] at hy
    cases hy
    rw [List.take_left, hx]
  · rw [List.getElem?_eq_none (by simpa using hi)] at hy
    cases hy

section
variable [Zero F]

/-- What has been written, if nothing else is in the data set. -/
structure Written (c : BluedHdf5Converter F) : Prop where
  offset : c.offset = c.dataset.length
  dataset : c.dataset = (c.written.map Prod.snd).flatten
  consecutive : Consecutive c.written

/-- **A read is written behind what is there**; an empty one ends the loop. -/
theorem Written.processRead {c : BluedHdf5Converter F} (h : Written c)
    {range : List (BluedDataPoint F)} {begin : ℕ} (hb : begin ≤ range.length) :
    ∃ c', c.processRead range begin = .ok c' ∧ Written c' ∧ c'.buffer = range ∧
      c'.dataset = c.dataset ++ range.take begin ∧
      (c'.returned = true → c.returned = true ∨ begin = 0) := by
  rw [BluedHdf5Converter.processRead]
  dsimp only
  by_cases hzero : begin = 0
  · subst hzero
    refine ⟨_, if_pos rfl, ⟨h.offset, h.dataset, h.consecutive⟩, rfl, ?_, fun _ => .inr rfl⟩
    simp
  · have hlen : (extend (c.offset + begin) c.dataset).length = c.offset + begin := by
      rw [extend, List.length_append, List.length_replicate, h.offset]
      omega
    have hrows : copyN range begin (extend (c.offset + begin) c.dataset) c.offset =
        c.dataset ++ range.take begin := by
      rw [copyN, List.drop_of_length_le hlen.le, List.append_nil, extend, h.offset, List.take_left]
    have htake : (range.take begin).length = begin := by rw [List.length_take, min_eq_left hb]
    rw [if_neg hzero, if_pos hlen.ge, hrows]
    refine ⟨_, rfl, ⟨?_, ?_, ?_⟩, rfl, rfl, .inl⟩
    · rw [List.length_append, htake, h.offset]
    · rw [List.map_append, List.flatten_append, ← h.dataset]
      simp
    · refine h.consecutive.snoc ?_
      rw [← h.dataset]
      exact h.offset

/-! ## The invariant -/

/-- What holds during a conversion. -/
structure Inv (s : Conversion F) : Prop where
  stream : StreamInv s.system
  written : Written s.converter
  buffer : s.converter.buffer.length = bufferSize
  producer : Adds (s.system.threads .producer)
  consumer : Pops bufferSize (s.system.threads .consumer)
  /-- nothing is lost on the way to the data set -/
  conserved : s.added.flatten = s.converter.dataset ++ received (s.system.threads .consumer) ++
    s.system.queue.dataQueue ++ pending (s.system.threads .producer)
  /-- a read without data points is one at the end of the stream -/
  emptyRead : ∀ given range, s.system.threads .consumer = .popDataPointsTest given range 0 →
    Drained s.system.queue
  returned : s.converter.returned = true →
    s.system.threads .consumer = .idle ∧ Drained s.system.queue

variable {s s' : Conversion F}

theorem inv_start (maxSize : ℕ) : Inv (start maxSize : Conversion F) where
  stream := streamInv_start maxSize
  written := ⟨rfl, rfl, by rintro i x ⟨⟩⟩
  buffer := List.length_replicate
  producer := trivial
  consumer := trivial
  conserved := rfl
  emptyRead := by rintro _ _ ⟨⟩
  returned := by rintro ⟨⟩

theorem Inv.pop (h : Inv s) (hs : Steps s .pop s') : Inv s' := by
  simp only [Steps, step] at hs
  split_ifs at hs with hret
  obtain ⟨system, hstep, rfl⟩ := Option.map_eq_some_iff.1 hs
  have hstream := h.stream.step hstep
  have hraw := (streamSteps_iff.1 hstep).1
  simp only [System.Steps, System.step] at hraw
  split at hraw <;> cases hraw
  rename_i hidle
  have hconserved := h.conserved
  rw [hidle] at hconserved
  exact {
    stream := hstream
    written := h.written
    buffer := h.buffer
    producer := h.producer
    consumer := ⟨h.buffer, Nat.zero_le _⟩
    conserved := hconserved
    emptyRead := by rintro _ _ ⟨⟩
    returned := fun hret' => absurd hret' hret }

theorem Inv.add {range : List (BluedDataPoint F)} (h : Inv s)
    (hs : Steps s (.queue (.call .producer (.addDataPoints range))) s') : Inv s' := by
  obtain ⟨system, hstep, rfl⟩ := Option.map_eq_some_iff.1 hs
  have hstream := h.stream.step hstep
  have hraw := (streamSteps_iff.1 hstep).1
  simp only [System.Steps, System.step] at hraw
  split at hraw <;> cases hraw
  rename_i hidle
  have hconserved := h.conserved
  rw [hidle, pending_idle, List.append_nil] at hconserved
  refine ⟨hstream, h.written, h.buffer, trivial, h.consumer, ?_, h.emptyRead, h.returned⟩
  rw [List.flatten_append, hconserved]
  simp [pending, Thread.start]

omit [Zero F] in
/-- A test or a section of the producer. -/
theorem Inv.produce {e : Effect (BluedDataPoint F)} (h : Inv s)
    (hstream : StreamInv (s.system.apply .producer e))
    (he : Thread.test s.system.queue (s.system.threads .producer) = some e ∨
      Thread.locked s.system.queue (s.system.threads .producer) = some e) :
    Inv { s with system := s.system.apply .producer e } := by
  have hbusy : s.system.threads .producer ≠ .idle := by
    intro hidle
    rw [hidle] at he
    rcases he with he | he <;> cases he
  have hrunning := h.stream.not_ended hbusy
  obtain ⟨hadds, hpending, hqueue, -⟩ := h.producer.effect hrunning he
  have hdrained : ¬ Drained s.system.queue := fun hd => by simp [hd.1] at hrunning
  refine ⟨hstream, h.written, h.buffer, ?_, ?_, ?_, ?_, ?_⟩
  · simpa [System.apply] using hadds
  · simpa [System.apply] using h.consumer
  · simp only [System.apply, Function.update_self, hqueue]
    rw [h.conserved, ← hpending]
    simp
  · intro given range ht
    exact absurd (h.emptyRead given range (by simpa [System.apply] using ht)) hdrained
  · exact fun hret => absurd (h.returned hret).2 hdrained

omit [Zero F] in
/-- A section of the consumer. -/
theorem Inv.pull {e : Effect (BluedDataPoint F)} (h : Inv s)
    (hstream : StreamInv (s.system.apply .consumer e))
    (he : Thread.locked s.system.queue (s.system.threads .consumer) = some e) :
    Inv { s with system := s.system.apply .consumer e } := by
  have hconserved := h.conserved
  have hconsumer := h.consumer
  have hreturned := h.returned
  cases ht : s.system.threads .consumer with
  | popDataPoints given range begin =>
    rw [ht] at he hconserved hconsumer hreturned
    obtain ⟨range', begin', hthread, hlen', hb', hmoved, hempty⟩ :=
      locked_pop he hconsumer.1 hconsumer.2
    refine ⟨hstream, h.written, h.buffer, ?_, ?_, ?_, ?_, ?_⟩
    · simpa [System.apply] using h.producer
    · simp only [System.apply, Function.update_self, hthread]
      exact ⟨hlen', hb'⟩
    · simp only [System.apply, Function.update_self, hthread, received]
      rw [hconserved, received, List.append_assoc s.converter.dataset (range.take begin), ← hmoved]
      simp
    · intro given' range'' hthread'
      simp only [System.apply, Function.update_self, hthread] at hthread'
      cases hthread'
      exact hempty rfl (by decide)
    · intro hret
      cases (hreturned hret).1
  | idle | popDataPointsTest => rw [ht] at he; cases he
  | _ => rw [ht] at hconsumer; cases hconsumer

/-- A test of the consumer: it goes on reading, or the converter writes what it has
    read. -/
theorem Inv.test (h : Inv s) (hs : Steps s (.queue (.test .consumer)) s') : Inv s' := by
  obtain ⟨system, hstep, hs⟩ := Option.bind_eq_some_iff.1 hs
  have hstream := h.stream.step hstep
  obtain ⟨e, he, rfl⟩ := Option.map_eq_some_iff.1 (streamSteps_iff.1 hstep).1
  have hconserved := h.conserved
  have hconsumer := h.consumer
  have hreturned := h.returned
  have hproducer : (s.system.apply .consumer e).threads .producer = s.system.threads .producer := by
    simp [System.apply]
  have hthread : (s.system.apply .consumer e).threads .consumer = e.thread := by
    simp [System.apply]
  have hqueue : (s.system.apply .consumer e).queue = e.queue := rfl
  cases ht : s.system.threads .consumer with
  | popDataPointsTest given range begin =>
    rw [ht] at he hconserved hconsumer hreturned
    obtain ⟨hlen, hb⟩ := hconsumer
    simp only [Thread.test] at he
    split_ifs at he with hagain <;> cases he
    · -- it reads on
      simp only [ht, hthread, Option.some.injEq] at hs
      subst hs
      refine ⟨hstream, h.written, h.buffer, ?_, ?_, ?_, ?_, ?_⟩
      · rw [hproducer]
        exact h.producer
      · rw [hthread]
        exact ⟨hlen, hb⟩
      · rw [hproducer, hthread]
        exact hconserved
      · intro given' range' hthread'
        rw [hthread] at hthread'
        cases hthread'
      · intro hret
        cases (hreturned hret).1
    · -- `popDataPoints` returns
      have hbegin : begin ≤ range.length := hlen ▸ hb
      obtain ⟨c, hc, hwritten, hbuffer, hdataset, hdone⟩ := h.written.processRead hbegin
      simp only [ht, hthread, hc, Option.some.injEq] at hs
      subst hs
      refine ⟨hstream, hwritten, hbuffer ▸ hlen, ?_, ?_, ?_, ?_, ?_⟩
      · rw [hproducer]
        exact h.producer
      · rw [hthread]
        trivial
      · rw [hproducer, hthread, hdataset, hconserved]
        simp [received, hqueue]
      · intro given' range' hthread'
        rw [hthread] at hthread'
        cases hthread'
      · intro hret
        rcases hdone hret with hret | rfl
        · cases (hreturned hret).1
        · exact ⟨hthread, h.emptyRead given range ht⟩
  | idle | popDataPoints => rw [ht] at he; cases he
  | _ => rw [ht] at hconsumer; cases hconsumer

theorem Inv.step {a : Action F} (h : Inv s) (hs : Steps s a s') : Inv s' := by
  cases a with
  | pop => exact h.pop hs
  | queue a =>
    cases a with
    | call i op =>
      cases i with
      | consumer => cases hs
      | producer =>
        cases op with
        | addDataPoints range => exact h.add hs
        | _ => cases hs
    | test i =>
      cases i with
      | consumer => exact h.test hs
      | producer =>
        obtain ⟨system, hstep, rfl⟩ := Option.map_eq_some_iff.1 hs
        have hstream := h.stream.step hstep
        obtain ⟨e, he, rfl⟩ := Option.map_eq_some_iff.1 (streamSteps_iff.1 hstep).1
        exact h.produce hstream (.inl he)
    | locked i =>
      obtain ⟨system, hstep, rfl⟩ := Option.map_eq_some_iff.1 hs
      have hstream := h.stream.step hstep
      obtain ⟨e, he, rfl⟩ := Option.map_eq_some_iff.1 (streamSteps_iff.1 hstep).1
      cases i with
      | consumer => exact h.pull hstream he
      | producer => exact h.produce hstream (.inr he)
    | notifyStreamEnd =>
      obtain ⟨system, hstep, rfl⟩ := Option.map_eq_some_iff.1 hs
      have hstream := h.stream.step hstep
      cases (streamSteps_iff.1 hstep).1
      refine ⟨hstream, h.written, h.buffer, h.producer, h.consumer, h.conserved, ?_, ?_⟩
      · exact fun given range ht => ⟨rfl, (h.emptyRead given range ht).2⟩
      · exact fun hret => ⟨(h.returned hret).1, rfl, (h.returned hret).2.2⟩
    | setQueueMaxSize | restartStreaming | discardRestOfStream => cases hs

end

/-- **The converter writes the whole stream.**  In every run in which a producer adds
    ranges and then ends the stream: when `writeData` has returned, the rows of the data
    set are the data points that were added, and they have been written in slabs one
    behind the other. -/
theorem writeData_writes_stream [Zero F] (maxSize : ℕ) {s : Conversion F}
    {tr : List (Conversion F × Action F × Conversion F)} (hrun : Run Steps (start maxSize) tr s)
    (hreturned : s.converter.returned = true) :
    s.converter.dataset = s.added.flatten ∧
      (s.converter.written.map Prod.snd).flatten = s.added.flatten ∧
      Consecutive s.converter.written := by
  have h : Inv s := hrun.inv (inv_start maxSize) fun _ _ hs h => h.step hs
  obtain ⟨hidle, hended, hnil⟩ := h.returned hreturned
  have hdataset : s.converter.dataset = s.added.flatten := by
    rw [h.conserved, hidle, hnil, h.stream.ended hended]
    simp [received]
  exact ⟨hdataset, by rw [← hdataset, ← h.written.dataset], h.written.consecutive⟩

set_option maxRecDepth 20000 in
/-- A stream of two data points.  The first read is short, since the stream ends before it
    is tested, although the second data point is in the queue: they are written as two
    slabs. -/
theorem writeData_writes_stream_two :
    ∃ tr s, Run Steps (start 1 : Conversion ℚ) tr s ∧
      s.added = [[⟨0, 1, 2, 3⟩, ⟨1, 4, 5, 6⟩]] ∧
      s.converter.written = [(0, [⟨0, 1, 2, 3⟩]), (1, [⟨1, 4, 5, 6⟩])] ∧
      s.converter.dataset = [⟨0, 1, 2, 3⟩, ⟨1, 4, 5, 6⟩] ∧ Consecutive s.converter.written := by
  obtain ⟨s, hs, hadded, hwritten, hreturned⟩ : ∃ s, List.foldlM step (start 1 : Conversion ℚ)
      [.pop, .queue (.call .producer (.addDataPoints [⟨0, 1, 2, 3⟩, ⟨1, 4, 5, 6⟩])),
        .queue (.test .producer), .queue (.locked .producer), .queue (.test .producer),
        .queue (.locked .consumer), .queue (.locked .producer), .queue (.test .producer),
        .queue .notifyStreamEnd, .queue (.test .consumer), .pop, .queue (.locked .consumer),
        .queue (.test .consumer), .pop, .queue (.locked .consumer),
        .queue (.test .consumer)] = some s ∧
      s.added = [[⟨0, 1, 2, 3⟩, ⟨1, 4, 5, 6⟩]] ∧
      s.converter.written = [(0, [⟨0, 1, 2, 3⟩]), (1, [⟨1, 4, 5, 6⟩])] ∧
      s.converter.returned = true := ⟨_, rfl, rfl, rfl, rfl⟩
  obtain ⟨hdataset, -, hconsecutive⟩ := writeData_writes_stream 1 (Run.trace hs) hreturned
  refine ⟨_, s, Run.trace hs, hadded, hwritten, ?_, hconsecutive⟩
  rw [hdataset, hadded]
  rfl

end BluedHdf5Converter

end SmartScreen
