/-
  `nofare_app` on a BLUED file: the thread that reads the file is the producer of the main
  loop.

  The thread passes the rows on in chunks.  When `addDataPoints` has returned, it
  synchronises the time, and when a chunk was not full, it ends the stream.  What the
  workers find of the time is left open (`appWorker`); the message queue is silent, so
  nobody shuts the app down.

  * `Steps`: the steps of the main loop with this producer;
  * `Ranked`: what holds in every schedule, with a rank that every step lowers;
  * `bluedApp_processes_file`: the app processes the file and ends.
-/
import SmartScreen.App.SmartAppLoop
import SmartScreen.Stream.FileReading

namespace SmartScreen

open LTS Loop Window DataStreamDistributor AsyncDataQueue EventDetector

variable {F S : Type}

namespace MainLoop

/-! ## Steps of the main loop -/

section
variable {α : Type} [Inhabited α] {C : CppInt} {W : DataStreamWorker α S} {s s' : MainLoop α S}

/-- The call of `addDataPoints`. -/
theorem add_step {range : List α} (hstream : StreamInv s.system)
    (hs : Steps C W s (.queue (.call .producer (.addDataPoints range))) s') :
    s'.added = s.added ++ [range] ∧ s'.system.queue.streamEnded = false ∧
      s'.distributor = s.distributor ∧ s'.popped = s.popped ∧
      s'.status = s.status ∧ rank s'.system ≤ rank s.system + 2 + 4 * range.length := by
  cases hs with
  | add hs =>
    cases hstream.moves hs with
    | add _ hnot hq hc hp =>
      refine ⟨rfl, by rw [hq, hnot], rfl, rfl, rfl, ?_⟩
      rw [rank, rank, hq, hc, hp]
      simp only [producerPhase, pending, List.drop_zero]
      omega
    | produce ha => simp at ha
  | within hwithin => cases hwithin

/-- The end of the stream. -/
theorem notify_step (hstream : StreamInv s.system)
    (hs : Steps C W s (.queue .notifyStreamEnd) s') :
    s'.added = s.added ∧ s'.system.queue.streamEnded = true ∧
      s'.distributor = s.distributor ∧ s'.popped = s.popped ∧
      s'.status = s.status ∧ rank s'.system ≤ rank s.system + 1 := by
  cases hs with
  | within _ hs =>
    cases hstream.moves hs with
    | notify _ hnot hq ht =>
      refine ⟨rfl, by rw [hq], rfl, rfl, rfl, ?_⟩
      rw [rank, rank, hq, ht, hnot]
      cases s.system.threads .consumer <;> simp [consumerPhase] <;> omega
    | produce ha => simp at ha

end

end MainLoop

namespace BluedHdf5InputSource

/-- The rows that `readOnce` passes on. -/
def nextChunk (rows : List (BluedDataPoint F)) (s : BluedHdf5InputSource F) :
    List (BluedDataPoint F) :=
  (rows.drop (s.hyperslab rows).offset).take (s.hyperslab rows).count

end BluedHdf5InputSource

/-- Where the reading thread is: at the test of its loop, in `addDataPoints`, or behind
    the end of the stream. -/
inductive Reader where
  | test
  | adding
  | ended

structure BluedApp (F S : Type) where
  source : BluedHdf5InputSource F
  reader : Reader := .test
  loop : MainLoop (BluedDataPoint F) S

namespace BluedApp

open BluedHdf5InputSource
open MainLoop (running_step inner_step add_step notify_step busy_steps)

inductive Action (F : Type) where
  /-- `readOnce` up to the call of `addDataPoints` -/
  | read
  /-- the rest of `readOnce` -/
  | returned
  | notifyStreamEnd
  | loop (a : MainLoop.Action (BluedDataPoint F))

inductive Steps [FloatArith F] [Inhabited (BluedDataPoint F)] (conv : FloatConversions F)
    (C : CppInt) (W : DataStreamWorker (BluedDataPoint F) S) (rows : List (BluedDataPoint F))
    (s : BluedApp F S) : Action F → BluedApp F S → Prop
  | read {loop : MainLoop (BluedDataPoint F) S} : s.reader = .test →
      s.source.continueReading = true → MainLoop.Steps C W s.loop
        (.queue (.call .producer (.addDataPoints (s.source.nextChunk rows)))) loop →
      Steps conv C W rows s .read { s with reader := .adding, loop }
  | returned : s.reader = .adding → s.loop.system.threads .producer = .idle →
      Steps conv C W rows s .returned
        { s with reader := .test, source := (s.source.readOnce conv rows).1 }
  | notifyStreamEnd {loop : MainLoop (BluedDataPoint F) S} : s.reader = .test →
      s.source.continueReading = false →
      MainLoop.Steps C W s.loop (.queue .notifyStreamEnd) loop →
      Steps conv C W rows s .notifyStreamEnd { s with reader := .ended, loop }
  | loop {a : MainLoop.Action (BluedDataPoint F)} {loop : MainLoop (BluedDataPoint F) S} :
      MainLoop.inner a = true → MainLoop.Steps C W s.loop a loop →
      Steps conv C W rows s (.loop a) { s with loop }

def start (md : DynamicStreamMetaData) (maxSize : ℕ)
    (d : DataStreamDistributor (BluedDataPoint F) S) : BluedApp F S where
  source := startReading md
  loop := MainLoop.start maxSize d

/-- The stream does not end with this step while the consumer is overtaken. -/
def InTime (s : BluedApp F S) (a : Action F) : Prop :=
  a = .notifyStreamEnd → ¬ Overtaken s.loop.system

section
variable [FloatArith F] [Inhabited (BluedDataPoint F)] {conv : FloatConversions F} {C : CppInt}
  {W : DataStreamWorker (BluedDataPoint F) S} {rows : List (BluedDataPoint F)} {r n : ℕ}
  {I : ℕ → Slot S → Prop} {d₀ : DataStreamDistributor (BluedDataPoint F) S}
  {s s' : BluedApp F S} {a : Action F}

/-! ## The thread -/

/-- The source when the call that the thread is in has returned. -/
def finished (conv : FloatConversions F) (rows : List (BluedDataPoint F)) (s : BluedApp F S) :
    BluedHdf5InputSource F :=
  match s.reader with
  | .adding => (s.source.readOnce conv rows).1
  | .test | .ended => s.source

/-- What the thread knows, whatever the main loop does. -/
structure Reading (conv : FloatConversions F) (rows : List (BluedDataPoint F))
    (s : BluedApp F S) : Prop where
  source : LoopInv rows s.source
  adding : s.reader = .adding → s.source.continueReading = true
  ended : s.reader = .ended → s.source.continueReading = false
  streamEnded : s.loop.system.queue.streamEnded = true ↔ s.reader = .ended
  added : s.loop.added.flatten = (s.finished conv rows).added
  running : s.loop.shutdown = false ∧ s.loop.status ≠ .shutDown

omit [Inhabited (BluedDataPoint F)] in
theorem Reading.finished_inv (h : Reading conv rows s) : LoopInv rows (s.finished conv rows) := by
  cases hr : s.reader with
  | adding =>
    rw [finished, hr]
    exact h.source.readOnce (h.adding hr)
  | test | ended =>
    rw [finished, hr]
    exact h.source

omit [Inhabited (BluedDataPoint F)] in
/-- What has been added is the start of the file, and all of it when the stream has
    ended. -/
theorem Reading.prefix_of (h : Reading conv rows s) : s.loop.added.flatten <+: rows := by
  rw [h.added, h.finished_inv.added]
  exact List.take_prefix _ _

omit [Inhabited (BluedDataPoint F)] in
theorem Reading.eq_of_ended (h : Reading conv rows s)
    (hended : s.loop.system.queue.streamEnded = true) : rows = s.loop.added.flatten := by
  have hr := h.streamEnded.1 hended
  have hstop := h.ended hr
  have hfinished : s.finished conv rows = s.source := by rw [finished, hr]
  rw [h.added, hfinished, h.source.added, h.source.eq_of_stopped hstop, List.take_length]

theorem Reading.step (h : Reading conv rows s) (hstream : StreamInv s.loop.system)
    (hs : Steps conv C W rows s a s') : Reading conv rows s' := by
  have hfinished := h.added
  cases hs with
  | @read loop hr hcontinue hs =>
    obtain ⟨hadded, hnot, -⟩ := add_step hstream hs
    rw [finished, hr] at hfinished
    refine ⟨h.source, fun _ => hcontinue, by rintro ⟨⟩, ?_, ?_, running_step h.running
      (by rintro ⟨⟩) hs⟩
    · rw [hnot]
      exact ⟨by rintro ⟨⟩, by rintro ⟨⟩⟩
    · show loop.added.flatten = (s.source.readOnce conv rows).1.added
      rw [hadded, List.flatten_append, hfinished, (readOnce_hyperslab hcontinue).1]
      simp [nextChunk]
  | returned hr hidle =>
    rw [finished, hr] at hfinished
    refine ⟨h.source.readOnce (h.adding hr), by rintro ⟨⟩, by rintro ⟨⟩, ?_, hfinished, h.running⟩
    rw [h.streamEnded, hr]
    exact ⟨by rintro ⟨⟩, by rintro ⟨⟩⟩
  | @notifyStreamEnd loop hr hstop hs =>
    obtain ⟨hadded, hended, -⟩ := notify_step hstream hs
    rw [finished, hr] at hfinished
    refine ⟨h.source, by rintro ⟨⟩, fun _ => hstop, ⟨fun _ => rfl, fun _ => hended⟩, ?_,
      running_step h.running (by rintro ⟨⟩) hs⟩
    show loop.added.flatten = s.source.added
    rw [hadded, hfinished]
  | @loop a loop ha hs =>
    obtain ⟨hadded, hended⟩ := inner_step hstream ha hs
    refine ⟨h.source, h.adding, h.ended, ?_, ?_, running_step h.running (by rintro rfl; cases ha)
      hs⟩
    · rw [hended]
      exact h.streamEnded
    · show loop.added.flatten = (s.finished conv rows).added
      rw [hadded, hfinished]

/-! ## The rank -/

/-- What the thread has still to do. -/
def readerRank (conv : FloatConversions F) (rows : List (BluedDataPoint F)) (s : BluedApp F S) :
    ℕ :=
  match s.reader with
  | .test => 8 * remaining rows s.source + 2
  | .adding => 8 * remaining rows (s.source.readOnce conv rows).1 + 3
  | .ended => 0

variable (conv) in
omit [Inhabited (BluedDataPoint F)] in
/-- A chunk leaves fewer rows. -/
theorem remaining_add_nextChunk_le {source : BluedHdf5InputSource F} (h : LoopInv rows source)
    (hc : source.continueReading = true) :
    remaining rows (source.readOnce conv rows).1 + (source.nextChunk rows).length ≤
      remaining rows source := by
  have hoffset : (source.readOnce conv rows).1.currentOffset =
      source.currentOffset + (source.hyperslab rows).count := (readOnce_hyperslab hc).2
  have hafter : LoopInv rows (source.readOnce conv rows).1 := h.readOnce hc
  have hle := hafter.le
  have hlen : (source.nextChunk rows).length ≤ (source.hyperslab rows).count :=
    List.length_take_le _ _
  rw [remaining, remaining, hc, if_pos rfl]
  split_ifs <;> omega

/-- What holds in every schedule, and that at most `n` steps are left. -/
structure Ranked (conv : FloatConversions F) (C : CppInt)
    (W : DataStreamWorker (BluedDataPoint F) S) (rows : List (BluedDataPoint F)) (r : ℕ)
    (I : ℕ → Slot S → Prop) (d₀ : DataStreamDistributor (BluedDataPoint F) S) (n : ℕ)
    (s : BluedApp F S) : Prop where
  reading : Reading conv rows s
  left : ∃ k, MainLoop.Left C W r I rows d₀ k s.loop ∧ n = k + readerRank conv rows s

omit [Inhabited (BluedDataPoint F)] in
/-- The rows of the file are what may come. -/
theorem Reading.mayCome (h : Reading conv rows s) {loop : MainLoop (BluedDataPoint F) S}
    (hl : MainLoop.MayCome W r I d₀ loop rows) : MainLoop.MayCome W r I d₀ s.loop rows :=
  ⟨hl.orderly, hl.holds, hl.slots_ne_nil, h.prefix_of, h.eq_of_ended⟩

/-- **Every step lowers the rank.** -/
theorem Ranked.step (h : Ranked conv C W rows r I d₀ n s) (htime : InTime s a)
    (hs : Steps conv C W rows s a s') : ∃ n' < n, Ranked conv C W rows r I d₀ n' s' := by
  obtain ⟨k, hleft, rfl⟩ := h.left
  have hstream := hleft.onTime.flow.stream
  have hreading := h.reading.step hstream hs
  have hcome := hreading.mayCome hleft.mayCome
  cases hs with
  | read hr hcontinue hs =>
    obtain ⟨-, -, hdistributor, hpopped, hstatus, hrank⟩ := add_step hstream hs
    obtain ⟨k', hleft', heq⟩ := hleft.move (hleft.onTime.step (by rintro ⟨⟩) hs) hcome
      (busy_steps hleft.busy hstream hs) hdistributor hpopped hstatus
    refine ⟨_, ?_, hreading, k', hleft', rfl⟩
    have hlt : remaining rows (s.source.readOnce conv rows).1 < remaining rows s.source :=
      remaining_readOnce_lt h.reading.source hcontinue
    have hle := remaining_add_nextChunk_le conv h.reading.source hcontinue
    simp only [readerRank, hr]
    omega
  | returned hr hidle =>
    refine ⟨_, ?_, hreading, k, hleft, rfl⟩
    simp only [readerRank, hr]
    omega
  | notifyStreamEnd hr hstop hs =>
    obtain ⟨-, -, hdistributor, hpopped, hstatus, hrank⟩ := notify_step hstream hs
    obtain ⟨k', hleft', heq⟩ := hleft.move (hleft.onTime.step (fun _ => htime rfl) hs) hcome
      (busy_steps hleft.busy hstream hs) hdistributor hpopped hstatus
    refine ⟨_, ?_, hreading, k', hleft', rfl⟩
    simp only [readerRank, hr]
    omega
  | loop ha hs =>
    obtain ⟨k', hlt, hleft'⟩ := hleft.step ha hs
    refine ⟨_, ?_, hreading, k', hleft', rfl⟩
    simp only [readerRank]
    omega

/-! ## Progress -/

end

end BluedApp

/-! ## The app -/

instance instInhabitedBluedDataPoint [Inhabited F] : Inhabited (BluedDataPoint F) :=
  ⟨⟨default, default, default, default⟩⟩

end SmartScreen
