/-
  The C interface (`NofareCInterface.cpp`): `addDataPoint` collects data points in a
  buffer and hands a full buffer to the data queue.

  The calls are made by one thread, on a stream that runs; they interleave with the
  other threads of the queue (`System`).

  * `Inv.inserted`: what is inserted are the first data points, as many as fill
    buffers.
  * `hands_on_iff`: they read back what was given, unless the setter and the getter
    of the voltage disagree, as those of `BluedDataPoint` do.
-/
import SmartScreen.Detector.DataPoint
import SmartScreen.Queue.Roles

namespace SmartScreen

open LTS AsyncDataQueue

variable {α F : Type}

/-! ## Data points that can be set -/

/-- The setters of a `DataPointType`, and its constructor. -/
class SettableDataPoint (α : Type) (F : outParam Type) extends DataPoint α F where
  create : α
  setVoltage : α → F → α
  setAmpere : α → F → α

instance [Zero F] : SettableDataPoint (DefaultDataPoint F) F where
  create := ⟨0, 0⟩
  setVoltage d v := { d with volts := v }
  setAmpere d a := { d with amps := a }

/-- The setter of the voltage does not negate. -/
instance [FloatArith F] : SettableDataPoint (BluedDataPoint F) F where
  create := ⟨0, 0, 0, 0⟩
  setVoltage d v := { d with voltageA := v }
  setAmpere d a := { d with currentB := a }

/-- The types that `Init.h` chooses from. -/
inductive ConfiguredDataPoint where
  | defaultDataPoint
  | bluedDataPoint

namespace ConfiguredDataPoint

def Carrier (F : Type) : ConfiguredDataPoint → Type
  | defaultDataPoint => DefaultDataPoint F
  | bluedDataPoint => BluedDataPoint F

instance [FloatArith F] : (t : ConfiguredDataPoint) → SettableDataPoint (t.Carrier F) F
  | defaultDataPoint => inferInstanceAs (SettableDataPoint (DefaultDataPoint F) F)
  | bluedDataPoint => inferInstanceAs (SettableDataPoint (BluedDataPoint F) F)

end ConfiguredDataPoint

/-! ## The interface -/

/-- The static variables of the interface. -/
structure NofareCInterface (α : Type) where
  buffer : List α
  bufferPos : ℕ := 0

namespace NofareCInterface

/-- `C_INTERFACE_BUFFER_SIZE` -/
def bufferSize : ℕ := 1000

section
variable [SettableDataPoint α F]

/-- The data point that a call creates. -/
def dataPoint (x : F × F) : α :=
  SettableDataPoint.setAmpere (SettableDataPoint.setVoltage (SettableDataPoint.create : α) x.1) x.2

/-- A call up to its call of `addDataPoints`, with the range that it passes on. -/
def addDataPoint (c : NofareCInterface α) (voltage ampere : F) :
    Except Fault (NofareCInterface α × Option (List α)) :=
  if c.bufferPos < c.buffer.length then
    let c := { buffer := c.buffer.set c.bufferPos (dataPoint (voltage, ampere))
               bufferPos := c.bufferPos + 1 }
    if bufferSize ≤ c.bufferPos then
      -- the position is reset behind the call, and not looked at before it has returned
      .ok ({ c with bufferPos := 0 }, some (c.buffer.take bufferSize))
    else .ok (c, none)
  else .error .undefined

/-- The interface when the program starts. -/
def start : NofareCInterface α := { buffer := List.replicate bufferSize SettableDataPoint.create }

end

/-! ## Runs -/

/-- The interface and the data queue; `calls` are the calls that have been made. -/
structure Client (α F : Type) where
  interface : NofareCInterface α
  system : System Party α
  calls : List (F × F) := []

inductive Action (α F : Type) where
  | addDataPoint (voltage ampere : F)
  | queue (a : AsyncDataQueue.Action Party α)

/-- What the other threads do, and the sections of the call of `addDataPoints`: the
    stream keeps running, and nobody else adds data points. -/
def allowed : AsyncDataQueue.Action Party α → Bool
  | .call .consumer op => takes op
  | .test _ | .locked _ | .setQueueMaxSize _ => true
  | _ => false

section
variable [SettableDataPoint α F]

/-- A call begins when the one before has returned. -/
def step (s : Client α F) : Action α F → Option (Client α F)
  | .addDataPoint voltage ampere =>
    match s.system.threads .producer, s.interface.addDataPoint voltage ampere with
    | .idle, .ok (c, none) =>
      some { s with interface := c, calls := s.calls ++ [(voltage, ampere)] }
    | .idle, .ok (c, some range) =>
      (s.system.step (.call .producer (.addDataPoints range))).map fun system =>
        ⟨c, system, s.calls ++ [(voltage, ampere)]⟩
    | _, _ => none
  | .queue a =>
    if allowed a then (s.system.step a).map fun system => { s with system } else none

/-- The steps as a relation. -/
def Steps (s : Client α F) (a : Action α F) (s' : Client α F) : Prop := step s a = some s'

/-- The client when the program starts. -/
def startClient (maxSize : ℕ) : Client α F where
  interface := start
  system := { queue := { queueMaxSize := maxSize } }

/-- The calls whose data points fill buffers. -/
def fullBuffers (calls : List (F × F)) : List (F × F) :=
  calls.take (calls.length - calls.length % bufferSize)

/-- What a data point reads back. -/
def readBack (d : α) : F × F := (DataPoint.voltage d, DataPoint.ampere d)

/-- What has been inserted reads back as what was given to the first calls, and the
    next write stays inside the buffer. -/
def HandsOn (s : Client α F) : Prop :=
  (Log.values s.system.inserted).map readBack = fullBuffers s.calls ∧
    s.interface.bufferPos < s.interface.buffer.length

end

/-! ## The buffer -/

/-- The buffer holds the last data points, which do not fill it. -/
structure Buffered [SettableDataPoint α F] (c : NofareCInterface α) (calls : List (F × F)) :
    Prop where
  length : c.buffer.length = bufferSize
  pos : c.bufferPos = calls.length % bufferSize
  points : (fullBuffers calls).map dataPoint ++ c.buffer.take c.bufferPos = calls.map dataPoint

section
variable [SettableDataPoint α F] {c : NofareCInterface α} {calls : List (F × F)}

theorem buffered_start : Buffered (start : NofareCInterface α) ([] : List (F × F)) :=
  ⟨List.length_replicate, rfl, rfl⟩

theorem Buffered.pos_lt (h : Buffered c calls) : c.bufferPos < c.buffer.length := by
  rw [h.length, h.pos]
  exact Nat.mod_lt _ (by decide)

theorem fullBuffers_snoc_of_lt {x : F × F} (h : calls.length % bufferSize + 1 < bufferSize) :
    fullBuffers (calls ++ [x]) = fullBuffers calls := by
  have hmod : (calls.length + 1) % bufferSize = calls.length % bufferSize + 1 := by
    rw [bufferSize] at h ⊢
    omega
  rw [fullBuffers, fullBuffers, List.length_append, List.length_singleton, hmod,
    List.take_append_of_le_length (by omega)]
  congr 1
  omega

theorem fullBuffers_snoc_of_eq {x : F × F} (h : calls.length % bufferSize + 1 = bufferSize) :
    fullBuffers (calls ++ [x]) = calls ++ [x] := by
  have hmod : (calls.length + 1) % bufferSize = 0 := by
    rw [bufferSize] at h ⊢
    omega
  rw [fullBuffers, List.length_append, List.length_singleton, hmod, Nat.sub_zero]
  exact List.take_of_length_le (by simp)

/-- **What a call does**: it fills the buffer and passes it on, or leaves it to be
    filled. -/
theorem Buffered.addDataPoint (h : Buffered c calls) (x : F × F) :
    ∃ c' range, c.addDataPoint x.1 x.2 = .ok (c', range) ∧ Buffered c' (calls ++ [x]) ∧
      (fullBuffers (calls ++ [x])).map (dataPoint : F × F → α) =
        (fullBuffers calls).map dataPoint ++ range.getD [] := by
  have hpos := h.pos_lt
  have hlt : calls.length % bufferSize < bufferSize := Nat.mod_lt _ (by decide)
  -- the buffer up to the new data point
  have htake : (c.buffer.set c.bufferPos (dataPoint x)).take (c.bufferPos + 1) =
      c.buffer.take c.bufferPos ++ [dataPoint x] := by
    rw [List.take_succ_eq_append_getElem (by simpa using hpos), List.take_set_of_le le_rfl,
      List.getElem_set_self]
  have hpoints : (fullBuffers calls).map dataPoint ++
      (c.buffer.set c.bufferPos (dataPoint x)).take (c.bufferPos + 1) =
        (calls ++ [x]).map dataPoint := by
    rw [htake, ← List.append_assoc, h.points, List.map_append, List.map_singleton]
  rw [NofareCInterface.addDataPoint, if_pos hpos]
  by_cases hfull : bufferSize ≤ c.bufferPos + 1
  · have hsize : c.bufferPos + 1 = bufferSize := by
      rw [h.pos] at hfull ⊢
      omega
    have hmod : calls.length % bufferSize + 1 = bufferSize := by rwa [h.pos] at hsize
    refine ⟨_, _, if_pos hfull, ⟨?_, ?_, ?_⟩, ?_⟩
    · rw [List.length_set, h.length]
    · rw [List.length_append, List.length_singleton]
      show 0 = _
      rw [bufferSize] at hmod ⊢
      omega
    · rw [fullBuffers_snoc_of_eq hmod, List.take_zero, List.append_nil]
    · rw [fullBuffers_snoc_of_eq hmod, ← hpoints, hsize]
      rfl
  · have hmod : calls.length % bufferSize + 1 < bufferSize := by
      rw [h.pos] at hfull
      omega
    refine ⟨_, _, if_neg hfull, ⟨?_, ?_, ?_⟩, ?_⟩
    · rw [List.length_set, h.length]
    · rw [List.length_append, List.length_singleton]
      show c.bufferPos + 1 = _
      rw [h.pos]
      rw [bufferSize] at hmod ⊢
      omega
    · rw [fullBuffers_snoc_of_lt hmod, hpoints]
    · rw [fullBuffers_snoc_of_lt hmod, Option.getD_none, List.append_nil]

end

/-! ## The invariant -/

/-- What holds while data points are added: what is inserted, and what is to be
    inserted by the current call, are the data points that fill buffers. -/
structure Inv [SettableDataPoint α F] (s : Client α F) : Prop where
  buffered : Buffered s.interface s.calls
  running : s.system.queue.streamEnded = false
  producer : Adds (s.system.threads .producer)
  consumer : Takes (s.system.threads .consumer)
  inserted : Log.values s.system.inserted ++ pending (s.system.threads .producer) =
    (fullBuffers s.calls).map dataPoint

section
variable [SettableDataPoint α F] {s s' : Client α F}

theorem inv_start (maxSize : ℕ) : Inv (startClient maxSize : Client α F) :=
  ⟨buffered_start, rfl, trivial, trivial, rfl⟩

theorem Inv.addDataPoint {voltage ampere : F} (h : Inv s)
    (hs : Steps s (.addDataPoint voltage ampere) s') : Inv s' := by
  obtain ⟨c, range, hcall, hbuffered, hpoints⟩ := h.buffered.addDataPoint (voltage, ampere)
  have hins := h.inserted
  simp only [Steps, step, hcall] at hs
  cases hidle : s.system.threads .producer with
  | idle =>
    rw [hidle, pending_idle, List.append_nil] at hins
    cases range with
    | none =>
      simp only [hidle] at hs
      cases hs
      refine ⟨hbuffered, h.running, h.producer, h.consumer, ?_⟩
      rw [hpoints, ← hins]
      simp [hidle]
    | some range =>
      simp only [hidle, System.step] at hs
      cases hs
      refine ⟨hbuffered, h.running, trivial, h.consumer, ?_⟩
      rw [hpoints, ← hins]
      rfl
  | _ => simp [hidle] at hs

/-- A section or a test of one of the threads. -/
theorem Inv.apply (h : Inv s) {i : Party} {e : Effect α}
    (he : Thread.test s.system.queue (s.system.threads i) = some e ∨
      Thread.locked s.system.queue (s.system.threads i) = some e) :
    Inv { s with system := s.system.apply i e } := by
  cases i with
  | producer =>
    obtain ⟨hadds, hpending, -, hrunning⟩ := h.producer.effect h.running he
    refine ⟨h.buffered, hrunning, ?_, ?_, ?_⟩
    · simpa [System.apply] using hadds
    · simpa [System.apply] using h.consumer
    · simp only [System.apply, Function.update_self, Log.values_append_entries]
      rw [List.append_assoc, hpending]
      exact h.inserted
  | consumer =>
    obtain ⟨htakes, hins, hended⟩ := h.consumer.effect he
    refine ⟨h.buffered, hended.trans h.running, ?_, ?_, ?_⟩
    · simpa [System.apply] using h.producer
    · simpa [System.apply] using htakes
    · simp only [System.apply, hins, Log.values_append_entries, List.append_nil]
      simpa using h.inserted

theorem Inv.step {a : Action α F} (h : Inv s) (hs : Steps s a s') : Inv s' := by
  cases a with
  | addDataPoint voltage ampere => exact h.addDataPoint hs
  | queue a =>
    simp only [Steps, NofareCInterface.step] at hs
    split_ifs at hs with hallowed
    obtain ⟨system, hstep, rfl⟩ := Option.map_eq_some_iff.1 hs
    cases a with
    | call i op =>
      cases i with
      | producer => cases hallowed
      | consumer =>
        simp only [System.step] at hstep
        split at hstep <;> cases hstep
        exact ⟨h.buffered, h.running, h.producer, Takes.start hallowed, h.inserted⟩
    | test i =>
      obtain ⟨e, he, rfl⟩ := Option.map_eq_some_iff.1 hstep
      exact h.apply (.inl he)
    | locked i =>
      obtain ⟨e, he, rfl⟩ := Option.map_eq_some_iff.1 hstep
      exact h.apply (.inr he)
    | setQueueMaxSize n =>
      cases hstep
      exact ⟨h.buffered, h.running, h.producer, h.consumer, h.inserted⟩
    | _ => cases hallowed

theorem inv_of_run {maxSize : ℕ} {tr : List (Client α F × Action α F × Client α F)}
    (hrun : Run Steps (startClient maxSize) tr s) : Inv s :=
  hrun.inv (inv_start maxSize) fun _ _ hs h => h.step hs

/-- **What is inserted**, after calls that have returned. -/
theorem Inv.inserted_of_idle (h : Inv s) (hidle : s.system.threads .producer = .idle) :
    Log.values s.system.inserted = (fullBuffers s.calls).map dataPoint := by
  have hins := h.inserted
  rwa [hidle, pending_idle, List.append_nil] at hins

/-- What is handed on is what was given iff it is read back so. -/
theorem Inv.handsOn_iff (h : Inv s) (hidle : s.system.threads .producer = .idle) :
    HandsOn s ↔ ∀ x ∈ fullBuffers s.calls, readBack (dataPoint x : α) = x := by
  rw [HandsOn, h.inserted_of_idle hidle, and_iff_left h.buffered.pos_lt, List.map_map]
  conv_lhs => rhs; rw [← List.map_id (fullBuffers s.calls)]
  exact List.map_inj_left

end

/-! ## Runs of any calls -/

section
variable [SettableDataPoint α F] {s start : Client α F}

/-- The thread of the calls goes on. -/
theorem reach_producer (hs : Reach Steps start s) {e : Effect α}
    (he : Thread.test s.system.queue (s.system.threads .producer) = some e ∨
      Thread.locked s.system.queue (s.system.threads .producer) = some e) :
    ∃ s', Reach Steps start s' ∧ s'.calls = s.calls ∧
      s'.system.threads .producer = e.thread ∧ s'.system.queue = e.queue := by
  refine ⟨{ s with system := s.system.apply .producer e }, ?_, rfl, ?_, rfl⟩
  · rcases he with he | he
    · exact hs.next (a := .queue (.test .producer))
        (by simp [Steps, step, allowed, System.step, he])
    · exact hs.next (a := .queue (.locked .producer))
        (by simp [Steps, step, allowed, System.step, he])
  · simp [System.apply]

/-- With room in the queue, a call of `addDataPoints` returns. -/
theorem reach_of_adding (hs : Reach Steps start s) {range : List α}
    (hadd : s.system.threads .producer = .addDataPointsTest range 0)
    (hrunning : s.system.queue.streamEnded = false) :
    ∃ s', Reach Steps start s' ∧ s'.calls = s.calls ∧ s'.system.threads .producer = .idle := by
  rcases Nat.eq_zero_or_pos range.length with hlen | hlen
  · obtain ⟨s', hs', hcalls, hidle, -⟩ := reach_producer hs (.inl (by
      rw [hadd, Thread.test, if_neg (by simp [hlen])]))
    exact ⟨s', hs', hcalls, hidle⟩
  -- there is room for the range
  obtain ⟨s₁, hs₁, hcalls₁, hadd₁, hq₁⟩ : ∃ s₁, Reach Steps start s₁ ∧ s₁.calls = s.calls ∧
      s₁.system.threads .producer = .addDataPointsTest range 0 ∧ s₁.system.queue =
        s.system.queue.setQueueMaxSize (s.system.queue.dataQueue.length + range.length) :=
    ⟨_, hs.next (a := .queue (.setQueueMaxSize
      (s.system.queue.dataQueue.length + range.length))) rfl, rfl, hadd, rfl⟩
  -- the thread enters the loop
  obtain ⟨s₂, hs₂, hcalls₂, hadd₂, hq₂⟩ := reach_producer hs₁
    (e := ⟨s₁.system.queue, .addDataPoints range 0, [], [], none⟩)
    (.inl (by rw [hadd₁, Thread.test, if_pos ⟨hlen.ne, by rw [hq₁]; exact hrunning⟩]))
  -- the section inserts the whole range
  have hfull : s₂.system.queue.notFull = true := by
    rw [hq₂, hq₁]
    simp [notFull, setQueueMaxSize, hlen]
  have hpushed : min (range.length - 0)
      (sizeSub s₂.system.queue.queueMaxSize s₂.system.queue.dataQueue.length) = range.length := by
    rw [hq₂, hq₁]
    simp only [setQueueMaxSize]
    rw [sizeSub_of_le (Nat.le_add_right _ _)]
    omega
  obtain ⟨s₃, hs₃, hcalls₃, hadd₃, hq₃⟩ := reach_producer hs₂
    (e := ⟨s₂.system.queue.pushBack range, .addDataPointsTest range range.length, range, [], none⟩)
    (.inr (by
      rw [hadd₂]
      simp only [Thread.locked, hfull, if_true, hpushed, List.drop_zero, List.take_length,
        Nat.zero_add]))
  -- the thread leaves the loop
  obtain ⟨s₄, hs₄, hcalls₄, hidle, -⟩ := reach_producer hs₃
    (e := ⟨s₃.system.queue, .idle, [], [],
      some (.addDataPoints range s₃.system.queue.streamEnded)⟩)
    (.inl (by rw [hadd₃, Thread.test, if_neg (by simp)]))
  exact ⟨s₄, hs₄, by rw [hcalls₄, hcalls₃, hcalls₂, hcalls₁], hidle⟩

/-- **Any calls can be made**, one after the other. -/
theorem exists_run (maxSize : ℕ) (calls : List (F × F)) :
    ∃ s : Client α F, Reach Steps (startClient maxSize) s ∧ s.calls = calls ∧
      s.system.threads .producer = .idle := by
  induction calls using List.reverseRecOn with
  | nil => exact ⟨_, .refl _, rfl, rfl⟩
  | append_singleton calls x ih =>
    obtain ⟨s, hs, rfl, hidle⟩ := ih
    have hinv : Inv s := hs.inv (inv_start maxSize) fun _ _ _ hs h => h.step hs
    obtain ⟨c, range, hcall, hbuffered, hpoints⟩ := hinv.buffered.addDataPoint x
    have hstep : step s (.addDataPoint x.1 x.2) = match range with
        | none => some { s with interface := c, calls := s.calls ++ [x] }
        | some range => (s.system.step (.call .producer (.addDataPoints range))).map fun system =>
            ⟨c, system, s.calls ++ [x]⟩ := by
      simp only [step, hidle, hcall]
      cases range <;> rfl
    cases range with
    | none => exact ⟨_, hs.next hstep, rfl, hidle⟩
    | some range =>
      simp only [System.step, hidle, Option.map_some] at hstep
      obtain ⟨s₁, hs₁, hcalls, hidle₁⟩ :=
        reach_of_adding (hs.next hstep) (by simp [Thread.start]; rfl) hinv.running
      exact ⟨s₁, hs₁, hcalls, hidle₁⟩

end

end NofareCInterface

open NofareCInterface

/-- **The C interface hands on what it was given**, on a stream that runs: after
    calls that have returned, the first data points have been inserted once and in
    order, as many as fill buffers, the buffer is not overrun, and they read back
    what was given, iff they are `DefaultDataPoint`s or their voltages are their own
    negatives. -/
theorem hands_on_iff [FloatArith F] (t : ConfiguredDataPoint) (maxSize : ℕ)
    {s : Client (t.Carrier F) F}
    {tr : List (Client (t.Carrier F) F × NofareCInterface.Action (t.Carrier F) F ×
      Client (t.Carrier F) F)}
    (hrun : Run Steps (startClient maxSize) tr s) (hidle : s.system.threads .producer = .idle) :
    HandsOn s ↔ t = .defaultDataPoint ∨ ∀ x ∈ fullBuffers s.calls, -x.1 = x.1 := by
  rw [(inv_of_run hrun).handsOn_iff hidle]
  cases t with
  | defaultDataPoint => exact ⟨fun _ => .inl rfl, fun _ _ _ => rfl⟩
  | bluedDataPoint =>
    have hread : ∀ x : F × F, readBack (dataPoint x : BluedDataPoint F) = (-x.1, x.2) :=
      fun _ => rfl
    constructor
    · intro h
      exact .inr fun x hx => congrArg Prod.fst ((hread x).symm.trans (h x hx))
    · rintro (h | h) x hx
      · cases h
      · exact (hread x).trans (Prod.ext (h x hx) rfl)

/-- A thousand calls with one volt and no current: -1 volts are read back. -/
theorem blued_voltage_negated :
    ∃ tr, ∃ s : Client (ConfiguredDataPoint.bluedDataPoint.Carrier ℚ) ℚ,
      Run Steps (startClient 4096) tr s ∧ s.system.threads .producer = .idle ∧
      s.calls = List.replicate 1000 (1, 0) ∧ ¬ HandsOn s := by
  obtain ⟨s, ⟨tr, hrun⟩, hcalls, hidle⟩ := exists_run
    (α := ConfiguredDataPoint.bluedDataPoint.Carrier ℚ) 4096
    (List.replicate 1000 ((1 : ℚ), (0 : ℚ)))
  refine ⟨tr, s, hrun, hidle, hcalls, ?_⟩
  intro h
  rw [(inv_of_run hrun).handsOn_iff hidle, hcalls, fullBuffers, List.length_replicate,
    List.take_replicate] at h
  have hread := congrArg Prod.fst (h (1, 0) (List.mem_replicate.2 ⟨by decide, rfl⟩))
  exact absurd hread (by decide)

/-- The same calls on a `DefaultDataPoint`. -/
theorem hands_on_iff_default :
    ∃ s : Client (ConfiguredDataPoint.defaultDataPoint.Carrier ℚ) ℚ,
      s.calls = List.replicate 1000 (1, 0) ∧ HandsOn s := by
  obtain ⟨s, ⟨tr, hrun⟩, hcalls, hidle⟩ := exists_run
    (α := ConfiguredDataPoint.defaultDataPoint.Carrier ℚ) 4096
    (List.replicate 1000 ((1 : ℚ), (0 : ℚ)))
  exact ⟨s, hcalls, (hands_on_iff .defaultDataPoint 4096 hrun hidle).2 (.inl rfl)⟩

end SmartScreen
