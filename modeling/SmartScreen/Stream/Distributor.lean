/-
  The data stream distributor (`DataStreamWorker.h`, `DataStreamDistributor.h`).

  Workers ask for slices of the data stream; the distributor reads the queue
  into a buffer that all workers share, hands out what was asked for and frees
  what nobody needs any more.

  * A worker is a function of its state, a slice and the id of the slice's first
    data point; it answers with its next request or leaves with a fault.  Workers
    of several classes share one state type.
  * `loopWorkersOnce` is one pass: read, run every worker while its data is in
    the buffer, free.  Its loops are given a number of rounds (`Lib.Loop`).
  * `traced` makes a worker keep a record of its calls.
-/
import SmartScreen.Lib.Loop
import SmartScreen.Stream.MetaData

namespace SmartScreen

open Loop

variable {α S Q : Type}

/-! ## Workers -/

/-- The next request of a worker. -/
structure NextReadInfos where
  /-- data points to keep in front of the next read -/
  keepNumber : ℕ := 0
  /-- data points to hand over at the next read -/
  readNumber : ℕ := 0
  nextReadLocation : ℤ := 0
deriving DecidableEq, Repr

namespace NextReadInfos

/-- The end of the requested slice. -/
def readEnd (i : NextReadInfos) : ℤ := i.nextReadLocation + i.readNumber

/-- The first data point that has to stay in the buffer. -/
def firstNeeded (i : NextReadInfos) : ℤ := i.nextReadLocation - i.keepNumber

end NextReadInfos

/-- `workOnDataPoints` of a class of workers with states `S`. -/
abbrev DataStreamWorker (α S : Type) := S → List α → ℤ → Res Fault S NextReadInfos

/-- `workers[i]` and `read_infos[i]`. -/
structure Slot (S : Type) where
  worker : S
  readInfos : NextReadInfos

structure DataStreamDistributor (α S : Type) where
  slots : List (Slot S) := []
  currentGlobalBufferPos : ℤ := 0
  dataQueue : List α := []

namespace DataStreamDistributor

/-! ## Running one worker -/

section
variable (W : DataStreamWorker α S) (pos : ℤ) (dataQueue : List α)

/-- Call the worker of a slot and store its answer. -/
def callWorker (x : Slot S) (dataPoints : List α) (id : ℤ) : Res Fault (Slot S) Unit :=
  match W x.worker dataPoints id with
  | .ok s i => .ok ⟨s, i⟩ ()
  | .fault e s => .fault e ⟨s, x.readInfos⟩
  | .timeout => .timeout

def getIndexInLocalBufferforRead (i : NextReadInfos) : ℕ :=
  if i.nextReadLocation < pos then 0 else (i.nextReadLocation - pos).toNat

theorem getIndexInLocalBufferforRead_eq (i : NextReadInfos) :
    getIndexInLocalBufferforRead pos i = (i.nextReadLocation - pos).toNat := by
  rw [getIndexInLocalBufferforRead]
  split_ifs <;> omega

/-- Iterators beyond the end of the buffer have no meaning. -/
def executeWorkerOnce (x : Slot S) (localBufferIndex : ℕ) : Res Fault (Slot S) Unit :=
  if localBufferIndex ≤ dataQueue.length then
    let actualEnd := min x.readInfos.readNumber (sizeSub dataQueue.length localBufferIndex)
    callWorker W x ((dataQueue.drop localBufferIndex).take actualEnd) (pos + localBufferIndex)
  else .fault .undefined x

/-- One test of the loop in `executeWorkerWhileDataInBuffer` and, if it
    succeeds, one round. -/
def executeWorkerRound (x : Slot S) : Res Fault (Slot S) Bool :=
  let localBufferIndex := getIndexInLocalBufferforRead pos x.readInfos
  if x.readInfos.readNumber ≤ sizeSub dataQueue.length localBufferIndex then
    (executeWorkerOnce W pos dataQueue x localBufferIndex).bind fun x' _ => .ok x' true
  else .ok x false

def executeWorkerWhileDataInBuffer (n : ℕ) (x : Slot S) : Res Fault (Slot S) Bool :=
  whileTrue (fun _ => executeWorkerRound W pos dataQueue) n x

/-- `while (executeWorkerWhileDataInBuffer(j))` of `loopWorkersOnce`. -/
def runWorker (n : ℕ) (x : Slot S) : Res Fault (Slot S) Bool :=
  whileTrue (executeWorkerWhileDataInBuffer W pos dataQueue) n x

/-- In the slot `y` the loop condition of `executeWorkerWhileDataInBuffer` is
    evaluated while the worker of `x` runs. -/
def EvaluatesAt (x y : Slot S) : Prop :=
  ∃ z, Heads (executeWorkerWhileDataInBuffer W pos dataQueue) x z ∧
    Heads (fun _ => executeWorkerRound W pos dataQueue) z y

end

/-! ## The passes of `loopWorkersOnce` -/

/-- Add a worker, which is called without data points to obtain its first
    request. -/
def addWorker (W : DataStreamWorker α S) (d : DataStreamDistributor α S) (s : S) :
    Res Fault (DataStreamDistributor α S) Unit :=
  match W s [] d.currentGlobalBufferPos with
  | .ok s' i => .ok { d with slots := d.slots ++ [⟨s', i⟩] } ()
  | .fault e _ => .fault e d
  | .timeout => .timeout

/-- The number of data points that every worker needs for its next run, before
    its conversion to `size_t`; there is none without workers. -/
def dataPointsNeededForNextRun (d : DataStreamDistributor α S) : Option ℤ :=
  (d.slots.map fun x => x.readInfos.readEnd).max?.map fun lastNeeded =>
    lastNeeded - d.dataQueue.length - d.currentGlobalBufferPos

/-- `pop q n` is the call of `popDataPoints` for a range of `n` data points: what
    it wrote into the range, and the queue afterwards.  The range is the part by
    which the buffer was resized; the part not written is erased again.  If a
    negative number has wrapped, so does the new size, and the range ends before
    it begins. -/
def readBufferForNextRun (C : CppInt) (pop : Q → ℕ → List α × Q)
    (dq : DataStreamDistributor α S × Q) : Res Fault (DataStreamDistributor α S × Q) Unit :=
  match dq.1.dataPointsNeededForNextRun with
  | none => .fault .undefined dq
  | some needed =>
    match C.toSize needed with
    | none => .fault .exception dq
    | some n =>
      if n ≤ 0 then .ok dq ()
      else if needed < 0 then .fault .undefined dq
      else
        let (dataPoints, q) := pop dq.2 n
        .ok ({ dq.1 with dataQueue := dq.1.dataQueue ++ dataPoints }, q) ()

def executeWorkers (W : DataStreamWorker α S) (n : ℕ) (d : DataStreamDistributor α S) :
    Res Fault (DataStreamDistributor α S) Bool :=
  (forEach (runWorker W d.currentGlobalBufferPos d.dataQueue) n d.slots).lift
    fun xs => { d with slots := xs }

/-- Erasing beyond the end of the buffer has no meaning. -/
def freeUnusedBuffer (d : DataStreamDistributor α S) : Res Fault (DataStreamDistributor α S) Unit :=
  match (d.slots.map fun x => x.readInfos.firstNeeded).min? with
  | none => .fault .undefined d
  | some earliestPosNeeded =>
    if earliestPosNeeded ≤ d.currentGlobalBufferPos then .ok d ()
    else
      let elementsErased := (earliestPosNeeded - d.currentGlobalBufferPos).toNat
      if elementsErased ≤ d.dataQueue.length then
        .ok { d with dataQueue := d.dataQueue.drop elementsErased
                     currentGlobalBufferPos := earliestPosNeeded } ()
      else .fault .undefined d

/-- One pass over all workers; the value is whether some worker was executed. -/
def loopWorkersOnce (C : CppInt) (W : DataStreamWorker α S) (pop : Q → ℕ → List α × Q) (n : ℕ)
    (dq : DataStreamDistributor α S × Q) : Res Fault (DataStreamDistributor α S × Q) Bool :=
  (readBufferForNextRun C pop dq).bind fun dq _ =>
    ((executeWorkers W n dq.1).lift (·, dq.2)).bind fun dq oneWorkerWasExecuted =>
      ((freeUnusedBuffer dq.1).lift (·, dq.2)).bind fun dq _ => .ok dq oneWorkerWasExecuted

/-- In a pass that starts in `dq`, the loop condition of
    `executeWorkerWhileDataInBuffer` is evaluated in the slot `y` while the
    distributor is in the state `d'`. -/
def LoopEvaluatesAt (C : CppInt) (W : DataStreamWorker α S) (pop : Q → ℕ → List α × Q)
    (dq : DataStreamDistributor α S × Q) (d' : DataStreamDistributor α S) (y : Slot S) : Prop :=
  ∃ q' xs x zs ys b, readBufferForNextRun C pop dq = .ok (d', q') () ∧
    d'.slots = xs ++ x :: zs ∧
    Returns (fun n => forEach (runWorker W d'.currentGlobalBufferPos d'.dataQueue) n xs) ys b ∧
    EvaluatesAt W d'.currentGlobalBufferPos d'.dataQueue x y

/-! ## Steadiness -/

section
variable (W : DataStreamWorker α S) (pos : ℤ) (dataQueue : List α)

theorem steady_executeWorkerRound (x : Slot S) :
    Steady fun _ : ℕ => executeWorkerRound W pos dataQueue x :=
  .const _

theorem steady_executeWorkerWhileDataInBuffer (x : Slot S) :
    Steady fun n => executeWorkerWhileDataInBuffer W pos dataQueue n x :=
  .whileTrue (steady_executeWorkerRound W pos dataQueue) x

theorem steady_runWorker (x : Slot S) : Steady fun n => runWorker W pos dataQueue n x :=
  .whileTrue (steady_executeWorkerWhileDataInBuffer W pos dataQueue) x

theorem steady_executeWorkers (d : DataStreamDistributor α S) :
    Steady fun n => executeWorkers W n d :=
  .lift _ (.forEach (steady_runWorker W _ _) _)

theorem steady_loopWorkersOnce (C : CppInt) (pop : Q → ℕ → List α × Q)
    (dq : DataStreamDistributor α S × Q) : Steady fun n => loopWorkersOnce C W pop n dq :=
  .bind (.const _) fun dq _ =>
    .bind (.lift (·, dq.2) (steady_executeWorkers W dq.1)) fun _ _ => .const _

end

end DataStreamDistributor

/-! ## Records of calls -/

/-- A call of a worker: its state before, the id, the slice. -/
structure Call (α S : Type) where
  state : S
  dataPointId : ℤ
  dataPoints : List α

/-- A worker with the record of its calls. -/
structure Traced (α S : Type) where
  worker : S
  calls : List (Call α S) := []

/-- The same worker, keeping a record of its calls. -/
def traced (W : DataStreamWorker α S) : DataStreamWorker α (Traced α S) := fun t dataPoints id =>
  (W t.worker dataPoints id).lift fun s => ⟨s, t.calls ++ [⟨t.worker, id, dataPoints⟩]⟩

/-- The slot without the record. -/
def Slot.base (x : Slot (Traced α S)) : Slot S := ⟨x.worker.worker, x.readInfos⟩

/-- A worker that finds the meta data `mds n` at its `n`-th call. -/
def withMetaData (W : DynamicStreamMetaData → DataStreamWorker α S)
    (mds : ℕ → DynamicStreamMetaData) : DataStreamWorker α (ℕ × S) := fun (n, s) dataPoints id =>
  (W (mds n) s dataPoints id).lift (n + 1, ·)

/-- A queue that holds the rest of a stream that has ended: `popDataPoints`
    delivers as many of the requested data points as remain. -/
def popRemaining (q : List α) (n : ℕ) : List α × List α := (q.take n, q.drop n)

end SmartScreen
