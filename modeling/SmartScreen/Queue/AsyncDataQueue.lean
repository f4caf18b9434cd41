/-
  The queue between the data source and the distributor (`AsyncDataQueue.h`).

  A call consists of sections that hold the mutex and of tests of `stream_ended`
  that do not.  Each of them is one step of the calling thread:

  * `Thread` is where a thread stands in its call, with the local variables of
    the call.  A range is its contents and the offset of the iterator `begin`.
  * `Thread.locked` is a section.  It runs once the thread has the mutex and its
    waiter is satisfied; until then the thread waits.
  * `Thread.test` is a test outside the mutex.
-/
import SmartScreen.Stream.MetaData

namespace SmartScreen

structure AsyncDataQueue (α : Type) where
  dataQueue : List α := []
  streamEnded : Bool := false
  queueMaxSize : ℕ := 4096
deriving DecidableEq

namespace AsyncDataQueue

variable {α : Type}

/-! ## The waiters -/

section
variable (q : AsyncDataQueue α)

/-- `getQueueHasEnoughElementsWaiter` -/
def hasEnoughElements (n : ℕ) : Bool := n ≤ q.dataQueue.length || q.streamEnded

/-- `getQueueNotEmptyWaiter` -/
def notEmpty : Bool := 0 < q.dataQueue.length || q.streamEnded

/-- `getQueueNotFullWaiter` -/
def notFull : Bool := q.dataQueue.length < q.queueMaxSize || q.streamEnded

/-! ## The contents -/

def removePointsFromQueue (numDataPoints : ℕ) : AsyncDataQueue α :=
  if q.dataQueue.length ≤ numDataPoints then { q with dataQueue := [] }
  else { q with dataQueue := q.dataQueue.drop numDataPoints }

theorem removePointsFromQueue_eq (n : ℕ) :
    q.removePointsFromQueue n = { q with dataQueue := q.dataQueue.drop n } := by
  rw [removePointsFromQueue]
  split_ifs with h
  · rw [List.drop_of_length_le h]
  · rfl

def pushBack (xs : List α) : AsyncDataQueue α := { q with dataQueue := q.dataQueue ++ xs }

def setQueueMaxSize (maxSize : ℕ) : AsyncDataQueue α := { q with queueMaxSize := maxSize }

def notifyStreamEnd : AsyncDataQueue α := { q with streamEnded := true }

def restartStreaming : AsyncDataQueue α := { q with streamEnded := false }

def discardRestOfStream : AsyncDataQueue α := { q with dataQueue := [], streamEnded := true }

end

/-- `std::copy_n` into a range, from the offset `begin` on. -/
def copyN (source : List α) (n : ℕ) (range : List α) (begin : ℕ) : List α :=
  range.take begin ++ source.take n ++ range.drop (begin + n)

/-! ## Threads -/

/-- The calls of the interface. -/
inductive Op (α : Type) where
  | addDataPoint (dataPoint : α)
  | addDataPoints (range : List α)
  | popDataPoints (range : List α)
  | nextDataPoints (numDataPoints : ℕ)
  | getDataPoints (range : List α) (offset : ℕ)

/-- Where a thread stands.  `begin` is how far the iterator has moved; `given`
    are the contents of a range before the call, kept for the specification. -/
inductive Thread (α : Type) where
  | idle
  | addDataPoint (dataPoint : α)
  /-- before the loop condition -/
  | addDataPointsTest (range : List α) (begin : ℕ)
  /-- in the loop -/
  | addDataPoints (range : List α) (begin : ℕ)
  /-- in the loop -/
  | popDataPoints (given range : List α) (begin : ℕ)
  /-- before the loop condition -/
  | popDataPointsTest (given range : List α) (begin : ℕ)
  | nextDataPoints (numDataPoints : ℕ)
  | getDataPoints (given : List α) (offset : ℕ)

/-- What a call leaves when it returns.  `ended` is whether the stream has ended
    then. -/
inductive Return (α : Type) where
  | addDataPoint (dataPoint : α)
  | addDataPoints (range : List α) (ended : Bool)
  | popDataPoints (given range : List α) (begin : ℕ)
  | nextDataPoints
  | getDataPoints (given range : List α) (begin : ℕ)

/-- The effect of a step of a thread, with the data points that it inserts and
    removes. -/
structure Effect (α : Type) where
  queue : AsyncDataQueue α
  thread : Thread α
  inserted : List α := []
  removed : List α := []
  returned : Option (Return α) := none

/-- A thread that enters a call. -/
def Thread.start : Op α → Thread α
  | .addDataPoint x => .addDataPoint x
  | .addDataPoints range => .addDataPointsTest range 0
  | .popDataPoints range => .popDataPoints range range 0
  | .nextDataPoints n => .nextDataPoints n
  | .getDataPoints range offset => .getDataPoints range offset

/-- A loop condition, evaluated without the mutex. -/
def Thread.test (q : AsyncDataQueue α) : Thread α → Option (Effect α)
  | .addDataPointsTest range begin =>
    if begin ≠ range.length ∧ q.streamEnded = false then
      some ⟨q, .addDataPoints range begin, [], [], none⟩
    else some ⟨q, .idle, [], [], some (.addDataPoints range q.streamEnded)⟩
  | .popDataPointsTest given range begin =>
    if begin ≠ range.length ∧ q.streamEnded = false then
      some ⟨q, .popDataPoints given range begin, [], [], none⟩
    else some ⟨q, .idle, [], [], some (.popDataPoints given range begin)⟩
  | _ => none

/-- A section that holds the mutex; `none` while the thread has to wait. -/
def Thread.locked (q : AsyncDataQueue α) : Thread α → Option (Effect α)
  | .addDataPoint x =>
    if q.notFull then some ⟨q.pushBack [x], .idle, [x], [], some (.addDataPoint x)⟩ else none
  | .addDataPoints range begin =>
    if q.notFull then
      let pushableElements := sizeSub q.queueMaxSize q.dataQueue.length
      let elementsPushed := min (range.length - begin) pushableElements
      let pushed := (range.drop begin).take elementsPushed
      some ⟨q.pushBack pushed, .addDataPointsTest range (begin + elementsPushed), pushed, [], none⟩
    else none
  | .popDataPoints given range begin =>
    if q.notEmpty then
      let elementsPulled := min (range.length - begin) q.dataQueue.length
      some ⟨q.removePointsFromQueue elementsPulled,
        .popDataPointsTest given (copyN q.dataQueue elementsPulled range begin)
          (begin + elementsPulled), [], q.dataQueue.take elementsPulled, none⟩
    else none
  | .nextDataPoints n =>
    if q.hasEnoughElements n then
      some ⟨q.removePointsFromQueue n, .idle, [], q.dataQueue.take n, some .nextDataPoints⟩
    else none
  | .getDataPoints given offset =>
    if q.hasEnoughElements (given.length + offset) then
      let elementsPulled := min given.length (q.dataQueue.length - offset)
      some ⟨q, .idle, [], [], some (.getDataPoints given
        (copyN (q.dataQueue.drop offset) elementsPulled given 0) elementsPulled)⟩
    else none
  | _ => none

end AsyncDataQueue

end SmartScreen
