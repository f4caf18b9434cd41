/-
  Threads with one role: those that only insert ranges, and those that only take.

  * `pending` is what the call of a thread has still to insert.
  * `Adds.effect`, `Takes.effect`: a step moves data points from the one end to the
    other and keeps the role.
-/
import SmartScreen.Queue.EndOfStream

namespace SmartScreen.AsyncDataQueue

variable {α : Type}

/-! ## Adding -/

/-- What a call of `addDataPoints` has still to insert. -/
def pending : Thread α → List α
  | .addDataPointsTest range begin | .addDataPoints range begin => range.drop begin
  | _ => []

@[simp] theorem pending_idle : pending (.idle : Thread α) = [] := rfl

/-- The thread is in no call, or in one that inserts a range. -/
def Adds : Thread α → Prop
  | .idle | .addDataPointsTest _ _ | .addDataPoints _ _ => True
  | _ => False

section
variable {q : AsyncDataQueue α} {t : Thread α} {e : Effect α}

/-- A step of a thread that inserts a range while the stream runs. -/
theorem Adds.effect (ht : Adds t) (hq : q.streamEnded = false)
    (he : Thread.test q t = some e ∨ Thread.locked q t = some e) :
    Adds e.thread ∧ e.inserted ++ pending e.thread = pending t ∧
      e.queue.dataQueue = q.dataQueue ++ e.inserted ∧ e.queue.streamEnded = false := by
  cases t with
  | idle => rcases he with he | he <;> cases he
  | addDataPointsTest range begin =>
    rcases he with he | he
    · simp only [Thread.test] at he
      split_ifs at he with hc <;> cases he
      · exact ⟨trivial, rfl, (List.append_nil _).symm, hq⟩
      · have hend : begin = range.length := by
          by_contra hne
          exact hc ⟨hne, hq⟩
        refine ⟨trivial, ?_, (List.append_nil _).symm, hq⟩
        rw [pending_idle, pending, hend, List.drop_length]
        rfl
    · cases he
  | addDataPoints range begin =>
    rcases he with he | he
    · cases he
    · simp only [Thread.locked] at he
      split_ifs at he; cases he
      refine ⟨trivial, ?_, rfl, hq⟩
      rw [pending, pending, ← List.drop_drop, List.take_append_drop]
  | _ => cases ht

end

/-! ## Taking -/

/-- A call that takes data points from the queue, or looks at them. -/
def takes : Op α → Bool
  | .popDataPoints _ | .nextDataPoints _ | .getDataPoints _ _ => true
  | _ => false

/-- The thread is in no call that inserts. -/
def Takes : Thread α → Prop
  | .addDataPoint _ | .addDataPointsTest _ _ | .addDataPoints _ _ => False
  | _ => True

theorem Takes.start {op : Op α} (h : takes op = true) : Takes (Thread.start op) := by
  cases op with
  | addDataPoint | addDataPoints => cases h
  | popDataPoints | nextDataPoints | getDataPoints => trivial

section
variable {q : AsyncDataQueue α} {t : Thread α} {e : Effect α}

/-- A step of a thread that does not insert. -/
theorem Takes.effect (ht : Takes t)
    (he : Thread.test q t = some e ∨ Thread.locked q t = some e) :
    Takes e.thread ∧ e.inserted = [] ∧ e.queue.streamEnded = q.streamEnded := by
  cases t with
  | addDataPoint | addDataPointsTest | addDataPoints => cases ht
  | idle => rcases he with he | he <;> cases he
  | popDataPointsTest =>
    rcases he with he | he
    · simp only [Thread.test] at he
      split_ifs at he <;> cases he <;> exact ⟨trivial, rfl, rfl⟩
    · cases he
  | popDataPoints | nextDataPoints | getDataPoints =>
    rcases he with he | he
    · cases he
    · simp only [Thread.locked] at he
      split_ifs at he; cases he
      exact ⟨trivial, rfl, by first | rfl | rw [removePointsFromQueue_eq]⟩

end

end SmartScreen.AsyncDataQueue
