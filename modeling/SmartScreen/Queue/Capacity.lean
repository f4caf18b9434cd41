/-
  The capacity of an `AsyncDataQueue`.

  The waiters of the inserting calls pass for either of two reasons: there is
  room, or the stream has ended.  The sections are written for the first
  (`HasRoom`), and exactly then they stay within the capacity.
-/
import SmartScreen.Queue.Interleaving

namespace SmartScreen.AsyncDataQueue

open LTS

variable {ι α : Type}

/-- If a section inserts after the end of the stream, then the queue has room:
    for a data point in `addDataPoint`, not beyond its capacity in
    `addDataPoints`. -/
def HasRoom (s : System ι α) : Action ι α → Prop
  | .locked i =>
    match s.threads i with
    | .addDataPoint _ =>
      s.queue.streamEnded = true → s.queue.dataQueue.length < s.queue.queueMaxSize
    | .addDataPoints _ _ =>
      s.queue.streamEnded = true → s.queue.dataQueue.length ≤ s.queue.queueMaxSize
    | _ => True
  | _ => True

/-- The step computes `queue_max_size - data_queue.size()`. -/
def ComputesFreeSpace (s : System ι α) (a : Action ι α) : Prop :=
  ∃ i, a = .locked i ∧ ∃ range begin, s.threads i = .addDataPoints range begin

/-- A step that inserts leaves at most the capacity in the queue, and the free
    space is computed without wrapping. -/
def WithinCapacity (s : System ι α) (a : Action ι α) (s' : System ι α) : Prop :=
  (s.inserted.length < s'.inserted.length →
    s'.queue.dataQueue.length ≤ s'.queue.queueMaxSize) ∧
  (ComputesFreeSpace s a → (sizeSub s.queue.queueMaxSize s.queue.dataQueue.length : ℤ) =
    s.queue.queueMaxSize - s.queue.dataQueue.length)

theorem computesFreeSpace_locked {s : System ι α} {i : ι} :
    ComputesFreeSpace s (.locked i) ↔ ∃ range begin, s.threads i = .addDataPoints range begin := by
  simp [ComputesFreeSpace]

theorem sizeSub_eq_iff {a b : ℕ} : (sizeSub a b : ℤ) = a - b ↔ b ≤ a := by
  rw [sizeSub]
  split_ifs <;> omega

theorem notFull_iff {q : AsyncDataQueue α} :
    q.notFull = true ↔ q.dataQueue.length < q.queueMaxSize ∨ q.streamEnded = true := by
  simp [notFull]

/-- Only sections of `addDataPoint` and `addDataPoints` insert. -/
theorem Thread.locked_inserted {q : AsyncDataQueue α} {t : Thread α} {e : Effect α}
    (h : Thread.locked q t = some e) (hx : ∀ x, t ≠ .addDataPoint x)
    (hr : ∀ range begin, t ≠ .addDataPoints range begin) : e.inserted = [] := by
  cases t with
  | addDataPoint x => exact absurd rfl (hx x)
  | addDataPoints range begin => exact absurd rfl (hr range begin)
  | idle | addDataPointsTest | popDataPointsTest => cases h
  | popDataPoints | nextDataPoints | getDataPoints =>
    simp only [Thread.locked] at h
    split_ifs at h; cases h
    rfl

/-- **A step stays within the capacity exactly if it has room.** -/
theorem withinCapacity_iff [DecidableEq ι] {s s' : System ι α} {a : Action ι α}
    (h : s.Steps a s') : WithinCapacity s a s' ↔ HasRoom s a := by
  cases a with
  | locked i =>
    obtain ⟨e, he, rfl⟩ := Option.map_eq_some_iff.1 h
    have hlen : (s.apply i e).inserted.length = s.inserted.length + e.inserted.length :=
      Log.length_append_entries _ _ _
    simp only [WithinCapacity, HasRoom, hlen, computesFreeSpace_locked, sizeSub_eq_iff]
    cases ht : s.threads i with
    | addDataPoint x =>
      rw [ht] at he
      simp only [Thread.locked] at he
      split_ifs at he with hfull
      cases he
      have hor := notFull_iff.1 hfull
      simp only [System.apply, pushBack, List.length_append, List.length_singleton]
      constructor
      · rintro ⟨hle, -⟩ -
        omega
      · intro hroom
        have hlt := hor.elim id hroom
        exact ⟨fun _ => by omega, by simp⟩
    | addDataPoints range begin =>
      rw [ht] at he
      simp only [Thread.locked] at he
      split_ifs at he with hfull
      cases he
      have hor := notFull_iff.1 hfull
      constructor
      · rintro ⟨-, hle⟩ -
        exact hle ⟨range, begin, rfl⟩
      · intro hroom
        have hle : s.queue.dataQueue.length ≤ s.queue.queueMaxSize := hor.elim le_of_lt hroom
        refine ⟨fun _ => ?_, fun _ => hle⟩
        simp only [System.apply, pushBack, List.length_append, List.length_take, sizeSub_of_le hle]
        omega
    | _ =>
      have hins : e.inserted = [] := Thread.locked_inserted he (by simp [ht]) (by simp [ht])
      simp [hins]
  | test i =>
    obtain ⟨e, he, rfl⟩ := Option.map_eq_some_iff.1 h
    simp [WithinCapacity, HasRoom, ComputesFreeSpace, System.apply, (Thread.test_frame he).2.1,
      Log.entries]
  | call i op =>
    simp only [System.Steps, System.step] at h
    split at h <;> cases h
    simp [WithinCapacity, HasRoom, ComputesFreeSpace]
  | setQueueMaxSize | notifyStreamEnd | restartStreaming | discardRestOfStream =>
    cases h; simp [WithinCapacity, HasRoom, ComputesFreeSpace]

/-- **The capacity bound.**  All steps of a run stay within the capacity iff no
    section inserts into a full queue after the end of the stream. -/
theorem capacity_bound_iff [DecidableEq ι] (maxSize : ℕ) {s : System ι α}
    {tr : List (System ι α × Action ι α × System ι α)}
    (hrun : Run System.Steps { queue := { queueMaxSize := maxSize } } tr s) :
    (∀ x ∈ tr, WithinCapacity x.1 x.2.1 x.2.2) ↔ ∀ x ∈ tr, HasRoom x.1 x.2.1 :=
  forall₂_congr fun x hx => withinCapacity_iff (hrun.step_of_mem x hx)

/-- After the end of the stream a second data point is put into a queue with room
    for one. -/
theorem capacity_exceeded :
    ∃ tr s, Run System.Steps ({ queue := { queueMaxSize := 1 } } : System Unit ℕ) tr s ∧
      ¬ ∀ x ∈ tr, WithinCapacity x.1 x.2.1 x.2.2 := by
  obtain ⟨s, hs, s', hstep, hlt, hgt⟩ : ∃ s, List.foldlM System.step
      ({ queue := { queueMaxSize := 1 } } : System Unit ℕ)
      [.call () (.addDataPoint 1), .locked (), .notifyStreamEnd, .call () (.addDataPoint 2)] =
        some s ∧
      ∃ s', s.step (.locked ()) = some s' ∧ s.inserted.length < s'.inserted.length ∧
        ¬ s'.queue.dataQueue.length ≤ s'.queue.queueMaxSize :=
    ⟨_, rfl, _, rfl, by decide, by decide⟩
  refine ⟨_, s', (Run.trace hs).snoc hstep, fun h => ?_⟩
  exact hgt ((h _ (List.mem_append_right _ (List.mem_singleton.2 rfl))).1 hlt)

/-- Within the capacity a run has room at all its steps. -/
theorem capacity_bound_iff_small :
    ∃ tr s, Run System.Steps ({ queue := { queueMaxSize := 1 } } : System Unit ℕ) tr s ∧
      ((∀ x ∈ tr, WithinCapacity x.1 x.2.1 x.2.2) ↔ ∀ x ∈ tr, HasRoom x.1 x.2.1) := by
  obtain ⟨s, hs⟩ : ∃ s, List.foldlM System.step
      ({ queue := { queueMaxSize := 1 } } : System Unit ℕ)
      [.call () (.addDataPoint 1), .locked (), .notifyStreamEnd] = some s := ⟨_, rfl⟩
  exact ⟨_, s, Run.trace hs, capacity_bound_iff 1 (Run.trace hs)⟩

end SmartScreen.AsyncDataQueue
