/-
  Discarding what a queue holds (`AsyncDataQueue.h`).

  `discardRestOfStream` empties the queue and ends the stream, so that producers
  that wait for room go on.  What they go on with is to insert; and a producer that
  has not seen the end of the stream before `restartStreaming` never sees it.

  * `queued` are the data points in the queue with the calls that inserted them.
  * `stays_discarded_iff`: discarded data stays discarded iff no section inserts
    before the stream is restarted, and later none of a call that had begun before
    the queue was discarded.
-/
import SmartScreen.Queue.Interleaving

namespace SmartScreen.AsyncDataQueue

open LTS

variable {ι α : Type}

namespace System

/-- The data points in the queue, as they were inserted. -/
def queued (s : System ι α) : List (CallId ι × α) :=
  s.inserted.drop (s.inserted.length - s.queue.dataQueue.length)

/-- What a section hands to a consumer. -/
def handed (s : System ι α) : Action ι α → List (CallId ι × α)
  | .locked i =>
    match s.threads i with
    | .popDataPoints _ range begin =>
      s.queued.take (min (range.length - begin) s.queue.dataQueue.length)
    | .getDataPoints given offset =>
      (s.queued.drop offset).take (min given.length (s.queue.dataQueue.length - offset))
    | _ => []
  | _ => []

end System

namespace Discard

/-- The steps of a run so far. -/
abbrev History (ι α : Type) := List (System ι α × Action ι α × System ι α)

/-- The queue has been discarded, and the stream has not been restarted since. -/
def Discarded (tr : History ι α) : Prop :=
  ∃ tr₁ x tr₂, tr = tr₁ ++ x :: tr₂ ∧ x.2.1 = .discardRestOfStream ∧
    ∀ y ∈ tr₂, y.2.1 ≠ .restartStreaming

/-- The call had begun when the queue was discarded. -/
def BegunBefore (tr : History ι α) (c : CallId ι) : Prop :=
  ∃ x ∈ tr, x.2.1 = .discardRestOfStream ∧ c.2 ≤ x.1.number c.1

/-- After the step, what was discarded and what was to be inserted then is gone. -/
structure StaysDiscarded (tr : History ι α) (x : System ι α × Action ι α × System ι α) :
    Prop where
  empty : Discarded (tr ++ [x]) → x.2.2.queue.dataQueue = []
  gone : ∀ e ∈ x.2.2.queued, ¬ BegunBefore (tr ++ [x]) e.1
  handed : ∀ e ∈ x.1.handed x.2.1, ¬ BegunBefore tr e.1

/-- The section of a thread has something to insert, and a place for it. -/
def Inserts (s : System ι α) (i : ι) : Prop :=
  match s.threads i with
  | .addDataPoint _ => True
  | .addDataPoints range begin =>
    begin < range.length ∧ sizeSub s.queue.queueMaxSize s.queue.dataQueue.length ≠ 0
  | _ => False

/-- What is inserted, is inserted after the stream was restarted, by a call that
    began after the queue was discarded. -/
def InTime (tr : History ι α) (x : System ι α × Action ι α × System ι α) : Prop :=
  ∀ i, x.2.1 = .locked i → Inserts x.1 i → ¬ Discarded tr ∧ ¬ BegunBefore tr (x.1.current i)

/-! ## What the steps so far say -/

section
variable {tr : History ι α} {x : System ι α × Action ι α × System ι α} {c : CallId ι}

theorem discarded_snoc :
    Discarded (tr ++ [x]) ↔
      x.2.1 = .discardRestOfStream ∨ (Discarded tr ∧ x.2.1 ≠ .restartStreaming) := by
  constructor
  · rintro ⟨tr₁, y, tr₂, heq, hy, hrest⟩
    rcases List.eq_nil_or_concat tr₂ with rfl | ⟨tr₃, z, rfl⟩
    · obtain ⟨-, hxy⟩ := List.append_inj' heq rfl
      cases hxy
      exact .inl hy
    · rw [List.concat_eq_append, ← List.cons_append, ← List.append_assoc] at heq
      obtain ⟨rfl, hxz⟩ := List.append_inj' heq rfl
      cases hxz
      right
      constructor
      · exact ⟨tr₁, y, tr₃, rfl, hy, fun z hz => hrest z (by simp [hz])⟩
      · exact hrest x (by simp)
  · rintro (hx | ⟨⟨tr₁, y, tr₂, rfl, hy, hrest⟩, hx⟩)
    · exact ⟨tr, x, [], rfl, hx, by simp⟩
    · refine ⟨tr₁, y, tr₂ ++ [x], by simp, hy, ?_⟩
      intro z hz
      rcases List.mem_append.1 hz with hz | hz
      · exact hrest z hz
      · rw [List.mem_singleton.1 hz]
        exact hx

theorem begunBefore_snoc :
    BegunBefore (tr ++ [x]) c ↔
      BegunBefore tr c ∨ (x.2.1 = .discardRestOfStream ∧ c.2 ≤ x.1.number c.1) := by
  unfold BegunBefore
  simp only [List.mem_append, List.mem_singleton, or_and_right, exists_or, exists_eq_left]

theorem begunBefore_snoc_of_ne (h : x.2.1 ≠ .discardRestOfStream) :
    BegunBefore (tr ++ [x]) c ↔ BegunBefore tr c := by
  rw [begunBefore_snoc]
  exact or_iff_left fun hx => h hx.1

end

/-! ## What a step does to the queue -/

section
variable {s s' : System ι α} {a : Action ι α} {i : ι} {e : Effect α}

/-- What is handed over is taken from the queue. -/
theorem mem_queued_of_handed {y : CallId ι × α} (h : y ∈ s.handed a) : y ∈ s.queued := by
  unfold System.handed at h
  split at h
  · split at h
    · exact List.mem_of_mem_take h
    · exact List.mem_of_mem_drop (List.mem_of_mem_take h)
    · cases h
  · cases h

/-- `handed` is what a call of `popDataPoints` removes, and what one of `getDataPoints`
    copies. -/
theorem values_handed (hv : Log.values s.queued = s.queue.dataQueue)
    (h : Thread.locked s.queue (s.threads i) = some e) :
    (∀ given range begin, s.threads i = .popDataPoints given range begin →
        Log.values (s.handed (.locked i)) = e.removed) ∧
      ∀ given offset, s.threads i = .getDataPoints given offset →
        ∃ n, e.returned = some (.getDataPoints given
          (copyN (Log.values (s.handed (.locked i))) n given 0) n) := by
  constructor
  · intro given range begin ht
    rw [ht, Thread.locked] at h
    split_ifs at h
    cases h
    simp only [System.handed, ht]
    rw [Log.values, List.map_take]
    exact congrArg _ hv
  · intro given offset ht
    rw [ht, Thread.locked] at h
    split_ifs at h
    cases h
    refine ⟨_, congrArg (fun l => some (Return.getDataPoints given l _)) ?_⟩
    simp only [System.handed, ht]
    rw [Log.values, List.map_take, List.map_drop, copyN, copyN, List.take_take, min_self]
    show _ ++ List.take _ (List.drop _ s.queue.dataQueue) ++ _ = _
    rw [← hv]
    rfl

/-- What a section inserts, if anything. -/
theorem locked_inserts (h : Thread.locked s.queue (s.threads i) = some e) :
    (Inserts s i ∧ e.inserted ≠ [] ∧ e.removed = []) ∨ (¬ Inserts s i ∧ e.inserted = []) := by
  unfold Inserts
  cases ht : s.threads i with
  | idle | addDataPointsTest | popDataPointsTest =>
    rw [ht] at h
    cases h
  | addDataPoint x =>
    rw [ht, Thread.locked] at h
    split_ifs at h
    cases h
    exact .inl ⟨trivial, List.cons_ne_nil _ _, rfl⟩
  | addDataPoints range begin =>
    rw [ht, Thread.locked] at h
    split_ifs at h
    cases h
    dsimp only
    by_cases hinserts : begin < range.length ∧
        sizeSub s.queue.queueMaxSize s.queue.dataQueue.length ≠ 0
    · refine .inl ⟨hinserts, ?_, rfl⟩
      rw [← List.length_pos_iff, List.length_take, List.length_drop]
      omega
    · refine .inr ⟨hinserts, ?_⟩
      rw [← List.length_eq_zero_iff, List.length_take, List.length_drop]
      omega
  | popDataPoints | nextDataPoints | getDataPoints =>
    rw [ht, Thread.locked] at h
    split_ifs at h
    cases h
    exact .inr ⟨id, rfl⟩

variable [DecidableEq ι]

/-- The queue after a step of a thread. -/
theorem queued_apply (hv : Log.values s.queued = s.queue.dataQueue)
    (hfifo : s.queue.dataQueue ++ e.inserted = e.removed ++ e.queue.dataQueue) :
    (s.apply i e).queued =
        (s.queued ++ Log.entries (s.current i) e.inserted).drop e.removed.length ∧
      Log.values (s.apply i e).queued = (s.apply i e).queue.dataQueue := by
  have hlen : s.queue.dataQueue.length + e.inserted.length =
      e.removed.length + e.queue.dataQueue.length := by
    rw [← List.length_append, hfifo, List.length_append]
  have hle : s.queue.dataQueue.length ≤ s.inserted.length := by
    rw [← hv, Log.values, List.length_map, System.queued, List.length_drop]
    exact Nat.sub_le _ _
  have hqueued : (s.apply i e).queued =
      (s.queued ++ Log.entries (s.current i) e.inserted).drop e.removed.length := by
    have hdrop : s.inserted.length + e.inserted.length - e.queue.dataQueue.length =
        s.inserted.length - s.queue.dataQueue.length + e.removed.length := by
      omega
    unfold System.queued System.apply
    dsimp only
    rw [Log.length_append_entries, hdrop, ← List.drop_drop,
      List.drop_append_of_le_length (Nat.sub_le _ _)]
  refine ⟨hqueued, ?_⟩
  show Log.values (s.apply i e).queued = e.queue.dataQueue
  rw [hqueued, Log.values, List.map_drop]
  show (Log.values (s.queued ++ Log.entries (s.current i) e.inserted)).drop e.removed.length = _
  rw [Log.values_append_entries, hv, hfifo, List.drop_left]

/-- What a step does to the queue. -/
theorem queued_step (h : s.Steps a s') (hv : Log.values s.queued = s.queue.dataQueue) :
    Log.values s'.queued = s'.queue.dataQueue ∧
      ((a = .discardRestOfStream ∧ s'.queued = []) ∨
        (∃ i xs, a = .locked i ∧ Inserts s i ∧ xs ≠ [] ∧
          s'.queued = s.queued ++ Log.entries (s.current i) xs) ∨
        (a ≠ .discardRestOfStream ∧ (∀ i, a = .locked i → ¬ Inserts s i) ∧
          ∃ n, s'.queued = s.queued.drop n)) := by
  cases a with
  | call i op =>
    simp only [System.Steps, System.step] at h
    split at h <;> cases h
    exact ⟨hv, .inr (.inr ⟨by rintro ⟨⟩, by rintro j ⟨⟩, 0, rfl⟩)⟩
  | setQueueMaxSize | notifyStreamEnd | restartStreaming =>
    cases h
    exact ⟨hv, .inr (.inr ⟨by rintro ⟨⟩, by rintro j ⟨⟩, 0, rfl⟩)⟩
  | discardRestOfStream =>
    cases h
    have hnil : ({ s with queue := s.queue.discardRestOfStream } : System ι α).queued = [] := by
      unfold System.queued
      exact List.drop_length
    refine ⟨?_, .inl ⟨rfl, hnil⟩⟩
    rw [hnil]
    rfl
  | test i =>
    obtain ⟨e, he, rfl⟩ := Option.map_eq_some_iff.1 h
    obtain ⟨hqueue, hinserted, hremoved⟩ := Thread.test_frame he
    obtain ⟨hqueued, hvalues⟩ := queued_apply (i := i) hv (e := e)
      (by rw [hqueue, hinserted, hremoved]; exact List.append_nil _)
    refine ⟨hvalues, .inr (.inr ⟨by rintro ⟨⟩, by rintro j ⟨⟩, 0, ?_⟩)⟩
    rw [hqueued, hinserted, hremoved]
    exact List.append_nil _
  | locked i =>
    obtain ⟨e, he, rfl⟩ := Option.map_eq_some_iff.1 h
    obtain ⟨hqueued, hvalues⟩ := queued_apply (i := i) hv (Thread.locked_fifo he)
    refine ⟨hvalues, .inr ?_⟩
    obtain ⟨hinserts, hne, hremoved⟩ | ⟨hinserts, hinserted⟩ := locked_inserts he
    · left
      refine ⟨i, e.inserted, rfl, hinserts, hne, ?_⟩
      rw [hqueued, hremoved]
      rfl
    · right
      refine ⟨by rintro ⟨⟩, ?_, e.removed.length, ?_⟩
      · rintro j ⟨⟩
        exact hinserts
      · rw [hqueued, hinserted]
        exact congrArg _ (List.append_nil _)

/-- What the steps so far leave, as long as they were in time. -/
structure Inv (tr : History ι α) (s : System ι α) : Prop where
  values : Log.values s.queued = s.queue.dataQueue
  empty : Discarded tr → s.queued = []
  gone : ∀ y ∈ s.queued, ¬ BegunBefore tr y.1

omit [DecidableEq ι] in
theorem inv_start (maxSize : ℕ) :
    Inv [] ({ queue := { queueMaxSize := maxSize } } : System ι α) where
  values := rfl
  empty := fun _ => rfl
  gone := by
    intro y hy
    cases hy

variable {tr : History ι α}

/-- **A step in time** keeps what is discarded away. -/
theorem Inv.step (hi : Inv tr s) (h : s.Steps a s') (ht : InTime tr (s, a, s')) :
    Inv (tr ++ [(s, a, s')]) s' := by
  obtain ⟨hvalues, hcases⟩ := queued_step h hi.values
  refine ⟨hvalues, ?_, ?_⟩
  · intro hdiscarded
    obtain ⟨-, hnil⟩ | ⟨i, xs, rfl, hinserts, -⟩ | ⟨hne, -, n, hdrop⟩ := hcases
    · exact hnil
    · obtain ha | ⟨hd, -⟩ := discarded_snoc.1 hdiscarded
      · cases ha
      · exact absurd hd (ht i rfl hinserts).1
    · obtain ha | ⟨hd, -⟩ := discarded_snoc.1 hdiscarded
      · exact absurd ha hne
      · rw [hdrop, hi.empty hd, List.drop_nil]
  · intro y hy
    obtain ⟨-, hnil⟩ | ⟨i, xs, rfl, hinserts, -, happend⟩ | ⟨hne, -, n, hdrop⟩ := hcases
    · rw [hnil] at hy
      cases hy
    · rw [begunBefore_snoc_of_ne (by rintro ⟨⟩)]
      rw [happend] at hy
      rcases List.mem_append.1 hy with hy | hy
      · exact hi.gone y hy
      · obtain ⟨x, -, rfl⟩ := Log.mem_entries.1 hy
        exact (ht i rfl hinserts).2
    · rw [begunBefore_snoc_of_ne hne]
      rw [hdrop] at hy
      exact hi.gone y (List.mem_of_mem_drop hy)

/-- A section that is not in time leaves in the queue what should be gone. -/
theorem staysDiscarded_iff (hi : Inv tr s) (h : s.Steps a s') :
    StaysDiscarded tr (s, a, s') ↔ InTime tr (s, a, s') := by
  constructor
  · rintro ⟨hempty, hgone, -⟩ i rfl hinserts
    obtain ⟨hvalues, hcases⟩ := queued_step h hi.values
    obtain ⟨ha, -⟩ | ⟨j, xs, ⟨⟩, -, hxs, happend⟩ | ⟨-, hnot, -⟩ := hcases
    · cases ha
    · have hne : s'.queued ≠ [] := by
        rw [happend]
        intro hnil
        exact hxs (List.map_eq_nil_iff.1 (List.append_eq_nil_iff.1 hnil).2)
      constructor
      · intro hdiscarded
        have hnil := hempty (discarded_snoc.2 (.inr ⟨hdiscarded, by rintro ⟨⟩⟩))
        rw [← hvalues] at hnil
        exact hne (List.map_eq_nil_iff.1 hnil)
      · intro hbegun
        obtain ⟨x, xs, rfl⟩ := List.exists_cons_of_ne_nil hxs
        apply hgone (s.current i, x)
        · rw [happend]
          exact List.mem_append_right _ (.head _)
        · exact (begunBefore_snoc_of_ne (by rintro ⟨⟩)).2 hbegun
    · exact absurd hinserts (hnot i rfl)
  · intro ht
    have hi' := hi.step h ht
    refine ⟨?_, hi'.gone, ?_⟩
    · intro hdiscarded
      rw [← hi'.values, hi'.empty hdiscarded]
      rfl
    · intro y hy
      exact hi.gone y (mem_queued_of_handed hy)

end

/-- **Discarded data stays discarded** iff everything that is inserted is inserted in
    time. -/
theorem stays_discarded_iff [DecidableEq ι] (maxSize : ℕ) {s : System ι α} {tr : History ι α}
    (hrun : Run System.Steps { queue := { queueMaxSize := maxSize } } tr s) :
    Along StaysDiscarded tr ↔ Along InTime tr :=
  hrun.along_iff (inv_start maxSize) (fun _ _ _ _ h hi => staysDiscarded_iff hi h)
    fun _ _ _ _ h hi ht => hi.step h ht

/-! ## A producer that waits -/

/-- A queue with room for one data point. -/
def full : System Bool ℕ := { queue := { queueMaxSize := 1 } }

/-- The producer that waits for room inserts after the queue was discarded, and the
    consumer is handed its data point when the stream has been restarted. -/
theorem discarded_handed :
    ∃ (tr₁ tr₂ : History Bool ℕ) (x : System Bool ℕ × Action Bool ℕ × System Bool ℕ)
        (s s' : System Bool ℕ),
      Run System.Steps full (tr₁ ++ x :: tr₂ ++ [(s, .locked false, s')]) s' ∧
      Discarded (tr₁ ++ [x]) ∧ x.2.2.queue.dataQueue ≠ [] ∧
      ¬ Discarded (tr₁ ++ x :: tr₂) ∧
      ∃ y ∈ s.handed (.locked false), BegunBefore (tr₁ ++ x :: tr₂) y.1 := by
  obtain ⟨s, hs, hnumber, s₁, h₁, s₂, h₂, s₃, h₃, s₄, h₄, s₅, h₅, hqueue, hhanded⟩ :
      ∃ s, List.foldlM System.step full
          [.call true (.addDataPoint 1), .locked true, .call true (.addDataPoint 2)] = some s ∧
        s.number true = 2 ∧
      ∃ s₁, s.step .discardRestOfStream = some s₁ ∧
      ∃ s₂, s₁.step (.locked true) = some s₂ ∧
      ∃ s₃, s₂.step .restartStreaming = some s₃ ∧
      ∃ s₄, s₃.step (.call false (.popDataPoints [0])) = some s₄ ∧
      ∃ s₅, s₄.step (.locked false) = some s₅ ∧
        s₂.queue.dataQueue = [2] ∧ s₄.handed (.locked false) = [((true, 2), 2)] :=
    ⟨_, rfl, rfl, _, rfl, _, rfl, _, rfl, _, rfl, _, rfl, rfl, rfl⟩
  obtain ⟨tr, hrun⟩ : ∃ tr, Run System.Steps full tr s := ⟨_, Run.trace hs⟩
  have hrun := ((((hrun.snoc h₁).snoc h₂).snoc h₃).snoc h₄).snoc h₅
  have hdiscarded : Discarded (tr ++ [(s, .discardRestOfStream, s₁)]) :=
    discarded_snoc.2 (.inl rfl)
  have hsplit : ∀ (tr : History Bool ℕ) (x y z : System Bool ℕ × Action Bool ℕ × System Bool ℕ),
      tr ++ x :: [y, z] = tr ++ [x] ++ [y] ++ [z] := by
    intro tr x y z
    simp
  refine ⟨tr ++ [(s, .discardRestOfStream, s₁)],
    [(s₂, .restartStreaming, s₃), (s₃, .call false (.popDataPoints [0]), s₄)],
    (s₁, .locked true, s₂), s₄, s₅, ?_, ?_, ?_, ?_, ?_⟩
  · rw [hsplit]
    exact hrun
  · exact discarded_snoc.2 (.inr ⟨hdiscarded, by rintro ⟨⟩⟩)
  · rw [hqueue]
    exact List.cons_ne_nil _ _
  · rw [hsplit, discarded_snoc, discarded_snoc]
    rintro (hcall | ⟨hrestart | ⟨-, hne⟩, -⟩)
    · cases hcall
    · cases hrestart
    · exact hne rfl
  · refine ⟨((true, 2), 2), ?_, ?_⟩
    · rw [hhanded]
      exact .head _
    · refine ⟨(s, .discardRestOfStream, s₁), by simp, rfl, ?_⟩
      exact hnumber.ge

/-- The producer begins its call when the stream has been restarted. -/
theorem stays_discarded_iff_restarted :
    ∃ tr s, Run System.Steps full tr s ∧ Log.values s.removed = [2] ∧
      (Along StaysDiscarded tr ↔ Along InTime tr) := by
  obtain ⟨s, hs, hremoved⟩ : ∃ s, List.foldlM System.step full
      [.call true (.addDataPoint 1), .locked true, .discardRestOfStream, .restartStreaming,
        .call true (.addDataPoint 2), .locked true, .call false (.popDataPoints [0]),
        .locked false] = some s ∧ Log.values s.removed = [2] := ⟨_, rfl, rfl⟩
  exact ⟨_, s, Run.trace hs, hremoved, stays_discarded_iff 1 (Run.trace hs)⟩

end Discard

end SmartScreen.AsyncDataQueue
