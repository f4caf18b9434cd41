/-
  What the workers see of a stream that is filled while the main loop runs.

  In every schedule the workers of the loop are called as if they ran alone on what has
  been read, also if the stream ends while the consumer is overtaken.  The buffer is a
  window of the data points read so far, with nothing behind it; a round is a pass over
  a queue that holds what this round has read.

  * `Served.round`: a round keeps this.
  * `workers_run_alone`: the calls, and when nothing of the stream is left behind.
-/
import SmartScreen.App.MainLoop
import SmartScreen.Stream.Exceptions
import SmartScreen.Stream.Growing

namespace SmartScreen

open LTS Loop Window AsyncDataQueue DataStreamDistributor

variable {α S : Type}

/-- Workers are added one by one. -/
def addWorkers (W : DataStreamWorker α S) :
    DataStreamDistributor α S → List S → Res Fault (DataStreamDistributor α S) Unit
  | d, [] => .ok d ()
  | d, s :: ss => (addWorker W d s).bind fun d _ => addWorkers W d ss

namespace MainLoop

/-- The workers `ss`, none of which has been called yet. -/
def untraced (ss : List S) : List (Traced α S) := ss.map fun s => ⟨s, []⟩

/-- What holds of a loop with the workers `ss`: they have been served out of the data
    points that were read. -/
structure Served (W : DataStreamWorker α S) (ss : List S) (s : MainLoop α (Traced α S)) :
    Prop where
  started : List.Forall₂ (fun w x => Started W s.popped (w, 0) x) ss s.distributor.slots
  /-- the buffer is the end of what was read -/
  window : ∃ w : Window s.popped, w.hi = s.popped.length ∧
    s.distributor.currentGlobalBufferPos = w.lo ∧ s.distributor.dataQueue = w.data ∧
    ∀ x ∈ s.distributor.slots, w.lo ≤ x.low
  reached : ∃ x ∈ s.distributor.slots, (s.popped.length : ℤ) ≤ x.readInfos.readEnd
  ended : s.status = .ended →
    ∀ x ∈ s.distributor.slots, (s.popped.length : ℤ) < x.readInfos.readEnd

section
variable {C : CppInt} {W : DataStreamWorker α S} {ss : List S} {s s' : MainLoop α (Traced α S)}

/-- The workers obey the contract, and end, on every stream. -/
def Obedient (W : DataStreamWorker α S) (ss : List S) : Prop :=
  ∀ w ∈ ss, ∀ l, ObeysContract W l w 0 ∧ ∃ calls, RunsAlone W l w 0 calls

/-- Workers that were added have made their first call. -/
theorem addWorkers_cases {d d' : DataStreamDistributor α (Traced α S)}
    (hd : addWorkers (traced W) d (untraced ss) = .ok d' ())
    (hpos : d.currentGlobalBufferPos = 0) :
    d'.currentGlobalBufferPos = 0 ∧ d'.dataQueue = d.dataQueue ∧ ∃ xs, d'.slots = d.slots ++ xs ∧
      ∀ l, List.Forall₂ (fun w x => Started W l (w, 0) x) ss xs := by
  induction ss generalizing d with
  | nil =>
    cases hd
    exact ⟨hpos, rfl, [], (List.append_nil _).symm, fun _ => .nil⟩
  | cons w ss ih =>
    obtain ⟨d₁, ⟨⟩, hadd, hrest⟩ := Res.bind_eq_ok.1 hd
    simp only [addWorker, traced, hpos] at hadd
    cases hw : W w [] 0 with
    | ok s' i =>
      simp only [hw, Res.lift_ok, Res.ok.injEq, and_true] at hadd
      subst hadd
      obtain ⟨hpos', hdata, xs, hslots, hxs⟩ := ih hrest rfl
      refine ⟨hpos', hdata, ⟨⟨s', [⟨w, 0, []⟩]⟩, i⟩ :: xs, ?_, fun l =>
        .cons ⟨s', i, hw, .refl⟩ (hxs l)⟩
      rw [hslots]
      simp
    | fault | timeout => simp [hw, Res.lift] at hadd

/-- The slots of obedient workers, on what was read. -/
theorem bounds_of_started (hss : Obedient W ss) {l : List α} {xs : List (Slot (Traced α S))}
    (hxs : List.Forall₂ (fun w x => Started W l (w, 0) x) ss xs) {x : Slot (Traced α S)}
    (hx : x ∈ xs) : 0 ≤ x.readInfos.firstNeeded ∧ x.readInfos.nextReadLocation ≤ l.length := by
  obtain ⟨w, hw, hx⟩ := exists_of_forall₂ ((List.forall₂_and_left _ _).2 ⟨hss, hxs⟩).flip hx
  obtain ⟨s', i, hs, hpath⟩ := hx.base
  exact (hw l).1.bounds (p := (w, 0)) le_rfl hs hpath

theorem slots_ne_nil {l : List α} {xs : List (Slot (Traced α S))} (hne : ss ≠ [])
    (hxs : List.Forall₂ (fun w x => Started W l (w, 0) x) ss xs) : xs ≠ [] := by
  rintro rfl
  exact hne (List.forall₂_nil_right_iff.1 hxs)

theorem served_start (hss : Obedient W ss) (hne : ss ≠ []) (maxSize : ℕ)
    {d₀ : DataStreamDistributor α (Traced α S)}
    (hd₀ : addWorkers (traced W) {} (untraced ss) = .ok d₀ ()) :
    Served W ss (start maxSize d₀) := by
  obtain ⟨hpos, hdata, xs, hslots, hstarted⟩ := addWorkers_cases hd₀ rfl
  obtain rfl : d₀.slots = xs := hslots
  have hxs := hstarted []
  refine ⟨hxs, ⟨Window.start [], rfl, hpos, hdata, fun x _ => Nat.zero_le _⟩, ?_, by rintro ⟨⟩⟩
  obtain ⟨x, hx⟩ := List.exists_mem_of_ne_nil _ (slots_ne_nil hne hxs)
  refine ⟨x, hx, ?_⟩
  have hnonneg := (bounds_of_started hss hxs hx).1
  exact hnonneg.trans (x.readInfos.firstNeeded_le.trans x.readInfos.nextReadLocation_le)

theorem exists_forall₂ {β γ : Type*} {R : β → γ → Prop} {xs : List β}
    (h : ∀ x ∈ xs, ∃ y, R x y) : ∃ ys, List.Forall₂ R xs ys := by
  induction xs with
  | nil => exact ⟨[], .nil⟩
  | cons x xs ih =>
    obtain ⟨y, hy⟩ := h x (List.mem_cons_self ..)
    obtain ⟨ys, hys⟩ := ih fun x hx => h x (List.mem_cons_of_mem _ hx)
    exact ⟨y :: ys, .cons hy hys⟩

/-- In front of a round that reads `xs`: a pass over a queue that holds nothing else. -/
theorem Served.holds (hss : Obedient W ss) (h : Served W ss s) (xs : List α) :
    ∃ (w : Window (s.popped ++ xs)) (k : ℕ),
      Holds 0 (Obeying W (s.popped ++ xs)) w k s.distributor xs ∧
      List.Forall₂ (fun w x => Started W (s.popped ++ xs) (w, 0) x) ss s.distributor.slots := by
  obtain ⟨w, hhi, hpos, hdata, hlow⟩ := h.window
  have hstarted : List.Forall₂ (fun w x => Started W (s.popped ++ xs) (w, 0) x) ss
      s.distributor.slots :=
    ((List.forall₂_and_left _ _).2 ⟨hss, h.started⟩).imp fun _ _ hx =>
      hx.2.append (hx.1 _).1 le_rfl xs
  have hle : w.hi ≤ (s.popped ++ xs).length := by
    rw [List.length_append]
    omega
  have hobeying : ∃ ks, List.Forall₂ (fun x k => Obeying W (s.popped ++ xs) k x ∧ w.lo ≤ x.low)
      s.distributor.slots ks := by
    refine exists_forall₂ fun x hx => ?_
    obtain ⟨w', hw', hx'⟩ :=
      exists_of_forall₂ ((List.forall₂_and_left _ _).2 ⟨hss, hstarted⟩).flip hx
    obtain ⟨hc, hr⟩ := hw' (s.popped ++ xs)
    obtain ⟨k, hk⟩ := hx'.obeying hc le_rfl hr
    exact ⟨k, hk, hlow x hx⟩
  obtain ⟨ks, hks⟩ := hobeying
  refine ⟨⟨w.lo, w.hi, w.lo_le, hle⟩, ks.sum, ⟨hpos, ?_, ?_, ⟨ks, hks, rfl⟩, ?_⟩, hstarted⟩
  · rw [hdata, Window.data, Window.data, slice_append_of_le w.hi_le]
  · rw [Window.rest, hhi, List.drop_left]
  · obtain ⟨x, hx, hend⟩ := h.reached
    refine Or.inr ⟨x, hx, ?_, ?_⟩
    · show (w.hi : ℤ) ≤ _
      rw [hhi]
      exact hend
    · exact (Int.natCast_nonneg _).trans hend

/-- What a round does that reads `xs`. -/
theorem Served.round (hss : Obedient W ss) (hne : ss ≠ []) (h : Served W ss s) {xs : List α}
    (hasked : ∀ n ∈ s.distributor.asked, xs.length ≤ n)
    (hnone : s.distributor.asked = none → xs = [])
    {d : DataStreamDistributor α (Traced α S)} {b : Bool}
    (hround : Returns (fun k => guardedPass C (traced W) (reads xs) k (s.distributor, ())) (d, ())
      b) (system : System Party α) :
    Served W ss { s with system, distributor := d, status := .after b,
                         popped := s.popped ++ xs } := by
  obtain ⟨w, k, hholds, hstarted⟩ := h.holds hss xs
  have hslots := slots_ne_nil hne h.started
  obtain ⟨w', k', d', q', b', hret, hpass⟩ :=
    returns_loopWorkersOnce C (orderly_obeying W _) hholds hslots
  -- the round is this pass, and nothing is left of the queue
  have hguarded : Returns (fun k => guardedPass C (traced W) popRemaining k (s.distributor, xs))
      (d', q') b' := by
    obtain ⟨n, hn⟩ := hret
    exact ⟨n, by simp only [guardedPass, hn]⟩
  have hread : ∀ m ∈ s.distributor.asked, popRemaining xs m = (xs, []) := by
    intro m hm
    rw [popRemaining, List.take_of_length_le (hasked m hm), List.drop_of_length_le (hasked m hm)]
  have hround' := (returns_guardedPass_reads C (traced W) hread fun hn => (hnone hn).symm).2 hround
  obtain ⟨hdq, rfl⟩ := hguarded.unique (steady_guardedPass C (traced W) popRemaining _) hround'
  obtain ⟨rfl, rfl⟩ := Prod.mk.inj hdq
  have hhi : w'.hi = (s.popped ++ xs).length := by
    have hrest := hpass.holds.rest
    rw [Window.rest, eq_comm, List.drop_eq_nil_iff] at hrest
    exact le_antisymm w'.hi_le hrest
  refine ⟨?_, ⟨w', hhi, hpass.holds.pos, hpass.holds.data, fun x hx => ?_⟩, ?_, ?_⟩
  · exact forall₂_trans (fun _ _ _ hx hxy => hx.trans hxy) hstarted hpass.path
  · obtain ⟨ks, hks, -⟩ := hpass.holds.slots
    obtain ⟨k, hk⟩ := exists_of_forall₂ hks hx
    exact hk.2
  · rcases hpass.holds.reached with ⟨hnil, -⟩ | ⟨x, hx, hend, -⟩
    · exact absurd hnil (hpass.slots_ne_nil hslots)
    · exact ⟨x, hx, by rw [← hhi]; exact hend⟩
  · intro hended
    rcases hpass.value with ⟨rfl, -⟩ | ⟨-, -, -, hend⟩
    · cases hended
    · exact hend

/-- **Every step keeps what the workers have been served.** -/
theorem Served.step [Inhabited α] (hss : Obedient W ss) (hne : ss ≠ []) {a : Action α}
    (hflow : Flow s) (h : Served W ss s) (hs : Steps C (traced W) s a s') : Served W ss s' := by
  cases hs with
  | stop => exact ⟨h.started, h.window, h.reached, by rintro ⟨⟩⟩
  | round _ _ _ hasked hround =>
    have hround' := h.round hss hne (by rw [hasked]; rintro _ ⟨⟩) (fun _ => rfl) hround s.system
    simpa only [List.append_nil] using hround'
  | leave ht hs hidle hround =>
    obtain ⟨n, hl⟩ := hflow.leaves ht hs hidle
    refine h.round hss hne ?_ (by rw [hl.asked]; rintro ⟨⟩) hround _
    rintro m hm
    rw [hl.asked] at hm
    cases hm
    exact hl.le
  | read | again | add | within | shutdown => exact ⟨h.started, h.window, h.reached, h.ended⟩

/-! ## The end of the stream -/

/-- A round that executes no worker has read less than it has asked for. -/
theorem Served.short (hss : Obedient W ss) (h : Served W ss s) {xs : List α}
    {d : DataStreamDistributor α (Traced α S)}
    (hround : Returns (fun k => guardedPass C (traced W) (reads xs) k (s.distributor, ())) (d, ())
      false) : ∃ n, s.distributor.asked = some n ∧ xs.length < n := by
  obtain ⟨w, hhi, hpos, hdata, hlow⟩ := h.window
  obtain ⟨x, hx, hend⟩ := h.reached
  have hw := w.lo_le
  obtain ⟨needed, hneeded, hnonneg⟩ : ∃ needed,
      s.distributor.dataPointsNeededForNextRun = some needed ∧ 0 ≤ needed := by
    refine needed_nonneg_iff.2 ⟨x, hx, ?_⟩
    rw [hpos, hdata, length_data]
    omega
  have hsize : s.distributor.dataPointsNeededForNextRun.bind C.toSize = some needed.toNat := by
    rw [hneeded, Option.bind_some, C.toSize_of_nonneg hnonneg]
  have hpass : Returns (fun k => loopWorkersOnce C (traced W) (reads xs) k (s.distributor, ()))
      (d, ()) false := by
    obtain ⟨k, hk⟩ := hround
    refine ⟨k, ?_⟩
    simp only [guardedPass] at hk
    split at hk
    · cases hk
    · exact hk
  have hlt : xs.length < needed.toNat := by
    refine length_lt_of_false (q := ()) hsize hpass ⟨x, hx, ?_⟩
    have hnonneg' := (bounds_of_started hss h.started hx).1
    have hle := hlow x hx
    have hnext := x.readInfos.firstNeeded_le
    rw [hpos]
    rw [Slot.low] at hle
    omega
  refine ⟨needed.toNat, ?_, hlt⟩
  rw [asked, hneeded, Option.bind_some, if_pos (by omega)]

/-- What holds of a loop whose stream ends in time. -/
structure Complete (C : CppInt) (W : DataStreamWorker α S) (ss : List S)
    (d₀ : DataStreamDistributor α (Traced α S)) (s : MainLoop α (Traced α S)) : Prop where
  onTime : OnTime C (traced W) d₀ s
  served : Served W ss s
  drained : s.status = .ended → Drained s.system.queue

theorem Complete.step [Inhabited α] (hss : Obedient W ss) (hne : ss ≠ [])
    {d₀ : DataStreamDistributor α (Traced α S)} {a : Action α} (h : Complete C W ss d₀ s)
    (htime : InTime s a) (hs : Steps C (traced W) s a s') : Complete C W ss d₀ s' := by
  refine ⟨h.onTime.step htime hs, h.served.step hss hne h.onTime.flow hs, ?_⟩
  cases hs with
  | stop => rintro ⟨⟩
  | read hrunning =>
    intro hended
    rw [show s.status = _ from hended] at hrunning
    cases hrunning
  | @round d b _ _ _ hasked hround =>
    cases b with
    | true => rintro ⟨⟩
    | false =>
      obtain ⟨n, hn, -⟩ := h.served.short hss hround
      rw [hasked] at hn
      cases hn
  | @leave given range begin system d b ht hs hidle hround =>
    cases b with
    | true => rintro ⟨⟩
    | false =>
      obtain ⟨n, hl⟩ := h.onTime.flow.leaves ht hs hidle
      obtain ⟨m, hm, hlt⟩ := h.served.short hss hround
      rw [hl.asked] at hm
      cases hm
      intro _
      show Drained system.queue
      rw [hl.queue]
      refine ⟨hl.short hlt, ?_⟩
      by_contra hnil
      exact h.onTime.not_late ⟨hl.short hlt, hl.overtaken hlt hnil⟩
  | again hs | add hs | within _ hs =>
    exact fun hended => h.onTime.flow.stream.drained hs (h.drained hended)
  | shutdown => exact h.drained

theorem exists_addWorkers (hss : Obedient W ss) (d : DataStreamDistributor α (Traced α S))
    (hpos : d.currentGlobalBufferPos = 0) :
    ∃ d', addWorkers (traced W) d (untraced ss) = .ok d' () := by
  induction ss generalizing d with
  | nil => exact ⟨d, rfl⟩
  | cons w ss ih =>
    obtain ⟨-, s', i, -, hw, -⟩ := (hss w (List.mem_cons_self ..) []).2
    obtain ⟨d', hd'⟩ := ih (fun w hw => hss w (List.mem_cons_of_mem _ hw))
      { d with slots := d.slots ++ [⟨⟨s', [⟨w, 0, []⟩]⟩, i⟩] } hpos
    refine ⟨d', ?_⟩
    have hadd : addWorker (traced W) d ⟨w, []⟩ =
        .ok { d with slots := d.slots ++ [⟨⟨s', [⟨w, 0, []⟩]⟩, i⟩] } () := by
      simp only [addWorker, traced, hpos, hw, Res.lift_ok]
      rfl
    rw [untraced, List.map_cons, addWorkers, hadd, Res.bind_ok]
    exact hd'

end

/-- **The workers run alone.**  The loop starts with workers that obey the contract on
    every stream.  In every schedule, what has been read is the start of what was added,
    and the calls of each worker are the start of its reference run on it; they are all
    of this run when a pass has answered `false`.  If the stream ends in time, everything
    has been read then. -/
theorem workers_run_alone [Inhabited α] (C : CppInt) (W : DataStreamWorker α S) {ss : List S}
    (hss : Obedient W ss) (hne : ss ≠ []) (maxSize : ℕ) :
    ∃ d₀, addWorkers (traced W) {} (untraced ss) = .ok d₀ () ∧
      ∀ tr s, Run (Steps C (traced W)) (start maxSize d₀) tr s →
        s.popped <+: s.added.flatten ∧
        List.Forall₂ (fun w x => ∃ more, RunsAlone W s.popped w 0 (x.worker.calls ++ more) ∧
          (s.status = .ended → more = [])) ss s.distributor.slots ∧
        ((∀ x ∈ tr, InTime x.1 x.2.1) → s.status = .ended → s.popped = s.added.flatten) := by
  obtain ⟨d₀, hd₀⟩ := exists_addWorkers hss {} rfl
  have hserved := served_start hss hne maxSize hd₀
  refine ⟨d₀, hd₀, fun tr s hrun => ?_⟩
  obtain ⟨hflow, h⟩ : Flow s ∧ Served W ss s :=
    hrun.inv (I := fun s => Flow s ∧ Served W ss s) ⟨flow_start maxSize d₀, hserved⟩
      fun x _ hs hi => ⟨hi.1.step hs, hi.2.step hss hne hi.1 hs⟩
  refine ⟨hflow.popped_prefix, ?_, fun htime hended => ?_⟩
  · have hended : ∀ x ∈ s.distributor.slots, s.status = .ended →
        (s.popped.length : ℤ) < x.readInfos.readEnd := fun x hx he => h.ended he x hx
    have hslots := ((List.forall₂_and_left _ _).2 ⟨hss, h.started⟩).flip
    refine ((List.forall₂_and_left _ _).2 ⟨hended, hslots⟩).flip.imp ?_
    rintro w x ⟨hend, hw, hx⟩
    by_cases he : s.status = .ended
    · exact ⟨[], by rw [List.append_nil]; exact hx.runsAlone (hend he), fun _ => rfl⟩
    · obtain ⟨more, hmore⟩ := hx.runsAlone_append (hw s.popped).2
      exact ⟨more, hmore, fun he' => absurd he' he⟩
  · have hcomplete : Complete C W ss d₀ s := by
      refine hrun.inv ⟨onTime_start maxSize d₀, hserved, by rintro ⟨⟩⟩ fun x hx hs hi => ?_
      exact hi.step hss hne (htime x hx) hs
    obtain ⟨hended', hnil⟩ := hcomplete.drained hended
    have hidle : s.system.threads .consumer = .idle := by
      by_contra hbusy
      rw [(hflow.consumer hbusy).1] at hended
      cases hended
    rw [hflow.conserved, hidle, hnil, hflow.stream.ended hended']
    simp [BluedHdf5Converter.received]

/-- The counting workers, with chunks of two and of three data points. -/
theorem workers_run_alone_counting :
    ∃ d₀, addWorkers (traced simpleCountingWorker) {} (untraced [(2, 0), (3, 0)]) = .ok d₀ () ∧
      ∀ tr s, Run (Steps (α := ℕ) CppInt.wrapping (traced simpleCountingWorker)) (start 4 d₀) tr s →
        s.popped <+: s.added.flatten ∧
        List.Forall₂ (fun w x => ∃ more,
          RunsAlone simpleCountingWorker s.popped w 0 (x.worker.calls ++ more) ∧
            (s.status = .ended → more = [])) [(2, 0), (3, 0)] s.distributor.slots ∧
        ((∀ x ∈ tr, InTime x.1 x.2.1) → s.status = .ended → s.popped = s.added.flatten) := by
  refine workers_run_alone CppInt.wrapping simpleCountingWorker ?_ (by simp) 4
  intro w hw l
  rcases hw with _ | ⟨_, _ | ⟨_, ⟨⟩⟩⟩
  · exact ⟨simpleCountingWorker_obeysContract l 2, simpleCountingWorker_runsAlone l (by decide)⟩
  · exact ⟨simpleCountingWorker_obeysContract l 3, simpleCountingWorker_runsAlone l (by decide)⟩

end MainLoop

end SmartScreen
