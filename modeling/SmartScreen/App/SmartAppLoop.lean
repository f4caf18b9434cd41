/-
  The smart app in the main loop.

  The meta data is shared with the thread that reads the stream, which synchronises the
  time, so the workers may find other meta data at every call; only the power meta data is
  fixed.  The first requests of the workers lie behind the start of the stream.  On a
  stream that is long enough for these the workers are orderly.  If no number wraps, there
  is a length that their buffer never exceeds (`maxBuffer`).

  * `smartApp_runs_alone`: the power meta data is fixed before the workers are added;
  * `nofareApp_ends`: it is configured afterwards, as `nofare_app` does.
-/
import SmartScreen.App.IndexRange
import SmartScreen.App.LoopRest
import SmartScreen.App.StartOrder

namespace SmartScreen

open LTS Loop Window DataStreamDistributor EventDetector

variable {α F S σ : Type}

/-! ## Meta data that changes -/

/-- The worker finds the meta data `mds 0` at its next call, `mds 1` at the one after
    that, and so on. -/
def findingMetaData (W : DynamicStreamMetaData → DataStreamWorker α S) :
    DataStreamWorker α ((ℕ → DynamicStreamMetaData) × S) := fun (mds, s) dataPoints id =>
  (W (mds 0) s dataPoints id).lift (fun n => mds (n + 1), ·)

/-- From some call on the worker finds the power meta data `m`. -/
def FindsPower (m : PowerMetaData) (t : (ℕ → DynamicStreamMetaData) × S) : Prop :=
  ∀ n, (t.1 n).powerMetaData = m

/-- The same, but for the next call. -/
def WillFindPower (m₀ m : PowerMetaData) (t : (ℕ → DynamicStreamMetaData) × S) : Prop :=
  (t.1 0).powerMetaData = m₀ ∧ ∀ n, (t.1 (n + 1)).powerMetaData = m

theorem FindsPower.willFindPower {m : PowerMetaData} {t : (ℕ → DynamicStreamMetaData) × S}
    (h : FindsPower m t) : WillFindPower m m t :=
  ⟨h 0, fun n => h (n + 1)⟩

section
variable {W : DynamicStreamMetaData → DataStreamWorker α S} {m₀ m : PowerMetaData}

theorem worksAs_findingMetaData (m₀ m : PowerMetaData)
    (W : DynamicStreamMetaData → DataStreamWorker α S) :
    WorksAs (findingMetaData W) Prod.snd (WillFindPower m₀ m) (FindsPower m)
      fun t => W (t.1 0) := by
  rintro ⟨mds, s⟩ dataPoints id s' i ⟨-, hP⟩ hw
  refine ⟨(fun n => mds (n + 1), s'), ?_, rfl, hP⟩
  simp only at hw
  rw [findingMetaData, hw, Res.lift_ok]

/-- Workers that are orderly with every meta data of this power. -/
theorem orderly_findingMetaData {l : List α} {r : ℕ} {I : ℕ → Slot S → Prop} (hr : r ≤ l.length)
    (hI : ∀ md : DynamicStreamMetaData, md.powerMetaData = m → Orderly (W md) l r I) :
    Orderly (findingMetaData W) l r fun k x => FindsPower m x.worker ∧ I k (x.map Prod.snd) := by
  refine WorksAs.orderly (W := fun t => W (t.1 0)) ?_ hr fun t ht => hI _ (ht 0)
  intro t dataPoints id s i ht hw
  exact worksAs_findingMetaData m m W t dataPoints id s i ht.willFindPower hw

end

/-! ## The workers of the app -/

section
variable [FloatArith F] [DataPoint α F] (C : CppInt) (slot : σ → Event α → Res Fault σ Unit)

def appWorker : DataStreamWorker α ((ℕ → DynamicStreamMetaData) × AppWorker F σ) :=
  findingMetaData fun md => AppWorker.workOnDataPoints C md slot

/-- The workers that the constructor adds, with the meta data that each of them will
    find. -/
def appWorkers (mds mds' : ℕ → DynamicStreamMetaData) (s : EventDetector F × σ)
    (p : MetricProvider) : List ((ℕ → DynamicStreamMetaData) × AppWorker F σ) :=
  [(mds, .eventDetector s), (mds', .metricProvider p)]

variable {C slot} {m₀ m : PowerMetaData} {mds mds' : ℕ → DynamicStreamMetaData}

theorem workOnDataPoints_first {md md' : DynamicStreamMetaData}
    (h : md.powerMetaData = md'.powerMetaData) (s : AppWorker F σ) (id : ℤ) :
    AppWorker.workOnDataPoints C md slot s [] id =
      AppWorker.workOnDataPoints C md' slot s [] id := by
  cases s with
  | eventDetector s =>
    obtain ⟨d, o⟩ := s
    simp only [AppWorker.workOnDataPoints, workOnDataPoints_nil, h]
  | metricProvider p =>
    simp only [AppWorker.workOnDataPoints, MetricProvider.workOnDataPoints_ok _ (Or.inl rfl), h]

variable (C slot) in
/-- The constructor of the app adds its two workers, which keep a record and the meta data
    that they will find. -/
theorem exists_addWorkers_app (hmds : (mds 0).powerMetaData = m₀)
    (hnext : ∀ n, (mds (n + 1)).powerMetaData = m) (hmds' : (mds' 0).powerMetaData = m₀)
    (hnext' : ∀ n, (mds' (n + 1)).powerMetaData = m) (d : EventDetector F) (o : σ)
    (p : MetricProvider) :
    ∃ d₀, addWorkers (traced (appWorker C slot)) {}
        (MainLoop.untraced (appWorkers mds mds' (d, o) p)) = .ok d₀ () ∧
      (d₀.map Traced.worker).map Prod.snd = appStart m₀ d o p ∧
      (∀ x ∈ (d₀.map Traced.worker).slots, FindsPower m x.worker) ∧
      ∀ l : List α, List.Forall₂ (fun w x => Started (appWorker C slot) l (w, 0) x)
        (appWorkers mds mds' (d, o) p) d₀.slots := by
  -- the first call depends on the power meta data only
  have hfirst : ∀ (t : (ℕ → DynamicStreamMetaData) × AppWorker F σ) id s i, WillFindPower m₀ m t →
      AppWorker.workOnDataPoints (α := α) C { powerMetaData := m₀ } slot t.2 [] id = .ok s i →
      ∃ t', appWorker C slot t ([] : List α) id = .ok t' i ∧ t'.2 = s ∧ FindsPower m t' := by
    intro t id s i ht hw
    have hpower : ({ powerMetaData := m₀ } : DynamicStreamMetaData).powerMetaData =
        (t.1 0).powerMetaData := ht.1.symm
    rw [workOnDataPoints_first hpower] at hw
    exact worksAs_findingMetaData m₀ m _ t [] id s i ht hw
  have hwill : ∀ t ∈ appWorkers mds mds' (d, o) p, WillFindPower m₀ m t := by
    intro t ht
    rcases ht with _ | ⟨_, _ | ⟨_, ⟨⟩⟩⟩
    · exact ⟨hmds, hnext⟩
    · exact ⟨hmds', hnext'⟩
  have happ : addWorkers (AppWorker.workOnDataPoints (α := α) C { powerMetaData := m₀ } slot) {}
      [.eventDetector (d, o), .metricProvider p] = .ok (appStart m₀ d o p) () := smartApp_eq d o p
  obtain ⟨d₁, xs, hd₁, hmap, hslots, hxs⟩ := exists_addWorkers_of_map hfirst hwill (d := {}) happ
  obtain rfl : d₁.slots = xs := hslots
  have htraced : ∀ (t : Traced α ((ℕ → DynamicStreamMetaData) × AppWorker F σ)) id s i, True →
      appWorker C slot t.worker [] id = .ok s i →
      ∃ t', traced (appWorker C slot) t [] id = .ok t' i ∧ t'.worker = s ∧ True :=
    fun t id s i => worksAs_traced (appWorker C slot) t [] id s i
  have hbase : addWorkers (appWorker C slot)
      (({} : DataStreamDistributor α (Traced α _)).map Traced.worker)
      (List.map (Traced.worker (α := α)) (MainLoop.untraced (appWorkers mds mds' (d, o) p))) =
        .ok d₁ () := hd₁
  obtain ⟨d₀, ys, hd₀, hmap', hslots', -⟩ :=
    exists_addWorkers_of_map htraced (fun _ _ => trivial) hbase
  obtain ⟨-, -, zs, hzs, hstarted⟩ := MainLoop.addWorkers_cases hd₀ rfl
  obtain rfl : d₀.slots = zs := hzs
  refine ⟨d₀, hd₀, ?_, ?_, hstarted⟩
  · rw [hmap', hmap]
  · rw [hmap']
    exact hxs

/-- What the workers of the app keep, on a stream on which they are orderly. -/
def KeepsApp (m : PowerMetaData) (I : ℕ → Slot (AppWorker F σ) → Prop) (k : ℕ)
    (x : Slot ((ℕ → DynamicStreamMetaData) × AppWorker F σ)) : Prop :=
  FindsPower m x.worker ∧ I k (x.map Prod.snd)

theorem orderly_app {l : List α} {r : ℕ} {I : ℕ → Slot (AppWorker F σ) → Prop} (hr : r ≤ l.length)
    (hI : ∀ md : DynamicStreamMetaData, md.powerMetaData = m →
      Orderly (AppWorker.workOnDataPoints C md slot) l r I) :
    Orderly (appWorker C slot) l r (KeepsApp m I) :=
  orderly_findingMetaData hr hI

/-- The app on a stream that may still come. -/
theorem mayCome_app {l : List α} {r : ℕ} {I : ℕ → Slot (AppWorker F σ) → Prop}
    (hI : Orderly (appWorker C slot) l r (KeepsApp m I)) {d : EventDetector F} {o : σ}
    {p : MetricProvider}
    (hholds : ∃ k, Holds r I (Window.start l) k (appStart m₀ d o p) l)
    {d₀ : DataStreamDistributor α (Traced α ((ℕ → DynamicStreamMetaData) × AppWorker F σ))}
    (hmap : (d₀.map Traced.worker).map Prod.snd = appStart m₀ d o p)
    (hpower : ∀ x ∈ (d₀.map Traced.worker).slots, FindsPower m x.worker)
    {s : MainLoop α (Traced α ((ℕ → DynamicStreamMetaData) × AppWorker F σ))}
    (hstart : s.added.flatten <+: l)
    (hended : s.system.queue.streamEnded = true → l = s.added.flatten) :
    MainLoop.MayCome (traced (appWorker C slot)) r (fun k x => True ∧ KeepsApp m I k x.base) d₀ s
      l := by
  obtain ⟨k, hk⟩ := hholds
  rw [← hmap] at hk
  have hkeeps : Holds r (fun k x => True ∧ KeepsApp m I k x.base) (start l) k d₀ l :=
    (hk.of_map hpower).of_map (P := fun _ => True) fun _ _ => trivial
  refine ⟨hI.traced, ⟨k, hkeeps⟩, ?_, hstart, hended⟩
  intro hnil
  have hslots : ((d₀.map Traced.worker).map Prod.snd).slots = [] := by
    simp [DataStreamDistributor.map, hnil]
  rw [hmap] at hslots
  cases hslots

end

/-! ## The app in the main loop -/

open MainLoop in
/-- **The app in the main loop.**  The power meta data is fixed before the workers are
    added, and the listeners of the detector do not throw.  In every schedule in which the
    stream does not end while the consumer is overtaken: on every stream that may still
    come and that has the data points stored before an event and those of a second, the
    detector and the metric provider have been called as if each ran alone on it, and
    when a pass has answered `false`, they have got all of it. -/
theorem smartApp_runs_alone [FloatArith F] [DataPoint α F] [Inhabited α] (C : CppInt)
    (m : PowerMetaData) (hf : 1 ≤ m.frequency) (hs : m.frequency ≤ m.sampleRate)
    (hb : 0 ≤ m.before) (ho : 0 ≤ m.ofEvent) (mds mds' : ℕ → DynamicStreamMetaData)
    (hmds : ∀ n, (mds n).powerMetaData = m) (hmds' : ∀ n, (mds' n).powerMetaData = m)
    (slot : σ → Event α → Res Fault σ Unit) (hslot : ∀ o e, ∃ o', slot o e = .ok o' ())
    (threshold : F) (compareAfter : ℤ) (o : σ) (p : MetricProvider) (maxSize : ℕ) :
    let ws := appWorkers mds mds' ({ threshold := threshold, compareAfter := compareAfter }, o) p
    ∃ d₀, addWorkers (traced (appWorker C slot)) {} (untraced ws) = .ok d₀ () ∧
      ∀ tr s, Run (Steps C (traced (appWorker C slot))) (start maxSize d₀) tr s →
        (∀ x ∈ tr, InTime x.1 x.2.1) →
        ∀ l : List α, s.added.flatten <+: l →
          (s.system.queue.streamEnded = true → l = s.added.flatten) →
          m.before ≤ l.length → m.sampleRate ≤ l.length →
          List.Forall₂ (fun w x => ∃ more, RunsAlone (appWorker C slot) l w 0
            (x.worker.calls ++ more) ∧ (s.status = .ended → more = [])) ws s.distributor.slots ∧
          (s.status = .ended → s.popped = l) := by
  have hm : Counts m := ⟨PowerMetaData.dataPointsPerPeriod_pos hf hs, hb, ho⟩
  let detector : EventDetector F := { threshold := threshold, compareAfter := compareAfter }
  obtain ⟨d₀, hd₀, hmap, hpower, hstarted⟩ := exists_addWorkers_app (α := α) C slot
    (hmds 0) (fun n => hmds (n + 1)) (hmds' 0) (fun n => hmds' (n + 1)) detector o p
  refine ⟨d₀, hd₀, fun tr s hrun htime l hstart hended hl hl' => ?_⟩
  have hI : Orderly (appWorker C slot) l 0 (KeepsApp m (AppAt (F := F) m l)) :=
    orderly_app (Nat.zero_le _) fun md hmd => orderly_appAt hm hmd hslot C l
  have hcounts : Counts ({ powerMetaData := m } : DynamicStreamMetaData).powerMetaData := hm
  have hholds := holds_appStart hcounts hl hl' detector rfl o p
  exact (OnTime.of_run hrun htime).runsAlone (mayCome_app hI hholds hmap hpower hstart hended) hI
    (hstarted l)

instance instInhabitedDefaultDataPoint [Inhabited F] : Inhabited (DefaultDataPoint F) :=
  ⟨⟨default, default⟩⟩

open MainLoop AsyncDataQueue in
/-- Periods of two data points and a current that rises twice: the producer adds all of it,
    and a pass reads 11 data points, of which the detector gets one chunk and the metric
    provider four periods. -/
theorem smartApp_runs_alone_small :
    let W := appWorker (α := DefaultDataPoint ℚ) CppInt.wrapping record
    let ws := appWorkers (fun _ => { powerMetaData := smallMetaData })
      (fun _ => { powerMetaData := smallMetaData })
      ({ threshold := (1 : ℚ), compareAfter := 3 }, []) ⟨0, 0⟩
    ∃ d₀ tr s, addWorkers (traced W) {} (untraced ws) = .ok d₀ () ∧
      Run (Steps CppInt.wrapping (traced W)) (start 64 d₀) tr s ∧
      s.added = [risingCurrent] ∧ s.popped = risingCurrent.take 11 ∧
      s.distributor.slots.map (fun x => x.worker.calls.length) = [1 + 1, 1 + 4] ∧
      List.Forall₂ (fun w x => ∃ more, RunsAlone W risingCurrent w 0 (x.worker.calls ++ more))
        ws s.distributor.slots := by
  intro W ws
  obtain ⟨d₀, hd₀, hall⟩ := smartApp_runs_alone (α := DefaultDataPoint ℚ) CppInt.wrapping
    smallMetaData (by decide) (by decide) (by decide) (by decide)
    (fun _ => { powerMetaData := smallMetaData }) (fun _ => { powerMetaData := smallMetaData })
    (fun _ => rfl) (fun _ => rfl) record record_ok (1 : ℚ) 3 [] ⟨0, 0⟩ 64
  have hasked : d₀.asked = some 11 := by
    cases hd₀
    rfl
  -- the pass of the workers
  obtain ⟨⟨d₁, ⟨⟩⟩, b, hpass, hcalls⟩ := Res.exists_of_state?
    (r := guardedPass CppInt.wrapping (traced W) (reads (risingCurrent.take 11)) 10 (d₀, ()))
    (f := fun dq => dq.1.slots.map fun x => x.worker.calls.length) (c := [1 + 1, 1 + 4])
    (by cases hd₀; decide +kernel)
  -- the steps of the queue
  obtain ⟨s₁, h₁, s₂, h₂, s₃, h₃, s₄, h₄, s₅, h₅, s₆, h₆, s₇, h₇, ht, hidle⟩ :
      ∃ s₁, streamStep ({ queue := { queueMaxSize := 64 } } : System Party (DefaultDataPoint ℚ))
        (.call .producer (.addDataPoints risingCurrent)) = some s₁ ∧
      ∃ s₂, streamStep s₁ (.test .producer) = some s₂ ∧
      ∃ s₃, streamStep s₂ (.locked .producer) = some s₃ ∧
      ∃ s₄, streamStep s₃ (.test .producer) = some s₄ ∧
      ∃ s₅, streamStep s₄ (.call .consumer (.popDataPoints (List.replicate 11 default))) =
        some s₅ ∧
      ∃ s₆, streamStep s₅ (.locked .consumer) = some s₆ ∧
      ∃ s₇, streamStep s₆ (.test .consumer) = some s₇ ∧
        s₆.threads .consumer = .popDataPointsTest (List.replicate 11 default)
          (risingCurrent.take 11) 11 ∧ s₇.threads .consumer = .idle :=
    ⟨_, rfl, _, rfl, _, rfl, _, rfl, _, rfl, _, rfl, _, rfl, rfl, rfl⟩
  have hadd : Run (Steps CppInt.wrapping (traced W)) (start 64 d₀) _ _ := Run.nil.snoc (.add h₁)
  have hadded := ((hadd.snoc (.within (a := .test .producer) rfl h₂)).snoc
    (.within (a := .locked .producer) rfl h₃)).snoc (.within (a := .test .producer) rfl h₄)
  have hread := (hadded.snoc (.read rfl rfl hasked h₅)).snoc
    (.within (a := .locked .consumer) rfl h₆)
  have hrun := hread.snoc (.leave ht h₇ hidle ⟨10, hpass⟩)
  have hflatten : [risingCurrent].flatten = risingCurrent := List.append_nil _
  obtain ⟨hslots, -⟩ := hall _ _ hrun (by simp [MainLoop.InTime]) risingCurrent
    ⟨[], by rw [List.append_nil]; exact hflatten⟩ (fun _ => hflatten.symm) (by decide) (by decide)
  refine ⟨d₀, _, _, hd₀, hrun, rfl, rfl, hcalls, hslots.imp ?_⟩
  rintro w x ⟨more, hmore, -⟩
  exact ⟨more, hmore⟩

/-! ## The start order of `nofare_app` -/

section
variable [FloatArith F] [DataPoint α F] {m : PowerMetaData} {t : F} {l : List α} {k maxSize : ℕ}
  {x : Slot (AppWorker F σ)}

end

end SmartScreen
