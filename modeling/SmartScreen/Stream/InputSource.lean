/-
  The source of the BLUED data set (`BluedHdf5InputSource`).

  The file is a list of rows.  Its thread reads it in chunks, hands them to the
  queue, and synchronises the time of each chunk with the stream meta data.

  * `rows_added`: the queue gets the rows in order and without gaps, so the number
    of a data point is that of its row.
  * `getDataPointTime_of_synced`: what a synchronised pair of a row and its time is
    good for.
  * `time_synchronised_iff`: the pairs are not of that kind.
-/
import SmartScreen.Detector.DataPoint
import SmartScreen.Lib.Run
import SmartScreen.Stream.TimeStamps

namespace SmartScreen

open LTS Rounding DynamicStreamMetaData

variable {F : Type}

/-- What becomes of a `float` outside of its arithmetic. -/
structure FloatConversions (F : Type) where
  /-- the conversion to `int64_t` -/
  toInt64 : F → ℤ
  /-- the number that it stands for -/
  value : F → ℚ

/-- The conversions of exact numbers; `toInt64` rounds towards zero. -/
def exactConversions : FloatConversions ℚ where
  toInt64 q := q.num.tdiv q.den
  value q := q

structure BluedHdf5InputSource (F : Type) where
  continueReading : Bool := true
  currentOffset : ℕ := 0
  startTime : TimeType := none
  metaData : DynamicStreamMetaData := {}
  /-- what has been handed to the queue -/
  added : List (BluedDataPoint F) := []

namespace BluedHdf5InputSource

def bufferSize : ℕ := 1000

section
variable [FloatArith F] (conv : FloatConversions F)

/-- `x_value * 1000 * 1000`, as microseconds -/
def timePassed (d : BluedDataPoint F) : ℤ :=
  conv.toInt64 (d.xValue * ((1000 : ℕ) : F) * ((1000 : ℕ) : F))

def updateDynamicStreamMetaData (s : BluedHdf5InputSource F) (toUpdate : BluedDataPoint F) :
    BluedHdf5InputSource F :=
  let dpId := sizeSub s.currentOffset 1
  { s with metaData :=
      s.metaData.syncTimePoint dpId (s.startTime.map (· + timePassed conv toUpdate)) }

/-- `buffer` are the rows that have been read. -/
def writeBufferToDataSet (s : BluedHdf5InputSource F) (buffer : List (BluedDataPoint F)) :
    BluedHdf5InputSource F :=
  let s := { s with added := s.added ++ buffer }
  match buffer.getLast? with
  | some last => s.updateDynamicStreamMetaData conv last
  | none => s

def readOnce (rows : List (BluedDataPoint F)) (s : BluedHdf5InputSource F) :
    BluedHdf5InputSource F × Bool :=
  if !s.continueReading then (s, false)
  else
    let remaining := sizeSub rows.length s.currentOffset
    let readCount := if bufferSize > remaining then remaining else bufferSize
    let s := if bufferSize > remaining then { s with continueReading := false } else s
    let buffer := (rows.drop s.currentOffset).take readCount
    let s := s.writeBufferToDataSet conv buffer
    let s := { s with currentOffset := s.currentOffset + readCount }
    (s, s.continueReading)

/-- What happens while the file is read: the thread reads a chunk, `startReading`
    gets to set the start time, or other threads stop the source or set the meta
    data. -/
inductive Action where
  | readOnce
  | setStartTime (time : TimeType)
  | stop
  | setFixedPowerMetaData (m : PowerMetaData)

def step (rows : List (BluedDataPoint F)) (s : BluedHdf5InputSource F) :
    Action → Option (BluedHdf5InputSource F)
  | .readOnce => some (s.readOnce conv rows).1
  | .setStartTime time => some { s with startTime := time }
  | .stop => some { s with continueReading := false }
  | .setFixedPowerMetaData m =>
    some { s with metaData := s.metaData.setFixedPowerMetaData m }

/-- The steps as a relation. -/
def Steps (rows : List (BluedDataPoint F)) (s : BluedHdf5InputSource F) (a : Action)
    (s' : BluedHdf5InputSource F) : Prop :=
  s.step conv rows a = some s'

/-! ## What is to be synchronised -/

/-- A step that reads up to a row passes on the number of this row and its time. -/
def SyncsLastRow (rows : List (BluedDataPoint F)) (s s' : BluedHdf5InputSource F) : Prop :=
  s.currentOffset < s'.currentOffset →
    ∃ row, rows[s'.currentOffset - 1]? = some row ∧
      s'.metaData.syncedPackageId = (s'.currentOffset - 1 : ℕ) ∧
      s'.metaData.packetTime = s.startTime.map (· + timePassed conv row)

/-- Consecutive rows are `1 / sampleRate` seconds apart. -/
def Regular (rows : List (BluedDataPoint F)) (sampleRate : ℕ) : Prop :=
  ∀ i row row', rows[i]? = some row → rows[i + 1]? = some row' →
    conv.value row'.xValue = conv.value row.xValue + 1 / sampleRate

/-- The times of the rows from `first` on, and before `last`, are known to a
    microsecond. -/
def TimesKnown (C : CppInt) (rows : List (BluedDataPoint F)) (md : DynamicStreamMetaData)
    (startTime : TimeType) (first last : ℕ) : Prop :=
  ∀ i row start, first ≤ i → i < last → rows[i]? = some row → startTime = some start →
    ∃ time, md.getDataPointTime C i = .ok (some time) ∧
      |(time : ℚ) - (start + conv.value row.xValue * 1000000)| ≤ 1

/-- The step synchronises the last row that it reads, and if the rows are regular,
    the times of all rows that it reads are then known. -/
def Synchronises (C : CppInt) (rows : List (BluedDataPoint F)) (s s' : BluedHdf5InputSource F) :
    Prop :=
  SyncsLastRow conv rows s s' ∧
    (s.currentOffset < s'.currentOffset →
      Regular conv rows s'.metaData.powerMetaData.sampleRate →
      TimesKnown conv C rows s'.metaData s.startTime s.currentOffset s'.currentOffset)

/-! ## What a chunk is -/

variable {conv} {rows : List (BluedDataPoint F)} {s s' : BluedHdf5InputSource F}

/-- The number of rows of the next chunk. -/
def chunk (rows : List (BluedDataPoint F)) (s : BluedHdf5InputSource F) : ℕ :=
  min bufferSize (rows.length - s.currentOffset)

theorem readOnce_stopped (h : s.continueReading = false) : (s.readOnce conv rows).1 = s := by
  simp [readOnce, h]

/-- What `readOnce` does. -/
theorem readOnce_spec (h : s.continueReading = true) (ho : s.currentOffset ≤ rows.length) :
    (s.readOnce conv rows).1.currentOffset = s.currentOffset + s.chunk rows ∧
      (s.readOnce conv rows).1.added =
        s.added ++ (rows.drop s.currentOffset).take (s.chunk rows) ∧
      (s.readOnce conv rows).1.startTime = s.startTime ∧
      ∀ last, ((rows.drop s.currentOffset).take (s.chunk rows)).getLast? = some last →
        (s.readOnce conv rows).1.metaData =
          s.metaData.syncTimePoint (sizeSub s.currentOffset 1)
            (s.startTime.map (· + timePassed conv last)) := by
  have hcount : (if bufferSize > rows.length - s.currentOffset then rows.length - s.currentOffset
      else bufferSize) = s.chunk rows := by
    rw [chunk]
    split_ifs with hlt <;> omega
  have hstop : (if bufferSize > rows.length - s.currentOffset then
      { s with continueReading := false } else s) =
      { s with continueReading := decide (bufferSize ≤ rows.length - s.currentOffset) } := by
    split_ifs with hlt
    · simp [hlt]
    · simp [not_lt.1 hlt, ← h]
  simp only [readOnce, h, Bool.not_true, Bool.false_eq_true, if_false, sizeSub_of_le ho, hcount,
    hstop, writeBufferToDataSet]
  cases hlast : ((rows.drop s.currentOffset).take (s.chunk rows)).getLast? with
  | none => exact ⟨rfl, rfl, rfl, fun last hl => by cases hl⟩
  | some last =>
    refine ⟨rfl, rfl, rfl, ?_⟩
    intro last' hl
    cases hl
    rfl

/-! ## Runs -/

/-- How far the file has been read. -/
structure Inv (rows : List (BluedDataPoint F)) (s : BluedHdf5InputSource F) : Prop where
  le : s.currentOffset ≤ rows.length
  added : s.added = rows.take s.currentOffset

theorem Inv.step {a : Action} (h : Inv rows s) (hs : Steps conv rows s a s') : Inv rows s' := by
  cases a with
  | readOnce =>
    cases hs
    cases hc : s.continueReading with
    | false => rwa [readOnce_stopped hc]
    | true =>
      have hread := @readOnce_spec _ _ conv rows s hc h.le
      obtain ⟨ho, hadded, -⟩ := hread
      constructor
      · rw [ho, chunk]
        have := h.le
        omega
      · rw [hadded, ho, h.added, List.take_add]
  | setStartTime | stop | setFixedPowerMetaData => cases hs; exact ⟨h.le, h.added⟩

/-- The source when `startReading` starts its thread. -/
def startReading (md : DynamicStreamMetaData) : BluedHdf5InputSource F := { metaData := md }

omit [FloatArith F] in
theorem inv_start (md : DynamicStreamMetaData) : Inv rows (startReading md) :=
  ⟨Nat.zero_le _, rfl⟩

/-- **Numbering.**  The queue gets the first rows of the file, each in its place. -/
theorem rows_added {md : DynamicStreamMetaData}
    (h : Reach (Steps conv rows) (startReading md) s) : s.added = rows.take s.currentOffset :=
  (h.inv (inv_start md) fun _ _ _ hs hi => hi.step hs).added

/-- The step reads rows. -/
def ReadsRows (rows : List (BluedDataPoint F)) (s : BluedHdf5InputSource F) (a : Action) : Prop :=
  a = .readOnce ∧ s.continueReading = true ∧ s.currentOffset < rows.length

theorem offset_of_not_readsRows {a : Action} (h : Inv rows s) (hs : Steps conv rows s a s')
    (hr : ¬ ReadsRows rows s a) : s'.currentOffset = s.currentOffset := by
  cases a with
  | readOnce =>
    cases hs
    cases hc : s.continueReading with
    | false => rw [readOnce_stopped hc]
    | true =>
      have hle : rows.length ≤ s.currentOffset := by
        by_contra hlt
        exact hr ⟨rfl, hc, not_le.1 hlt⟩
      rw [(readOnce_spec hc h.le).1, chunk]
      omega
  | setStartTime | stop | setFixedPowerMetaData => cases hs; rfl

/-- **The number that is passed on** is that of the row before the chunk. -/
theorem syncs_wrong_row {a : Action} (h : Inv rows s) (hs : Steps conv rows s a s')
    (hr : ReadsRows rows s a) : ¬ SyncsLastRow conv rows s s' := by
  obtain ⟨rfl, hc, hlt⟩ := hr
  cases hs
  have hread := @readOnce_spec _ _ conv rows s hc h.le
  obtain ⟨ho, -, -, hmd⟩ := hread
  have hpos : 0 < s.chunk rows := by
    rw [chunk, bufferSize]
    omega
  intro hsync
  obtain ⟨row, -, hid, -⟩ := hsync (by omega)
  have hne : (rows.drop s.currentOffset).take (s.chunk rows) ≠ [] := by
    rw [Ne, List.take_eq_nil_iff, List.drop_eq_nil_iff]
    omega
  rw [hmd _ (List.getLast?_eq_some_getLast hne), ho] at hid
  have hle : s.chunk rows ≤ 1000 := min_le_left ..
  simp only [DynamicStreamMetaData.syncTimePoint, sizeSub] at hid
  split_ifs at hid <;> omega

/-- **The last rows are never synchronised.**  In a run all chunks are synchronised
    iff there is nothing to read, or the source is stopped before the first chunk. -/
theorem time_synchronised_iff (C : CppInt) (md : DynamicStreamMetaData)
    {tr : List (BluedHdf5InputSource F × Action × BluedHdf5InputSource F)}
    (hrun : Run (Steps conv rows) (startReading md) tr s) :
    (∀ x ∈ tr, Synchronises conv C rows x.1 x.2.2) ↔
      rows = [] ∨ ∀ x ∈ tr, x.2.1 = .readOnce → x.1.continueReading = false := by
  have hstep : ∀ x ∈ tr, (Synchronises conv C rows x.1 x.2.2 ↔ ¬ ReadsRows rows x.1 x.2.1) := by
    intro x hx
    have hinv := (hrun.reach_of_mem x hx).1.inv (inv_start md) fun _ _ _ hs hi => hi.step hs
    have hs := hrun.step_of_mem x hx
    constructor
    · exact fun hsync hr => syncs_wrong_row hinv hs hr hsync.1
    · intro hr
      have ho := offset_of_not_readsRows hinv hs hr
      exact ⟨fun hlt => absurd hlt (by omega), fun hlt => absurd hlt (by omega)⟩
  rw [forall₂_congr hstep]
  constructor
  · intro hr
    rw [or_iff_not_imp_left]
    intro hrows
    -- nothing is read before the first chunk
    have hzero : s.currentOffset = 0 ∧ ∀ x ∈ tr, x.1.currentOffset = 0 := by
      clear hstep
      induction hrun with
      | nil => exact ⟨rfl, by simp⟩
      | @snoc tr t t' a hrun ha ih =>
        obtain ⟨ht, htr⟩ := ih fun x hx => hr x (by simp [hx])
        have hinv := hrun.inv (inv_start md) fun _ _ hs hi => hi.step hs
        have ho := offset_of_not_readsRows hinv ha (hr (t, a, t') (by simp))
        refine ⟨ho.trans ht, ?_⟩
        intro x hx
        rcases List.mem_append.1 hx with hx | hx
        · exact htr x hx
        · rw [List.mem_singleton] at hx
          rw [hx]
          exact ht
    intro x hx ha
    by_contra hc
    refine hr x hx ⟨ha, by simpa using hc, ?_⟩
    rw [hzero.2 x hx]
    exact List.length_pos_iff.2 hrows
  · rintro (rfl | hstop) x hx ⟨ha, hc, hlt⟩
    · cases hlt
    · rw [hstop x hx ha] at hc
      cases hc

end

/-- One row, read in the first chunk: the number of the row before it is `2 ^ 64 - 1`. -/
theorem time_not_synchronised :
    ∃ tr s, Run (Steps exactConversions [⟨0, 0, 0, 0⟩]) (startReading {}) tr s ∧
      s.metaData.syncedPackageId = 2 ^ 64 - 1 ∧
      ¬ ∀ x ∈ tr, Synchronises exactConversions CppInt.wrapping [⟨0, 0, 0, 0⟩] x.1 x.2.2 := by
  obtain ⟨s, hs, hid⟩ : ∃ s, (startReading {} : BluedHdf5InputSource ℚ).step exactConversions
      [⟨0, 0, 0, 0⟩] .readOnce = some s ∧ s.metaData.syncedPackageId = 2 ^ 64 - 1 :=
    ⟨_, rfl, by decide⟩
  refine ⟨_, s, Run.nil.snoc hs, hid, fun h => ?_⟩
  exact syncs_wrong_row (inv_start {}) hs ⟨rfl, rfl, by decide⟩
    (h _ (List.mem_singleton.2 rfl)).1

/-- Two rows are read to the end of the file after the start time was set. -/
theorem time_synchronised_iff_twoRows :
    ∃ tr s, Run (Steps exactConversions [⟨0, 0, 0, 0⟩, ⟨1, 0, 0, 0⟩]) (startReading {}) tr s ∧
      s.currentOffset = 2 ∧ s.continueReading = false ∧
      ¬ ∀ x ∈ tr, Synchronises exactConversions CppInt.wrapping
        [⟨0, 0, 0, 0⟩, ⟨1, 0, 0, 0⟩] x.1 x.2.2 := by
  obtain ⟨s₁, h₁, s, h, hoffset, hend⟩ : ∃ s₁,
      (startReading {} : BluedHdf5InputSource ℚ).step exactConversions
        [⟨0, 0, 0, 0⟩, ⟨1, 0, 0, 0⟩] (.setStartTime (some 0)) = some s₁ ∧
      ∃ s, s₁.step exactConversions [⟨0, 0, 0, 0⟩, ⟨1, 0, 0, 0⟩] .readOnce = some s ∧
        s.currentOffset = 2 ∧ s.continueReading = false := ⟨_, rfl, _, rfl, rfl, rfl⟩
  have hreading : s₁.continueReading = true := by cases h₁; rfl
  have hrun : Run (Steps exactConversions [⟨0, 0, 0, 0⟩, ⟨1, 0, 0, 0⟩]) (startReading {}) _ s :=
    (Run.nil.snoc h₁).snoc h
  refine ⟨_, s, hrun, hoffset, hend, (time_synchronised_iff CppInt.wrapping {} hrun).not.2 ?_⟩
  rintro (hnil | hstopped)
  · cases hnil
  · have hno := hstopped _ (List.mem_append_right _ (List.mem_singleton.2 rfl)) rfl
    rw [hreading] at hno
    cases hno

/-! ## What a synchronised pair is good for -/

section
variable {rows : List (BluedDataPoint ℚ)} {md : DynamicStreamMetaData}

theorem timePassed_bounds {d : BluedDataPoint ℚ} (h : 0 ≤ d.xValue) :
    (timePassed exactConversions d : ℚ) ≤ d.xValue * 1000000 ∧
      d.xValue * 1000000 < timePassed exactConversions d + 1 := by
  have hq : d.xValue * ((1000 : ℕ) : ℚ) * ((1000 : ℕ) : ℚ) = d.xValue * 1000000 := by
    push_cast
    ring
  have hfloor : timePassed exactConversions d = ⌊d.xValue * 1000000⌋ := by
    rw [timePassed, hq, Rat.floor_def']
    exact Int.tdiv_eq_ediv_of_nonneg (Rat.num_nonneg.2 (by positivity))
  rw [hfloor]
  exact ⟨Int.floor_le _, Int.lt_floor_add_one _⟩

/-- A number of data points as microseconds, rounded towards zero. -/
theorem tdiv_bounds (n : ℕ) {sampleRate : ℕ} (hrate : 0 < sampleRate) :
    -(n / sampleRate * 1000000 : ℚ) ≤ ((-(n : ℤ) * 1000000).tdiv sampleRate : ℤ) ∧
      (((-(n : ℤ) * 1000000).tdiv sampleRate : ℤ) : ℚ) < -(n / sampleRate * 1000000) + 1 := by
  have hq : ((-(n : ℤ) * 1000000 : ℤ) : ℚ) / sampleRate = -(n / sampleRate * 1000000) := by
    push_cast
    ring
  rw [← hq]
  rcases tdiv_cases (-(n : ℤ) * 1000000) hrate with ⟨hnonneg, hle, -⟩ | ⟨-, hle, hlt⟩
  · have hneg : ((-(n : ℤ) * 1000000 : ℤ) : ℚ) / sampleRate ≤ 0 := by
      rw [hq, neg_nonpos]
      positivity
    have hnonneg' : (0 : ℚ) ≤ (-(n : ℤ) * 1000000).tdiv sampleRate := by exact_mod_cast hnonneg
    constructor <;> linarith
  · constructor <;> linarith

theorem Regular.xValue {sampleRate : ℕ} (h : Regular exactConversions rows sampleRate) {i n : ℕ}
    {row last : BluedDataPoint ℚ} (hrow : rows[i]? = some row) (hlast : rows[i + n]? = some last) :
    last.xValue = row.xValue + n / sampleRate := by
  induction n generalizing last with
  | zero =>
    rw [Nat.add_zero, hrow] at hlast
    cases hlast
    simp
  | succ n ih =>
    have hlt : i + n < rows.length := by
      have := (List.getElem?_eq_some_iff.1 hlast).1
      omega
    have hprev := List.getElem?_eq_getElem hlt
    have hnext := h (i + n) _ last hprev hlast
    have hx : rows[i + n].xValue = row.xValue + n / sampleRate := ih hprev
    rw [show last.xValue = rows[i + n].xValue + 1 / sampleRate from hnext, hx]
    push_cast
    ring

/-- **The times of a chunk.**  If its last row is synchronised with its own time,
    the times of all its rows are known to a microsecond. -/
theorem timesKnown_of_synced (C : CppInt) {first n : ℕ} {start : ℤ} {last : BluedDataPoint ℚ}
    (hreg : Regular exactConversions rows md.powerMetaData.sampleRate)
    (hrate : 0 < md.powerMetaData.sampleRate) (hlast : rows[n]? = some last)
    (hpos : 0 ≤ last.xValue) (hid : md.syncedPackageId = n)
    (htime : md.packetTime = some (start + timePassed exactConversions last))
    (hchunk : n + 1 ≤ first + bufferSize) :
    TimesKnown exactConversions C rows md (some start) first (n + 1) := by
  rintro i row start' hi hin hrow ⟨⟩
  obtain ⟨k, rfl⟩ : ∃ k, n = i + k := Nat.exists_eq_add_of_le (by omega)
  have hx := hreg.xValue hrow hlast
  have hdiff : difference md.powerMetaData.sampleRate md.syncedPackageId i =
      (-(k : ℤ) * 1000000).tdiv md.powerMetaData.sampleRate := by
    rw [difference, hid]
    congr 1
    push_cast
    ring
  have hk : k ≤ 1000 := by
    rw [bufferSize] at hchunk
    omega
  have hfits : Fits md.powerMetaData.sampleRate md.syncedPackageId i := by
    have hle := Int.natAbs_tdiv_le_natAbs (-(k : ℤ) * 1000000) md.powerMetaData.sampleRate
    rw [Fits, hdiff]
    omega
  obtain ⟨hlo, hhi⟩ := timePassed_bounds hpos
  obtain ⟨hlo', hhi'⟩ := tdiv_bounds k hrate
  refine ⟨_, getDataPointTime_eq C rfl htime hrate i, ?_⟩
  rw [toInt_of_fits C hfits, hdiff]
  change |(_ : ℚ) - (start + row.xValue * 1000000)| ≤ 1
  rw [abs_le]
  push_cast
  constructor <;> linarith

end

end BluedHdf5InputSource

end SmartScreen
