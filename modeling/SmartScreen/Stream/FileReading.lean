/-
  The thread of `BluedHdf5InputSource` (`run`).

  It reads chunks until `readOnce` clears `continue_reading`, and then ends the
  stream.  The end of the file is recognised by a chunk that is not full, so a file
  whose rows fill all chunks is read with an empty chunk at its end.

  * `run_reads_all`: if nobody stops the source, the thread ends, and it has handed
    over every row of the file once.
-/
import SmartScreen.Lib.Loop
import SmartScreen.Stream.InputSource

namespace SmartScreen

open Loop LTS

variable {F : Type}

/-- The data set `data` of a file: its rank, its number of columns and its rows. -/
structure Dataset (F : Type) where
  rank : ℕ
  columns : ℕ
  rows : List (BluedDataPoint F)

/-- The rows that `selectHyperslab` selects. -/
structure Hyperslab where
  offset : ℕ
  count : ℕ

namespace BluedHdf5InputSource

def fields : ℕ := 4

/-- What `readOnce` selects. -/
def hyperslab (rows : List (BluedDataPoint F)) (s : BluedHdf5InputSource F) : Hyperslab where
  offset := s.currentOffset
  count :=
    let remaining := sizeSub rows.length s.currentOffset
    if bufferSize > remaining then remaining else bufferSize

section
variable [FloatArith F] (conv : FloatConversions F)

/-- The test of the loop, and its body. -/
def readNext (rows : List (BluedDataPoint F)) (s : BluedHdf5InputSource F) :
    Res Fault (BluedHdf5InputSource F) Bool :=
  if s.continueReading then .ok (s.readOnce conv rows).1 true else .ok s false

/-- What the thread leaves: the source, and whether it has ended the stream. -/
def run (data : Dataset F) (n : ℕ) (s : BluedHdf5InputSource F) :
    Res Fault (BluedHdf5InputSource F × Bool) Unit :=
  if data.rank ≠ 2 then .fault .exception (s, false)
  else if data.columns ≠ fields then .fault .exception (s, false)
  else (whileTrue (fun _ => readNext conv data.rows) n s).lift (·, false) |>.bind
    fun s _ => .ok (s.1, true) ()

end

/-! ## One chunk -/

section
variable [FloatArith F] {conv : FloatConversions F} {rows : List (BluedDataPoint F)}
  {s s' : BluedHdf5InputSource F}

/-- The rows that are handed over are those that are selected. -/
theorem readOnce_hyperslab (h : s.continueReading = true) :
    (s.readOnce conv rows).1.added =
        s.added ++ (rows.drop (s.hyperslab rows).offset).take (s.hyperslab rows).count ∧
      (s.readOnce conv rows).1.currentOffset = s.currentOffset + (s.hyperslab rows).count := by
  simp only [readOnce, h, Bool.not_true, Bool.false_eq_true, if_false, writeBufferToDataSet,
    hyperslab]
  split <;> split_ifs <;> exact ⟨rfl, rfl⟩

/-- The chunk that is not full is the last. -/
theorem continueReading_readOnce (h : s.continueReading = true)
    (ho : s.currentOffset ≤ rows.length) :
    (s.readOnce conv rows).1.continueReading =
      decide (bufferSize ≤ rows.length - s.currentOffset) := by
  simp only [readOnce, h, Bool.not_true, Bool.false_eq_true, if_false, sizeSub_of_le ho,
    writeBufferToDataSet, updateDynamicStreamMetaData]
  split <;> split_ifs with hlt <;> simp [h, not_lt.1, hlt]

/-! ## The loop -/

/-- When the loop tests whether to go on: the source has stopped at the end only. -/
structure LoopInv (rows : List (BluedDataPoint F)) (s : BluedHdf5InputSource F) : Prop
    extends Inv rows s where
  eq_of_stopped : s.continueReading = false → s.currentOffset = rows.length

omit [FloatArith F] in
theorem loopInv_start (md : DynamicStreamMetaData) : LoopInv rows (startReading md) :=
  ⟨inv_start md, by rintro ⟨⟩⟩

theorem readNext_of_continue (h : s.continueReading = true) :
    readNext conv rows s = .ok (s.readOnce conv rows).1 true := if_pos h

theorem LoopInv.readOnce (h : LoopInv rows s) (hc : s.continueReading = true) :
    LoopInv rows (s.readOnce conv rows).1 := by
  have hstep : Steps conv rows s .readOnce (s.readOnce conv rows).1 := rfl
  refine ⟨h.toInv.step hstep, ?_⟩
  have hle := h.le
  rw [continueReading_readOnce hc hle, (readOnce_spec hc hle).1, chunk]
  simp only [decide_eq_false_iff_not]
  omega

/-- A chunk is read, or the source stops. -/
def remaining (rows : List (BluedDataPoint F)) (s : BluedHdf5InputSource F) : ℕ :=
  rows.length - s.currentOffset + if s.continueReading then 1 else 0

theorem remaining_readOnce_lt (h : LoopInv rows s) (hc : s.continueReading = true) :
    remaining rows (s.readOnce conv rows).1 < remaining rows s := by
  have hle := h.le
  rw [remaining, remaining, continueReading_readOnce hc hle, (readOnce_spec hc hle).1, chunk, hc,
    bufferSize, if_pos rfl]
  simp only [decide_eq_true_eq]
  split_ifs <;> omega

theorem LoopInv.of_heads {t : BluedHdf5InputSource F} (h : LoopInv rows s)
    (ht : Heads (fun _ => readNext conv rows) s t) : LoopInv rows t := by
  refine ht.inv h ?_
  intro t t' hi hr
  cases hc : t.continueReading with
  | true =>
    rw [returns_const, readNext_of_continue hc] at hr
    cases hr
    exact hi.readOnce hc
  | false =>
    rw [returns_const, readNext, if_neg (by simp [hc])] at hr
    cases hr

theorem LoopInv.ends (h : LoopInv rows s) :
    Ends (fun n => whileTrue (fun _ => readNext conv rows) n s) fun _ => False := by
  refine ends_whileTrue (I := fun k s => LoopInv rows s ∧ k = remaining rows s)
    (fun s => .const (readNext conv rows s)) ?_ ⟨h, rfl⟩
  rintro k s ⟨hs, rfl⟩
  right
  cases hc : s.continueReading with
  | true =>
    exact .inr ⟨_, _, remaining_readOnce_lt hs hc, ⟨hs.readOnce hc, rfl⟩,
      returns_const.2 (readNext_of_continue hc)⟩
  | false => exact .inl ⟨s, returns_const.2 (if_neg (by simp [hc]))⟩

/-- **The loop reads the file to its end.** -/
theorem LoopInv.returns (h : LoopInv rows s) :
    ∃ s' b, Returns (fun n => whileTrue (fun _ => readNext conv rows) n s) s' b ∧
      s'.added = rows := by
  have hends : Ends (fun n => whileTrue (fun _ => readNext conv rows) n s) fun _ => False := h.ends
  obtain ⟨s', b, hret⟩ | ⟨_, _, -, hfalse⟩ := hends
  swap
  · cases hfalse
  refine ⟨s', b, hret, ?_⟩
  obtain ⟨t, ht, hstop⟩ := hret.heads_of_whileTrue
  have hinv := h.of_heads ht
  cases hc : t.continueReading with
  | true =>
    rw [returns_const, readNext_of_continue hc] at hstop
    cases hstop
  | false =>
    rw [returns_const, readNext, if_neg (by simp [hc])] at hstop
    cases hstop
    rw [hinv.added, hinv.eq_of_stopped hc, List.take_length]

end

/-- **The reader delivers every row once and stops.**  Nobody else stops the
    source.  Then the thread ends the stream and returns, the ranges that it has
    added make up the rows of the file, and whenever it reads a chunk, the
    difference of `data_set_size[0]` and the offset is not negative and the
    selected rows lie inside the data set. -/
theorem run_reads_all [FloatArith F] (conv : FloatConversions F) (data : Dataset F)
    (md : DynamicStreamMetaData) (hrank : data.rank = 2) (hcolumns : data.columns = fields) :
    (∃ s, Returns (fun n => run conv data n (startReading md)) (s, true) () ∧
      s.added = data.rows) ∧
    ∀ t, Heads (fun _ => readNext conv data.rows) (startReading md) t →
      (sizeSub data.rows.length t.currentOffset : ℤ) = data.rows.length - t.currentOffset ∧
      (t.hyperslab data.rows).offset + (t.hyperslab data.rows).count ≤ data.rows.length := by
  constructor
  · have hinv : LoopInv data.rows (startReading md) := loopInv_start md
    obtain ⟨s, b, ⟨n, hn⟩, hadded⟩ : ∃ s b,
        Returns (fun n => whileTrue (fun _ => readNext conv data.rows) n (startReading md)) s b ∧
        s.added = data.rows := hinv.returns
    exact ⟨s, ⟨n, by simp [run, hrank, hcolumns, hn]⟩, hadded⟩
  · intro t ht
    have hle := ((loopInv_start md).of_heads ht).le
    simp only [hyperslab, sizeSub_of_le hle]
    split_ifs with hlt <;> omega

/-- A file of 1000 rows is read with an empty chunk at its end. -/
theorem run_reads_all_thousand :
    ∃ s, Returns (fun n => run exactConversions ⟨2, 4, List.replicate 1000 ⟨0, 0, 0, 0⟩⟩ n
      (startReading {})) (s, true) () ∧ s.added = List.replicate 1000 ⟨0, 0, 0, 0⟩ :=
  (run_reads_all exactConversions ⟨2, 4, List.replicate 1000 ⟨0, 0, 0, 0⟩⟩ {} rfl rfl).1

end BluedHdf5InputSource

end SmartScreen
