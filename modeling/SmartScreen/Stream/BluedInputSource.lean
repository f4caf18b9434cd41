/-
  The reader of text files (`BluedInputSource.cpp`).

  The rows are read into a buffer of 10000 data points, which is handed to the
  queue when it is full or when the stream is no longer good.  The end of the file
  is noticed too late, so the reader takes back the last data point of the buffer:
  the row that could not be read, or the last row, if there is no newline behind it.
  If there is none to take back, the counter wraps.

  * `finishes_rows`, `fails_rows`: what becomes of the rows in front of the last
    thing that `matchLine` reads.
  * `readFile_delivers_iff`: which files are delivered row by row.
-/
import SmartScreen.Lib.InputStream
import SmartScreen.Lib.Loop
import SmartScreen.Detector.DataPoint
import SmartScreen.Stream.MetaData

namespace SmartScreen

open Loop InputStream Format

variable {D F : Type}

/-- What becomes of a text as a `double` or a `float`, and what a variable holds if
    nothing is read into it. -/
structure TextConversions (D F : Type) where
  strtod : Bool → ℚ≥0 → Option D
  strtof : Bool → ℚ≥0 → Option F
  /-- the conversion of a `double` to `float` -/
  toFloat : D → F
  unreadDouble : D
  unreadFloat : F

/-- The data points from the start of a buffer that are handed to the queue; they
    are in the buffer if it has as many. -/
structure AddedRange (F : Type) where
  buffer : List (BluedDataPoint F)
  length : ℕ
deriving DecidableEq

/-- The source, with the stream that it reads. -/
structure BluedInputSource (D F : Type) where
  inputStream : InputStream
  previousXValue : D
  continueReading : Bool := true
  /-- what has been handed to the queue -/
  added : List (AddedRange F) := []

namespace BluedInputSource

def bufferSize : ℕ := 10000

def header : List Char := "X_Value,Current A,Current B,VoltageA,Comment\x0d".toList

section
variable [FloatArith D]

def xValueMaxDist : D := ((1 : ℕ) : D) / ((10000 : ℕ) : D)

/-- A source that has not read anything. -/
def start (text : List Char) : BluedInputSource D F where
  inputStream := { rest := text }
  previousXValue := -((1000 : ℕ) : D)

/-- The test of `matchLine`. -/
def InBounds (previousXValue xValue : D) : Prop :=
  xValue < previousXValue ∨ previousXValue + xValueMaxDist < xValue →
    ¬ -((100 : ℕ) : D) < previousXValue

instance (previousXValue xValue : D) : Decidable (InBounds previousXValue xValue) :=
  inferInstanceAs (Decidable (_ → _))

variable (conv : TextConversions D F)

def matchLine (s : BluedInputSource D F) : Except Fault (BluedDataPoint F × BluedInputSource D F) :=
  let (xValue, input) := s.inputStream.extract (real conv.strtod)
  let xValue := xValue.getD conv.unreadDouble
  let input := input.ignore 50 ','
  if InBounds s.previousXValue xValue then
    let (currentA, input) := input.extract (real conv.strtof)
    let input := input.ignore 50 ','
    let (currentB, input) := input.extract (real conv.strtof)
    let input := input.ignore 50 ','
    let (voltageA, input) := input.extract (real conv.strtof)
    let input := input.ignore 50 '\n'
    .ok (⟨conv.toFloat xValue, currentA.getD conv.unreadFloat, currentB.getD conv.unreadFloat,
      voltageA.getD conv.unreadFloat⟩, { s with inputStream := input, previousXValue := xValue })
  else .error .exception

/-- The loop of `readOnce` for `n` more data points: the source and its buffer, and
    whether it has read them all. -/
def fillBuffer : ℕ → BluedInputSource D F × List (BluedDataPoint F) →
    Res Fault (BluedInputSource D F × List (BluedDataPoint F)) Bool
  | 0, p => .ok p true
  | n + 1, (s, buffer) =>
    if s.inputStream.good && s.continueReading then
      match matchLine conv s with
      | .error e => .fault e (s, buffer)
      | .ok (dataPoint, s) => fillBuffer n (s, buffer ++ [dataPoint])
    else .ok (s, buffer) false

/-- The rest of `readOnce`, with its `unsigned int` counter. -/
def addBuffer (p : BluedInputSource D F × List (BluedDataPoint F)) (success : Bool) :
    Res Fault (BluedInputSource D F × List (BluedDataPoint F)) Bool :=
  let i := UInt32.ofNat p.2.length
  let i := if success then i else i - 1
  .ok ({ p.1 with added := p.1.added ++ [⟨p.2, i.toNat⟩] }, p.2) success

def readOnce (s : BluedInputSource D F) : Res Fault (BluedInputSource D F) Bool :=
  ((fillBuffer conv bufferSize (s, [])).bind addBuffer).lift Prod.fst

end

/-- A round of the loop of `skipToData`: the stream, and whether it is at the data. -/
def skipLine : InputStream × Bool → Res Fault (InputStream × Bool) Bool := fun p =>
  if p.1.good then
    let (line, input) := p.1.getline
    if line = header then .ok (input, true) false else .ok (input, false) true
  else .ok p false

/-- Rounds of `skipToData`, then rounds of `readOnce`. -/
def readFile [FloatArith D] (conv : TextConversions D F) (s : BluedInputSource D F) (n : ℕ) :
    Res Fault (BluedInputSource D F × Bool) Unit :=
  ((whileTrue (fun _ => skipLine) n (s.inputStream, false)).lift fun p =>
    ({ s with inputStream := p.1 }, p.2)).bind fun p _ =>
      if p.2 then
        ((whileTrue (fun _ => readOnce conv) n p.1).lift (·, true)).bind fun t _ => .ok t ()
      else .fault .exception p

/-- The data points that have been handed to the queue. -/
def delivered (s : BluedInputSource D F) : List (BluedDataPoint F) :=
  s.added.flatMap fun r => r.buffer.take r.length

/-- Every range that has been handed over lies in the buffer. -/
def RangesInside (s : BluedInputSource D F) : Prop := ∀ r ∈ s.added, r.length ≤ bufferSize

/-! ## Files -/

/-- A row: four numbers, each with what is skipped behind it. -/
structure Row (conv : TextConversions D F) where
  xValue : Cell (real conv.strtod) 50 ','
  currentA : Cell (real conv.strtof) 50 ','
  currentB : Cell (real conv.strtof) 50 ','
  voltageA : Cell (real conv.strtof) 50 '\n'

namespace Row

variable {conv : TextConversions D F}

def text (r : Row conv) : List Char :=
  r.xValue.text ++ ',' :: (r.currentA.text ++ ',' :: (r.currentB.text ++ ',' :: r.voltageA.text))

def dataPoint (r : Row conv) : BluedDataPoint F where
  xValue := conv.toFloat r.xValue.value
  currentA := r.currentA.value
  currentB := r.currentB.value
  voltageA := r.voltageA.value

end Row

/-- The lines before the data. -/
structure Preamble where
  lines : List (List Char)
  no_newline : ∀ line ∈ lines, '\n' ∉ line
  ne_header : ∀ line ∈ lines, line ≠ header

def fileText {conv : TextConversions D F} (preamble : Preamble) (rows : List (Row conv))
    (newline : Bool) : List Char :=
  linesText true (preamble.lines ++ [header]) ++ linesText newline (rows.map Row.text)

/-- `readFile` returns, it has handed the rows to the queue, and all its ranges lie
    in the buffer. -/
def Delivers [FloatArith D] {conv : TextConversions D F} (preamble : Preamble)
    (rows : List (Row conv)) (newline : Bool) : Prop :=
  ∃ s, Returns (readFile conv (start (fileText preamble rows newline))) (s, true) () ∧
    s.delivered = rows.map Row.dataPoint ∧ s.RangesInside

/-! ## `matchLine` -/

section
variable [FloatArith D] {conv : TextConversions D F} {s : BluedInputSource D F}

theorem matchLine_row (r : Row conv) {more : List Char}
    (h : s.inputStream = { rest := r.text ++ '\n' :: more }) :
    matchLine conv s =
      if InBounds s.previousXValue r.xValue.value then
        .ok (r.dataPoint,
          { s with inputStream := { rest := more }, previousXValue := r.xValue.value })
      else .error .exception := by
  have htext : r.text ++ '\n' :: more = r.xValue.text ++ ',' :: (r.currentA.text ++ ',' ::
      (r.currentB.text ++ ',' :: (r.voltageA.text ++ '\n' :: more))) := by
    simp [Row.text]
  rw [htext] at h
  simp only [matchLine, h, Cell.extract_append _ (stops_real (c := ',') rfl), Cell.ignore_append,
    Cell.extract_append _ (stops_real (c := '\n') rfl), Option.getD_some]
  rfl

/-- `matchLine` reads a data point off the end of the text, and `x` as its `x_value`. -/
def Ends (conv : TextConversions D F) (tail : List Char) (x : D) (p : BluedDataPoint F) : Prop :=
  ∀ s : BluedInputSource D F, s.inputStream = { rest := tail } →
    ∃ input : InputStream, input.good = false ∧
      matchLine conv s =
        if InBounds s.previousXValue x then
          .ok (p, { s with inputStream := input, previousXValue := x })
        else .error .exception

/-- A row without its newline. -/
theorem ends_row (r : Row conv) : Ends conv r.text r.xValue.value r.dataPoint := by
  intro s h
  refine ⟨({ rest := r.voltageA.skipped, eof := r.voltageA.skipped.isEmpty } : InputStream).ignore
    50 '\n', r.voltageA.ignore_end _, ?_⟩
  simp only [matchLine, h, Row.text, Cell.extract_append _ (stops_real (c := ',') rfl),
    Cell.ignore_append, Cell.extract_end, Option.getD_some]
  rfl

/-- The end of the text. -/
theorem ends_nil (conv : TextConversions D F) :
    Ends conv [] conv.unreadDouble ⟨conv.toFloat conv.unreadDouble, conv.unreadFloat,
      conv.unreadFloat, conv.unreadFloat⟩ := by
  intro s h
  exact ⟨{ rest := [], eof := true, fail := true }, rfl, by rw [matchLine, h]; rfl⟩

/-! ## `readOnce` from the middle of its loop -/

variable {buffer : List (BluedDataPoint F)}

/-- `readOnce`, when it has filled some of its buffer. -/
def readRest (conv : TextConversions D F) (p : BluedInputSource D F × List (BluedDataPoint F)) :
    Res Fault (BluedInputSource D F) Bool :=
  ((fillBuffer conv (bufferSize - p.2.length) p).bind addBuffer).lift Prod.fst

/-- The source after `addDataPoints`. -/
def add (s : BluedInputSource D F) (buffer : List (BluedDataPoint F)) (length : ℕ) :
    BluedInputSource D F :=
  { s with added := s.added ++ [⟨buffer, length⟩] }

theorem readRest_next {s' : BluedInputSource D F} {dataPoint : BluedDataPoint F}
    (hgood : s.inputStream.good = true) (hc : s.continueReading = true)
    (hlt : buffer.length < bufferSize) (h : matchLine conv s = .ok (dataPoint, s')) :
    readRest conv (s, buffer) = readRest conv (s', buffer ++ [dataPoint]) := by
  obtain ⟨n, hn⟩ : ∃ n, bufferSize - buffer.length = n + 1 :=
    ⟨bufferSize - buffer.length - 1, by omega⟩
  have hn' : bufferSize - (buffer ++ [dataPoint]).length = n := by
    rw [List.length_append, List.length_singleton]
    omega
  simp only [readRest, hn, hn', fillBuffer, hgood, hc, Bool.and_self, if_true, h]

theorem readRest_error {e : Fault} (hgood : s.inputStream.good = true)
    (hc : s.continueReading = true) (hlt : buffer.length < bufferSize)
    (h : matchLine conv s = .error e) : readRest conv (s, buffer) = .fault e s := by
  obtain ⟨n, hn⟩ : ∃ n, bufferSize - buffer.length = n + 1 :=
    ⟨bufferSize - buffer.length - 1, by omega⟩
  simp [readRest, hn, fillBuffer, hgood, hc, h, Res.lift]

/-- The buffer is full. -/
theorem readRest_full (h : buffer.length = bufferSize) :
    readRest conv (s, buffer) = .ok (s.add buffer bufferSize) true := by
  have hn : bufferSize - buffer.length = 0 := by omega
  have hi : (UInt32.ofNat buffer.length).toNat = bufferSize := by rw [h]; rfl
  rw [readRest, hn]
  show (addBuffer (s, buffer) true).lift Prod.fst = _
  simp only [addBuffer, if_true, hi, Res.lift_ok]
  rfl

/-- The stream is no longer good: the last data point of the buffer is taken back. -/
theorem readRest_stop (hgood : s.inputStream.good = false) (hlt : buffer.length < bufferSize) :
    readRest conv (s, buffer) =
      .ok (s.add buffer (UInt32.ofNat buffer.length - 1).toNat) false := by
  obtain ⟨n, hn⟩ : ∃ n, bufferSize - buffer.length = n + 1 :=
    ⟨bufferSize - buffer.length - 1, by omega⟩
  simp [readRest, hn, fillBuffer, hgood, addBuffer, add]

/-- The loop of `readFile`, from the middle of a `readOnce`. -/
def loopRest (conv : TextConversions D F) (p : BluedInputSource D F × List (BluedDataPoint F))
    (n : ℕ) : Res Fault (BluedInputSource D F) Bool :=
  (readRest conv p).bind fun s b =>
    if b then (whileTrue (fun _ => readOnce conv) n s).bind fun s _ => .ok s true else .ok s false

theorem whileTrue_succ (s : BluedInputSource D F) (n : ℕ) :
    whileTrue (fun _ => readOnce conv) (n + 1) s = loopRest conv (s, []) n := rfl

theorem loopRest_full (h : buffer.length = bufferSize) (n : ℕ) :
    loopRest conv (s, buffer) (n + 1) =
      (loopRest conv (s.add buffer bufferSize, []) n).bind fun s _ => .ok s true := by
  rw [loopRest, readRest_full h, Res.bind_ok, if_pos rfl, whileTrue_succ]

/-- A full buffer is handed over, and the next one is empty. -/
theorem returns_loopRest_full (h : buffer.length = bufferSize) {u : BluedInputSource D F} {b : Bool}
    (hret : Returns (loopRest conv (s.add buffer bufferSize, [])) u b) :
    Returns (loopRest conv (s, buffer)) u true := by
  obtain ⟨n, hn⟩ := hret
  exact ⟨n + 1, by rw [loopRest_full h, hn, Res.bind_ok]⟩

theorem faults_loopRest_full (h : buffer.length = bufferSize) {t : BluedInputSource D F} {e : Fault}
    (hfault : Faults (loopRest conv (s.add buffer bufferSize, [])) e t) :
    Faults (loopRest conv (s, buffer)) e t := by
  obtain ⟨n, hn⟩ := hfault
  exact ⟨n + 1, by rw [loopRest_full h, hn, Res.bind_fault]⟩

theorem returns_loopRest_stop (hgood : s.inputStream.good = false)
    (hlt : buffer.length < bufferSize) :
    Returns (loopRest conv (s, buffer)) (s.add buffer (UInt32.ofNat buffer.length - 1).toNat)
      false :=
  ⟨0, by rw [loopRest, readRest_stop hgood hlt]; rfl⟩

theorem loopRest_congr {p p' : BluedInputSource D F × List (BluedDataPoint F)}
    (h : readRest conv p = readRest conv p') : loopRest conv p = loopRest conv p' := by
  funext n
  rw [loopRest, loopRest, h]

/-! ## What is handed over -/

omit [FloatArith D] in
theorem delivered_add (s : BluedInputSource D F) (buffer : List (BluedDataPoint F)) (length : ℕ) :
    (s.add buffer length).delivered = s.delivered ++ buffer.take length := by
  simp [delivered, add]

omit [FloatArith D] in
theorem rangesInside_add {length : ℕ} :
    (s.add buffer length).RangesInside ↔ s.RangesInside ∧ length ≤ bufferSize := by
  simp [RangesInside, add, or_imp, forall_and]

theorem toNat_sub_one {n : ℕ} (h : n < bufferSize) : (UInt32.ofNat (n + 1) - 1).toNat = n := by
  rw [bufferSize] at h
  rw [UInt32.toNat_sub, UInt32.toNat_ofNat']
  simp only [UInt32.toNat_one]
  omega

/-! ## The rows of a file -/

/-- The text of rows with their newlines, and what follows them. -/
def rowsText (rows : List (Row conv)) (tail : List Char) : List Char :=
  linesText true (rows.map Row.text) ++ tail

omit [FloatArith D] in
theorem rowsText_cons (r : Row conv) (rows : List (Row conv)) (tail : List Char) :
    rowsText (r :: rows) tail = r.text ++ '\n' :: rowsText rows tail := by
  simp [rowsText, linesText_true]

/-- The `x_value`s that `matchLine` sees: those of the rows, and `x`. -/
def xValues (rows : List (Row conv)) (x : D) : List D := rows.map (·.xValue.value) ++ [x]

/-- The last data point fills a buffer. -/
def FillsBuffer (n : ℕ) : Prop := n % bufferSize = bufferSize - 1

variable {tail : List Char} {x : D} {p : BluedDataPoint F}

/-- `(s', buffer')` is where the loop is after a row that passes the test: the data
    point is in the buffer, or the full buffer has been handed over. -/
structure AfterRow (s : BluedInputSource D F) (buffer : List (BluedDataPoint F)) (r : Row conv)
    (rest : List Char) (s' : BluedInputSource D F) (buffer' : List (BluedDataPoint F)) :
    Prop where
  inputStream : s'.inputStream = { rest := rest }
  previousXValue : s'.previousXValue = r.xValue.value
  continueReading : s'.continueReading = true
  lt : buffer'.length < bufferSize
  fills : ∀ n, FillsBuffer (buffer'.length + n) ↔ FillsBuffer (buffer.length + (n + 1))
  delivered : s'.delivered ++ buffer' = s.delivered ++ buffer ++ [r.dataPoint]
  inside : s'.RangesInside ↔ s.RangesInside
  returns : ∀ {u b}, Returns (loopRest conv (s', buffer')) u b →
    ∃ b, Returns (loopRest conv (s, buffer)) u b
  faults : ∀ {e t}, Faults (loopRest conv (s', buffer')) e t →
    Faults (loopRest conv (s, buffer)) e t

theorem exists_afterRow (r : Row conv) {rest : List Char}
    (hs : s.inputStream = { rest := r.text ++ '\n' :: rest }) (hc : s.continueReading = true)
    (hlt : buffer.length < bufferSize) (hin : InBounds s.previousXValue r.xValue.value) :
    ∃ s' buffer', AfterRow s buffer r rest s' buffer' := by
  have hline := matchLine_row r hs
  rw [if_pos hin] at hline
  have hgood : s.inputStream.good = true := by rw [hs]; rfl
  have hcongr := loopRest_congr (readRest_next hgood hc hlt hline)
  have hlength : (buffer ++ [r.dataPoint]).length = buffer.length + 1 := by simp
  rcases Nat.lt_or_ge (buffer.length + 1) bufferSize with hlt' | hge
  · refine ⟨{ s with inputStream := { rest := rest }, previousXValue := r.xValue.value },
      buffer ++ [r.dataPoint], ?_⟩
    exact {
      inputStream := rfl
      previousXValue := rfl
      continueReading := hc
      lt := hlength ▸ hlt'
      fills n := by rw [hlength, Nat.add_assoc, Nat.add_comm 1]
      delivered := (List.append_assoc ..).symm
      inside := Iff.rfl
      returns hret := ⟨_, hcongr ▸ hret⟩
      faults hfault := hcongr ▸ hfault }
  · have hfull : (buffer ++ [r.dataPoint]).length = bufferSize := by omega
    refine ⟨add { s with inputStream := { rest := rest }, previousXValue := r.xValue.value }
      (buffer ++ [r.dataPoint]) bufferSize, [], ?_⟩
    exact {
      inputStream := rfl
      previousXValue := rfl
      continueReading := hc
      lt := by rw [List.length_nil, bufferSize]; omega
      fills n := by
        simp only [FillsBuffer, List.length_nil]
        rw [bufferSize] at hge hlt ⊢
        omega
      delivered := by
        rw [List.append_nil, delivered_add, ← hfull, List.take_length, List.append_assoc]
        rfl
      inside := rangesInside_add.trans (and_iff_left le_rfl)
      returns hret := ⟨true, hcongr ▸ returns_loopRest_full hfull hret⟩
      faults hfault := hcongr ▸ faults_loopRest_full hfull hfault }

/-- The last data point: it is taken back, or it fills the buffer, and then the
    counter wraps in the next call. -/
theorem returns_tail (htail : Ends conv tail x p) (hs : s.inputStream = { rest := tail })
    (hc : s.continueReading = true) (hlt : buffer.length < bufferSize)
    (hin : InBounds s.previousXValue x) :
    ∃ u b, Returns (loopRest conv (s, buffer)) u b ∧
      (FillsBuffer buffer.length → ¬ u.RangesInside) ∧
      (¬ FillsBuffer buffer.length →
        u.delivered = s.delivered ++ buffer ∧ (s.RangesInside → u.RangesInside)) := by
  obtain ⟨input, hgood, hline⟩ := htail s hs
  rw [if_pos hin] at hline
  have hs_good : s.inputStream.good = true := by rw [hs]; rfl
  rw [loopRest_congr (readRest_next hs_good hc hlt hline), FillsBuffer, Nat.mod_eq_of_lt hlt]
  have hlength : (buffer ++ [p]).length = buffer.length + 1 := by simp
  rcases Nat.lt_or_ge (buffer.length + 1) bufferSize with hlt' | hge
  · refine ⟨_, false, returns_loopRest_stop hgood (hlength ▸ hlt'), fun hfill => by omega, ?_⟩
    intro _
    rw [delivered_add, rangesInside_add, hlength, toNat_sub_one hlt, List.take_left' rfl]
    exact ⟨rfl, fun h => ⟨h, hlt.le⟩⟩
  · have hfull : (buffer ++ [p]).length = bufferSize := by omega
    have hwrap : ¬ (UInt32.ofNat 0 - 1).toNat ≤ bufferSize := by decide
    refine ⟨_, true, returns_loopRest_full hfull (returns_loopRest_stop hgood ?_), ?_, ?_⟩
    · rw [List.length_nil, bufferSize]
      omega
    · exact fun _ hinside => hwrap (rangesInside_add.1 hinside).2
    · exact fun hfill => absurd (by omega) hfill

/-- **Rows that pass the test** of `matchLine`: the last data point is taken back,
    unless it fills a buffer. -/
theorem returns_rows (htail : Ends conv tail x p) {rows : List (Row conv)}
    (hs : s.inputStream = { rest := rowsText rows tail }) (hc : s.continueReading = true)
    (hlt : buffer.length < bufferSize)
    (hchain : (s.previousXValue :: xValues rows x).IsChain InBounds) :
    ∃ u b, Returns (loopRest conv (s, buffer)) u b ∧
      (FillsBuffer (buffer.length + rows.length) → ¬ u.RangesInside) ∧
      (¬ FillsBuffer (buffer.length + rows.length) →
        u.delivered = s.delivered ++ buffer ++ rows.map Row.dataPoint ∧
          (s.RangesInside → u.RangesInside)) := by
  induction rows generalizing s buffer with
  | nil =>
    have hin : InBounds s.previousXValue x := by simpa [xValues] using hchain
    simpa using returns_tail htail hs hc hlt hin
  | cons r rows ih =>
    rw [xValues, List.map_cons, List.cons_append, List.isChain_cons_cons] at hchain
    obtain ⟨s', buffer', h⟩ := exists_afterRow r (hs.trans (by rw [rowsText_cons])) hc hlt hchain.1
    obtain ⟨u, b, hret, hfill, hmore⟩ := ih h.inputStream h.continueReading h.lt
      (h.previousXValue ▸ hchain.2)
    rw [h.fills] at hfill hmore
    obtain ⟨b', hret'⟩ := h.returns hret
    refine ⟨u, b', hret', hfill, fun hn => ?_⟩
    obtain ⟨hdel, hinside⟩ := hmore hn
    rw [hdel, h.delivered, ← h.inside]
    exact ⟨by simp, hinside⟩

/-- **A row that does not pass the test** ends the reader. -/
theorem faults_rows (htail : Ends conv tail x p) {rows : List (Row conv)}
    (hs : s.inputStream = { rest := rowsText rows tail }) (hc : s.continueReading = true)
    (hlt : buffer.length < bufferSize)
    (hchain : ¬ (s.previousXValue :: xValues rows x).IsChain InBounds) :
    ∃ e t, Faults (loopRest conv (s, buffer)) e t := by
  have hfault : ∀ {s : BluedInputSource D F} {buffer e}, s.inputStream.good = true →
      s.continueReading = true → buffer.length < bufferSize → matchLine conv s = .error e →
      ∃ e t, Faults (loopRest conv (s, buffer)) e t := by
    intro s buffer e hgood hc hlt h
    exact ⟨e, s, 0, by rw [loopRest, readRest_error hgood hc hlt h, Res.bind_fault]⟩
  induction rows generalizing s buffer with
  | nil =>
    obtain ⟨input, -, hline⟩ := htail s hs
    refine hfault (by rw [hs]; rfl) hc hlt (hline.trans (if_neg ?_))
    simpa [xValues] using hchain
  | cons r rows ih =>
    have htext := hs.trans (by rw [rowsText_cons])
    by_cases hin : InBounds s.previousXValue r.xValue.value
    swap
    · exact hfault (by rw [hs]; rfl) hc hlt ((matchLine_row r htext).trans (if_neg hin))
    rw [xValues, List.map_cons, List.cons_append, List.isChain_cons_cons, not_and] at hchain
    obtain ⟨s', buffer', h⟩ := exists_afterRow r htext hc hlt hin
    obtain ⟨e, t, hft⟩ := ih h.inputStream h.continueReading h.lt
      (h.previousXValue ▸ hchain hin)
    exact ⟨e, t, h.faults hft⟩

/-! ## `readFile` -/

theorem newline_notMem_header : '\n' ∉ header := by decide +kernel

theorem steady_skipLine (p : InputStream × Bool) : Steady fun _ : ℕ => skipLine p := .const _

/-- **`skipToData`** stops behind the header. -/
theorem returns_skipToData (preamble : Preamble) (more : List Char) :
    ∃ b, Returns (fun n => whileTrue (fun _ => skipLine) n
      ({ rest := linesText true (preamble.lines ++ [header]) ++ more }, false))
      ({ rest := more }, true) b := by
  obtain ⟨lines, hno, hne⟩ := preamble
  induction lines with
  | nil =>
    have htext : linesText true ([] ++ [header]) ++ more = header ++ '\n' :: more := by
      simp [linesText_true]
    refine ⟨false, Returns.whileTrue_stop (returns_const.2 ?_)⟩
    simp only [skipLine, htext, good_mk, if_true, getline_append newline_notMem_header]
  | cons line lines ih =>
    have htext : linesText true (line :: lines ++ [header]) ++ more =
        line ++ '\n' :: (linesText true (lines ++ [header]) ++ more) := by
      simp [linesText_true]
    obtain ⟨b, hret⟩ := ih (fun l hl => hno l (List.mem_cons_of_mem line hl))
      fun l hl => hne l (List.mem_cons_of_mem line hl)
    refine ⟨true, Returns.whileTrue_next (b := b) steady_skipLine (returns_const.2 ?_) hret⟩
    have hline := getline_append (hno line (List.mem_cons_self ..))
      (linesText true (lines ++ [header]) ++ more)
    simp only [skipLine, htext, good_mk, if_true, hline, if_neg (hne line (List.mem_cons_self ..))]

theorem steady_readOnce (s : BluedInputSource D F) : Steady fun _ : ℕ => readOnce conv s :=
  .const _

theorem steady_readFile (s : BluedInputSource D F) : Steady (readFile conv s) := by
  refine Steady.bind (.lift _ (.whileTrue steady_skipLine _)) ?_
  rintro ⟨s, found⟩ b
  cases found with
  | true => exact .bind (.lift _ (.whileTrue steady_readOnce _)) fun _ _ => .const _
  | false => exact .const _

/-- The rounds of `readFile` behind the header. -/
theorem returns_readFile (preamble : Preamble) {more : List Char} {u : BluedInputSource D F}
    {b : Bool} (h : Returns (loopRest conv (start more, [])) u b) :
    Returns (readFile conv (start (linesText true (preamble.lines ++ [header]) ++ more)))
      (u, true) () := by
  obtain ⟨c, hskip⟩ := returns_skipToData preamble more
  obtain ⟨n, hn⟩ := h
  refine Returns.bind (s := (start more, true)) (b := c)
    (.lift _ (.whileTrue steady_skipLine _)) ?_ (returns_lift.2 ⟨_, hskip, rfl⟩) ?_
  · exact .bind (.lift _ (.whileTrue steady_readOnce _)) fun _ _ => .const _
  · refine ⟨n + 1, ?_⟩
    simp only [if_true, whileTrue_succ, hn, Res.lift_ok, Res.bind_ok]

theorem faults_readFile (preamble : Preamble) {more : List Char} {t : BluedInputSource D F}
    {e : Fault} (h : Faults (loopRest conv (start more, [])) e t) :
    Faults (readFile conv (start (linesText true (preamble.lines ++ [header]) ++ more)))
      e (t, true) := by
  obtain ⟨c, hskip⟩ := returns_skipToData preamble more
  obtain ⟨n, hn⟩ := h
  refine Faults.bind_next (s := (start more, true)) (b := c)
    (.lift _ (.whileTrue steady_skipLine _)) ?_ (returns_lift.2 ⟨_, hskip, rfl⟩) ?_
  · exact .bind (.lift _ (.whileTrue steady_readOnce _)) fun _ _ => .const _
  · refine ⟨n + 1, ?_⟩
    simp only [if_true, whileTrue_succ, hn, Res.lift, Res.bind_fault]

/-- What `readFile` hands over, for rows in front of the last data point. -/
theorem delivers_iff_of_ends (preamble : Preamble) {rows all : List (Row conv)} {newline : Bool}
    (htext : linesText newline (all.map Row.text) = rowsText rows tail)
    (htail : Ends conv tail x p) :
    Delivers preamble all newline ↔
      (-((1000 : ℕ) : D) :: xValues rows x).IsChain InBounds ∧ ¬ FillsBuffer rows.length ∧
        rows.map Row.dataPoint = all.map Row.dataPoint := by
  have hlt : ([] : List (BluedDataPoint F)).length < bufferSize := by
    rw [List.length_nil, bufferSize]
    omega
  rw [Delivers, fileText, htext]
  by_cases hchain : (-((1000 : ℕ) : D) :: xValues rows x).IsChain InBounds
  · obtain ⟨u, b, hret, hfill, hmore⟩ := returns_rows (s := start (rowsText rows tail)) htail rfl
      rfl hlt hchain
    rw [List.length_nil, Nat.zero_add] at hfill hmore
    have hfile := returns_readFile preamble hret
    constructor
    · rintro ⟨u', hret', hdel, hinside⟩
      cases (hret'.unique (steady_readFile _) hfile).1
      have hn : ¬ FillsBuffer rows.length := fun h => hfill h hinside
      exact ⟨hchain, hn, (hmore hn).1.symm.trans hdel⟩
    · rintro ⟨-, hn, hrows⟩
      obtain ⟨hdel, hinside⟩ := hmore hn
      exact ⟨u, hfile, hdel.trans hrows, hinside (by rintro r ⟨⟩)⟩
  · obtain ⟨e, t, hfault⟩ := faults_rows (s := start (rowsText rows tail)) htail rfl rfl hlt hchain
    have hfile := faults_readFile preamble hfault
    constructor
    · rintro ⟨u, hret, -⟩
      exact absurd hret (hfile.not_returns (steady_readFile _))
    · exact fun h => absurd h.1 hchain

end

/-- **Which files are delivered row by row.**  The last row has its newline, it is
    not the last but one to fill a buffer, and every `x_value` passes the test of
    `matchLine`, also the one that cannot be read at the end of the file. -/
theorem readFile_delivers_iff [FloatArith D] (conv : TextConversions D F) (preamble : Preamble)
    (rows : List (Row conv)) (newline : Bool) :
    Delivers preamble rows newline ↔
      (rows = [] ∨ newline = true) ∧ rows.length % bufferSize ≠ bufferSize - 1 ∧
        (-((1000 : ℕ) : D) :: (rows.map (·.xValue.value) ++ [conv.unreadDouble])).IsChain
          InBounds := by
  have hall : ∀ {newline}, linesText newline (rows.map Row.text) = rowsText rows [] →
      (Delivers preamble rows newline ↔
        rows.length % bufferSize ≠ bufferSize - 1 ∧
          (-((1000 : ℕ) : D) :: (rows.map (·.xValue.value) ++ [conv.unreadDouble])).IsChain
            InBounds) := by
    intro newline htext
    rw [delivers_iff_of_ends preamble htext (ends_nil conv)]
    exact ⟨fun h => ⟨h.2.1, h.1⟩, fun h => ⟨h.2, h.1, rfl⟩⟩
  cases newline with
  | true => rw [hall (by simp [rowsText]), and_iff_right (Or.inr rfl)]
  | false =>
    rcases List.eq_nil_or_concat' rows with rfl | ⟨init, last, rfl⟩
    · rw [hall (by simp [rowsText, linesText_nil]), and_iff_right (Or.inl rfl)]
    · have htext : linesText false ((init ++ [last]).map Row.text) = rowsText init last.text := by
        simp [rowsText, linesText_false_concat, linesText_true]
      rw [delivers_iff_of_ends preamble htext (ends_row last)]
      constructor
      · rintro ⟨-, -, h⟩
        have hlen := congrArg List.length h
        simp at hlen
      · rintro ⟨h, -⟩
        simp at h

/-- Exact numbers; nothing is read as zero. -/
def exactText : TextConversions ℚ ℚ where
  strtod := exactDecimal
  strtof := exactDecimal
  toFloat q := q
  unreadDouble := 0
  unreadFloat := 0

theorem read_zero : (real exactDecimal).read ['0'] = (some 0, []) := by decide +kernel

/-- The text `0`, and nothing behind it. -/
def zeroCell (delim : Char) : Cell (real exactDecimal) 50 delim where
  text := ['0']
  value := 0
  skipped := []
  read := read_zero
  length_lt := Nat.zero_lt_succ 49
  not_mem := List.not_mem_nil

/-- The row `0,0,0,0`. -/
def zeroRow : Row exactText where
  xValue := zeroCell ','
  currentA := zeroCell ','
  currentB := zeroCell ','
  voltageA := zeroCell '\n'

/-- Without a newline behind it, it is read and taken back. -/
theorem last_row_dropped : ¬ Delivers ⟨[], by simp, by simp⟩ [zeroRow] false := by
  have htext : linesText false ([zeroRow].map Row.text) =
      rowsText ([] : List (Row exactText)) zeroRow.text := rfl
  rw [delivers_iff_of_ends _ htext (ends_row zeroRow)]
  rintro ⟨-, -, h⟩
  cases h

end BluedInputSource

end SmartScreen
