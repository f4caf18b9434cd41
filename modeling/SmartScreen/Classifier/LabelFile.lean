/-
  The file of labels (`EventLabelManager::loadLabelsFromFile`).

  A line is read with two formatted inputs and two skips, and its pair is inserted
  if the stream is good after the last of them.  So a line counts only with its
  newline: at the end of the file there is nothing behind the label to skip to.

  * `returns_loop`: what the loop inserts.
  * `loadLabelsFromFile_iff`: for which files these are the pairs of the file.
-/
import SmartScreen.Lib.InputStream
import SmartScreen.Lib.Loop
import SmartScreen.Classifier.EventLabelManager

namespace SmartScreen

open Loop InputStream Format

/-- The file, and what has been passed to `labels.insert`. -/
structure LabelReader where
  file : InputStream
  inserted : List LabelTimePair := []
deriving DecidableEq

namespace LabelReader

section
variable (fromTimeT : ℤ → TimeType) (strtod : Bool → ℚ≥0 → Option ℚ) (unread : ℤ × ℚ)

/-- One round of the loop.  `unread` is what the variables hold if nothing is read
    into them. -/
def readLabel (s : LabelReader) : Res Fault LabelReader Bool :=
  let (epoch, file) := s.file.extract (signed 64)
  let time := fromTimeT (epoch.getD unread.1)
  let file := file.ignore 10 ','
  let (label, file) := file.extract (real strtod)
  let file := file.ignore 50 '\n'
  if file.good then .ok ⟨file, s.inserted ++ [⟨label.getD unread.2, time⟩]⟩ true
  else .ok { s with file := file } false

/-- `file` is the stream that has been opened. -/
def loadLabelsFromFile (file : InputStream) (n : ℕ) : Res Fault LabelReader Unit :=
  if file.good then
    (whileTrue (fun _ => readLabel fromTimeT strtod unread) n ⟨file, []⟩).bind fun s _ => .ok s ()
  else .ok ⟨file, []⟩ ()

end

end LabelReader

/-- A line of the file: a pair, and up to 49 other characters. -/
structure LabelLine (strtod : Bool → ℚ≥0 → Option ℚ) where
  epoch : ℤ
  label : ℚ
  epochText : List Char
  labelText : List Char
  others : List Char
  read_epoch : (signed 64).read epochText = (some epoch, [])
  read_label : (real strtod).read labelText = (some label, [])
  length_le : others.length ≤ 49
  no_newline : '\n' ∉ others

namespace LabelLine

variable {strtod : Bool → ℚ≥0 → Option ℚ}

def text (l : LabelLine strtod) : List Char := l.epochText ++ ',' :: (l.labelText ++ l.others)

/-- The line with the decimal form of an epoch of type `long`. -/
def ofEpoch (epoch : ℤ) (hlo : -2 ^ 63 ≤ epoch) (hhi : epoch < 2 ^ 63) (label : ℚ)
    (labelText : List Char) (h : (real strtod).read labelText = (some label, [])) :
    LabelLine strtod where
  epoch := epoch
  label := label
  epochText := showInt epoch
  labelText := labelText
  others := []
  read_epoch := read_showInt hlo hhi
  read_label := h
  length_le := Nat.zero_le _
  no_newline := List.not_mem_nil

def pair (fromTimeT : ℤ → TimeType) (l : LabelLine strtod) : LabelTimePair where
  label := l.label
  time := fromTimeT l.epoch

/-- The label that is read: the other characters may go on with its number. -/
def readLabel (l : LabelLine strtod) : Option ℚ := ((real strtod).read (l.labelText ++ l.others)).1

/-- The pairs that the loop gets out of lines with their newlines. -/
def readPairs (fromTimeT : ℤ → TimeType) : List (LabelLine strtod) → List LabelTimePair
  | [] => []
  | l :: ls =>
    match l.readLabel with
    | some label => ⟨label, fromTimeT l.epoch⟩ :: readPairs fromTimeT ls
    | none => []

/-! ## One line -/

variable (fromTimeT : ℤ → TimeType) (unread : ℤ × ℚ)

theorem stops_newline {β : Type} {f : Format β} : f.Stops '\n' := stops_of_isSpace rfl

/-- What is left of the other characters. -/
theorem rest_others (l : LabelLine strtod) :
    '\n' ∉ ((real strtod).read (l.labelText ++ l.others)).2 ∧
      ((real strtod).read (l.labelText ++ l.others)).2.length < 50 := by
  have hsuffix := rest_suffix (by rw [l.read_label]) l.others
  have hlen := hsuffix.length_le
  have hle := l.length_le
  exact ⟨fun h => l.no_newline (hsuffix.subset h), by omega⟩

/-- The epoch and the comma behind it. -/
theorem extract_epoch (l : LabelLine strtod) (more : List Char) :
    ({ rest := l.text ++ more } : InputStream).extract (signed 64) =
      (some l.epoch, { rest := ',' :: (l.labelText ++ l.others ++ more) }) := by
  rw [text, List.append_assoc, List.cons_append]
  exact extract_append l.read_epoch (stops_whole rfl)

theorem ignore_comma (cs : List Char) :
    ({ rest := ',' :: cs } : InputStream).ignore 10 ',' = { rest := cs } :=
  ignore_append List.not_mem_nil (by simp) cs

theorem readLabel_eq (l : LabelLine strtod) (more : List Char) (inserted : List LabelTimePair) :
    LabelReader.readLabel fromTimeT strtod unread ⟨{ rest := l.text ++ more }, inserted⟩ =
      let (label, file) :=
        ({ rest := l.labelText ++ l.others ++ more } : InputStream).extract (real strtod)
      if (file.ignore 50 '\n').good then
        .ok ⟨file.ignore 50 '\n', inserted ++ [⟨label.getD unread.2, fromTimeT l.epoch⟩]⟩ true
      else .ok ⟨file.ignore 50 '\n', inserted⟩ false := by
  simp only [LabelReader.readLabel, extract_epoch, ignore_comma, Option.getD_some]

/-- A line with its newline. -/
theorem readLabel_line (l : LabelLine strtod) {label : ℚ} (h : l.readLabel = some label)
    (more : List Char) (inserted : List LabelTimePair) :
    LabelReader.readLabel fromTimeT strtod unread ⟨{ rest := l.text ++ '\n' :: more }, inserted⟩ =
      .ok ⟨{ rest := more }, inserted ++ [⟨label, fromTimeT l.epoch⟩]⟩ true := by
  have hread : (real strtod).read (l.labelText ++ l.others) = (some label, _) :=
    Prod.ext h rfl
  rw [readLabel_eq, extract_append hread stops_newline]
  simp only [ignore_append l.rest_others.1 l.rest_others.2, good_mk, if_true, Option.getD_some]

/-- A line whose label cannot be read ends the loop. -/
theorem readLabel_stop (l : LabelLine strtod) (h : l.readLabel = none) (more : List Char)
    (inserted : List LabelTimePair) :
    ∃ file, LabelReader.readLabel fromTimeT strtod unread
      ⟨{ rest := l.text ++ '\n' :: more }, inserted⟩ = .ok ⟨file, inserted⟩ false := by
  have hnone : (({ rest := l.labelText ++ l.others ++ '\n' :: more } : InputStream).extract
      (real strtod)).2.good = false := by
    refine extract_of_read_none ?_
    rw [List.append_assoc, dropWhile_isSpace_append (by rw [l.read_label]), ← List.append_assoc,
      read_append_of_stop stops_newline]
    exact h
  have hgood := ignore_of_not_good hnone 50 '\n'
  rw [readLabel_eq]
  simp only [hgood, Bool.false_eq_true, if_false]
  exact ⟨_, rfl⟩

/-- **The last line without its newline** ends the loop. -/
theorem readLabel_last (l : LabelLine strtod) (inserted : List LabelTimePair) :
    ∃ file, LabelReader.readLabel fromTimeT strtod unread ⟨{ rest := l.text }, inserted⟩ =
      .ok ⟨file, inserted⟩ false := by
  have hgood : ((({ rest := l.labelText ++ l.others } : InputStream).extract
      (real strtod)).2.ignore 50 '\n').good = false := by
    cases h : l.readLabel with
    | none =>
      refine ignore_of_not_good (extract_of_read_none ?_) 50 '\n'
      rw [dropWhile_isSpace_append (by rw [l.read_label])]
      exact h
    | some label =>
      have hread : (real strtod).read (l.labelText ++ l.others) = (some label, _) :=
        Prod.ext h rfl
      rw [extract_of_read hread]
      exact ignore_end l.rest_others.1 l.rest_others.2 _
  have hline := l.readLabel_eq fromTimeT unread [] inserted
  rw [List.append_nil, List.append_nil] at hline
  rw [hline]
  simp only [hgood, Bool.false_eq_true, if_false]
  exact ⟨_, rfl⟩

/-- So does the end of the file. -/
theorem readLabel_nil (inserted : List LabelTimePair) :
    ∃ file, LabelReader.readLabel fromTimeT strtod unread ⟨{ rest := [] }, inserted⟩ =
      .ok ⟨file, inserted⟩ false := ⟨_, rfl⟩

/-! ## The loop -/

theorem steady_readLabel (s : LabelReader) :
    Steady fun _ => LabelReader.readLabel fromTimeT strtod unread s :=
  .const _

/-- **What the loop inserts**, if it stops at what follows the lines. -/
theorem returns_loop {tail : List Char}
    (htail : ∀ inserted, ∃ file, LabelReader.readLabel fromTimeT strtod unread
      ⟨{ rest := tail }, inserted⟩ = .ok ⟨file, inserted⟩ false)
    (lines : List (LabelLine strtod)) (inserted : List LabelTimePair) :
    ∃ file b, Returns
      (fun n => whileTrue (fun _ => LabelReader.readLabel fromTimeT strtod unread) n
        ⟨{ rest := (lines.map text).flatMap (· ++ ['\n']) ++ tail }, inserted⟩)
      ⟨file, inserted ++ readPairs fromTimeT lines⟩ b := by
  induction lines generalizing inserted with
  | nil =>
    obtain ⟨file, h⟩ := htail inserted
    refine ⟨file, false, Returns.whileTrue_stop (returns_const.2 ?_)⟩
    simpa [readPairs] using h
  | cons l lines ih =>
    have htext : (((l :: lines).map text).flatMap (· ++ ['\n']) ++ tail) =
        l.text ++ '\n' :: ((lines.map text).flatMap (· ++ ['\n']) ++ tail) := by
      simp
    rw [htext]
    cases h : l.readLabel with
    | none =>
      obtain ⟨file, hstop⟩ := l.readLabel_stop fromTimeT unread h
        ((lines.map text).flatMap (· ++ ['\n']) ++ tail) inserted
      refine ⟨file, false, Returns.whileTrue_stop (returns_const.2 ?_)⟩
      simpa [readPairs, h] using hstop
    | some label =>
      have hline := l.readLabel_line fromTimeT unread h
        ((lines.map text).flatMap (· ++ ['\n']) ++ tail) inserted
      obtain ⟨file, b, hret⟩ := ih (inserted ++ [⟨label, fromTimeT l.epoch⟩])
      refine ⟨file, true, Returns.whileTrue_next (b := b) (steady_readLabel fromTimeT unread)
        (returns_const.2 hline) ?_⟩
      simpa [readPairs, h] using hret

/-! ## The pairs of the file -/

theorem length_readPairs_le (lines : List (LabelLine strtod)) :
    (readPairs fromTimeT lines).length ≤ lines.length := by
  induction lines with
  | nil => exact le_rfl
  | cons l lines ih =>
    rw [readPairs]
    cases l.readLabel with
    | none => exact Nat.zero_le _
    | some label => exact Nat.succ_le_succ ih

theorem readPairs_eq_iff (lines : List (LabelLine strtod)) :
    readPairs fromTimeT lines = lines.map (pair fromTimeT) ↔
      ∀ l ∈ lines, l.readLabel = some l.label := by
  induction lines with
  | nil => simp [readPairs]
  | cons l lines ih =>
    rw [readPairs, List.map_cons, List.forall_mem_cons, ← ih]
    cases l.readLabel with
    | none => simp
    | some label => simp [pair]

theorem returns_loadLabelsFromFile {tail : List Char}
    (htail : ∀ inserted, ∃ file, LabelReader.readLabel fromTimeT strtod unread
      ⟨{ rest := tail }, inserted⟩ = .ok ⟨file, inserted⟩ false)
    (lines : List (LabelLine strtod)) :
    ∃ file, Returns (LabelReader.loadLabelsFromFile fromTimeT strtod unread
        { rest := (lines.map text).flatMap (· ++ ['\n']) ++ tail })
      ⟨file, readPairs fromTimeT lines⟩ () := by
  obtain ⟨file, b, n, hn⟩ := returns_loop fromTimeT unread htail lines []
  simp only [List.nil_append] at hn
  refine ⟨file, n, ?_⟩
  simp only [LabelReader.loadLabelsFromFile, good_mk, if_true, hn, Res.bind_ok]

theorem steady_loadLabelsFromFile (file : InputStream) :
    Steady (LabelReader.loadLabelsFromFile fromTimeT strtod unread file) := by
  unfold LabelReader.loadLabelsFromFile
  cases file.good with
  | true =>
    simp only [if_true]
    exact (Steady.whileTrue (steady_readLabel fromTimeT unread) _).bind fun s b => .const _
  | false => exact .const _

end LabelLine

open LabelLine

/-- `loadLabelsFromFile` returns, and has inserted the pairs of the lines. -/
def LabelReader.Loads {strtod : Bool → ℚ≥0 → Option ℚ} (fromTimeT : ℤ → TimeType)
    (unread : ℤ × ℚ) (lines : List (LabelLine strtod)) (newline : Bool) : Prop :=
  ∃ s, Returns (LabelReader.loadLabelsFromFile fromTimeT strtod unread
      { rest := linesText newline (lines.map text) }) s () ∧
    s.inserted = lines.map (pair fromTimeT)

/-- **Which files are loaded**: the last line has its newline, and in no line the
    other characters go on with the number before them. -/
theorem loadLabelsFromFile_iff (fromTimeT : ℤ → TimeType) (strtod : Bool → ℚ≥0 → Option ℚ)
    (unread : ℤ × ℚ) (lines : List (LabelLine strtod)) (newline : Bool) :
    LabelReader.Loads fromTimeT unread lines newline ↔
      (lines = [] ∨ newline = true) ∧ ∀ l ∈ lines, l.readLabel = some l.label := by
  have hfile : ∀ (lines' : List (LabelLine strtod)) (tail : List Char),
      linesText newline (lines.map text) = (lines'.map text).flatMap (· ++ ['\n']) ++ tail →
      (∀ inserted, ∃ file, LabelReader.readLabel fromTimeT strtod unread
        ⟨{ rest := tail }, inserted⟩ = .ok ⟨file, inserted⟩ false) →
      (LabelReader.Loads fromTimeT unread lines newline ↔
        readPairs fromTimeT lines' = lines.map (pair fromTimeT)) := by
    intro lines' tail htext htail
    obtain ⟨file, hret⟩ := returns_loadLabelsFromFile fromTimeT unread htail lines'
    rw [LabelReader.Loads, htext]
    constructor
    · rintro ⟨s, hret', hs⟩
      rw [← hs, (hret'.unique (steady_loadLabelsFromFile _ _ _) hret).1]
    · exact fun h => ⟨_, hret, h⟩
  cases newline with
  | true =>
    rw [hfile lines [] (by simp [linesText_true]) (readLabel_nil fromTimeT unread),
      readPairs_eq_iff]
    simp
  | false =>
    rcases List.eq_nil_or_concat' lines with rfl | ⟨init, last, rfl⟩
    · rw [hfile [] [] (by simp [linesText_nil]) (readLabel_nil fromTimeT unread)]
      simp [readPairs]
    · rw [hfile init last.text (by simp [linesText_false_concat])
        (last.readLabel_last fromTimeT unread)]
      have hlen := length_readPairs_le fromTimeT init
      constructor
      · intro h
        rw [h, List.length_map, List.length_append, List.length_singleton] at hlen
        omega
      · rintro ⟨h, -⟩
        simp at h

/-- The line `0,1`. -/
def epochZero : LabelLine exactDecimal :=
  .ofEpoch 0 (by norm_num) (by norm_num) 1 ['1'] (by decide +kernel)

/-- Without a newline behind it, it is not loaded. -/
theorem last_label_dropped :
    ¬ LabelReader.Loads (fun t => some (t * 1000000)) (0, 0) [epochZero] false := by
  have htext : linesText false ([epochZero].map text) =
      (([] : List (LabelLine exactDecimal)).map text).flatMap (· ++ ['\n']) ++ epochZero.text := rfl
  rintro ⟨s, hret, hs⟩
  rw [htext] at hret
  obtain ⟨file, hlast⟩ := returns_loadLabelsFromFile (fun t => some (t * 1000000)) (0, 0)
    (epochZero.readLabel_last _ _) []
  rw [(hret.unique (steady_loadLabelsFromFile _ _ _) hlast).1] at hs
  cases hs

end SmartScreen
