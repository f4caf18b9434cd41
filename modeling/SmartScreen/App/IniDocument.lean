/-
  Ini files as they are written.

  * `Document`: lines that are read as they are meant, behind a byte order mark or
    without one.
  * `iniParse_document`: the handler gets the entries of a document, with their lines.
  * `load_document`: what a configuration file says is what is loaded.
-/
import SmartScreen.App.IniLine

namespace SmartScreen.Ini

open NumberText
open ProgramConfiguration (IniEntry iniParseEntries lastRead lastValue)

/-! ## Documents -/

/-- The lines are read as they are meant: they are well formed, each fits in the array
    with its newline, and what goes on with a value has one before it. -/
def Readable (c : Scope) : List Line → Prop
  | [] => True
  | line :: lines =>
    line.WellFormed ∧ line.Follows c ∧ line.text.length + 1 < maxLine ∧
      Readable (line.next c).1 lines

/-- What the lines mean. -/
def meanings (c : Scope) : List Line → List Meaning
  | [] => []
  | line :: lines => (line.next c).2 :: meanings (line.next c).1 lines

structure Document where
  /-- the text starts with a byte order mark -/
  hasMark : Bool
  first : Line
  lines : List Line
  /-- the last line has its newline -/
  newline : Bool
  readable : Readable {} (first :: lines)
  /-- an `int` counts the lines -/
  counted : (first :: lines).length < 2 ^ 31
  mark_fits : hasMark = true → first.text.length + byteOrderMark.length + 1 < maxLine
  not_mark : hasMark = false → ¬ byteOrderMark <+: first.text

namespace Document

def text (d : Document) : List Char :=
  (if d.hasMark then byteOrderMark else []) ++
    InputStream.linesText d.newline ((d.first :: d.lines).map Line.text)

def entries (d : Document) : List IniEntry := entriesFrom 0 (meanings {} (d.first :: d.lines))

end Document

/-! ## Parsing a document -/

section
variable {σ : Type} (handler : σ → IniEntry → σ × Bool) {line : Line} {c : Scope} {eol : List Char}

/-- What is read for a line: with its newline, if it has one. -/
structure IsLine (line : Line) (eol : List Char) : Prop where
  wellFormed : line.WellFormed
  eol : eol = ['\n'] ∨ eol = []

theorem IsLine.space (h : IsLine line eol) : ∀ x ∈ eol, isSpace x = true := by
  rcases h.eol with rfl | rfl <;> simp [isSpace]

theorem IsLine.not_null (h : IsLine line eol) : ∀ x ∈ line.text ++ eol, x ≠ '\x00' := by
  intro x hx
  rcases List.mem_append.1 hx with hx | hx
  · exact (Line.plain h.wellFormed x hx).2
  · rintro rfl
    have hspace := h.space _ hx
    cases hspace

theorem cString_of_ne {s : List Char} (h : ∀ x ∈ s, x ≠ '\x00') : cString s = s := by
  rw [cString, List.takeWhile_eq_self_iff]
  exact fun x hx => decide_eq_true (h x hx)

/-- A line that does not start with the mark. -/
theorem parseLine_line (h : IsLine line eol) (hfollows : line.Follows c) {lineno : ℕ}
    (hmark : lineno = 0 → ¬ byteOrderMark <+: line.text) (r : σ × ℕ) :
    (c.parser lineno r).parseLine handler (line.text ++ eol) =
      (line.next c).1.parser (lineno + 1) ((line.next c).2.apply handler (lineno + 1) r) := by
  have hno : ¬ (lineno + 1 = 1 ∧ byteOrderMark <+: line.text ++ eol) := by
    rintro ⟨hone, hprefix⟩
    refine hmark (by omega) ?_
    rcases h.eol with rfl | rfl
    · rcases List.prefix_concat_iff.1 hprefix with heq | hprefix
      · have hlast := congrArg List.getLast? heq
        rw [List.getLast?_concat] at hlast
        cases hlast
      · exact hprefix
    · rwa [List.append_nil] at hprefix
  have hstart : startOf (lineno + 1) (line.text ++ eol) = startAt (line.text ++ eol) := by
    rw [startOf, cString_of_ne h.not_null, startAt]
    simp only [decide_eq_false hno, Bool.false_or]
    rfl
  rw [parseLine_eq, hstart]
  exact Line.means h.wellFormed hfollows eol _ (lineno + 1) h.space (Or.inr rfl) σ handler r

/-- The first line, behind the mark. -/
theorem parseLine_mark (h : IsLine line eol) (hfollows : line.Follows {}) (r : σ × ℕ) :
    (({} : Scope).parser 0 r).parseLine handler (byteOrderMark ++ (line.text ++ eol)) =
      (line.next {}).1.parser 1 ((line.next {}).2.apply handler 1 r) := by
  have hnull : ∀ x ∈ byteOrderMark ++ (line.text ++ eol), x ≠ '\x00' := by
    rw [List.forall_mem_append]
    exact ⟨by simp [byteOrderMark], h.not_null⟩
  have hstart : startOf 1 (byteOrderMark ++ (line.text ++ eol)) =
      (true, (startAt (line.text ++ eol)).2) := by
    rw [startOf, cString_of_ne hnull]
    simp [startAt, byteOrderMark]
  rw [parseLine_eq, hstart]
  exact Line.means h.wellFormed hfollows eol true 1 h.space (Or.inl rfl) σ handler r

theorem linesText_cons (newline : Bool) (a : List Char) (rest : List (List Char)) :
    InputStream.linesText newline (a :: rest) =
      if newline = false ∧ rest = [] then a
      else a ++ '\n' :: InputStream.linesText newline rest := by
  cases newline with
  | true => simp [InputStream.linesText]
  | false =>
    cases rest with
    | nil => simp [InputStream.linesText]
    | cons b rest => simp [InputStream.linesText, List.intercalate_cons_cons]

/-- The end of the stream. -/
theorem parseStream_nil {fuel : ℕ} (hfuel : 0 < fuel) (p : Parser σ) :
    Parser.parseStream handler fuel [] p = some p := by
  obtain ⟨fuel, rfl⟩ := Nat.exists_eq_succ_of_ne_zero hfuel.ne'
  rfl

/-- A line with its newline. -/
theorem parseStream_line {text : List Char} (htext : '\n' ∉ text)
    (hfits : text.length + 1 < maxLine) {fuel : ℕ} {more : List Char} (p : Parser σ) :
    Parser.parseStream handler (fuel + 1) (text ++ '\n' :: more) p =
      Parser.parseStream handler fuel more (p.parseLine handler (text ++ ['\n'])) := by
  have hlt : text.length < maxLine - 1 := by omega
  rw [Parser.parseStream, fgets, if_neg (by simp), gets_line htext hlt]

/-- The last line. -/
theorem parseStream_last {text : List Char} (htext : '\n' ∉ text) (hne : text ≠ [])
    (hfits : text.length + 1 < maxLine) {fuel : ℕ} (hfuel : 0 < fuel) (p : Parser σ) :
    Parser.parseStream handler (fuel + 1) text p = some (p.parseLine handler (text ++ [])) := by
  have hle : text.length ≤ maxLine - 1 := by omega
  rw [Parser.parseStream, fgets, if_neg hne, gets_end htext hle, List.append_nil]
  exact parseStream_nil handler hfuel _

theorem Line.newline_notMem (h : line.WellFormed) : '\n' ∉ line.text :=
  fun hmem => (Line.plain h _ hmem).1 rfl

/-- An empty line is blank. -/
theorem Line.next_of_text_eq_nil (hwf : line.WellFormed) (h : line.text = []) :
    line.next c = (c, .nothing) := by
  cases line with
  | continued indent value spaces =>
    obtain ⟨-, hne, -⟩ := hwf
    exact absurd (List.append_eq_nil_iff.1 h).1 hne
  | _ => simp_all [Line.text, Line.next]

/-- What the parser has of the user, and its error. -/
def Parser.result (p : Parser σ) : σ × ℕ := (p.user, p.error)

/-- **The lines of a document.** -/
theorem parseStream_lines (newline : Bool) {lines : List Line} (h : Readable c lines)
    {lineno : ℕ} (hmark : lineno = 0 → ∀ line ∈ lines.head?, ¬ byteOrderMark <+: line.text)
    {fuel : ℕ} (hfuel : (InputStream.linesText newline (lines.map Line.text)).length < fuel)
    (r : σ × ℕ) :
    ∃ p, Parser.parseStream handler fuel (InputStream.linesText newline (lines.map Line.text))
        (c.parser lineno r) = some p ∧
      p.result = applyAll handler lineno (meanings c lines) r := by
  induction lines generalizing c lineno fuel r with
  | nil =>
    have hnil : InputStream.linesText newline ([].map Line.text) = [] := by
      cases newline <;> rfl
    rw [hnil] at hfuel ⊢
    exact ⟨_, parseStream_nil handler hfuel _, rfl⟩
  | cons line lines ih =>
    obtain ⟨hwf, hfollows, hfits, hrest⟩ := h
    have hnewline := Line.newline_notMem hwf
    have hmark' : lineno = 0 → ¬ byteOrderMark <+: line.text := fun h0 => hmark h0 line rfl
    obtain ⟨fuel, rfl⟩ := Nat.exists_eq_succ_of_ne_zero (Nat.ne_of_gt (Nat.zero_lt_of_lt hfuel))
    rw [List.map_cons, linesText_cons] at hfuel ⊢
    split_ifs at hfuel ⊢ with hlast
    · -- the last line, without its newline
      obtain ⟨-, hnil⟩ := hlast
      obtain rfl := List.map_eq_nil_iff.1 hnil
      by_cases hempty : line.text = []
      · rw [hempty]
        refine ⟨_, parseStream_nil handler (Nat.succ_pos fuel) _, ?_⟩
        rw [meanings, Line.next_of_text_eq_nil hwf hempty]
        rfl
      · have hpos := List.length_pos_iff.2 hempty
        refine ⟨_, parseStream_last handler hnewline hempty hfits (by omega) _, ?_⟩
        rw [parseLine_line handler ⟨hwf, Or.inr rfl⟩ hfollows hmark']
        rfl
    · rw [List.length_append, List.length_cons] at hfuel
      rw [parseStream_line handler hnewline hfits,
        parseLine_line handler ⟨hwf, Or.inl rfl⟩ hfollows hmark']
      exact ih hrest (fun h0 => absurd h0 (Nat.succ_ne_zero lineno)) (by omega) _

/-- **A document** is parsed line by line. -/
theorem parseStream_document (d : Document) {fuel : ℕ} (hfuel : d.text.length < fuel) (user : σ) :
    ∃ p, Parser.parseStream handler fuel d.text { user } = some p ∧
      p.result = applyAll handler 0 (meanings {} (d.first :: d.lines)) (user, 0) := by
  cases hd : d.hasMark with
  | false =>
    have htext : d.text =
        InputStream.linesText d.newline ((d.first :: d.lines).map Line.text) := by
      rw [Document.text, hd, if_neg (by decide), List.nil_append]
    rw [htext] at hfuel ⊢
    exact parseStream_lines handler d.newline d.readable
      (by rintro - line ⟨⟩; exact d.not_mark hd) hfuel (user, 0)
  | true =>
    obtain ⟨hwf, hfollows, -, hrest⟩ := d.readable
    have hlen := d.mark_fits hd
    have hnewline : '\n' ∉ byteOrderMark ++ d.first.text := by
      rw [List.mem_append, not_or]
      exact ⟨by decide, Line.newline_notMem hwf⟩
    have hfits : (byteOrderMark ++ d.first.text).length + 1 < maxLine := by
      rw [List.length_append]
      omega
    obtain ⟨fuel, rfl⟩ := Nat.exists_eq_succ_of_ne_zero (Nat.ne_of_gt (Nat.zero_lt_of_lt hfuel))
    have hparse : ∀ {eol}, (eol = ['\n'] ∨ eol = []) →
        Parser.parseLine handler (byteOrderMark ++ d.first.text ++ eol) { user } = _ := fun heol =>
      (congrArg (Parser.parseLine handler · { user }) (List.append_assoc _ _ _)).trans
        (parseLine_mark handler ⟨hwf, heol⟩ hfollows (user, 0))
    rw [Document.text, hd, if_pos rfl, List.map_cons, linesText_cons] at hfuel ⊢
    split_ifs at hfuel ⊢ with hlast
    · obtain ⟨-, hnil⟩ := hlast
      have hpos : 0 < fuel := by
        rw [List.length_append] at hfuel
        have : byteOrderMark.length = 3 := rfl
        omega
      refine ⟨_, parseStream_last handler hnewline (by simp [byteOrderMark]) hfits hpos _, ?_⟩
      rw [hparse (Or.inr rfl), List.map_eq_nil_iff.1 hnil]
      rfl
    · rw [← List.append_assoc] at hfuel ⊢
      rw [List.length_append, List.length_cons] at hfuel
      rw [parseStream_line handler hnewline hfits, hparse (Or.inl rfl)]
      exact parseStream_lines handler d.newline hrest (by rintro ⟨⟩) (by omega) _

/-- No line of a document has an error. -/
theorem errorsFrom_meanings (c : Scope) (lineno : ℕ) (lines : List Line) :
    errorsFrom lineno (meanings c lines) = [] := by
  induction lines generalizing c lineno with
  | nil => rfl
  | cons line lines ih =>
    rw [meanings]
    cases line <;> exact ih _ _

/-- **A document is read back**: the handler gets its entries, with their lines, and the
    answer is the first line that it refuses. -/
theorem iniParse_document (d : Document) (user : σ) :
    iniParse handler (d.text.length + 1) (some d.text) user =
      some ((iniParseEntries handler d.entries user 0).1,
        ((iniParseEntries handler d.entries user 0).2 : ℤ)) := by
  obtain ⟨p, hp, hresult⟩ := parseStream_document handler d (Nat.lt_succ_self _) user
  have huser := applyAll_user handler 0 (meanings {} (d.first :: d.lines)) (user, 0) 0
  have herror := applyAll_error handler 0 (meanings {} (d.first :: d.lines)) user
  rw [errorsFrom_meanings, firstError, ← hresult] at herror
  rw [← hresult] at huser
  show (Parser.parseStream handler (d.text.length + 1) d.text { user }).map
    (fun p => (p.user, (p.error : ℤ))) = _
  rw [hp, Option.map_some, Document.entries, ← herror, ← huser]
  rfl

end

/-! ## Configurations -/

/-- `ProgramConfiguration::load`, from the text of the file. -/
def load (strtof : Bool → ℚ≥0 → Option ℚ) (fuel : ℕ) (file : Option (List Char))
    (c : ProgramConfiguration) : Option (ProgramConfiguration × Bool) :=
  (iniParse (ProgramConfiguration.handler strtof) fuel file c).map fun (c, result) =>
    if result < 0 then (c, false) else (c, true)

/-- **What a configuration file says is what is loaded**: every attribute has the last
    value that can be read of it, and if all entries are valid, the last one. -/
theorem load_document (strtof : Bool → ℚ≥0 → Option ℚ) (d : Document)
    (c : ProgramConfiguration) :
    ∃ c', load strtof (d.text.length + 1) (some d.text) c = some (c', true) ∧
      (∀ k, k.get c' = lastRead strtof d.entries k c) ∧
      ((∀ e ∈ d.entries, e.Valid strtof) → ∀ k, k.get c' = lastValue strtof d.entries k c) := by
  refine ⟨_, ?_, fun k => ProgramConfiguration.get_iniParseEntries d.entries c 0 k,
    fun hvalid k => ?_⟩
  · rw [load, iniParse_document]
    exact congrArg some (if_neg (not_lt.2 (Int.natCast_nonneg _)))
  · rw [ProgramConfiguration.get_iniParseEntries,
      ProgramConfiguration.lastRead_of_valid hvalid]

/-- A heading, a pair with a remark, and more of its value. -/
def frequencyDocument : Document where
  hasMark := false
  first := .heading "main".toList []
  lines := [.pair "frequency".toList [' '] '=' [' '] "50".toList [' '] (some " Hz".toList),
    .continued [' '] "60".toList []]
  newline := true
  readable := ⟨by decide, trivial, by decide, by decide, trivial, by decide, by decide,
    show strncpy0 "frequency".toList maxName ≠ [] by decide, by decide, trivial⟩
  counted := by decide
  mark_fits := by rintro ⟨⟩
  not_mark _ := by decide

example : frequencyDocument.text = "[main]\nfrequency = 50 ; Hz\n 60\n".toList := by decide +kernel

example : frequencyDocument.entries =
    [⟨2, "main", "frequency", "50"⟩, ⟨3, "main", "frequency", "60"⟩] := by decide +kernel

end SmartScreen.Ini
