/-
  The parser of ini files (`ini.c`, with the settings of `ini.h`).

  A text is a list of bytes.  It is read with `fgets` into an array, so a long line is
  read in parts, each of which is parsed like a line of its own.

  * `findCharsOrComment` and `gets` give what they have found and what is left.
  * `Continues`: a line that starts with white space belongs to the name before, if
    there is one.
  * The lines are counted without an end; the `int` of the code counts 2^31 - 1 of them.
-/
import SmartScreen.App.ProgramConfiguration

namespace SmartScreen.Ini

open NumberText
open ProgramConfiguration (IniEntry iniParseEntries)

def maxLine : ℕ := 200
def maxSection : ℕ := 50
def maxName : ℕ := 50

/-! ## Strings -/

/-- At most `n` bytes, and none behind a newline. -/
def gets : ℕ → List Char → List Char × List Char
  | 0, stream => ([], stream)
  | _ + 1, [] => ([], [])
  | n + 1, c :: stream =>
    if c = '\n' then ([c], stream)
    else
      let (line, rest) := gets n stream
      (c :: line, rest)

/-- `fgets`; there is nothing to read at the end of the stream. -/
def fgets (num : ℕ) (stream : List Char) : Option (List Char × List Char) :=
  if stream = [] then none else some (gets (num - 1) stream)

/-- A string ends in front of its first null byte. -/
def cString (array : List Char) : List Char := array.takeWhile (· ≠ '\x00')

def rstrip (s : List Char) : List Char := s.rdropWhile isSpace

def lskip (s : List Char) : List Char := s.dropWhile isSpace

/-- What is in front of the first of `chars` or of an inline comment, and what is not. -/
def findCharsOrComment (chars : List Char) : Bool → List Char → List Char × List Char
  | _, [] => ([], [])
  | wasSpace, c :: s =>
    if c ∈ chars ∨ (wasSpace = true ∧ c = ';') then ([], c :: s)
    else
      let (front, rest) := findCharsOrComment chars (isSpace c) s
      (c :: front, rest)

def strncpy0 (src : List Char) (size : ℕ) : List Char := src.take (size - 1)

def byteOrderMark : List Char := ['\xef', '\xbb', '\xbf']

/-! ## Parsing -/

/-- The variables of `ini_parse_stream`. -/
structure Parser (σ : Type) where
  user : σ
  sectionName : List Char := []
  prevName : List Char := []
  lineno : ℕ := 0
  error : ℕ := 0

namespace Parser

variable {σ : Type}

/-- An error is noted if it is the first one. -/
def fail (p : Parser σ) : Parser σ := { p with error := if p.error = 0 then p.lineno else p.error }

def call (handler : σ → IniEntry → σ × Bool) (name value : List Char) (p : Parser σ) : Parser σ :=
  let (user, taken) := handler p.user
    ⟨p.lineno, .ofList p.sectionName, .ofList name, .ofList value⟩
  let p := { p with user }
  if taken then p else p.fail

/-- There is a name before, and `start` is not where the line starts. -/
def Continues (p : Parser σ) (moved : Bool) : Prop := p.prevName ≠ [] ∧ moved = true

instance (p : Parser σ) (moved : Bool) : Decidable (p.Continues moved) :=
  inferInstanceAs (Decidable (_ ∧ _))

/-- What a line is, from `start` on. -/
def parseStart (handler : σ → IniEntry → σ × Bool) (moved : Bool) :
    List Char → Parser σ → Parser σ
  | [], p => p
  | c :: rest, p =>
    if c = ';' ∨ c = '#' then p
    else if p.Continues moved then p.call handler p.prevName (c :: rest)
    else if c = '[' then
      match findCharsOrComment [']'] false rest with
      | (name, ']' :: _) => { p with sectionName := strncpy0 name maxSection, prevName := [] }
      | _ => p.fail
    else
      match findCharsOrComment ['=', ':'] false (c :: rest) with
      | (_, []) => p.fail
      | (front, separator :: rest) =>
        if separator = '=' ∨ separator = ':' then
          let name := rstrip front
          let value := rstrip (findCharsOrComment [] false (lskip rest)).1
          { p with prevName := strncpy0 name maxName }.call handler name value
        else p.fail

/-- The body of the loop. -/
def parseLine (handler : σ → IniEntry → σ × Bool) (line : List Char) (p : Parser σ) : Parser σ :=
  let p := { p with lineno := p.lineno + 1 }
  let line := cString line
  let hasMark : Bool := p.lineno = 1 ∧ byteOrderMark <+: line
  let stripped := rstrip (bif hasMark then line.drop 3 else line)
  let start := lskip stripped
  p.parseStart handler (hasMark || decide (start.length < stripped.length)) start

def parseStream (handler : σ → IniEntry → σ × Bool) : ℕ → List Char → Parser σ → Option (Parser σ)
  | 0, _, _ => none
  | fuel + 1, stream, p =>
    match fgets maxLine stream with
    | none => some p
    | some (line, rest) => parseStream handler fuel rest (p.parseLine handler line)

end Parser

/-- `ini_parse`; there is no text if the file cannot be opened. -/
def iniParse {σ : Type} (handler : σ → IniEntry → σ × Bool) (fuel : ℕ) :
    Option (List Char) → σ → Option (σ × ℤ)
  | none, user => some (user, -1)
  | some text, user =>
    (Parser.parseStream handler fuel text { user }).map fun p => (p.user, p.error)

/-! ## Lines -/

theorem gets_append (n : ℕ) (stream : List Char) :
    (gets n stream).1 ++ (gets n stream).2 = stream := by
  induction n generalizing stream with
  | zero => rfl
  | succ n ih =>
    cases stream with
    | nil => rfl
    | cons c stream =>
      rw [gets]
      split_ifs
      · rfl
      · simp [ih]

theorem length_gets_le (n : ℕ) (stream : List Char) : (gets n stream).1.length ≤ n := by
  induction n generalizing stream with
  | zero => exact le_rfl
  | succ n ih =>
    cases stream with
    | nil => exact Nat.zero_le _
    | cons c stream =>
      rw [gets]
      split_ifs
      · exact Nat.succ_le_succ (Nat.zero_le n)
      · exact Nat.succ_le_succ (ih stream)

theorem gets_ne_nil {n : ℕ} (hn : 0 < n) {stream : List Char} (h : stream ≠ []) :
    (gets n stream).1 ≠ [] := by
  obtain ⟨n, rfl⟩ := Nat.exists_eq_succ_of_ne_zero hn.ne'
  obtain ⟨c, stream, rfl⟩ := List.exists_cons_of_ne_nil h
  rw [gets]
  split_ifs <;> simp

/-- A line is read with its newline. -/
theorem gets_line {line : List Char} (hline : '\n' ∉ line) {n : ℕ} (hn : line.length < n)
    (more : List Char) : gets n (line ++ '\n' :: more) = (line ++ ['\n'], more) := by
  induction line generalizing n with
  | nil =>
    obtain ⟨n, rfl⟩ := Nat.exists_eq_succ_of_ne_zero hn.ne'
    simp [gets]
  | cons c line ih =>
    obtain ⟨n, rfl⟩ := Nat.exists_eq_succ_of_ne_zero (Nat.ne_of_gt (Nat.zero_lt_of_lt hn))
    rw [List.mem_cons, not_or] at hline
    rw [List.cons_append, gets, if_neg (Ne.symm hline.1),
      ih hline.2 (Nat.lt_of_succ_lt_succ hn)]
    rfl

/-- So is the end of the text. -/
theorem gets_end {line : List Char} (hline : '\n' ∉ line) {n : ℕ} (hn : line.length ≤ n) :
    gets n line = (line, []) := by
  induction line generalizing n with
  | nil => cases n <;> rfl
  | cons c line ih =>
    obtain ⟨n, rfl⟩ := Nat.exists_eq_succ_of_ne_zero (Nat.ne_of_gt (Nat.zero_lt_of_lt hn))
    rw [List.mem_cons, not_or] at hline
    rw [gets, if_neg (Ne.symm hline.1), ih hline.2 (Nat.le_of_succ_le_succ hn)]

/-! ## Kinds of lines -/

namespace Parser

section
variable {σ : Type} (handler : σ → IniEntry → σ × Bool) {p : Parser σ} {moved : Bool} {first : Char}
  {rest name more : List Char}

theorem parseStart_comment (h : first = ';' ∨ first = '#') :
    p.parseStart handler moved (first :: rest) = p := by
  rw [parseStart, if_pos h]

theorem parseStart_continued (h : ¬ (first = ';' ∨ first = '#')) (hc : p.Continues moved) :
    p.parseStart handler moved (first :: rest) = p.call handler p.prevName (first :: rest) := by
  rw [parseStart, if_neg h, if_pos hc]

theorem parseStart_heading (hc : ¬ p.Continues moved)
    (hfind : findCharsOrComment [']'] false rest = (name, ']' :: more)) :
    p.parseStart handler moved ('[' :: rest) =
      { p with sectionName := strncpy0 name maxSection, prevName := [] } := by
  rw [parseStart, if_neg (by decide), if_neg hc, if_pos rfl, hfind]
  rfl

theorem parseStart_heading_open (hc : ¬ p.Continues moved)
    (hfind : ∀ name more, findCharsOrComment [']'] false rest ≠ (name, ']' :: more)) :
    p.parseStart handler moved ('[' :: rest) = p.fail := by
  rw [parseStart, if_neg (by decide), if_neg hc, if_pos rfl]
  split
  · exact absurd ‹_› (hfind _ _)
  · rfl

theorem parseStart_pair (h : ¬ (first = ';' ∨ first = '#')) (hc : ¬ p.Continues moved)
    (hb : first ≠ '[') {separator : Char} (hsep : separator = '=' ∨ separator = ':')
    (hfind : findCharsOrComment ['=', ':'] false (first :: rest) = (name, separator :: more)) :
    p.parseStart handler moved (first :: rest) =
      { p with prevName := strncpy0 (rstrip name) maxName }.call handler (rstrip name)
        (rstrip (findCharsOrComment [] false (lskip more)).1) := by
  rw [parseStart, if_neg h, if_neg hc, if_neg hb, hfind]
  exact if_pos hsep

theorem parseStart_pair_open (h : ¬ (first = ';' ∨ first = '#')) (hc : ¬ p.Continues moved)
    (hb : first ≠ '[')
    (hfind : ∀ name separator more, (separator = '=' ∨ separator = ':') →
      findCharsOrComment ['=', ':'] false (first :: rest) ≠ (name, separator :: more)) :
    p.parseStart handler moved (first :: rest) = p.fail := by
  rw [parseStart, if_neg h, if_neg hc, if_neg hb]
  split
  · rfl
  · rename_i name separator more heq
    exact if_neg fun hsep => hfind name separator more hsep heq

end

end Parser

end SmartScreen.Ini
