/-
  Formatted input: an `std::istream` on a text.

  A stream is what is left of the text, and its flags.  A `Format` reads a number
  in two steps: it takes the characters that can go on with what it has, and then
  converts them if they are a number.

  * `Format.read_append_of_stop`: a number ends at a character that no number has.
  * `Format.rest_suffix`: what follows a number is at most what has been put there.
-/
import SmartScreen.Lib.NumberText

open NumberText

structure InputStream where
  rest : List Char
  eof : Bool := false
  fail : Bool := false
deriving DecidableEq

/-- How numbers of a type are written.  `next` is what can follow in the middle of
    a number, and `final` says where a number may end; `value` is `none` for a
    number that is out of range. -/
structure Format (β : Type) where
  State : Type
  start : State
  next : State → Char → Option State
  final : State → Bool
  value : List Char → Option β
  final_start : final start = false
  next_space : ∀ q c, isSpace c = true → next q c = none

namespace Format

variable {β : Type} (f : Format β)

/-- The longest beginning of a text that can go on with a number: the state after
    it, the beginning, and what is left. -/
def scan : f.State → List Char → f.State × List Char × List Char
  | q, [] => (q, [], [])
  | q, c :: cs =>
    match f.next q c with
    | some q' => ((scan q' cs).1, c :: (scan q' cs).2.1, (scan q' cs).2.2)
    | none => (q, [], c :: cs)

/-- The number at the front of a text, and what is left. -/
def read (s : List Char) : Option β × List Char :=
  let (q, field, rest) := f.scan f.start s
  (if f.final q then f.value field else none, rest)

/-- A character that is in no number. -/
def Stops (c : Char) : Prop := ∀ q, f.next q c = none

/-! ## What is scanned -/

variable {f}

theorem scan_cons {q q' : f.State} {c : Char} (h : f.next q c = some q') (cs : List Char) :
    f.scan q (c :: cs) = ((f.scan q' cs).1, c :: (f.scan q' cs).2.1, (f.scan q' cs).2.2) := by
  simp only [scan, h]

theorem scan_cons_none {q : f.State} {c : Char} (h : f.next q c = none) (cs : List Char) :
    f.scan q (c :: cs) = (q, [], c :: cs) := by
  simp only [scan, h]

theorem scan_append_of_stop {c : Char} (hc : f.Stops c) (q : f.State) (s t : List Char) :
    f.scan q (s ++ c :: t) =
      ((f.scan q s).1, (f.scan q s).2.1, (f.scan q s).2.2 ++ c :: t) := by
  induction s generalizing q with
  | nil => simp [scan, hc q]
  | cons a s ih =>
    simp only [List.cons_append, scan]
    cases f.next q a with
    | none => rfl
    | some q' => simp only [ih q']

theorem scan_rest_suffix (q : f.State) (s : List Char) : (f.scan q s).2.2 <:+ s := by
  induction s generalizing q with
  | nil => exact List.suffix_rfl
  | cons a s ih =>
    simp only [scan]
    cases f.next q a with
    | none => exact List.suffix_rfl
    | some q' => exact (ih q').trans (List.suffix_cons a s)

theorem scan_append_suffix {q : f.State} {s : List Char} (h : (f.scan q s).2.2 = [])
    (t : List Char) : (f.scan q (s ++ t)).2.2 <:+ t := by
  induction s generalizing q with
  | nil => exact scan_rest_suffix q t
  | cons a s ih =>
    simp only [List.cons_append, scan] at h ⊢
    cases hq : f.next q a with
    | none => simp only [hq, reduceCtorEq] at h
    | some q' =>
      simp only [hq] at h
      exact ih h

/-! ## What is read -/

/-- **A number ends at a character that is in no number.** -/
theorem read_append_of_stop {c : Char} (hc : f.Stops c) (s t : List Char) :
    f.read (s ++ c :: t) = ((f.read s).1, (f.read s).2 ++ c :: t) := by
  simp only [read, scan_append_of_stop hc]

/-- **What is left behind a number** is an end of what stands there. -/
theorem rest_suffix {s : List Char} (h : (f.read s).2 = []) (t : List Char) :
    (f.read (s ++ t)).2 <:+ t :=
  scan_append_suffix h t

theorem stops_of_isSpace {c : Char} (h : isSpace c = true) : f.Stops c :=
  fun q => f.next_space q c h

/-- A number does not begin with a character that is in none. -/
theorem read_cons_of_stop {c : Char} (hc : f.Stops c) (s : List Char) :
    (f.read (c :: s)).1 = none := by
  simp [read, scan, hc f.start, f.final_start]

theorem read_nil : (f.read []).1 = none := by
  simp [read, scan, f.final_start]

theorem dropWhile_isSpace {s : List Char} {b : β} (h : (f.read s).1 = some b) :
    s.dropWhile isSpace = s ∧ s ≠ [] := by
  cases s with
  | nil =>
    rw [read_nil] at h
    cases h
  | cons c s =>
    refine ⟨List.dropWhile_cons_of_neg ?_, List.cons_ne_nil c s⟩
    intro hc
    rw [read_cons_of_stop (stops_of_isSpace hc)] at h
    cases h

theorem dropWhile_isSpace_append {s : List Char} {b : β} (h : (f.read s).1 = some b)
    (t : List Char) : (s ++ t).dropWhile isSpace = s ++ t := by
  obtain ⟨hdrop, hne⟩ := dropWhile_isSpace h
  obtain ⟨c, s, rfl⟩ := List.exists_cons_of_ne_nil hne
  have hc : ¬ isSpace c = true := by
    intro hc
    have hlen := congrArg List.length hdrop
    rw [List.dropWhile_cons_of_pos hc] at hlen
    have hle := (List.dropWhile_suffix (l := s) isSpace).length_le
    simp only [List.length_cons] at hlen
    omega
  exact List.dropWhile_cons_of_neg hc

end Format

namespace InputStream

variable {β : Type} {f : Format β}

def good (s : InputStream) : Bool := !s.eof && !s.fail

/-- `n` characters at most, up to the delimiter and with it. -/
def skip (delim : Char) : ℕ → List Char → InputStream
  | 0, cs => { rest := cs }
  | _ + 1, [] => { rest := [], eof := true }
  | n + 1, c :: cs => if c = delim then { rest := cs } else skip delim n cs

def ignore (n : ℕ) (delim : Char) (s : InputStream) : InputStream :=
  if s.good then skip delim n s.rest else { s with fail := true }

/-- `operator>>`. -/
def extract (f : Format β) (s : InputStream) : Option β × InputStream :=
  if s.good then
    let text := s.rest.dropWhile isSpace
    if text = [] then (none, { rest := [], eof := true, fail := true })
    else
      let (b, rest) := f.read text
      (b, { rest := rest, eof := rest.isEmpty, fail := b.isNone })
  else (none, { s with fail := true })

/-- `std::getline`. -/
def getline (s : InputStream) : List Char × InputStream :=
  if s.good then
    match s.rest.dropWhile (· ≠ '\n') with
    | [] => (s.rest, { rest := [], eof := true, fail := s.rest.isEmpty })
    | _ :: rest => (s.rest.takeWhile (· ≠ '\n'), { rest := rest })
  else ([], { s with fail := true })

/-- The lines of a text; the last one may come without its newline. -/
def linesText (newline : Bool) (lines : List (List Char)) : List Char :=
  if newline then lines.flatMap (· ++ ['\n']) else ['\n'].intercalate lines

/-! ## Streams that are good -/

@[simp] theorem good_mk (cs : List Char) : good { rest := cs } = true := rfl

theorem ignore_of_not_good {s : InputStream} (h : s.good = false) (n : ℕ) (delim : Char) :
    (s.ignore n delim).good = false := by
  rw [ignore, if_neg (by simp [h])]
  simp [good]

theorem extract_of_read {cs rest : List Char} {b : β} (h : f.read cs = (some b, rest)) :
    ({ rest := cs } : InputStream).extract f = (some b, { rest := rest, eof := rest.isEmpty }) := by
  obtain ⟨hdrop, hne⟩ := Format.dropWhile_isSpace (f := f) (s := cs) (b := b) (by rw [h])
  simp [extract, hdrop, hne, h]

/-- A number that cannot be read leaves a stream that is not good. -/
theorem extract_of_read_none {cs : List Char} (h : (f.read (cs.dropWhile isSpace)).1 = none) :
    (({ rest := cs } : InputStream).extract f).2.good = false := by
  simp only [extract, good_mk, if_true]
  split
  · rfl
  · simp [good, h]

/-- A number, what follows it, and a character that is in no number. -/
theorem extract_append {cs rest more : List Char} {b : β} {c : Char}
    (h : f.read cs = (some b, rest)) (hc : f.Stops c) :
    ({ rest := cs ++ c :: more } : InputStream).extract f =
      (some b, { rest := rest ++ c :: more }) := by
  have hread : f.read (cs ++ c :: more) = (some b, rest ++ c :: more) := by
    rw [Format.read_append_of_stop hc, h]
  rw [extract_of_read hread]
  simp

theorem skip_append {delim : Char} {cs : List Char} {n : ℕ} (h : delim ∉ cs) (hn : cs.length < n)
    (more : List Char) : skip delim n (cs ++ delim :: more) = { rest := more } := by
  induction cs generalizing n with
  | nil =>
    obtain ⟨n, rfl⟩ := Nat.exists_eq_succ_of_ne_zero (Nat.ne_of_gt hn)
    simp [skip]
  | cons c cs ih =>
    obtain ⟨n, rfl⟩ := Nat.exists_eq_succ_of_ne_zero (Nat.ne_of_gt (Nat.zero_lt_of_lt hn))
    rw [List.mem_cons, not_or] at h
    rw [List.cons_append, skip, if_neg (Ne.symm h.1)]
    exact ih h.2 (Nat.lt_of_succ_lt_succ hn)

theorem skip_end {delim : Char} {cs : List Char} {n : ℕ} (h : delim ∉ cs) (hn : cs.length < n) :
    skip delim n cs = { rest := [], eof := true } := by
  induction cs generalizing n with
  | nil =>
    obtain ⟨n, rfl⟩ := Nat.exists_eq_succ_of_ne_zero (Nat.ne_of_gt hn)
    rfl
  | cons c cs ih =>
    obtain ⟨n, rfl⟩ := Nat.exists_eq_succ_of_ne_zero (Nat.ne_of_gt (Nat.zero_lt_of_lt hn))
    rw [List.mem_cons, not_or] at h
    rw [skip, if_neg (Ne.symm h.1)]
    exact ih h.2 (Nat.lt_of_succ_lt_succ hn)

theorem ignore_append {delim : Char} {cs : List Char} {n : ℕ} (h : delim ∉ cs)
    (hn : cs.length < n) (more : List Char) :
    ({ rest := cs ++ delim :: more } : InputStream).ignore n delim = { rest := more } :=
  skip_append h hn more

/-- At the end of the text there is nothing to stop at. -/
theorem ignore_end {delim : Char} {cs : List Char} {n : ℕ} (h : delim ∉ cs) (hn : cs.length < n)
    (eof : Bool) : (({ rest := cs, eof := eof } : InputStream).ignore n delim).good = false := by
  cases eof with
  | true => rfl
  | false =>
    rw [ignore, good_mk, if_pos rfl, skip_end h hn]
    rfl

theorem getline_append {line : List Char} (h : '\n' ∉ line) (more : List Char) :
    ({ rest := line ++ '\n' :: more } : InputStream).getline = (line, { rest := more }) := by
  have hpos : ∀ c ∈ line, decide (c ≠ '\n') = true := by
    intro c hc
    exact decide_eq_true fun heq => h (heq ▸ hc)
  simp only [getline, good_mk, if_true]
  rw [List.dropWhile_append_of_pos hpos, List.takeWhile_append_of_pos hpos]
  simp

/-! ## Cells -/

/-- A number, and what is skipped between it and the delimiter. -/
structure Cell (f : Format β) (n : ℕ) (delim : Char) where
  text : List Char
  value : β
  skipped : List Char
  read : f.read text = (some value, skipped)
  length_lt : skipped.length < n
  not_mem : delim ∉ skipped

namespace Cell

variable {n : ℕ} {delim : Char} (cell : Cell f n delim)

/-- A cell and its delimiter. -/
theorem extract_append (hstop : f.Stops delim) (more : List Char) :
    ({ rest := cell.text ++ delim :: more } : InputStream).extract f =
      (some cell.value, { rest := cell.skipped ++ delim :: more }) :=
  InputStream.extract_append cell.read hstop

theorem ignore_append (more : List Char) :
    ({ rest := cell.skipped ++ delim :: more } : InputStream).ignore n delim = { rest := more } :=
  InputStream.ignore_append cell.not_mem cell.length_lt more

/-- A cell at the end of the text. -/
theorem extract_end : ({ rest := cell.text } : InputStream).extract f =
    (some cell.value, { rest := cell.skipped, eof := cell.skipped.isEmpty }) :=
  extract_of_read cell.read

theorem ignore_end (eof : Bool) :
    (({ rest := cell.skipped, eof := eof } : InputStream).ignore n delim).good = false :=
  InputStream.ignore_end cell.not_mem cell.length_lt eof

end Cell

/-! ## Lines -/

theorem linesText_nil (newline : Bool) : linesText newline [] = [] := by
  cases newline <;> rfl

theorem linesText_true (lines : List (List Char)) :
    linesText true lines = lines.flatMap (· ++ ['\n']) := rfl

/-- Without its newline, the last line is the end of the text. -/
theorem linesText_false_concat (lines : List (List Char)) (last : List Char) :
    linesText false (lines ++ [last]) = lines.flatMap (· ++ ['\n']) ++ last := by
  simp only [linesText, Bool.false_eq_true, if_false]
  induction lines with
  | nil => simp
  | cons line lines ih =>
    cases lines with
    | nil => simp
    | cons line' lines =>
      rw [List.cons_append, List.cons_append, List.intercalate_cons_cons, ← List.cons_append, ih]
      simp

end InputStream

/-! ## Formats -/

namespace Format

/-- Where a whole number is: before its sign, before its digits, or in them. -/
inductive WholePhase where
  | start | signed | digits

namespace WholePhase

def next : WholePhase → Char → Option WholePhase
  | .start, '-' | .start, '+' => some .signed
  | _, c => if c.isDigit then some .digits else none

def final : WholePhase → Bool
  | .digits => true
  | .start | .signed => false

end WholePhase

/-- Where a number with a fraction and an exponent is, and whether it has a digit. -/
inductive RealPhase where
  | start
  | whole (digit : Bool)
  | fraction (digit : Bool)
  | exponentStart
  | exponentSigned
  | exponent

namespace RealPhase

def isExponent (c : Char) : Bool := c = 'e' || c = 'E'

def next : RealPhase → Char → Option RealPhase
  | .start, c =>
    if c = '-' || c = '+' then some (.whole false)
    else if c.isDigit then some (.whole true)
    else if c = '.' then some (.fraction false)
    else none
  | .whole digit, c =>
    if c.isDigit then some (.whole true)
    else if c = '.' then some (.fraction digit)
    else if digit && isExponent c then some .exponentStart
    else none
  | .fraction digit, c =>
    if c.isDigit then some (.fraction true)
    else if digit && isExponent c then some .exponentStart
    else none
  | .exponentStart, c =>
    if c = '-' || c = '+' then some .exponentSigned
    else if c.isDigit then some .exponent
    else none
  | .exponentSigned, c | .exponent, c => if c.isDigit then some .exponent else none

def final : RealPhase → Bool
  | .whole digit | .fraction digit => digit
  | .exponent => true
  | .start | .exponentStart | .exponentSigned => false

end RealPhase

/-- A character that numbers are written with. -/
def isPart (c : Char) : Bool := c.isDigit || c ∈ ['-', '+', '.', 'e', 'E']

theorem WholePhase.next_eq_none {c : Char} (hc : isPart c = false) (q : WholePhase) :
    q.next c = none := by
  simp only [isPart, Bool.or_eq_false_iff, decide_eq_false_iff_not, List.mem_cons,
    List.not_mem_nil, or_false, not_or] at hc
  cases q <;> simp [next, hc]

theorem RealPhase.next_eq_none {c : Char} (hc : isPart c = false) (q : RealPhase) :
    q.next c = none := by
  simp only [isPart, Bool.or_eq_false_iff, decide_eq_false_iff_not, List.mem_cons,
    List.not_mem_nil, or_false, not_or] at hc
  cases q <;> simp [next, isExponent, hc]

theorem isPart_of_isSpace {c : Char} (h : isSpace c = true) : isPart c = false := by
  simp only [isSpace, decide_eq_true_eq, List.mem_cons, List.not_mem_nil, or_false] at h
  rcases h with rfl | rfl | rfl | rfl | rfl | rfl <;> decide

/-- A whole number with its sign. -/
def readWhole (s : List Char) : ℤ :=
  let (negative, digits) := readSign s
  if negative then -(Nat.ofDigitChars 10 digits 0 : ℤ) else Nat.ofDigitChars 10 digits 0

/-- A whole number from `lo` on, below `hi`. -/
def whole {β : Type} (lo hi : ℤ) (ofInt : ℤ → β) : Format β where
  State := WholePhase
  start := .start
  next := WholePhase.next
  final := WholePhase.final
  value s := if lo ≤ readWhole s ∧ readWhole s < hi then some (ofInt (readWhole s)) else none
  final_start := rfl
  next_space q _ h := WholePhase.next_eq_none (isPart_of_isSpace h) q

/-- A signed integer type of `bits` bits. -/
def signed (bits : ℕ) : Format ℤ := whole (-(2 : ℤ) ^ (bits - 1)) (2 ^ (bits - 1)) id

/-- An unsigned integer type of `bits` bits.  A minus sign is read and negates. -/
def unsigned (bits : ℕ) : Format ℕ :=
  whole (-(2 : ℤ) ^ bits + 1) (2 ^ bits) fun z => (z % (2 ^ bits : ℕ)).toNat

/-- A floating-point type: `ofDecimal` is the value nearest to a number and its
    sign, or `none` if the number is too large. -/
def real {D : Type} (ofDecimal : Bool → ℚ≥0 → Option D) : Format D where
  State := RealPhase
  start := .start
  next := RealPhase.next
  final := RealPhase.final
  value s := (Radix.decimal.readNumber (readSign s).2).bind (ofDecimal (readSign s).1)
  final_start := rfl
  next_space q _ h := RealPhase.next_eq_none (isPart_of_isSpace h) q

/-- The conversion to exact numbers. -/
def exactDecimal (negative : Bool) (q : ℚ≥0) : Option ℚ := some (if negative then -q else q)

theorem stops_whole {β : Type} {lo hi : ℤ} {ofInt : ℤ → β} {c : Char} (hc : isPart c = false) :
    (whole lo hi ofInt).Stops c :=
  WholePhase.next_eq_none hc

theorem stops_real {D : Type} {ofDecimal : Bool → ℚ≥0 → Option D} {c : Char}
    (hc : isPart c = false) : (real ofDecimal).Stops c :=
  RealPhase.next_eq_none hc

/-! ## Wider ranges -/

theorem scan_whole {β γ : Type} (lo hi lo' hi' : ℤ) (ofInt : ℤ → β) (ofInt' : ℤ → γ)
    (q : WholePhase) (s : List Char) :
    (whole lo hi ofInt).scan q s = (whole lo' hi' ofInt').scan q s := by
  induction s generalizing q with
  | nil => rfl
  | cons c cs ih =>
    cases hq : q.next c with
    | none =>
      have h₁ := scan_cons_none (f := whole lo hi ofInt) hq cs
      have h₂ := scan_cons_none (f := whole lo' hi' ofInt') hq cs
      exact h₁.trans h₂.symm
    | some q' =>
      have h₁ := scan_cons (f := whole lo hi ofInt) hq cs
      have h₂ := scan_cons (f := whole lo' hi' ofInt') hq cs
      rw [ih q'] at h₁
      exact h₁.trans h₂.symm

theorem read_whole {β : Type} (lo hi : ℤ) (ofInt : ℤ → β) (s : List Char) :
    (whole lo hi ofInt).read s =
      let r : WholePhase × List Char × List Char := (whole lo hi ofInt).scan .start s
      (if r.1.final then
        if lo ≤ readWhole r.2.1 ∧ readWhole r.2.1 < hi then some (ofInt (readWhole r.2.1)) else none
      else none, r.2.2) := rfl

/-- A number that is read in a range is read in a wider one. -/
theorem read_whole_of_le {β : Type} {lo hi lo' hi' : ℤ} {ofInt ofInt' : ℤ → β} {s rest : List Char}
    {b : β} (h : (whole lo hi ofInt).read s = (some b, rest)) (hlo : lo' ≤ lo) (hhi : hi ≤ hi')
    (heq : ∀ z, lo ≤ z → z < hi → ofInt' z = ofInt z) :
    (whole lo' hi' ofInt').read s = (some b, rest) := by
  rw [read_whole] at h ⊢
  rw [scan_whole lo' hi' lo hi ofInt' ofInt]
  generalize ((whole lo hi ofInt).scan .start s : WholePhase × List Char × List Char) = r at h ⊢
  dsimp only at h ⊢
  split_ifs at h with hfinal hrange
  · rw [if_pos hfinal, if_pos ⟨hlo.trans hrange.1, hrange.2.trans_le hhi⟩,
      heq _ hrange.1 hrange.2]
    exact h
  · cases h
  · cases h

/-! ## What is written -/

/-- `operator<<` for an integer. -/
def showInt (z : ℤ) : List Char := showSign (z < 0) ++ Nat.toDigits 10 z.natAbs

theorem scan_digits {β : Type} {lo hi : ℤ} {ofInt : ℤ → β} {cs : List Char}
    (h : ∀ c ∈ cs, c.isDigit = true) :
    (whole lo hi ofInt).scan .digits cs = (.digits, cs, []) := by
  induction cs with
  | nil => rfl
  | cons c cs ih =>
    have hc : (whole lo hi ofInt).next .digits c = some .digits := by
      simp [whole, WholePhase.next, h c (List.mem_cons_self ..)]
    rw [scan_cons hc, ih fun a ha => h a (List.mem_cons_of_mem c ha)]

theorem scan_start_digits {β : Type} {lo hi : ℤ} {ofInt : ℤ → β} {c : Char} {cs : List Char}
    (hc : c.isDigit = true) (h : ∀ c ∈ cs, c.isDigit = true) {q : WholePhase}
    (hq : q ≠ .digits) : (whole lo hi ofInt).scan q (c :: cs) = (.digits, c :: cs, []) := by
  have hnext : (whole lo hi ofInt).next q c = some .digits := by
    have hne := (digit_ne hc).2.2
    simp only [List.mem_cons, not_or] at hne
    show q.next c = some .digits
    cases q <;> simp_all [WholePhase.next]
  rw [scan_cons hnext, scan_digits h]

/-- **An integer that is written is read**, if it is in the range of the type. -/
theorem read_showInt {β : Type} {lo hi : ℤ} {ofInt : ℤ → β} {z : ℤ} (hlo : lo ≤ z) (hhi : z < hi) :
    (whole lo hi ofInt).read (showInt z) = (some (ofInt z), []) := by
  obtain ⟨c, cs, htext, hc⟩ := exists_digit_cons z.natAbs
  have hcs : ∀ a ∈ cs, a.isDigit = true := fun a ha =>
    isDigit_of_mem_toDigits (n := z.natAbs) (by simp [htext, ha])
  have hvalue : readWhole (showInt z) = z := by
    have hdigits : Nat.ofDigitChars 10 (c :: cs) 0 = z.natAbs := by
      rw [← htext, Nat.ofDigitChars_ten_toDigits]
    rw [readWhole, showInt, htext]
    by_cases hz : z < 0
    · simp only [hz, showSign, decide_true, if_true, List.cons_append, List.nil_append, readSign,
        hdigits]
      omega
    · simp only [hz, showSign, decide_false, Bool.false_eq_true, if_false, List.nil_append,
        readSign_digit cs hc, hdigits]
      omega
  have hscan : (whole lo hi ofInt).scan .start (showInt z) = (.digits, showInt z, []) := by
    rw [showInt, htext]
    by_cases hz : z < 0
    · simp only [hz, showSign, decide_true, if_true, List.cons_append, List.nil_append]
      have hdigits : (whole lo hi ofInt).scan .signed (c :: cs) = (.digits, c :: cs, []) :=
        scan_start_digits hc hcs (by simp)
      exact (scan_cons rfl (c :: cs)).trans (by rw [hdigits])
    · simp only [hz, showSign, decide_false, Bool.false_eq_true, if_false, List.nil_append]
      exact scan_start_digits hc hcs (by simp)
  have hstart : (whole lo hi ofInt).start = WholePhase.start := rfl
  simp only [read, hstart, hscan]
  simp [whole, WholePhase.final, hvalue, hlo, hhi]

end Format
