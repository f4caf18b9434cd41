/-
  Numbers as text: what an output stream writes for an unsigned number and for a
  `double`, and what `std::stoul` and `std::stod` read.

  A finite `double` is a sign and a `Magnitude`, a number of the format binary64.
  It is written with at most `p` digits (`toDecimal`, `showDecimal`), so reading it
  back (`stod_showDouble`) gives the `double` nearest to what was written.
-/
import SmartScreen.Lib.Rounding
import Mathlib.Data.List.DropRight
import Mathlib.Data.NNRat.Defs

namespace NumberText

open Rounding

/-- The exceptions of `std::stoul` and `std::stod`. -/
inductive ConversionError where
  | invalidArgument | outOfRange
deriving DecidableEq

/-! ## Doubles -/

/-- The size of a finite `double`. -/
@[ext] structure Magnitude where
  value : ℚ≥0
  lt : (value : ℚ) < 2 ^ 1024
  round_eq : Binary64.round value = value
deriving DecidableEq

/-- A whole number of at most 53 binary digits. -/
def Magnitude.ofNat (n : ℕ) (h : n ≤ 2 ^ 53) : Magnitude where
  value := n
  lt := by
    have hle : (n : ℚ) ≤ 2 ^ 53 := by exact_mod_cast h
    rw [NNRat.cast_natCast]
    exact hle.trans_lt (pow_lt_pow_right₀ one_lt_two (by norm_num))
  round_eq := by
    have hround := Binary64.round_of_le (e := 0) h (by norm_num)
    rw [zpow_zero, mul_one] at hround
    rw [NNRat.cast_natCast, hround]

/-- A value of the type `double`. -/
inductive Double where
  | finite (negative : Bool) (magnitude : Magnitude)
  | infinite (negative : Bool)
  | nan
deriving DecidableEq

/-- The `double` nearest to `q`, or to `-q`. -/
def toDouble (negative : Bool) (q : ℚ≥0) : Except ConversionError Double :=
  if h : Binary64.Overflows q then .error .outOfRange
  else if Binary64.Underflows q then .error .outOfRange
  else .ok (.finite negative
    { value := (Binary64.round q).toNNRat
      lt := (Rat.coe_toNNRat _ (Binary64.round_nonneg q.2)).trans_lt (not_le.1 h)
      round_eq := by
        have hq := Rat.coe_toNNRat _ (Binary64.round_nonneg q.2)
        exact (congrArg Binary64.round hq).trans ((Binary64.round_round q.2).trans hq.symm) })

/-! ## Writing -/

section
variable {p : ℕ} [NeZero p]

/-- A decimal number of `p` digits; `exponent` is the place of the first. -/
structure Decimal (p : ℕ) where
  digits : ℕ
  exponent : ℤ
  lt : digits < 10 ^ p
  leading : digits = 0 ∧ exponent = 0 ∨ 10 ^ (p - 1) ≤ digits

namespace Decimal

def value (d : Decimal p) : ℚ≥0 := d.digits * 10 ^ (d.exponent - (p - 1 : ℕ))

/-- `q` rounded to `p` digits. -/
def ofNNRat (q : ℚ≥0) : Decimal p :=
  if hq : q = 0 then ⟨0, 0, by positivity, .inl ⟨rfl, rfl⟩⟩
  else if h : significand 10 p q = 10 ^ p then
    ⟨10 ^ (p - 1), Int.log 10 (q : ℚ) + 1,
      Nat.pow_lt_pow_right (by decide) (Nat.sub_lt (NeZero.pos p) one_pos), .inr le_rfl⟩
  else
    have hb := significand_bounds (b := 10) (by decide) (NeZero.one_le (n := p))
      (NNRat.coe_pos.2 (pos_iff_ne_zero.2 hq))
    ⟨significand 10 p q, Int.log 10 (q : ℚ), lt_of_le_of_ne hb.2 h, .inr hb.1⟩

/-- The digits without the zeros at their end. -/
def stripZeros (s : List Char) : List Char := s.rdropWhile (· == '0')

def fractionText (s : List Char) : List Char :=
  if stripZeros s = [] then [] else '.' :: stripZeros s

def exponentText (x : ℤ) : List Char :=
  'e' :: (if x < 0 then '-' else '+') ::
    (if x.natAbs < 10 then '0' :: Nat.toDigits 10 x.natAbs else Nat.toDigits 10 x.natAbs)

/-- The conversion `%g` with precision `p`. -/
def text (d : Decimal p) : List Char :=
  let digits := Nat.toDigits 10 d.digits
  if d.exponent < -4 ∨ p ≤ d.exponent then
    digits.take 1 ++ fractionText (digits.drop 1) ++ exponentText d.exponent
  else if 0 ≤ d.exponent then
    digits.take (d.exponent.toNat + 1) ++ fractionText (digits.drop (d.exponent.toNat + 1))
  else
    '0' :: fractionText (List.replicate (-d.exponent - 1).toNat '0' ++ digits)

end Decimal

end

/-- The number of digits that an output stream writes by default. -/
abbrev precision : ℕ := 6

/-- `operator<<` for an unsigned number. -/
def showUnsigned (n : UInt64) : List Char := Nat.toDigits 10 n.toNat

def showSign (negative : Bool) : List Char := if negative then ['-'] else []

/-- `operator<<` for a `double`. -/
def showDouble : Double → List Char
  | .finite negative m => showSign negative ++ (Decimal.ofNNRat m.value : Decimal precision).text
  | .infinite negative => showSign negative ++ ['i', 'n', 'f']
  | .nan => ['n', 'a', 'n']

/-! ## Reading -/

def isSpace (c : Char) : Bool := c ∈ [' ', '\t', '\n', '\x0b', '\x0c', '\x0d']

def readSign : List Char → Bool × List Char
  | '-' :: cs => (true, cs)
  | '+' :: cs => (false, cs)
  | cs => (false, cs)

/-- `std::stoul`.  What follows the digits is left. -/
def stoul (s : List Char) : Except ConversionError UInt64 :=
  let (negative, rest) := readSign (s.dropWhile isSpace)
  let digits := rest.takeWhile Char.isDigit
  let n := Nat.ofDigitChars 10 digits 0
  if digits = [] then .error .invalidArgument
  else if 2 ^ 64 ≤ n then .error .outOfRange
  else .ok (if negative then -UInt64.ofNat n else UInt64.ofNat n)

/-- How a number with a fraction and an exponent is written: one digit is worth
    `places` steps of the exponent, which counts powers of `factor`. -/
structure Radix where
  base : ℕ
  isDigit : Char → Bool
  digitValue : Char → ℕ
  marker : Char
  factor : ℕ
  places : ℕ

namespace Radix

def decimal : Radix where
  base := 10
  isDigit := Char.isDigit
  digitValue c := c.toNat - '0'.toNat
  marker := 'e'
  factor := 10
  places := 1

def hexadecimal : Radix where
  base := 16
  isDigit c := c.isDigit || ('a' ≤ c.toLower && c.toLower ≤ 'f')
  digitValue c := if c.isDigit then c.toNat - '0'.toNat else c.toLower.toNat - 'a'.toNat + 10
  marker := 'p'
  factor := 2
  places := 4

variable (r : Radix)

def valueOf (digits : List Char) : ℕ := digits.foldl (fun n c => r.base * n + r.digitValue c) 0

def readFraction : List Char → List Char × List Char
  | '.' :: cs => (cs.takeWhile r.isDigit, cs.dropWhile r.isDigit)
  | cs => ([], cs)

/-- The exponent at the front of a text, `0` if there is none. -/
def readExponent : List Char → ℤ
  | c :: cs =>
    if c.toLower = r.marker then
      let (negative, rest) := readSign cs
      let e := Nat.ofDigitChars 10 (rest.takeWhile Char.isDigit) 0
      if negative then -e else e
    else 0
  | [] => 0

def readNumber (s : List Char) : Option ℚ≥0 :=
  let whole := s.takeWhile r.isDigit
  let (fraction, rest) := r.readFraction (s.dropWhile r.isDigit)
  if whole ++ fraction = [] then none
  else some (r.valueOf (whole ++ fraction) *
    (r.factor : ℚ≥0) ^ (r.readExponent rest - r.places * fraction.length))

end Radix

/-- Whether a text starts with a word, in small or capital letters. -/
def startsWith (word s : List Char) : Bool := (s.take word.length).map Char.toLower == word

/-- The size of a number; `0x` without a digit behind it is the number `0`. -/
def readMagnitude (s : List Char) : Option ℚ≥0 :=
  (if startsWith ['0', 'x'] s then Radix.hexadecimal.readNumber (s.drop 2) else none) <|>
    Radix.decimal.readNumber s

/-- `std::stod`. -/
def stod (s : List Char) : Except ConversionError Double :=
  let (negative, rest) := readSign (s.dropWhile isSpace)
  if startsWith ['i', 'n', 'f'] rest then .ok (.infinite negative)
  else if startsWith ['n', 'a', 'n'] rest then .ok .nan
  else
    match readMagnitude rest with
    | none => .error .invalidArgument
    | some q => toDouble negative q

/-! ## Digits -/

theorem isDigit_of_mem_toDigits {n : ℕ} {c : Char} (h : c ∈ Nat.toDigits 10 n) :
    c.isDigit = true :=
  Nat.isDigit_of_mem_toDigits (by decide) (by decide) h

theorem isDigit_cases {c : Char} (h : c.isDigit = true) : ∃ n : Fin 10, c = Nat.digitChar n := by
  rw [Char.isDigit_iff_toNat] at h
  simp only [Char.reduceToNat] at h
  obtain ⟨k, hk⟩ : ∃ k : Fin 10, c.toNat = 48 + k := ⟨⟨c.toNat - 48, by omega⟩, by
    show c.toNat = 48 + (c.toNat - 48)
    omega⟩
  refine ⟨k, ?_⟩
  rw [← Char.ofNat_toNat c, hk]
  clear hk
  revert k
  decide

/-- A digit is nothing else that a reader looks for. -/
theorem digit_ne {c : Char} (h : c.isDigit = true) :
    isSpace c = false ∧ c.toLower = c ∧ c ∉ ['-', '+', '.', 'i', 'n', 'x'] := by
  obtain ⟨n, rfl⟩ := isDigit_cases h
  revert n
  decide

theorem takeWhile_digits {ds rest : List Char} (hds : ∀ c ∈ ds, c.isDigit = true)
    (hrest : ∀ c ∈ rest.head?, c.isDigit = false) :
    (ds ++ rest).takeWhile Char.isDigit = ds ∧ (ds ++ rest).dropWhile Char.isDigit = rest := by
  have hstop : rest.takeWhile Char.isDigit = [] ∧ rest.dropWhile Char.isDigit = rest := by
    cases rest with
    | nil => exact ⟨rfl, rfl⟩
    | cons c cs =>
      have hc := hrest c rfl
      exact ⟨List.takeWhile_cons_of_neg (by simp [hc]), List.dropWhile_cons_of_neg (by simp [hc])⟩
  rw [List.takeWhile_append_of_pos hds, List.dropWhile_append_of_pos hds, hstop.1, hstop.2,
    List.append_nil]
  exact ⟨rfl, rfl⟩

theorem takeWhile_toDigits (n : ℕ) :
    (Nat.toDigits 10 n).takeWhile Char.isDigit = Nat.toDigits 10 n :=
  List.takeWhile_eq_self_iff.2 fun _ h => isDigit_of_mem_toDigits h

theorem ofDigitChars_zero_cons (ds : List Char) :
    Nat.ofDigitChars 10 ('0' :: ds) 0 = Nat.ofDigitChars 10 ds 0 := rfl

theorem ofDigitChars_append_zeros (ds : List Char) (k : ℕ) :
    Nat.ofDigitChars 10 (ds ++ List.replicate k '0') 0 = 10 ^ k * Nat.ofDigitChars 10 ds 0 := by
  rw [Nat.ofDigitChars_append, Nat.ofDigitChars_replicate_zero]

/-! ## Unsigned numbers -/

theorem exists_digit_cons (n : ℕ) :
    ∃ c cs, Nat.toDigits 10 n = c :: cs ∧ c.isDigit = true := by
  obtain ⟨c, cs, h⟩ := List.exists_cons_of_ne_nil (Nat.toDigits_ne_nil (n := n) (b := 10))
  exact ⟨c, cs, h, isDigit_of_mem_toDigits (n := n) (by simp [h])⟩

theorem readSign_digit {c : Char} (cs : List Char) (h : c.isDigit = true) :
    readSign (c :: cs) = (false, c :: cs) := by
  have hc := (digit_ne h).2.2
  unfold readSign
  split <;> simp_all

theorem dropWhile_isSpace_digit {c : Char} (cs : List Char) (h : c.isDigit = true) :
    (c :: cs).dropWhile isSpace = c :: cs :=
  List.dropWhile_cons_of_neg (by simp [(digit_ne h).1])

/-- **`std::stoul` reads what the stream writes.** -/
theorem stoul_showUnsigned (n : UInt64) : stoul (showUnsigned n) = .ok n := by
  obtain ⟨c, cs, hn, hc⟩ := exists_digit_cons n.toNat
  have hread : readSign ((showUnsigned n).dropWhile isSpace) = (false, showUnsigned n) := by
    rw [showUnsigned, hn, dropWhile_isSpace_digit cs hc, readSign_digit cs hc]
  rw [stoul, hread]
  show (if (showUnsigned n).takeWhile Char.isDigit = [] then _ else _) = _
  rw [showUnsigned, takeWhile_toDigits, if_neg Nat.toDigits_ne_nil, Nat.ofDigitChars_ten_toDigits,
    if_neg (not_le.2 n.toNat_lt), if_neg Bool.false_ne_true, UInt64.ofNat_toNat]

/-! ## Doubles -/

namespace Radix

theorem readFraction_of_ne {r : Radix} {s : List Char} (h : ∀ c ∈ s.head?, c ≠ '.') :
    r.readFraction s = ([], s) := by
  unfold readFraction
  split
  · exact absurd rfl (h '.' rfl)
  · rfl

theorem readNumber_eq {r : Radix} {s whole rest fraction rest' : List Char}
    (hwhole : s.takeWhile r.isDigit = whole) (hrest : s.dropWhile r.isDigit = rest)
    (hfraction : r.readFraction rest = (fraction, rest')) (hne : whole ++ fraction ≠ []) :
    r.readNumber s = some (r.valueOf (whole ++ fraction) *
      (r.factor : ℚ≥0) ^ (r.readExponent rest' - r.places * fraction.length)) := by
  simp only [readNumber, hwhole, hrest, hfraction, if_neg hne]

end Radix

namespace Decimal

theorem exists_stripZeros (s : List Char) :
    ∃ k, s = stripZeros s ++ List.replicate k '0' := by
  refine ⟨(s.rtakeWhile (· == '0')).length, ?_⟩
  have hzeros : s.rtakeWhile (· == '0') = List.replicate (s.rtakeWhile (· == '0')).length '0' := by
    rw [List.eq_replicate_iff]
    refine ⟨rfl, ?_⟩
    intro c hc
    simpa using List.mem_rtakeWhile_imp hc
  rw [stripZeros, ← hzeros, List.rdropWhile_append_rtakeWhile]

theorem mem_stripZeros {s : List Char} {c : Char} (h : c ∈ stripZeros s) : c ∈ s :=
  (List.rdropWhile_prefix _ _).subset h

/-- What `readNumber` makes of a text with its zeros stripped. -/
theorem readNumber_parts {whole fraction rest : List Char} (hwhole : whole ≠ [])
    (hw : ∀ c ∈ whole, c.isDigit = true) (hf : ∀ c ∈ fraction, c.isDigit = true)
    (hrest : ∀ c ∈ rest.head?, c.isDigit = false ∧ c ≠ '.') :
    Radix.decimal.readNumber (whole ++ fractionText fraction ++ rest) =
      some ((Nat.ofDigitChars 10 (whole ++ fraction) 0 : ℕ) *
        (10 : ℚ≥0) ^ (Radix.decimal.readExponent rest - fraction.length)) := by
  have hstop : ∀ c ∈ rest.head?, c.isDigit = false := fun c hc => (hrest c hc).1
  -- the fraction that is read is the one without zeros
  have hfraction : Radix.decimal.readFraction (fractionText fraction ++ rest) =
      (stripZeros fraction, rest) := by
    unfold fractionText
    split_ifs with hnil
    · rw [hnil]
      exact Radix.readFraction_of_ne fun c hc => (hrest c hc).2
    · have hdigits := takeWhile_digits (fun c hc => hf c (mem_stripZeros hc)) hstop
      exact Prod.ext hdigits.1 hdigits.2
  have hhead : ∀ c ∈ (fractionText fraction ++ rest).head?, c.isDigit = false := by
    unfold fractionText
    split_ifs with hnil
    · exact hstop
    · rintro c ⟨⟩
      rfl
  have hsplit := takeWhile_digits hw hhead
  obtain ⟨k, hk⟩ := exists_stripZeros fraction
  have hvalue : Nat.ofDigitChars 10 (whole ++ fraction) 0 =
      10 ^ k * Nat.ofDigitChars 10 (whole ++ stripZeros fraction) 0 := by
    conv_lhs => rw [hk]
    rw [← List.append_assoc, ofDigitChars_append_zeros]
  have hexp : Radix.decimal.readExponent rest - (1 : ℕ) * (stripZeros fraction).length =
      Radix.decimal.readExponent rest - fraction.length + k := by
    conv_rhs => rw [hk]
    rw [List.length_append, List.length_replicate]
    push_cast
    ring
  rw [List.append_assoc, Radix.readNumber_eq hsplit.1 hsplit.2 hfraction (by simp [hwhole]), hvalue]
  show some (((Nat.ofDigitChars 10 (whole ++ stripZeros fraction) 0 : ℕ) : ℚ≥0) *
    (10 : ℚ≥0) ^ (Radix.decimal.readExponent rest - (1 : ℕ) * (stripZeros fraction).length)) = _
  rw [hexp, zpow_add₀ (by norm_num), zpow_natCast]
  congr 1
  push_cast
  ring

theorem readExponent_exponentText (x : ℤ) :
    Radix.decimal.readExponent (exponentText x) = x := by
  have hdigits : Nat.ofDigitChars 10 (List.takeWhile Char.isDigit
      (if x.natAbs < 10 then '0' :: Nat.toDigits 10 x.natAbs else Nat.toDigits 10 x.natAbs)) 0 =
      x.natAbs := by
    split_ifs with h
    · rw [List.takeWhile_cons_of_pos (by decide), takeWhile_toDigits, ofDigitChars_zero_cons,
        Nat.ofDigitChars_ten_toDigits]
    · rw [takeWhile_toDigits, Nat.ofDigitChars_ten_toDigits]
  rcases lt_or_ge x 0 with hx | hx
  · rw [exponentText, if_pos hx]
    show -((Nat.ofDigitChars 10 (List.takeWhile Char.isDigit _) 0 : ℕ) : ℤ) = x
    rw [hdigits]
    omega
  · rw [exponentText, if_neg hx.not_gt]
    show ((Nat.ofDigitChars 10 (List.takeWhile Char.isDigit _) 0 : ℕ) : ℤ) = x
    rw [hdigits]
    omega

variable {p : ℕ} [NeZero p]

theorem length_toDigits (d : Decimal p) (h : d.digits ≠ 0) :
    (Nat.toDigits 10 d.digits).length = p := by
  have hp := NeZero.pos p
  have hle : (Nat.toDigits 10 d.digits).length ≤ p :=
    (Nat.length_toDigits_le_iff (by decide) hp).2 d.lt
  have hge : 10 ^ (p - 1) ≤ d.digits := by
    rcases d.leading with ⟨hd, -⟩ | hd
    · exact absurd hd h
    · exact hd
  by_contra hne
  rcases Nat.lt_or_ge 1 p with hp' | hp'
  · have hlt := (Nat.length_toDigits_le_iff (n := d.digits) (b := 10) (by decide)
      (Nat.sub_pos_of_lt hp')).1 (by omega)
    omega
  · have hpos : 0 < (Nat.toDigits 10 d.digits).length := Nat.length_toDigits_pos
    omega

theorem length_toDigits_le (d : Decimal p) : (Nat.toDigits 10 d.digits).length ≤ p :=
  (Nat.length_toDigits_le_iff (by decide) (NeZero.pos p)).2 d.lt

/-- The parts of the text of a number: the digits, with a point behind the first of
    them, and an exponent. -/
structure Layout (d : Decimal p) (whole fraction rest : List Char) : Prop where
  text_eq : d.text = whole ++ fractionText fraction ++ rest
  whole_ne : whole ≠ []
  digits : ∀ c ∈ whole ++ fraction, c.isDigit = true
  value_eq : Nat.ofDigitChars 10 (whole ++ fraction) 0 = d.digits
  place : d.digits ≠ 0 →
    Radix.decimal.readExponent rest - fraction.length = d.exponent - (p - 1 : ℕ)
  rest_eq : rest = [] ∧ (whole ++ fraction).length ≤ p + 4 ∨
    rest = exponentText d.exponent ∧ (whole ++ fraction).length ≤ p

theorem exists_layout (d : Decimal p) : ∃ whole fraction rest, d.Layout whole fraction rest := by
  have hp := NeZero.pos p
  have hlen := d.length_toDigits_le
  have hdigits : ∀ c ∈ Nat.toDigits 10 d.digits, c.isDigit = true :=
    fun _ h => isDigit_of_mem_toDigits h
  by_cases hsci : d.exponent < -4 ∨ p ≤ d.exponent
  · refine ⟨(Nat.toDigits 10 d.digits).take 1, (Nat.toDigits 10 d.digits).drop 1,
      exponentText d.exponent, ?_, ?_, ?_, ?_, ?_, .inr ⟨rfl, ?_⟩⟩
    · rw [text, if_pos hsci]
    · simp [List.take_eq_nil_iff]
    · rwa [List.take_append_drop]
    · rw [List.take_append_drop, Nat.ofDigitChars_ten_toDigits]
    · intro h
      rw [readExponent_exponentText, List.length_drop, length_toDigits d h]
    · rwa [List.take_append_drop]
  by_cases hfix : 0 ≤ d.exponent
  · refine ⟨(Nat.toDigits 10 d.digits).take (d.exponent.toNat + 1),
      (Nat.toDigits 10 d.digits).drop (d.exponent.toNat + 1), [], ?_, ?_, ?_, ?_, ?_,
      .inl ⟨rfl, ?_⟩⟩
    · rw [text, if_neg hsci, if_pos hfix, List.append_nil]
    · simp [List.take_eq_nil_iff]
    · rwa [List.take_append_drop]
    · rw [List.take_append_drop, Nat.ofDigitChars_ten_toDigits]
    · intro h
      show 0 - _ = _
      rw [List.length_drop, length_toDigits d h]
      omega
    · rw [List.take_append_drop]
      omega
  · refine ⟨['0'], List.replicate (-d.exponent - 1).toNat '0' ++ Nat.toDigits 10 d.digits, [],
      ?_, by decide, ?_, ?_, ?_, .inl ⟨rfl, ?_⟩⟩
    · rw [text, if_neg hsci, if_neg hfix, List.append_nil]
      rfl
    · intro c hc
      simp only [List.mem_append, List.mem_singleton, List.mem_replicate] at hc
      rcases hc with rfl | ⟨-, rfl⟩ | hc
      · rfl
      · rfl
      · exact hdigits c hc
    · rw [List.singleton_append, ofDigitChars_zero_cons, Nat.ofDigitChars_append,
        Nat.ofDigitChars_replicate_zero, mul_zero, Nat.ofDigitChars_ten_toDigits]
    · intro h
      show 0 - _ = _
      rw [List.length_append, List.length_replicate, length_toDigits d h]
      omega
    · simp only [List.length_append, List.length_singleton, List.length_replicate]
      omega

/-- **Reading the text of a decimal number gives the number.** -/
theorem readNumber_text (d : Decimal p) : Radix.decimal.readNumber d.text = some d.value := by
  obtain ⟨whole, fraction, rest, h⟩ := d.exists_layout
  have hrest : ∀ c ∈ rest.head?, c.isDigit = false ∧ c ≠ '.' := by
    rcases h.rest_eq with ⟨rfl, -⟩ | ⟨rfl, -⟩
    · rintro c ⟨⟩
    · rintro c ⟨⟩
      exact ⟨rfl, by decide⟩
  rw [h.text_eq, readNumber_parts h.whole_ne (fun c hc => h.digits c (List.mem_append_left _ hc))
    (fun c hc => h.digits c (List.mem_append_right _ hc)) hrest, h.value_eq, value]
  rcases eq_or_ne d.digits 0 with hd | hd
  · rw [hd]
    simp
  · rw [h.place hd]

theorem mem_fractionText {fraction : List Char} {c : Char} (h : c ∈ fractionText fraction) :
    c = '.' ∨ c ∈ fraction := by
  unfold fractionText at h
  split_ifs at h
  · cases h
  · exact (List.mem_cons.1 h).imp_right mem_stripZeros

theorem mem_exponentText {x : ℤ} {c : Char} (h : c ∈ exponentText x) :
    c ∈ ['e', '+', '-'] ∨ c.isDigit = true := by
  unfold exponentText at h
  simp only [List.mem_cons] at h
  rcases h with rfl | rfl | h
  · exact .inl (by decide)
  · left
    split_ifs <;> decide
  · right
    split_ifs at h
    · rcases List.mem_cons.1 h with rfl | h
      · rfl
      · exact isDigit_of_mem_toDigits h
    · exact isDigit_of_mem_toDigits h

/-- The text starts with a digit and has no letter but `e`. -/
theorem text_chars (d : Decimal p) :
    (∃ c cs, d.text = c :: cs ∧ c.isDigit = true) ∧
      ∀ c ∈ d.text, c.isDigit = true ∨ c ∈ ['.', 'e', '+', '-'] := by
  obtain ⟨whole, fraction, rest, h⟩ := d.exists_layout
  rw [h.text_eq]
  constructor
  · obtain ⟨c, cs, rfl⟩ := List.exists_cons_of_ne_nil h.whole_ne
    exact ⟨c, _, by rw [List.append_assoc]; rfl, h.digits c (by simp)⟩
  · intro c hc
    rcases List.mem_append.1 hc with hc | hc
    · rcases List.mem_append.1 hc with hc | hc
      · exact .inl (h.digits c (List.mem_append_left _ hc))
      · rcases mem_fractionText hc with rfl | hc
        · exact .inr (by decide)
        · exact .inl (h.digits c (List.mem_append_right _ hc))
    · rcases h.rest_eq with ⟨rfl, -⟩ | ⟨rfl, -⟩
      · cases hc
      · rcases mem_exponentText hc with hc | hc
        · exact .inr (List.mem_cons_of_mem _ hc)
        · exact .inl hc

theorem length_fractionText_le (s : List Char) : (fractionText s).length ≤ s.length + 1 := by
  unfold fractionText
  split_ifs
  · simp
  · have := (List.rdropWhile_prefix (· == '0') s).length_le
    rw [List.length_cons]
    exact Nat.succ_le_succ this

theorem length_exponentText_le {x : ℤ} (h : x.natAbs < 1000) : (exponentText x).length ≤ 5 := by
  have hlen := (Nat.length_toDigits_le_iff (n := x.natAbs) (b := 10) (k := 3) (by decide)
    (by decide)).2 h
  unfold exponentText
  simp only [List.length_cons]
  split_ifs with hsmall
  · have hone := (Nat.length_toDigits_le_iff (n := x.natAbs) (b := 10) (k := 1) (by decide)
      (by decide)).2 (by omega)
    rw [List.length_cons]
    omega
  · omega

theorem length_text_le (d : Decimal p) (h : d.exponent.natAbs < 1000) :
    d.text.length ≤ p + 6 := by
  obtain ⟨whole, fraction, rest, hd⟩ := d.exists_layout
  have hfraction := length_fractionText_le fraction
  have hexponent := length_exponentText_le h
  rw [hd.text_eq]
  rcases hd.rest_eq with ⟨rfl, hlen⟩ | ⟨rfl, hlen⟩
  · simp only [List.length_append, List.length_nil] at hlen ⊢
    omega
  · simp only [List.length_append] at hlen ⊢
    omega

/-- The value is the rounded number. -/
theorem value_ofNNRat (q : ℚ≥0) :
    (((ofNNRat q : Decimal p).value : ℚ≥0) : ℚ) = roundAt 10 (lastPlace 10 p q) q := by
  by_cases hq : q = 0
  · rw [ofNNRat, dif_pos hq, hq]
    simp [value, roundAt, nearestEven]
  have hround := roundAt_lastPlace (b := 10) (by decide) (NeZero.one_le (n := p))
    (NNRat.coe_pos.2 (pos_iff_ne_zero.2 hq))
  rw [hround]
  by_cases h : significand 10 p q = 10 ^ p
  · rw [ofNNRat, dif_neg hq, dif_pos h, h, value, lastPlace]
    have hp := NeZero.one_le (n := p)
    have hexp : Int.log 10 (q : ℚ) + 1 - (p - 1 : ℕ) = Int.log 10 (q : ℚ) - (p - 1 : ℕ) + 1 := by
      ring
    have hpow : (10 : ℚ) ^ p = 10 ^ (p - 1) * 10 := by rw [← pow_succ, Nat.sub_add_cancel hp]
    push_cast
    rw [hexp, zpow_add₀ (by norm_num), zpow_one, hpow]
    ring
  · rw [ofNNRat, dif_neg hq, dif_neg h, value, lastPlace]
    push_cast
    rfl

theorem natAbs_exponent_lt (m : Magnitude) :
    (ofNNRat m.value : Decimal p).exponent.natAbs < 1000 := by
  by_cases hq : m.value = 0
  · rw [ofNNRat, dif_pos hq]
    show (0 : ℤ).natAbs < 1000
    decide
  have hpos : (0 : ℚ) < m.value := NNRat.coe_pos.2 (pos_iff_ne_zero.2 hq)
  have hhi : Int.log 10 (m.value : ℚ) < 309 := by
    rw [← Int.lt_zpow_iff_log_lt (by decide) hpos]
    have hpow : (2 ^ 1024 : ℕ) < 10 ^ 309 := by decide +kernel
    exact m.lt.trans (by exact_mod_cast hpow)
  have hlo : -324 ≤ Int.log 10 (m.value : ℚ) := by
    rw [← Int.zpow_le_iff_le_log (by decide) hpos]
    refine le_trans ?_ (Binary64.le_of_round_eq hpos m.round_eq)
    have hpow : (2 ^ 1074 : ℕ) ≤ 10 ^ 324 := by decide +kernel
    rw [zpow_neg, zpow_neg]
    exact inv_anti₀ (by positivity) (by exact_mod_cast hpow)
  by_cases h : significand 10 p m.value = 10 ^ p
  · rw [ofNNRat, dif_neg hq, dif_pos h]
    show (Int.log 10 (m.value : ℚ) + 1).natAbs < 1000
    omega
  · rw [ofNNRat, dif_neg hq, dif_neg h]
    show (Int.log 10 (m.value : ℚ)).natAbs < 1000
    omega

end Decimal

theorem startsWith_eq_false {word s : List Char} {w : Char} (hw : w ∈ word)
    (hs : ∀ c ∈ s, c.toLower ≠ w) : startsWith word s = false := by
  rw [startsWith, beq_eq_false_iff_ne]
  intro h
  rw [← h, List.mem_map] at hw
  obtain ⟨c, hc, rfl⟩ := hw
  exact hs c (List.mem_of_mem_take hc) rfl

/-- Digits, and the signs of a number, are no letters of a word. -/
theorem toLower_ne {c w : Char} (h : c.isDigit = true ∨ c ∈ ['.', 'e', '+', '-'])
    (hw : w ∈ ['i', 'n', 'x']) : c.toLower ≠ w := by
  intro hcw
  rw [← hcw] at hw
  rcases h with h | h
  · obtain ⟨-, hlower, hne⟩ := digit_ne h
    rw [hlower] at hw
    exact hne (List.mem_append_right ['-', '+', '.'] hw)
  · simp only [List.mem_cons, List.not_mem_nil, or_false] at h
    rcases h with rfl | rfl | rfl | rfl <;> revert hw <;> decide

/-- **Reading a finite `double` back** gives the `double` nearest to what was written. -/
theorem stod_showDouble (negative : Bool) (m : Magnitude) :
    stod (showDouble (.finite negative m)) =
      toDouble negative (Decimal.ofNNRat m.value : Decimal precision).value := by
  obtain ⟨⟨c, cs, htext, hc⟩, hchars⟩ :=
    (Decimal.ofNNRat m.value : Decimal precision).text_chars
  have hnumber := (Decimal.ofNNRat m.value : Decimal precision).readNumber_text
  have hsign : readSign ((showDouble (.finite negative m)).dropWhile isSpace) =
      (negative, (Decimal.ofNNRat m.value : Decimal precision).text) := by
    rw [showDouble, htext]
    cases negative with
    | true => rfl
    | false =>
      show readSign ((c :: cs).dropWhile isSpace) = _
      rw [dropWhile_isSpace_digit cs hc, readSign_digit cs hc]
  have hno : ∀ word : List Char, ∀ w ∈ word, w ∈ ['i', 'n', 'x'] →
      startsWith word (Decimal.ofNNRat m.value : Decimal precision).text = false :=
    fun word w hw hmem => startsWith_eq_false hw fun c hc => toLower_ne (hchars c hc) hmem
  have hread : readMagnitude (Decimal.ofNNRat m.value : Decimal precision).text =
      some (Decimal.ofNNRat m.value : Decimal precision).value := by
    rw [readMagnitude, hno ['0', 'x'] 'x' (by decide) (by decide), hnumber]
    rfl
  simp only [stod, hsign, hno ['i', 'n', 'f'] 'i' (by decide) (by decide),
    hno ['n', 'a', 'n'] 'n' (by decide) (by decide), hread, Bool.false_eq_true, if_false]

theorem showDouble_ne_nil (d : Double) : showDouble d ≠ [] := by
  cases d with
  | finite negative m =>
    obtain ⟨c, cs, htext, -⟩ := (Decimal.ofNNRat m.value : Decimal precision).text_chars.1
    rw [showDouble, htext]
    simp
  | infinite negative => simp [showDouble]
  | nan => decide

/-! ## What is written exactly -/

/-- `q` has at most `p` decimal digits. -/
def HasDigits (p : ℕ) (q : ℚ≥0) : Prop := ∃ (n : ℕ) (k : ℤ), n < 10 ^ p ∧ q = n * 10 ^ k

/-- **A `double` keeps a number of few digits**: the `double` nearest to it is
    written as the number. -/
theorem value_ofNNRat_of_round {p : ℕ} [NeZero p] {q : ℚ≥0} {m : Magnitude}
    (hp : 4 * (10 : ℚ) ^ p * (1 / 2 ^ 53) < 1) (hq : HasDigits p q)
    (hunder : ¬ Binary64.Underflows q) (hm : Binary64.round q = m.value) :
    (Decimal.ofNNRat m.value : Decimal p).value = q := by
  rcases eq_or_ne m.value 0 with hzero | hzero
  · -- only zero is rounded to zero
    have hqzero : q = 0 := by
      by_contra hne
      have hpos : (0 : ℚ) < q := NNRat.coe_pos.2 (pos_iff_ne_zero.2 hne)
      have herr := Binary64.abs_round_sub_le hpos hunder
      rw [hm, hzero, NNRat.coe_zero, zero_sub, abs_neg, abs_of_pos hpos] at herr
      linarith
    rw [hqzero, hzero, Decimal.ofNNRat, dif_pos rfl, Decimal.value]
    simp
  · have hmpos : (0 : ℚ) < m.value := NNRat.coe_pos.2 (pos_iff_ne_zero.2 hzero)
    have hqpos : (0 : ℚ) < q := by
      rcases eq_or_ne q 0 with rfl | hne
      · rw [← hm] at hmpos
        simp [Binary64.round, roundAt, nearestEven] at hmpos
      · exact NNRat.coe_pos.2 (pos_iff_ne_zero.2 hne)
    obtain ⟨n, k, hn, rfl⟩ := hq
    have hclose := Binary64.abs_round_sub_le hqpos hunder
    rw [hm] at hclose
    push_cast at hclose
    have h := roundAt_lastPlace_eq (ε := 1 / 2 ^ 53) (by decide) (NeZero.one_le (n := p)) hmpos hn
      (by norm_num) (by exact_mod_cast hp) (by exact_mod_cast hclose)
    rw [← NNRat.coe_inj, Decimal.value_ofNNRat, h]
    push_cast
    rfl

theorem Decimal.hasDigits_value {p : ℕ} (d : Decimal p) : HasDigits p d.value :=
  ⟨d.digits, d.exponent - (p - 1 : ℕ), d.lt, rfl⟩

theorem toDouble_eq_ok_iff {negative negative' : Bool} {q : ℚ≥0} {m : Magnitude} :
    toDouble negative q = .ok (.finite negative' m) ↔
      negative = negative' ∧ ¬ Binary64.Underflows q ∧ Binary64.round q = m.value := by
  have hnonneg := Binary64.round_nonneg q.2
  unfold toDouble
  split_ifs with hover hunder
  · rw [false_iff]
    rintro ⟨-, -, h⟩
    exact absurd m.lt (not_lt.2 (h ▸ hover))
  · rw [false_iff]
    exact fun h => h.2.1 hunder
  · constructor
    · intro h
      cases h
      exact ⟨rfl, hunder, (Rat.coe_toNNRat _ hnonneg).symm⟩
    · rintro ⟨rfl, -, h⟩
      have hvalue : (Binary64.round q).toNNRat = m.value := by
        rw [h, NNRat.toNNRat_coe]
      congr 2
      exact Magnitude.ext hvalue

/-- **The finite `double`s that keep their value**: those nearest to a number of
    at most six digits. -/
theorem stod_showDouble_eq_iff {negative : Bool} {m : Magnitude} :
    stod (showDouble (.finite negative m)) = .ok (.finite negative m) ↔
      ∃ q, HasDigits precision q ∧ ¬ Binary64.Underflows q ∧ Binary64.round q = m.value := by
  rw [stod_showDouble, toDouble_eq_ok_iff]
  constructor
  · rintro ⟨-, hunder, hround⟩
    exact ⟨_, Decimal.hasDigits_value _, hunder, hround⟩
  · rintro ⟨q, hq, hunder, hround⟩
    rw [value_ofNNRat_of_round (by norm_num) hq hunder hround]
    exact ⟨rfl, hunder, hround⟩

/-! ## Lengths -/

theorem length_showUnsigned_le (n : UInt64) : (showUnsigned n).length ≤ 20 :=
  (Nat.length_toDigits_le_iff (by decide) (by decide)).2 (n.toNat_lt.trans (by norm_num))

theorem length_showDouble_le (negative : Bool) (m : Magnitude) :
    (showDouble (.finite negative m)).length ≤ 13 := by
  have htext := (Decimal.ofNNRat m.value : Decimal precision).length_text_le
    (Decimal.natAbs_exponent_lt m)
  have hsign : (showSign negative).length ≤ 1 := by cases negative <;> decide
  have hp : precision = 6 := rfl
  rw [showDouble, List.length_append]
  omega

end NumberText
