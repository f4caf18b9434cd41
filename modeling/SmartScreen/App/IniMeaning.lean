/-
  What an ini file means.

  * `Meaning`: an entry, an error, or nothing; `Means` says that a step of the parser
    has it for every handler.
  * `Parts`: how `fgets` reads a text; `Meanings`: what the parts mean, one after the
    other, in the scopes that they leave.
  * `iniParse_spec`: every text has its parts and they have meanings; what is copied fits
    in its arrays, and the handler gets the entries.
-/
import SmartScreen.App.IniFile

namespace SmartScreen.Ini

open NumberText
open ProgramConfiguration (IniEntry iniParseEntries)

/-! ## What the text decides -/

/-- What is copied fits in its array. -/
theorem length_strncpy0_lt (src : List Char) {size : ℕ} (hsize : 0 < size) :
    (strncpy0 src size).length < size := by
  rw [strncpy0, List.length_take]
  omega

/-- What a line is for: nothing, an entry, or an error. -/
inductive Meaning where
  | nothing
  | entry (sectionName name value : String)
  | error

/-- What the handler makes of it, and the first line with an error. -/
def Meaning.apply {σ : Type} (handler : σ → IniEntry → σ × Bool) (lineno : ℕ) :
    Meaning → σ × ℕ → σ × ℕ
  | .nothing, r => r
  | .entry sectionName name value, r =>
    let (user, taken) := handler r.1 ⟨lineno, sectionName, name, value⟩
    (user, if !taken && r.2 == 0 then lineno else r.2)
  | .error, r => (r.1, if r.2 = 0 then lineno else r.2)

/-- The strings that the parser has copied. -/
structure Scope where
  sectionName : List Char := []
  prevName : List Char := []

/-- They fit in their arrays. -/
structure Scope.Fits (c : Scope) : Prop where
  sectionName : c.sectionName.length < maxSection
  prevName : c.prevName.length < maxName

theorem Scope.fits_empty : Scope.Fits {} := ⟨by decide, by decide⟩

/-- A parser in some scope. -/
def Scope.parser {σ : Type} (c : Scope) (lineno : ℕ) (r : σ × ℕ) : Parser σ :=
  ⟨r.1, c.sectionName, c.prevName, lineno, r.2⟩

/-- Whatever the handler is, a step of the parser has one meaning. -/
def Means (c : Scope) (lineno : ℕ)
    (step : ∀ {σ : Type}, (σ → IniEntry → σ × Bool) → Parser σ → Parser σ) (c' : Scope)
    (m : Meaning) : Prop :=
  ∀ (σ : Type) (handler : σ → IniEntry → σ × Bool) (r : σ × ℕ),
    step handler (c.parser lineno r) = c'.parser lineno (m.apply handler lineno r)

/-- The entry for a name and a value. -/
def Scope.entry (c : Scope) (name value : List Char) : Meaning :=
  .entry (.ofList c.sectionName) (.ofList name) (.ofList value)

theorem means_call (c : Scope) (lineno : ℕ) (name value : List Char) :
    Means c lineno (fun handler p => p.call handler name value) c (c.entry name value) := by
  intro σ handler r
  have hcall : ∀ result : σ × Bool,
      (if result.2 then c.parser lineno (result.1, r.2)
        else (c.parser lineno (result.1, r.2)).fail) =
      c.parser lineno (result.1, if !result.2 && r.2 == 0 then lineno else r.2) := by
    rintro ⟨user, taken⟩
    cases taken with
    | true => rfl
    | false => by_cases hr : r.2 = 0 <;> simp [Parser.fail, Scope.parser, hr]
  exact hcall _

section
variable {c : Scope} {moved : Bool} {first : Char} {rest name more : List Char}

theorem means_comment (h : first = ';' ∨ first = '#') (lineno : ℕ) :
    Means c lineno (fun handler p => p.parseStart handler moved (first :: rest)) c .nothing :=
  fun _ handler _ => Parser.parseStart_comment handler h

theorem means_continued (h : ¬ (first = ';' ∨ first = '#')) (lineno : ℕ)
    (hc : c.prevName ≠ [] ∧ moved = true) :
    Means c lineno (fun handler p => p.parseStart handler moved (first :: rest)) c
      (c.entry c.prevName (first :: rest)) :=
  fun σ handler r =>
    (Parser.parseStart_continued (p := c.parser lineno r) handler h hc).trans
      (means_call _ _ _ _ σ handler r)

theorem means_heading (lineno : ℕ) (hc : ¬ (c.prevName ≠ [] ∧ moved = true))
    (hfind : findCharsOrComment [']'] false rest = (name, ']' :: more)) :
    Means c lineno (fun handler p => p.parseStart handler moved ('[' :: rest))
      ⟨strncpy0 name maxSection, []⟩ .nothing :=
  fun _ handler _ => Parser.parseStart_heading handler hc hfind

theorem means_pair (h : ¬ (first = ';' ∨ first = '#')) (lineno : ℕ)
    (hc : ¬ (c.prevName ≠ [] ∧ moved = true)) (hb : first ≠ '[') {separator : Char}
    (hsep : separator = '=' ∨ separator = ':')
    (hfind : findCharsOrComment ['=', ':'] false (first :: rest) = (name, separator :: more)) :
    Means c lineno (fun handler p => p.parseStart handler moved (first :: rest))
      ⟨c.sectionName, strncpy0 (rstrip name) maxName⟩
      (c.entry (rstrip name) (rstrip (findCharsOrComment [] false (lskip more)).1)) :=
  fun σ handler r =>
    (Parser.parseStart_pair (p := c.parser lineno r) handler h hc hb hsep hfind).trans
      (means_call ⟨c.sectionName, strncpy0 (rstrip name) maxName⟩ lineno _ _ σ handler r)

/-- **What a line means**, from `start` on. -/
theorem parseStart_spec (hfits : c.Fits) (lineno : ℕ) (moved : Bool) (start : List Char) :
    ∃ c' m, c'.Fits ∧ Means c lineno (fun handler p => p.parseStart handler moved start) c' m := by
  cases start with
  | nil => exact ⟨c, .nothing, hfits, fun _ _ _ => rfl⟩
  | cons first rest =>
    by_cases hcomment : first = ';' ∨ first = '#'
    · exact ⟨c, _, hfits, means_comment hcomment lineno⟩
    by_cases hc : c.prevName ≠ [] ∧ moved = true
    · exact ⟨c, _, hfits, means_continued hcomment lineno hc⟩
    by_cases hb : first = '['
    · subst hb
      by_cases hfind : ∃ name more, findCharsOrComment [']'] false rest = (name, ']' :: more)
      · obtain ⟨name, more, hfind⟩ := hfind
        have hscope : Scope.Fits ⟨strncpy0 name maxSection, []⟩ :=
          ⟨length_strncpy0_lt name (by decide), Nat.zero_lt_succ 49⟩
        exact ⟨_, _, hscope, means_heading lineno hc hfind⟩
      · rw [not_exists] at hfind
        refine ⟨c, .error, hfits, fun σ handler r => ?_⟩
        exact Parser.parseStart_heading_open handler hc fun name more heq => hfind name ⟨more, heq⟩
    by_cases hfind : ∃ name separator more, (separator = '=' ∨ separator = ':') ∧
        findCharsOrComment ['=', ':'] false (first :: rest) = (name, separator :: more)
    · obtain ⟨name, separator, more, hsep, hfind⟩ := hfind
      have hmeans := means_pair hcomment lineno hc hb hsep hfind
      have hscope : Scope.Fits ⟨c.sectionName, strncpy0 (rstrip name) maxName⟩ :=
        ⟨hfits.sectionName, length_strncpy0_lt _ (by decide)⟩
      exact ⟨_, _, hscope, hmeans⟩
    · refine ⟨c, .error, hfits, fun σ handler r => ?_⟩
      refine Parser.parseStart_pair_open handler hcomment hc hb ?_
      intro name separator more hsep heq
      exact hfind ⟨name, separator, more, hsep, heq⟩

end

/-- `start`, and whether it is behind the start of the line. -/
def startOf (lineno : ℕ) (line : List Char) : Bool × List Char :=
  let line := cString line
  let hasMark : Bool := lineno = 1 ∧ byteOrderMark <+: line
  let stripped := rstrip (bif hasMark then line.drop 3 else line)
  (hasMark || decide ((lskip stripped).length < stripped.length), lskip stripped)

theorem parseLine_eq {σ : Type} (handler : σ → IniEntry → σ × Bool) (line : List Char) (c : Scope)
    (lineno : ℕ) (r : σ × ℕ) : (c.parser lineno r).parseLine handler line =
      (c.parser (lineno + 1) r).parseStart handler (startOf (lineno + 1) line).1
        (startOf (lineno + 1) line).2 := rfl

/-! ## A whole text -/

/-- The parser after some lines. -/
def parseLines {σ : Type} (handler : σ → IniEntry → σ × Bool) (lines : List (List Char))
    (p : Parser σ) : Parser σ := lines.foldl (fun p line => p.parseLine handler line) p

/-- The parts in which `fgets` reads a text. -/
inductive Parts : List Char → List (List Char) → Prop
  | nil {text : List Char} : fgets maxLine text = none → Parts text []
  | cons {text part rest : List Char} {parts : List (List Char)} :
      fgets maxLine text = some (part, rest) → Parts rest parts → Parts text (part :: parts)

theorem fgets_eq_some {text part rest : List Char} (h : fgets maxLine text = some (part, rest)) :
    part ++ rest = text ∧ part ≠ [] ∧ part.length < maxLine := by
  rw [fgets] at h
  split_ifs at h with hnil
  have hgets : gets (maxLine - 1) text = (part, rest) := Option.some.inj h
  have happend := gets_append (maxLine - 1) text
  have hne := gets_ne_nil (show 0 < maxLine - 1 by decide) hnil
  have hle := length_gets_le (maxLine - 1) text
  rw [hgets] at happend hne hle
  exact ⟨happend, hne, Nat.lt_of_le_of_lt hle (by decide)⟩

namespace Parts

variable {text : List Char} {parts : List (List Char)}

/-- Nothing is left out, and every part fits in the array. -/
theorem flatten (h : Parts text parts) :
    parts.flatten = text ∧ ∀ part ∈ parts, part ≠ [] ∧ part.length < maxLine := by
  induction h with
  | nil hread =>
    rw [fgets] at hread
    split_ifs at hread with hnil
    exact ⟨hnil.symm, by simp⟩
  | cons hread _ ih =>
    obtain ⟨happend, hpart⟩ := fgets_eq_some hread
    exact ⟨by rw [List.flatten_cons, ih.1, happend], List.forall_mem_cons.2 ⟨hpart, ih.2⟩⟩

theorem length_le (h : Parts text parts) : parts.length ≤ text.length := by
  induction h with
  | nil => exact Nat.zero_le _
  | cons hread _ ih =>
    obtain ⟨rfl, hne, -⟩ := fgets_eq_some hread
    have hpos := List.length_pos_iff.2 hne
    rw [List.length_cons, List.length_append]
    omega

theorem parts_unique {parts' : List (List Char)} (h : Parts text parts) (h' : Parts text parts') :
    parts = parts' := by
  induction h generalizing parts' with
  | nil hread =>
    cases h' with
    | nil => rfl
    | cons hread' => rw [hread] at hread'; cases hread'
  | cons hread _ ih =>
    cases h' with
    | nil hread' => rw [hread] at hread'; cases hread'
    | cons hread' h' =>
      rw [hread] at hread'
      cases hread'
      rw [ih h']

end Parts

/-- Every text has its parts: each of them leaves less of it. -/
theorem exists_parts (text : List Char) : ∃ parts, Parts text parts := by
  induction hn : text.length using Nat.strong_induction_on generalizing text with
  | _ n ih =>
    subst hn
    cases hread : fgets maxLine text with
    | none => exact ⟨[], .nil hread⟩
    | some r =>
      obtain ⟨part, rest⟩ := r
      obtain ⟨happend, hne, -⟩ := fgets_eq_some hread
      have hpos := List.length_pos_iff.2 hne
      have hlen := congrArg List.length happend
      rw [List.length_append] at hlen
      obtain ⟨parts, hparts⟩ := ih rest.length (by omega) rest rfl
      exact ⟨part :: parts, .cons hread hparts⟩

/-- **A text is parsed part by part.** -/
theorem Parts.parseStream {text : List Char} {parts : List (List Char)} (h : Parts text parts)
    {σ : Type} (handler : σ → IniEntry → σ × Bool) {fuel : ℕ} (hfuel : parts.length < fuel)
    (p : Parser σ) :
    Parser.parseStream handler fuel text p = some (parseLines handler parts p) := by
  induction h generalizing fuel p with
  | nil hread =>
    obtain ⟨fuel, rfl⟩ := Nat.exists_eq_succ_of_ne_zero hfuel.ne'
    rw [Parser.parseStream, hread]
    rfl
  | cons hread _ ih =>
    obtain ⟨fuel, rfl⟩ := Nat.exists_eq_succ_of_ne_zero (Nat.ne_of_gt (Nat.zero_lt_of_lt hfuel))
    rw [Parser.parseStream, hread]
    exact ih (Nat.lt_of_succ_lt_succ hfuel) _

/-! ## What the parts mean -/

/-- Whatever the handler is, a part has one meaning. -/
def PartMeans (lineno : ℕ) (c : Scope) (line : List Char) (m : Meaning) (c' : Scope) : Prop :=
  ∀ (σ : Type) (handler : σ → IniEntry → σ × Bool) (r : σ × ℕ),
    (c.parser lineno r).parseLine handler line =
      c'.parser (lineno + 1) (m.apply handler (lineno + 1) r)

/-- What lines mean, one after the other, and the scope that they leave. -/
inductive Meanings : ℕ → Scope → List (List Char) → List Meaning → Scope → Prop
  | nil {lineno : ℕ} {c : Scope} : Meanings lineno c [] [] c
  | cons {lineno : ℕ} {c c₁ c₂ : Scope} {line : List Char} {lines : List (List Char)} {m : Meaning}
      {ms : List Meaning} : PartMeans lineno c line m c₁ → Meanings (lineno + 1) c₁ lines ms c₂ →
      Meanings lineno c (line :: lines) (m :: ms) c₂

/-- The meanings of lines, one after the other. -/
def applyAll {σ : Type} (handler : σ → IniEntry → σ × Bool) : ℕ → List Meaning → σ × ℕ → σ × ℕ
  | _, [], r => r
  | lineno, m :: ms, r => applyAll handler (lineno + 1) ms (m.apply handler (lineno + 1) r)

namespace Meanings

variable {lineno : ℕ} {c c' : Scope} {lines : List (List Char)} {ms : List Meaning}

theorem length_eq (h : Meanings lineno c lines ms c') : ms.length = lines.length := by
  induction h with
  | nil => rfl
  | cons _ _ ih => rw [List.length_cons, List.length_cons, ih]

/-- The handler has no part in what the lines mean. -/
theorem parseLines (h : Meanings lineno c lines ms c') {σ : Type}
    (handler : σ → IniEntry → σ × Bool) (r : σ × ℕ) :
    parseLines handler lines (c.parser lineno r) =
      c'.parser (lineno + lines.length) (applyAll handler lineno ms r) := by
  induction h generalizing r with
  | nil => rfl
  | cons hline _ ih =>
    rw [Ini.parseLines, List.foldl_cons, hline, ← Ini.parseLines, ih, List.length_cons,
      Nat.add_right_comm, Nat.add_assoc]
    rfl

end Meanings

/-- **Every line means something.** -/
theorem exists_meanings (lines : List (List Char)) {c : Scope} (hfits : c.Fits) (lineno : ℕ) :
    ∃ ms c', c'.Fits ∧ Meanings lineno c lines ms c' := by
  induction lines generalizing c lineno with
  | nil => exact ⟨[], c, hfits, .nil⟩
  | cons line lines ih =>
    obtain ⟨c₁, m, hfits₁, hmeans⟩ := parseStart_spec hfits (lineno + 1)
      (startOf (lineno + 1) line).1 (startOf (lineno + 1) line).2
    obtain ⟨ms, c₂, hfits₂, hmeanings⟩ := ih hfits₁ (lineno + 1)
    exact ⟨m :: ms, c₂, hfits₂, .cons (fun σ handler r =>
      (parseLine_eq handler line c lineno r).trans (hmeans σ handler r)) hmeanings⟩

/-! ## Entries and errors -/

/-- The entries, with their lines. -/
def entriesFrom : ℕ → List Meaning → List IniEntry
  | _, [] => []
  | lineno, .entry sectionName name value :: ms =>
    ⟨lineno + 1, sectionName, name, value⟩ :: entriesFrom (lineno + 1) ms
  | lineno, _ :: ms => entriesFrom (lineno + 1) ms

/-- The lines with an error. -/
def errorsFrom : ℕ → List Meaning → List ℕ
  | _, [] => []
  | lineno, .error :: ms => (lineno + 1) :: errorsFrom (lineno + 1) ms
  | lineno, _ :: ms => errorsFrom (lineno + 1) ms

section
variable {σ : Type} (handler : σ → IniEntry → σ × Bool)

/-- **The handler is called with the entries**, whatever the errors are. -/
theorem applyAll_user (lineno : ℕ) (ms : List Meaning) (r : σ × ℕ) (error : ℕ) :
    (applyAll handler lineno ms r).1 =
      (iniParseEntries handler (entriesFrom lineno ms) r.1 error).1 := by
  induction ms generalizing lineno r error with
  | nil => rfl
  | cons m ms ih =>
    rw [applyAll]
    cases m with
    | nothing => exact ih _ _ _
    | error => exact ih _ _ _
    | entry sectionName name value => exact ih _ _ _

/-- The first error stays. -/
theorem applyAll_error_of_ne (lineno : ℕ) (ms : List Meaning) {r : σ × ℕ} (hr : r.2 ≠ 0) :
    (applyAll handler lineno ms r).2 = r.2 := by
  induction ms generalizing lineno r with
  | nil => rfl
  | cons m ms ih =>
    have hm : (m.apply handler (lineno + 1) r).2 = r.2 := by
      cases m <;> simp [Meaning.apply, hr]
    rw [applyAll, ih _ (hm.trans_ne hr), hm]

/-- An error is the number of a line. -/
theorem applyAll_error_le (lineno : ℕ) (ms : List Meaning) {r : σ × ℕ} (hr : r.2 ≤ lineno) :
    (applyAll handler lineno ms r).2 ≤ lineno + ms.length := by
  induction ms generalizing lineno r with
  | nil => exact hr
  | cons m ms ih =>
    have hm : (m.apply handler (lineno + 1) r).2 ≤ lineno + 1 := by
      cases m with
      | nothing => exact Nat.le_succ_of_le hr
      | entry => simp only [Meaning.apply]; split_ifs <;> omega
      | error => simp only [Meaning.apply]; split_ifs <;> omega
    rw [applyAll, List.length_cons, ← Nat.add_assoc, Nat.add_right_comm]
    exact ih _ hm

/-- The first line that the handler refuses. -/
theorem iniParseEntries_error (entries : List IniEntry) (user : σ) {error : ℕ} (h : error ≠ 0) :
    (iniParseEntries handler entries user error).2 = error := by
  induction entries generalizing user with
  | nil => rfl
  | cons e entries ih =>
    rw [iniParseEntries]
    simp only [beq_iff_eq, h, and_false, Bool.and_eq_true, if_false]
    exact ih _

/-- The answer: the first line with an error, or the first that the handler refuses. -/
def firstError : List ℕ → ℕ → ℕ
  | [], refused => refused
  | line :: _, 0 => line
  | line :: _, refused => min line refused

theorem lt_of_mem_errorsFrom {lineno line : ℕ} {ms : List Meaning}
    (h : line ∈ errorsFrom lineno ms) : lineno < line := by
  induction ms generalizing lineno with
  | nil => cases h
  | cons m ms ih =>
    cases m with
    | nothing => exact Nat.lt_of_succ_lt (ih h)
    | entry => exact Nat.lt_of_succ_lt (ih h)
    | error =>
      rcases List.mem_cons.1 h with rfl | h
      · exact Nat.lt_succ_self lineno
      · exact Nat.lt_of_succ_lt (ih h)

theorem refused_eq_zero_or_lt (lineno : ℕ) (ms : List Meaning) (user : σ) :
    (iniParseEntries handler (entriesFrom lineno ms) user 0).2 = 0 ∨
      lineno < (iniParseEntries handler (entriesFrom lineno ms) user 0).2 := by
  induction ms generalizing lineno user with
  | nil => exact Or.inl rfl
  | cons m ms ih =>
    cases m with
    | nothing => exact (ih _ user).imp_right Nat.lt_of_succ_lt
    | error => exact (ih _ user).imp_right Nat.lt_of_succ_lt
    | entry sectionName name value =>
      rw [entriesFrom, iniParseEntries]
      rcases handler user ⟨lineno + 1, sectionName, name, value⟩ with ⟨user', taken⟩
      cases taken with
      | true => exact (ih _ user').imp_right Nat.lt_of_succ_lt
      | false =>
        right
        exact (Nat.lt_succ_self lineno).trans_eq
          (iniParseEntries_error handler _ user' (Nat.succ_ne_zero lineno)).symm

/-- **The error** is that of the first line that has one. -/
theorem applyAll_error (lineno : ℕ) (ms : List Meaning) (user : σ) :
    (applyAll handler lineno ms (user, 0)).2 = firstError (errorsFrom lineno ms)
      (iniParseEntries handler (entriesFrom lineno ms) user 0).2 := by
  induction ms generalizing lineno user with
  | nil => rfl
  | cons m ms ih =>
    cases m with
    | nothing => exact ih _ user
    | error =>
      have hfirst : (applyAll handler (lineno + 1) ms (user, lineno + 1)).2 = lineno + 1 :=
        applyAll_error_of_ne handler _ ms (Nat.succ_ne_zero lineno)
      refine hfirst.trans ?_
      rw [entriesFrom, errorsFrom]
      · rcases refused_eq_zero_or_lt handler (lineno + 1) ms user with hzero | hlt
        · rw [hzero]
          rfl
        · obtain ⟨k, hk⟩ := Nat.exists_eq_succ_of_ne_zero (Nat.ne_of_gt (Nat.zero_lt_of_lt hlt))
          rw [hk] at hlt ⊢
          exact (min_eq_left hlt.le).symm
      · rintro _ _ _ ⟨⟩
    | entry sectionName name value =>
      rw [applyAll, entriesFrom, errorsFrom, iniParseEntries, Meaning.apply]
      · rcases handler user ⟨lineno + 1, sectionName, name, value⟩ with ⟨user', taken⟩
        cases taken with
        | true => exact ih _ user'
        | false =>
          have hne : lineno + 1 ≠ 0 := Nat.succ_ne_zero lineno
          refine (applyAll_error_of_ne handler (lineno + 1) ms hne).trans ?_
          refine Eq.trans ?_ (congrArg _ (iniParseEntries_error handler _ user' hne).symm)
          rcases herrors : errorsFrom (lineno + 1) ms with _ | ⟨line, lines⟩
          · rfl
          · have hline : line ∈ errorsFrom (lineno + 1) ms := herrors ▸ List.mem_cons_self
            exact (min_eq_right (lt_of_mem_errorsFrom hline).le).symm
      · rintro ⟨⟩

/-- What the parser has after some of the parts. -/
theorem parseLines_start (lines : List (List Char)) (user : σ) :
    (parseLines handler lines { user }).sectionName.length < maxSection ∧
      (parseLines handler lines { user }).prevName.length < maxName ∧
      (parseLines handler lines { user }).lineno = lines.length ∧
      (parseLines handler lines { user }).error ≤ lines.length := by
  obtain ⟨ms, c, hfits, hmeanings⟩ := exists_meanings lines Scope.fits_empty 0
  have hlines : parseLines handler lines { user } = _ := hmeanings.parseLines handler (user, 0)
  have herror := applyAll_error_le handler 0 ms (r := (user, 0)) le_rfl
  rw [hmeanings.length_eq] at herror
  rw [hlines]
  refine ⟨hfits.sectionName, hfits.prevName, Nat.zero_add _, ?_⟩
  rwa [Nat.zero_add] at herror

end

/-- **Any text is parsed**, as long as an `int` counts its lines.  It is read in parts that
    fit in the array for a line; each part means something in the scope that the parts
    before have left, whatever the handler is; the section and the name before always fit
    in their arrays.  The handler gets the entries, and the answer is the first line with
    an error, or that the handler refuses. -/
theorem iniParse_spec (text : List Char)
    (hint : ∀ parts, Parts text parts → parts.length < 2 ^ 31) :
    ∃ parts ms c, Parts text parts ∧ Meanings 0 {} parts ms c ∧
      parts.flatten = text ∧ (∀ part ∈ parts, part ≠ [] ∧ part.length < maxLine) ∧
      ∀ {σ : Type} (handler : σ → IniEntry → σ × Bool) (user : σ),
        (∀ n, let p := parseLines handler (parts.take n) { user }
          p.sectionName.length < maxSection ∧ p.prevName.length < maxName ∧
            p.lineno < 2 ^ 31 ∧ p.error < 2 ^ 31) ∧
        Parser.parseStream handler (text.length + 1) text { user } =
          some (parseLines handler parts { user }) ∧
        iniParse handler (text.length + 1) (some text) user =
          some ((iniParseEntries handler (entriesFrom 0 ms) user 0).1,
            ((firstError (errorsFrom 0 ms)
              (iniParseEntries handler (entriesFrom 0 ms) user 0).2 : ℕ) : ℤ)) := by
  obtain ⟨parts, hparts⟩ := exists_parts text
  obtain ⟨ms, c, -, hmeanings⟩ := exists_meanings parts Scope.fits_empty 0
  refine ⟨parts, ms, c, hparts, hmeanings, hparts.flatten.1, hparts.flatten.2,
    fun handler user => ?_⟩
  have hstream := hparts.parseStream handler (Nat.lt_succ_of_le hparts.length_le) { user }
  refine ⟨fun n => ?_, hstream, ?_⟩
  · obtain ⟨hsection, hname, hlineno, herror⟩ :=
      parseLines_start handler (parts.take n) user
    have hlen : (parts.take n).length ≤ parts.length := by
      rw [List.length_take]
      exact min_le_right _ _
    have hlt := hint parts hparts
    exact ⟨hsection, hname, by omega, by omega⟩
  · have hall : parseLines handler parts { user } = _ := hmeanings.parseLines handler (user, 0)
    rw [← applyAll_error, ← applyAll_user handler 0 ms (user, 0) 0]
    show (Parser.parseStream handler (text.length + 1) text { user }).map
      (fun p => (p.user, (p.error : ℤ))) = _
    rw [hstream, hall]
    rfl

/-- A heading, an entry, and a line that is neither. -/
def threeLines : List (List Char) :=
  ["[main]\n".toList, "frequency = 50 ; Hz\n".toList, "speed".toList]

theorem parts_threeLines : Parts threeLines.flatten threeLines :=
  .cons rfl (.cons rfl (.cons rfl (.nil rfl)))

/-- Its parts have meanings, and the handler is called with the entries among them. -/
theorem iniParse_spec_threeLines :
    ∃ ms c, Meanings 0 {} threeLines ms c ∧ ∀ user : List IniEntry,
      iniParse (fun es e => (e :: es, true)) 33 (some threeLines.flatten) user =
        some ((iniParseEntries (fun es e => (e :: es, true)) (entriesFrom 0 ms) user 0).1,
          ((firstError (errorsFrom 0 ms) (iniParseEntries (fun (es : List IniEntry) e =>
            (e :: es, true)) (entriesFrom 0 ms) user 0).2 : ℕ) : ℤ)) := by
  obtain ⟨parts, ms, c, hparts, hmeanings, -, -, hparse⟩ := iniParse_spec threeLines.flatten
    fun parts hparts => hparts.length_le.trans_lt (by decide)
  obtain rfl := hparts.parts_unique parts_threeLines
  exact ⟨ms, c, hmeanings, fun user => (hparse _ user).2.2⟩

example : iniParse (fun (es : List IniEntry) e => (e :: es, true)) 33 (some threeLines.flatten) [] =
    some ([⟨2, "main", "frequency", "50"⟩], 3) := by decide +kernel

end SmartScreen.Ini
