/-
  The lines of an ini file, as they are written.

  * `Line`: the kinds of lines, with the white space and the comments that they may have;
    `Line.WellFormed` says when one is read as it is meant.
  * `Line.means`: what such a line means, with its newline or without it.
-/
import SmartScreen.App.IniMeaning

namespace SmartScreen.Ini

open NumberText

/-! ## Texts -/

/-- White space within a line. -/
def Blank (s : List Char) : Prop := ∀ c ∈ s, isSpace c = true ∧ c ≠ '\n'

/-- Text within a line. -/
def Plain (s : List Char) : Prop := ∀ c ∈ s, c ≠ '\n' ∧ c ≠ '\x00'

/-- Neither the first character is white space, nor the last one. -/
def Trimmed (s : List Char) : Prop :=
  (∀ c ∈ s.head?, isSpace c = false) ∧ ∀ c ∈ s.getLast?, isSpace c = false

/-- No semicolon is behind white space. -/
def NoComment (s : List Char) : Prop := s.IsChain fun c c' => isSpace c = true → c' ≠ ';'

-- `Char` is finite, but its elements should not be tried one by one.
instance (s : List Char) : Decidable (Blank s) := List.decidableBAll _ s
instance (s : List Char) : Decidable (Plain s) := List.decidableBAll _ s
instance (s : List Char) : Decidable (Trimmed s) :=
  @instDecidableAnd _ _ (Option.decidableForallMem _) (Option.decidableForallMem _)
instance (s : List Char) : Decidable (NoComment s) := inferInstanceAs (Decidable (List.IsChain _ s))

/-- A line without its newline. -/
inductive Line where
  | blank (spaces : List Char)
  | comment (indent : List Char) (mark : Char) (text : List Char)
  | heading (name rest : List Char)
  | pair (name before : List Char) (separator : Char) (after value spaces : List Char)
      (remark : Option (List Char))
  /-- more of the value of the last pair -/
  | continued (indent value spaces : List Char)

namespace Line

def text : Line → List Char
  | blank spaces => spaces
  | comment indent mark text => indent ++ mark :: text
  | heading name rest => '[' :: (name ++ ']' :: rest)
  | pair name before separator after value spaces remark =>
    name ++ (before ++ separator :: (after ++ (value ++ (spaces ++
      (remark.elim [] fun text => ';' :: text)))))
  | continued indent value spaces => indent ++ (value ++ spaces)

def WellFormed : Line → Prop
  | blank spaces => Blank spaces
  | comment indent mark text => Blank indent ∧ (mark = ';' ∨ mark = '#') ∧ Plain text
  | heading name rest => Plain name ∧ ']' ∉ name ∧ NoComment name ∧ Plain rest
  | pair name before separator after value spaces remark =>
    (Plain name ∧ Trimmed name ∧ NoComment name ∧ '=' ∉ name ∧ ':' ∉ name ∧
        ∃ c ∈ name.head?, c ≠ ';' ∧ c ≠ '#' ∧ c ≠ '[') ∧
      Blank before ∧ (separator = '=' ∨ separator = ':') ∧ Blank after ∧
      (Plain value ∧ Trimmed value ∧ NoComment value) ∧ Blank spaces ∧
      ∀ text ∈ remark, Plain text ∧ spaces ≠ [] ∧ value ≠ []
  | continued indent value spaces =>
    Blank indent ∧ indent ≠ [] ∧ Plain value ∧ Trimmed value ∧
      (∃ c ∈ value.head?, c ≠ ';' ∧ c ≠ '#') ∧ Blank spaces

instance (line : Line) : Decidable line.WellFormed :=
  match line with
  | blank spaces => inferInstanceAs (Decidable (Blank spaces))
  | comment indent mark text =>
    inferInstanceAs (Decidable (Blank indent ∧ (mark = ';' ∨ mark = '#') ∧ Plain text))
  | heading name rest =>
    inferInstanceAs (Decidable (Plain name ∧ ']' ∉ name ∧ NoComment name ∧ Plain rest))
  | pair name before separator after value spaces remark =>
    haveI : Decidable (∃ c ∈ name.head?, c ≠ ';' ∧ c ≠ '#' ∧ c ≠ '[') :=
      Option.decidableExistsMem _
    haveI : Decidable (∀ text ∈ remark, Plain text ∧ spaces ≠ [] ∧ value ≠ []) :=
      Option.decidableForallMem _
    inferInstanceAs (Decidable
      ((Plain name ∧ Trimmed name ∧ NoComment name ∧ '=' ∉ name ∧ ':' ∉ name ∧
          ∃ c ∈ name.head?, c ≠ ';' ∧ c ≠ '#' ∧ c ≠ '[') ∧
        Blank before ∧ (separator = '=' ∨ separator = ':') ∧ Blank after ∧
        (Plain value ∧ Trimmed value ∧ NoComment value) ∧ Blank spaces ∧
        ∀ text ∈ remark, Plain text ∧ spaces ≠ [] ∧ value ≠ []))
  | continued indent value spaces =>
    haveI : Decidable (∃ c ∈ value.head?, c ≠ ';' ∧ c ≠ '#') := Option.decidableExistsMem _
    inferInstanceAs (Decidable (Blank indent ∧ indent ≠ [] ∧ Plain value ∧ Trimmed value ∧
      (∃ c ∈ value.head?, c ≠ ';' ∧ c ≠ '#') ∧ Blank spaces))

/-- The scope behind a line, and what the line is for. -/
def next (c : Scope) : Line → Scope × Meaning
  | blank _ | comment .. => (c, .nothing)
  | heading name _ => (⟨strncpy0 name maxSection, []⟩, .nothing)
  | pair name _ _ _ value _ _ => (⟨c.sectionName, strncpy0 name maxName⟩, c.entry name value)
  | continued _ value _ => (c, c.entry c.prevName value)

/-- More of a value needs a pair before. -/
def Follows (c : Scope) : Line → Prop
  | continued .. => c.prevName ≠ []
  | _ => True

end Line

/-! ## Stripping -/

section
variable {s t : List Char} {c : Char}

theorem rstrip_append_spaces (h : ∀ c ∈ t, isSpace c = true) : rstrip (s ++ t) = rstrip s := by
  rw [rstrip, rstrip, List.rdropWhile, List.rdropWhile, List.reverse_append,
    List.dropWhile_append_of_pos fun c hc => h c (List.mem_reverse.1 hc)]

theorem rstrip_append_cons (hc : isSpace c = false) (s t : List Char) :
    rstrip (s ++ c :: t) = s ++ c :: rstrip t := by
  induction t using List.reverseRecOn with
  | nil => exact List.rdropWhile_concat_neg _ _ _ (by simp [hc])
  | append_singleton t x ih =>
    have hassoc : s ++ c :: (t ++ [x]) = s ++ c :: t ++ [x] := by simp
    rw [hassoc]
    by_cases hx : isSpace x = true
    · rw [rstrip, List.rdropWhile_concat_pos _ _ _ hx, ← rstrip, ih, rstrip, rstrip,
        List.rdropWhile_concat_pos _ _ _ hx]
    · rw [rstrip, List.rdropWhile_concat_neg _ _ _ hx, rstrip, List.rdropWhile_concat_neg _ _ _ hx]
      simp

theorem rstrip_spaces (h : ∀ c ∈ s, isSpace c = true) : rstrip s = [] := by
  rw [rstrip, List.rdropWhile_eq_nil_iff]
  exact h

theorem rstrip_of_trimmed (h : Trimmed s) : rstrip s = s := by
  rw [rstrip, List.rdropWhile_eq_self_iff]
  intro hne hspace
  have hlast := h.2 _ (List.getLast?_eq_some_getLast hne)
  rw [hlast] at hspace
  cases hspace

theorem lskip_append_cons (h : ∀ c ∈ s, isSpace c = true) (hc : isSpace c = false)
    (t : List Char) : lskip (s ++ c :: t) = c :: t := by
  rw [lskip, List.dropWhile_append_of_pos h, List.dropWhile_cons_of_neg (by simp [hc])]

/-! ## Finding -/

variable {chars : List Char}

theorem NoComment.tail (h : NoComment (c :: s)) : NoComment s := List.IsChain.tail h

theorem NoComment.head (h : NoComment (c :: s)) (hc : isSpace c = true) : s.head? ≠ some ';' := by
  intro hhead
  obtain ⟨rest, rfl⟩ := List.head?_eq_some_iff.1 hhead
  exact (List.isChain_cons_cons.1 h).1 hc rfl

/-- The search goes on behind what does not stop it. -/
theorem findCharsOrComment_append (hs : ∀ c ∈ s, c ∉ chars) (hno : NoComment s) {wasSpace : Bool}
    (hfirst : wasSpace = true → s.head? ≠ some ';') (t : List Char) :
    findCharsOrComment chars wasSpace (s ++ t) =
      (s ++ (findCharsOrComment chars ((s.getLast?.map isSpace).getD wasSpace) t).1,
        (findCharsOrComment chars ((s.getLast?.map isSpace).getD wasSpace) t).2) := by
  induction s generalizing wasSpace with
  | nil => rfl
  | cons c s ih =>
    rw [List.forall_mem_cons] at hs
    have hgo : ¬ (c ∈ chars ∨ (wasSpace = true ∧ c = ';')) := by
      rintro (hmem | ⟨hspace, rfl⟩)
      · exact hs.1 hmem
      · exact hfirst hspace rfl
    have hlast : (((c :: s).getLast?).map isSpace).getD wasSpace =
        ((s.getLast?).map isSpace).getD (isSpace c) := by
      rw [List.getLast?_cons]
      cases s.getLast? <;> rfl
    rw [List.cons_append, findCharsOrComment, if_neg hgo, ih hs.2 hno.tail hno.head, hlast]
    rfl

theorem findCharsOrComment_char (hc : c ∈ chars) (wasSpace : Bool) :
    findCharsOrComment chars wasSpace (c :: t) = ([], c :: t) := by
  rw [findCharsOrComment, if_pos (Or.inl hc)]

theorem findCharsOrComment_comment :
    findCharsOrComment chars true (';' :: t) = ([], ';' :: t) := by
  rw [findCharsOrComment, if_pos (Or.inr ⟨rfl, rfl⟩)]

end

/-! ## Lines -/

/-- What is left of a line, and whether something has been skipped. -/
def startAt (line : List Char) : Bool × List Char :=
  (decide ((lskip (rstrip line)).length < (rstrip line).length), lskip (rstrip line))

theorem startAt_cons {indent tail : List Char} {c : Char} (hindent : Blank indent)
    (hc : isSpace c = false) :
    startAt (indent ++ c :: tail) = (decide (indent ≠ []), c :: rstrip tail) := by
  have hskip := lskip_append_cons (fun x hx => (hindent x hx).1) hc (rstrip tail)
  rw [startAt, rstrip_append_cons hc, hskip]
  cases indent with
  | nil => simp
  | cons x indent => simp

theorem not_space_of_trimmed {c : Char} {s : List Char} (h : Trimmed (c :: s)) :
    isSpace c = false := h.1 c rfl

/-- A step from a line behind which `eol` is read, with what it means. -/
def LineMeans (line : Line) (c : Scope) : Prop :=
  ∀ (eol : List Char) (moved : Bool) (lineno : ℕ), (∀ x ∈ eol, isSpace x = true) →
    (c.prevName = [] ∨ moved = (startAt (line.text ++ eol)).1) →
    Means c lineno
      (fun handler p => p.parseStart handler moved (startAt (line.text ++ eol)).2)
      (line.next c).1 (line.next c).2

namespace Line

variable {c : Scope}

theorem means_blank {spaces : List Char} (h : Blank spaces) : LineMeans (.blank spaces) c := by
  intro eol moved lineno heol _
  have hstart : (startAt (spaces ++ eol)).2 = [] := by
    have hall : ∀ x ∈ spaces ++ eol, isSpace x = true := by
      intro x hx
      exact (List.mem_append.1 hx).elim (fun hx => (h x hx).1) (heol x)
    rw [startAt, rstrip_spaces hall]
    rfl
  rw [text, hstart]
  exact fun _ _ _ => rfl

theorem means_comment {indent text : List Char} {mark : Char} (hindent : Blank indent)
    (hmark : mark = ';' ∨ mark = '#') : LineMeans (.comment indent mark text) c := by
  intro eol moved lineno _ _
  have hspace : isSpace mark = false := by rcases hmark with rfl | rfl <;> decide
  rw [Line.text, List.append_assoc, List.cons_append, startAt_cons hindent hspace]
  exact Ini.means_comment hmark lineno

/-- A line that starts at once does not continue another one. -/
theorem not_continues {moved : Bool} {first : Char} {tail : List Char}
    (hfirst : isSpace first = false)
    (h : c.prevName = [] ∨ moved = (startAt (first :: tail)).1) :
    ¬ (c.prevName ≠ [] ∧ moved = true) := by
  rintro ⟨hne, rfl⟩
  have hstart := h.resolve_left hne
  rw [show first :: tail = [] ++ first :: tail from rfl,
    startAt_cons (fun _ hx => absurd hx List.not_mem_nil) hfirst] at hstart
  cases hstart

theorem startAt_first {first : Char} (hfirst : isSpace first = false) (tail : List Char) :
    (startAt (first :: tail)).2 = first :: rstrip tail := by
  rw [show first :: tail = [] ++ first :: tail from rfl,
    startAt_cons (fun _ hx => absurd hx List.not_mem_nil) hfirst]

theorem means_heading {name rest : List Char} (hname : ']' ∉ name) (hno : NoComment name) :
    LineMeans (.heading name rest) c := by
  intro eol moved lineno heol hmoved
  have hbracket : isSpace ']' = false := by decide
  have htext : (heading name rest).text ++ eol = '[' :: (name ++ ']' :: (rest ++ eol)) := by
    simp [text]
  rw [htext] at hmoved ⊢
  rw [startAt_first (by decide), rstrip_append_cons hbracket]
  have hfind : findCharsOrComment [']'] false (name ++ ']' :: rstrip (rest ++ eol)) =
      (name, ']' :: rstrip (rest ++ eol)) := by
    rw [findCharsOrComment_append (fun x hx hmem => ?_) hno (by rintro ⟨⟩),
      findCharsOrComment_char (by simp), List.append_nil]
    rw [List.mem_singleton] at hmem
    exact hname (hmem ▸ hx)
  exact Ini.means_heading lineno (not_continues (by decide) hmoved) hfind

theorem means_continued {indent value spaces : List Char} (hindent : Blank indent)
    (hne : indent ≠ []) (hvalue : Trimmed value) (hfirst : ∃ x ∈ value.head?, x ≠ ';' ∧ x ≠ '#')
    (hspaces : Blank spaces) (hfollows : c.prevName ≠ []) :
    LineMeans (.continued indent value spaces) c := by
  intro eol moved lineno heol hmoved
  obtain ⟨first, hhead, hmark⟩ := hfirst
  obtain ⟨value', rfl⟩ := List.head?_eq_some_iff.1 hhead
  have hspace := not_space_of_trimmed hvalue
  have htext : (continued indent (first :: value') spaces).text ++ eol =
      indent ++ first :: (value' ++ (spaces ++ eol)) := by
    simp [text]
  have hstrip : first :: rstrip (value' ++ (spaces ++ eol)) = first :: value' := by
    have hall : ∀ x ∈ spaces ++ eol, isSpace x = true := by
      intro x hx
      exact (List.mem_append.1 hx).elim (fun hx => (hspaces x hx).1) (heol x)
    have hcons := rstrip_append_cons hspace [] (value' ++ (spaces ++ eol))
    rw [List.nil_append, List.nil_append, ← List.cons_append, rstrip_append_spaces hall,
      rstrip_of_trimmed hvalue] at hcons
    exact hcons.symm
  rw [htext] at hmoved ⊢
  rw [startAt_cons hindent hspace] at hmoved ⊢
  have hmoved' := hmoved.resolve_left hfollows
  rw [hstrip]
  refine Ini.means_continued (by rintro (h | h); exacts [hmark.1 h, hmark.2 h]) lineno
    ⟨hfollows, ?_⟩
  rw [hmoved']
  exact decide_eq_true hne

theorem head_ne_of_blank {spaces : List Char} (h : Blank spaces) : spaces.head? ≠ some ';' := by
  intro hhead
  have hspace := (h ';' (List.mem_of_mem_head? hhead)).1
  cases hspace

theorem noComment_of_blank {spaces : List Char} (h : Blank spaces) : NoComment spaces := by
  induction spaces with
  | nil => exact .nil
  | cons c spaces ih =>
    have htail : Blank spaces := fun x hx => h x (List.mem_cons_of_mem c hx)
    refine List.isChain_cons.2 ⟨?_, ih htail⟩
    rintro x hx - rfl
    exact head_ne_of_blank htail hx

/-- A value without a comment. -/
theorem find_end {value : List Char} (hno : NoComment value) :
    findCharsOrComment [] false value = (value, []) := by
  have hfind := findCharsOrComment_append (s := value) (fun _ _ => List.not_mem_nil) hno
    (show false = true → _ by rintro ⟨⟩) []
  rw [List.append_nil] at hfind
  rw [hfind]
  simp [findCharsOrComment]

/-- A value with one. -/
theorem find_remark {value spaces : List Char} (hno : NoComment value) (hspaces : Blank spaces)
    (hne : spaces ≠ []) (rest : List Char) :
    findCharsOrComment [] false (value ++ (spaces ++ ';' :: rest)) =
      (value ++ spaces, ';' :: rest) := by
  have hlast : ∀ wasSpace, (spaces.getLast?.map isSpace).getD wasSpace = true := by
    intro wasSpace
    rw [List.getLast?_eq_some_getLast hne]
    exact (hspaces _ (List.getLast_mem hne)).1
  rw [findCharsOrComment_append (fun _ _ => List.not_mem_nil) hno (by rintro ⟨⟩),
    findCharsOrComment_append (fun _ _ => List.not_mem_nil) (noComment_of_blank hspaces)
      (fun _ => head_ne_of_blank hspaces), hlast, findCharsOrComment_comment, List.append_nil]

/-- **A value** is found in front of white space and a comment. -/
theorem find_value {after value spaces eol : List Char} {remark : Option (List Char)}
    (hafter : Blank after) (hvalue : Trimmed value) (hno : NoComment value)
    (hspaces : Blank spaces) (hremark : ∀ text ∈ remark, spaces ≠ [] ∧ value ≠ [])
    (heol : ∀ x ∈ eol, isSpace x = true) :
    rstrip (findCharsOrComment [] false (lskip (rstrip (after ++ (value ++ (spaces ++
      (remark.elim [] (';' :: ·) ++ eol))))))).1 = value := by
  have hafter' : ∀ x ∈ after, isSpace x = true := fun x hx => (hafter x hx).1
  have hspaces' : ∀ x ∈ spaces, isSpace x = true := fun x hx => (hspaces x hx).1
  have hend : ∀ x ∈ spaces ++ eol, isSpace x = true := fun x hx =>
    (List.mem_append.1 hx).elim (hspaces' x) (heol x)
  rcases value with _ | ⟨first, value⟩
  · -- without a value there is no remark either
    obtain rfl : remark = none := by
      rw [Option.eq_none_iff_forall_not_mem]
      exact fun text htext => (hremark text htext).2 rfl
    have hall : ∀ x ∈ after ++ (spaces ++ eol), isSpace x = true := fun x hx =>
      (List.mem_append.1 hx).elim (hafter' x) (hend x)
    rw [Option.elim_none, List.nil_append, List.nil_append, rstrip_spaces hall]
    rfl
  have hfirst := not_space_of_trimmed hvalue
  have hstrip : first :: rstrip value = first :: value := by
    have hcons := rstrip_append_cons hfirst [] value
    rw [List.nil_append, List.nil_append, rstrip_of_trimmed hvalue] at hcons
    exact hcons.symm
  rw [List.cons_append, rstrip_append_cons hfirst, lskip_append_cons hafter' hfirst]
  cases remark with
  | none =>
    rw [Option.elim_none, List.nil_append, rstrip_append_spaces hend, hstrip, find_end hno]
    exact rstrip_of_trimmed hvalue
  | some text =>
    have htext : value ++ (spaces ++ ((some text).elim [] (';' :: ·) ++ eol)) =
        value ++ spaces ++ ';' :: (text ++ eol) := by simp
    have hback : first :: (value ++ spaces ++ ';' :: rstrip (text ++ eol)) =
        first :: value ++ (spaces ++ ';' :: rstrip (text ++ eol)) := by simp
    rw [htext, rstrip_append_cons (by decide), hback,
      find_remark hno hspaces (hremark text rfl).1, rstrip_append_spaces hspaces',
      rstrip_of_trimmed hvalue]

/-- **A name** is found in front of white space and a separator. -/
theorem find_name {name before : List Char} {separator : Char} (hno : NoComment name)
    (heq : '=' ∉ name) (hcolon : ':' ∉ name) (hbefore : Blank before)
    (hsep : separator = '=' ∨ separator = ':') (rest : List Char) :
    findCharsOrComment ['=', ':'] false (name ++ (before ++ separator :: rest)) =
      (name ++ before, separator :: rest) := by
  have hname : ∀ x ∈ name, x ∉ ['=', ':'] := by
    intro x hx hmem
    rcases List.mem_cons.1 hmem with rfl | hmem
    · exact heq hx
    · exact hcolon (List.mem_singleton.1 hmem ▸ hx)
  have hblank : ∀ x ∈ before, x ∉ ['=', ':'] := by
    intro x hx hmem
    have hspace := (hbefore x hx).1
    rcases List.mem_cons.1 hmem with rfl | hmem
    · cases hspace
    · rw [List.mem_singleton.1 hmem] at hspace
      cases hspace
  have hmem : separator ∈ ['=', ':'] := by rcases hsep with rfl | rfl <;> simp
  rw [findCharsOrComment_append hname hno (by rintro ⟨⟩),
    findCharsOrComment_append hblank (noComment_of_blank hbefore)
      (fun _ => head_ne_of_blank hbefore), findCharsOrComment_char hmem, List.append_nil]

theorem means_pair {name before after value spaces : List Char} {separator : Char}
    {remark : Option (List Char)}
    (h : (pair name before separator after value spaces remark).WellFormed) :
    LineMeans (.pair name before separator after value spaces remark) c := by
  obtain ⟨⟨-, hname, hno, heq, hcolon, first, hhead, hsemicolon, hhash, hbracket⟩, hbefore, hsep,
    hafter, ⟨-, hvalue, hno'⟩, hspaces, hremark⟩ := h
  intro eol moved lineno heol hmoved
  obtain ⟨name, rfl⟩ := List.head?_eq_some_iff.1 hhead
  have hspace := not_space_of_trimmed hname
  have hseparator : isSpace separator = false := by rcases hsep with rfl | rfl <;> decide
  have htext : (pair (first :: name) before separator after value spaces remark).text ++ eol =
      first :: (name ++ before ++ separator :: (after ++ (value ++ (spaces ++
        (remark.elim [] (';' :: ·) ++ eol))))) := by
    simp [text]
  rw [htext] at hmoved ⊢
  rw [startAt_first hspace, rstrip_append_cons hseparator, List.append_assoc]
  have hpair := Ini.means_pair (c := c) (by rintro (h | h); exacts [hsemicolon h, hhash h]) lineno
    (not_continues hspace hmoved) hbracket hsep (find_name hno heq hcolon hbefore hsep
      (rstrip (after ++ (value ++ (spaces ++ (remark.elim [] (';' :: ·) ++ eol))))))
  have hstrip : rstrip (first :: name ++ before) = first :: name := by
    rw [rstrip_append_spaces fun x hx => (hbefore x hx).1, rstrip_of_trimmed hname]
  have hfind := find_value hafter hvalue hno' hspaces (fun text h => (hremark text h).2) heol
  rw [hstrip, hfind] at hpair
  exact hpair

/-- **A line means what it says.** -/
theorem means {line : Line} (h : line.WellFormed) (hfollows : line.Follows c) :
    LineMeans line c := by
  cases line with
  | blank spaces => exact means_blank h
  | comment indent mark text => exact means_comment h.1 h.2.1
  | heading name rest => exact means_heading h.2.1 h.2.2.1
  | pair name before separator after value spaces remark => exact means_pair h
  | continued indent value spaces =>
    obtain ⟨hindent, hne, -, hvalue, hfirst, hspaces⟩ := h
    exact means_continued hindent hne hvalue hfirst hspaces hfollows

theorem plain_of_blank {s : List Char} (h : Blank s) : Plain s := by
  refine fun x hx => ⟨(h x hx).2, ?_⟩
  rintro rfl
  have hspace := (h _ hx).1
  cases hspace

theorem plain_cons {x : Char} {s : List Char} (hx : x ≠ '\n' ∧ x ≠ '\x00') (hs : Plain s) :
    Plain (x :: s) := List.forall_mem_cons.2 ⟨hx, hs⟩

theorem plain_append {s t : List Char} (hs : Plain s) (ht : Plain t) : Plain (s ++ t) :=
  List.forall_mem_append.2 ⟨hs, ht⟩

/-- The text of a line stays in it. -/
theorem plain {line : Line} (h : line.WellFormed) : Plain line.text := by
  have hempty : Plain [] := fun _ hx => absurd hx List.not_mem_nil
  cases line with
  | blank spaces => exact plain_of_blank h
  | comment indent mark text =>
    obtain ⟨hindent, hmark, htext⟩ := h
    refine plain_append (plain_of_blank hindent) (plain_cons ?_ htext)
    rcases hmark with rfl | rfl <;> decide
  | heading name rest =>
    exact plain_cons (by decide) (plain_append h.1 (plain_cons (by decide) h.2.2.2))
  | pair name before separator after value spaces remark =>
    obtain ⟨⟨hname, -⟩, hbefore, hsep, hafter, ⟨hvalue, -⟩, hspaces, hremark⟩ := h
    have hseparator : separator ≠ '\n' ∧ separator ≠ '\x00' := by
      rcases hsep with rfl | rfl <;> decide
    refine plain_append hname (plain_append (plain_of_blank hbefore) (plain_cons hseparator
      (plain_append (plain_of_blank hafter) (plain_append hvalue
        (plain_append (plain_of_blank hspaces) ?_)))))
    cases remark with
    | none => exact hempty
    | some text => exact plain_cons (by decide) (hremark text rfl).1
  | continued indent value spaces =>
    obtain ⟨hindent, -, hvalue, -, -, hspaces⟩ := h
    exact plain_append (plain_of_blank hindent) (plain_append hvalue (plain_of_blank hspaces))

end Line

end SmartScreen.Ini
