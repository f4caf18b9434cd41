/-
  Chains of a comparator that is no weak order.

  A sorted container takes elements for equal when its comparator puts neither before
  the other (`Alike`).  Where that is not transitive, the comparator is only a strict
  partial order (`Strict`).  A search still works as long as the elements that are held
  are a chain: those before a given element are in front, those behind it at the end.

  * `lookup` ends at the first element that is not before the one searched for;
    `lookup_eq_some_iff` says that it finds the first one alike.
  * `front` are the elements that an insertion passes.  Looking at the last of them is
    enough (`exists_alike_iff`), and inserting there keeps a chain (`pairwise_insert`).
-/
import Mathlib.Data.List.TakeWhile
import Mathlib.Tactic

namespace Chain

variable {β : Type*} {r : β → β → Bool} {xs ys : List β} {a p q x : β}

/-- A strict partial order. -/
structure Strict (r : β → β → Bool) : Prop where
  irrefl : ∀ a, r a a = false
  trans : ∀ {a b c}, r a b = true → r b c = true → r a c = true

/-- Neither comes before the other. -/
def Alike (r : β → β → Bool) (a b : β) : Prop := r a b = false ∧ r b a = false

theorem Alike.symm (h : Alike r a p) : Alike r p a := ⟨h.2, h.1⟩

theorem Strict.alike_self (h : Strict r) (a : β) : Alike r a a := ⟨h.irrefl a, h.irrefl a⟩

/-- Before one element of a chain, before all that follow. -/
theorem Strict.pairwise_cons_trans (h : Strict r) (hxs : (x :: xs).Pairwise fun a b => r a b = true)
    (hp : r p x = true) : ∀ y ∈ xs, r p y = true :=
  fun _ hy => h.trans hp (List.rel_of_pairwise_cons hxs hy)

/-! ## Searching -/

/-- The first element that is not before `q`, unless `q` is before it. -/
def lookup (r : β → β → Bool) (q : β) (xs : List β) : Option β :=
  match xs.find? fun x => !r x q with
  | some x => if r q x then none else some x
  | none => none

/-- The first element alike. -/
structure First (r : β → β → Bool) (q : β) (xs : List β) (x : β) : Prop where
  mem : x ∈ xs
  alike : Alike r q x
  first : ∀ y ∈ xs, Alike r q y → y = x ∨ r x y = true

theorem First.unique (h : Strict r) {y : β} (hx : First r q xs x) (hy : First r q xs y) :
    x = y := by
  rcases hx.first y hy.mem hy.alike with rfl | hxy
  · rfl
  · rcases hy.first x hx.mem hx.alike with rfl | hyx
    · rfl
    · have hxx := h.trans hxy hyx
      rw [h.irrefl] at hxx
      cases hxx

/-- An element that is not alike changes nothing in front of the others. -/
theorem First.cons {y : β} (hno : ¬ Alike r q x) (h : First r q xs y) :
    First r q (x :: xs) y := by
  refine ⟨List.mem_cons_of_mem _ h.mem, h.alike, ?_⟩
  intro z hz halike
  rcases List.mem_cons.1 hz with rfl | hz
  · exact absurd halike hno
  · exact h.first z hz halike

/-- **A search among a chain** finds the first element alike, or there is none. -/
theorem lookup_cases (h : Strict r) (hxs : xs.Pairwise fun a b => r a b = true) :
    (∃ x, lookup r q xs = some x ∧ First r q xs x) ∨
      (lookup r q xs = none ∧ ∀ x ∈ xs, ¬ Alike r q x) := by
  induction xs with
  | nil => exact Or.inr ⟨rfl, fun x hx => by cases hx⟩
  | cons x xs ih =>
    unfold lookup at ih ⊢
    rw [List.find?_cons]
    cases hxq : r x q with
    | true =>
      -- the search goes on, past an element that comes before
      have hno : ¬ Alike r q x := by
        rintro ⟨-, hx⟩
        rw [hxq] at hx
        cases hx
      simp only [Bool.not_true]
      rcases ih hxs.of_cons with ⟨y, hy, hfirst⟩ | ⟨hnone, hall⟩
      · exact Or.inl ⟨y, hy, hfirst.cons hno⟩
      · refine Or.inr ⟨hnone, ?_⟩
        intro z hz
        rcases List.mem_cons.1 hz with rfl | hz
        · exact hno
        · exact hall z hz
    | false =>
      simp only [Bool.not_false]
      cases hqx : r q x with
      | true =>
        refine Or.inr ⟨by simp, ?_⟩
        rintro z hz ⟨hqz, -⟩
        rcases List.mem_cons.1 hz with rfl | hz
        · rw [hqx] at hqz
          cases hqz
        · rw [h.pairwise_cons_trans hxs hqx z hz] at hqz
          cases hqz
      | false =>
        refine Or.inl ⟨x, by simp, List.mem_cons_self, ⟨hqx, hxq⟩, ?_⟩
        intro z hz _
        rcases List.mem_cons.1 hz with rfl | hz
        · exact Or.inl rfl
        · exact Or.inr (List.rel_of_pairwise_cons hxs hz)

theorem lookup_eq_some_iff (h : Strict r) (hxs : xs.Pairwise fun a b => r a b = true) :
    lookup r q xs = some x ↔ First r q xs x := by
  rcases lookup_cases (q := q) h hxs with ⟨y, hy, hfirst⟩ | ⟨hnone, hall⟩
  · rw [hy, Option.some.injEq]
    constructor
    · rintro rfl
      exact hfirst
    · exact fun hx => hfirst.unique h hx
  · rw [hnone]
    constructor
    · rintro ⟨⟩
    · exact fun hx => absurd hx.alike (hall x hx.mem)

theorem lookup_eq_none_iff (h : Strict r) (hxs : xs.Pairwise fun a b => r a b = true) :
    lookup r q xs = none ↔ ∀ x ∈ xs, ¬ Alike r q x := by
  rcases lookup_cases (q := q) h hxs with ⟨y, hy, hfirst⟩ | ⟨hnone, hall⟩
  · rw [hy]
    constructor
    · rintro ⟨⟩
    · exact fun hall => absurd hfirst.alike (hall y hfirst.mem)
  · exact iff_of_true hnone hall

/-- Elements in front that come before `q` are passed. -/
theorem find?_append_of_before (hx : r x q = true) (hxs : ∀ y ∈ xs, r y x = true) (h : Strict r) :
    (xs ++ x :: ys).find? (fun y => !r y q) = ys.find? fun y => !r y q := by
  have hnone : xs.find? (fun y => !r y q) = none := by
    rw [List.find?_eq_none]
    intro y hy
    simp [h.trans (hxs y hy) hx]
  rw [List.find?_append, hnone, Option.none_or, List.find?_cons, hx]
  rfl

theorem find?_append_of_not_before (hx : r x q = false) :
    (xs ++ x :: ys).find? (fun y => !r y q) = (xs.find? fun y => !r y q).or (some x) := by
  rw [List.find?_append, List.find?_cons, hx]
  rfl

/-! ## Inserting -/

/-- The elements that `p` does not come before, and the others. -/
def front (r : β → β → Bool) (p : β) (xs : List β) : List β := xs.takeWhile fun x => !r p x

def rear (r : β → β → Bool) (p : β) (xs : List β) : List β := xs.dropWhile fun x => !r p x

theorem front_append_rear (r : β → β → Bool) (p : β) (xs : List β) :
    front r p xs ++ rear r p xs = xs := List.takeWhile_append_dropWhile

theorem of_mem_front (hx : x ∈ front r p xs) : r p x = false := by
  simpa using List.mem_takeWhile_imp hx

/-- `p` comes before all that is behind it. -/
theorem of_mem_rear (h : Strict r) (hxs : xs.Pairwise fun a b => r a b = true)
    (hx : x ∈ rear r p xs) : r p x = true := by
  induction xs with
  | nil => cases hx
  | cons y xs ih =>
    unfold rear at ih hx
    rw [List.dropWhile_cons] at hx
    cases hpy : r p y with
    | true =>
      rw [hpy, Bool.not_true, if_neg Bool.false_ne_true] at hx
      rcases List.mem_cons.1 hx with rfl | hx
      · exact hpy
      · exact h.pairwise_cons_trans hxs hpy x hx
    | false =>
      rw [hpy, Bool.not_false, if_pos rfl] at hx
      exact ih hxs.of_cons hx

/-- The last element of a chain comes after all others. -/
theorem rel_getLast (hxs : xs.Pairwise fun a b => r a b = true) (hlast : xs.getLast? = some x) :
    ∀ y ∈ xs, y = x ∨ r y x = true := by
  obtain ⟨ys, rfl⟩ := List.getLast?_eq_some_iff.1 hlast
  intro y hy
  rcases List.mem_append.1 hy with hy | hy
  · exact Or.inr ((List.pairwise_append.1 hxs).2.2 y hy x List.mem_cons_self)
  · exact Or.inl (List.mem_singleton.1 hy)

/-- **Only the last element in front matters**: some element is alike iff that one does
    not come before `p`. -/
theorem exists_alike_iff (h : Strict r) (hxs : xs.Pairwise fun a b => r a b = true) :
    (∃ x ∈ xs, Alike r x p) ↔ ∃ x, (front r p xs).getLast? = some x ∧ r x p = false := by
  have hfront : (front r p xs).Pairwise fun a b => r a b = true :=
    hxs.sublist (List.takeWhile_sublist _)
  constructor
  · rintro ⟨x, hx, hxp, hpx⟩
    have hmem : x ∈ front r p xs := by
      rw [← front_append_rear r p xs] at hx
      rcases List.mem_append.1 hx with hx | hx
      · exact hx
      · rw [of_mem_rear h hxs hx] at hpx
        cases hpx
    obtain ⟨z, hz⟩ := Option.ne_none_iff_exists'.1
      (mt List.getLast?_eq_none_iff.1 (List.ne_nil_of_mem hmem))
    refine ⟨z, hz, ?_⟩
    rcases rel_getLast hfront hz x hmem with rfl | hxz
    · exact hxp
    · rw [← Bool.not_eq_true]
      intro hzp
      rw [h.trans hxz hzp] at hxp
      cases hxp
  · rintro ⟨x, hx, hxp⟩
    have hmem := List.mem_of_getLast? hx
    refine ⟨x, ?_, hxp, of_mem_front hmem⟩
    rw [← front_append_rear r p xs]
    exact List.mem_append_left _ hmem

/-- **Inserting keeps a chain**, when nothing in it is alike. -/
theorem pairwise_insert (h : Strict r) (hxs : xs.Pairwise fun a b => r a b = true)
    (hp : ∀ x ∈ xs, ¬ Alike r x p) :
    (front r p xs ++ p :: rear r p xs).Pairwise fun a b => r a b = true := by
  have hsplit := hxs
  rw [← front_append_rear r p xs, List.pairwise_append] at hsplit
  obtain ⟨hfront, hrear, hcross⟩ := hsplit
  have hbefore : ∀ x ∈ front r p xs, r x p = true := by
    intro x hx
    rw [← Bool.not_eq_false]
    intro hxp
    refine hp x ?_ ⟨hxp, of_mem_front hx⟩
    rw [← front_append_rear r p xs]
    exact List.mem_append_left _ hx
  refine List.pairwise_append.2 ⟨hfront, ?_, ?_⟩
  · exact List.pairwise_cons.2 ⟨fun y hy => of_mem_rear h hxs hy, hrear⟩
  · intro x hx y hy
    rcases List.mem_cons.1 hy with rfl | hy
    · exact hbefore x hx
    · exact hcross x hx y hy

/-- Where `p` comes before an element, nothing from there on is passed. -/
theorem front_append_of_before (hx : r p x = true) : front r p (xs ++ x :: ys) = front r p xs := by
  unfold front
  rw [List.takeWhile_append, List.takeWhile_cons, hx, Bool.not_true, if_neg Bool.false_ne_true,
    List.append_nil]
  split_ifs with hlen
  · exact ((List.takeWhile_prefix _).eq_of_length hlen).symm
  · rfl

theorem rear_append_of_before (hx : r p x = true) :
    rear r p (xs ++ x :: ys) = rear r p xs ++ x :: ys := by
  have h₁ := front_append_rear r p (xs ++ x :: ys)
  rw [front_append_of_before hx] at h₁
  have h₂ := congrArg (· ++ x :: ys) (front_append_rear r p xs)
  rw [List.append_assoc] at h₂
  exact List.append_cancel_left (h₁.trans h₂.symm)

/-- Where it does not, all before is passed as well. -/
theorem front_append_of_not_before (h : Strict r) (hxs : ∀ y ∈ xs, r y x = true)
    (hx : r p x = false) : front r p (xs ++ x :: ys) = xs ++ x :: front r p ys := by
  unfold front
  rw [List.takeWhile_append_of_pos, List.takeWhile_cons, hx, Bool.not_false, if_pos rfl]
  intro y hy
  cases hpy : r p y with
  | false => rfl
  | true =>
    rw [h.trans hpy (hxs y hy)] at hx
    cases hx

theorem rear_append_of_not_before (h : Strict r) (hxs : ∀ y ∈ xs, r y x = true)
    (hx : r p x = false) : rear r p (xs ++ x :: ys) = rear r p ys := by
  have h₁ := front_append_rear r p (xs ++ x :: ys)
  rw [front_append_of_not_before h hxs hx] at h₁
  have h₂ := congrArg (fun zs => xs ++ x :: zs) (front_append_rear r p ys)
  rw [← List.cons_append, ← List.append_assoc] at h₂
  exact List.append_cancel_left (h₁.trans h₂.symm)

end Chain
