/-
  Archives: what a value leaves in a stream of items, and what is loaded from it.

  A codec need not give back the value that was saved: it is lawful for `f` if
  loading what was saved of `x` gives `f x`, reads no further, and fails on what
  has been cut off.  The combinators keep this:

  * `prod` for the members of a structure, one after the other, and `via` for the
    structure itself;
  * `optional` and `vector`, with a flag or a count in front.
-/
import Mathlib.Tactic

namespace Archive

variable {ι β γ : Type}

structure Codec (ι β : Type) where
  save : β → List ι
  load : List ι → Option (β × List ι)

namespace Codec

/-- `f x` is what is loaded of a saved `x`. -/
structure Lawful (c : Codec ι β) (f : β → β) : Prop where
  restores : ∀ x rest, c.load (c.save x ++ rest) = some (f x, rest)
  complete : ∀ x xs, xs <+: c.save x → xs ≠ c.save x → c.load xs = none

theorem Lawful.restores_nil {c : Codec ι β} {f : β → β} (h : c.Lawful f) (x : β) :
    c.load (c.save x) = some (f x, []) := by
  have := h.restores x []
  rwa [List.append_nil] at this

/-- A cut falls into the first part or into the second one. -/
theorem prefix_append_cases {xs ys zs : List ι} (h : xs <+: ys ++ zs) (hne : xs ≠ ys ++ zs) :
    (xs <+: ys ∧ xs ≠ ys) ∨ ∃ ws, xs = ys ++ ws ∧ ws <+: zs ∧ ws ≠ zs := by
  rcases List.prefix_or_prefix_of_prefix h (List.prefix_append ys zs) with hxs | ⟨ws, rfl⟩
  · by_cases heq : xs = ys
    · refine Or.inr ⟨[], by simp [heq], List.nil_prefix, ?_⟩
      rintro rfl
      exact hne (by simp [heq])
    · exact Or.inl ⟨hxs, heq⟩
  · refine Or.inr ⟨ws, rfl, (List.prefix_append_right_inj ys).1 h, ?_⟩
    rintro rfl
    exact hne rfl

/-! ## Structures -/

/-- One value after the other. -/
def prod (c : Codec ι β) (d : Codec ι γ) : Codec ι (β × γ) where
  save x := c.save x.1 ++ d.save x.2
  load xs := do
    let (x, xs) ← c.load xs
    let (y, xs) ← d.load xs
    some ((x, y), xs)

/-- A value by way of another one. -/
def via (c : Codec ι γ) (there : β → γ) (back : γ → β) : Codec ι β where
  save x := c.save (there x)
  load xs := (c.load xs).map fun (y, xs) => (back y, xs)

theorem Lawful.prod {c : Codec ι β} {d : Codec ι γ} {f : β → β} {g : γ → γ} (hc : c.Lawful f)
    (hd : d.Lawful g) : (c.prod d).Lawful (Prod.map f g) := by
  constructor
  · intro x rest
    simp only [Codec.prod, List.append_assoc, hc.restores, hd.restores, Option.bind_eq_bind,
      Option.bind_some, Prod.map]
  · intro x xs hxs hne
    rcases prefix_append_cases hxs hne with ⟨hxs, hne⟩ | ⟨ws, rfl, hws, hne⟩
    · simp only [Codec.prod, hc.complete x.1 xs hxs hne, Option.bind_eq_bind, Option.bind_none]
    · simp only [Codec.prod, hc.restores, hd.complete x.2 ws hws hne, Option.bind_eq_bind,
        Option.bind_some, Option.bind_none]

theorem Lawful.via {c : Codec ι γ} {f : γ → γ} (hc : c.Lawful f) (there : β → γ) (back : γ → β) :
    (c.via there back).Lawful (back ∘ f ∘ there) := by
  constructor
  · intro x rest
    simp only [Codec.via, hc.restores, Option.map_some, Function.comp_apply]
  · intro x xs hxs hne
    simp only [Codec.via, hc.complete (there x) xs hxs hne, Option.map_none]

/-! ## Optionals and vectors -/

def optional (flag : Codec ι Bool) (c : Codec ι β) : Codec ι (Option β) where
  save
    | none => flag.save false
    | some x => flag.save true ++ c.save x
  load xs := do
    let (b, xs) ← flag.load xs
    if b then (c.load xs).map fun (x, xs) => (some x, xs) else some (none, xs)

theorem Lawful.optional {flag : Codec ι Bool} {c : Codec ι β} {f : β → β} (hflag : flag.Lawful id)
    (hc : c.Lawful f) : (optional flag c).Lawful (Option.map f) := by
  constructor
  · intro x rest
    cases x with
    | none => simp [Codec.optional, hflag.restores]
    | some x => simp [Codec.optional, List.append_assoc, hflag.restores, hc.restores]
  · intro x xs hxs hne
    cases x with
    | none => simp [Codec.optional, hflag.complete false xs hxs hne]
    | some x =>
      rcases prefix_append_cases hxs hne with ⟨hxs, hne⟩ | ⟨ws, rfl, hws, hne⟩
      · simp [Codec.optional, hflag.complete true xs hxs hne]
      · simp [Codec.optional, hflag.restores, hc.complete x ws hws hne]

/-- A number of elements. -/
def loadMany (c : Codec ι β) : ℕ → List ι → Option (List β × List ι)
  | 0, xs => some ([], xs)
  | n + 1, xs => do
    let (y, xs) ← c.load xs
    let (ys, xs) ← loadMany c n xs
    some (y :: ys, xs)

def vector (count : Codec ι ℕ) (c : Codec ι β) : Codec ι (List β) where
  save ys := count.save ys.length ++ ys.flatMap c.save
  load xs := do
    let (n, xs) ← count.load xs
    loadMany c n xs

theorem loadMany_restores {c : Codec ι β} {f : β → β} (hc : c.Lawful f) (ys : List β)
    (rest : List ι) :
    loadMany c ys.length (ys.flatMap c.save ++ rest) = some (ys.map f, rest) := by
  induction ys with
  | nil => rfl
  | cons y ys ih =>
    simp only [List.length_cons, loadMany, List.flatMap_cons, List.append_assoc, hc.restores, ih,
      Option.bind_eq_bind, Option.bind_some, List.map_cons]

theorem loadMany_complete {c : Codec ι β} {f : β → β} (hc : c.Lawful f) (ys : List β)
    (xs : List ι) (hxs : xs <+: ys.flatMap c.save) (hne : xs ≠ ys.flatMap c.save) :
    loadMany c ys.length xs = none := by
  induction ys generalizing xs with
  | nil => exact absurd (List.prefix_nil.1 hxs) hne
  | cons y ys ih =>
    rw [List.flatMap_cons] at hxs hne
    rcases prefix_append_cases hxs hne with ⟨hxs, hne⟩ | ⟨ws, rfl, hws, hne⟩
    · simp only [List.length_cons, loadMany, hc.complete y xs hxs hne, Option.bind_eq_bind,
        Option.bind_none]
    · simp only [List.length_cons, loadMany, hc.restores, ih ws hws hne, Option.bind_eq_bind,
        Option.bind_some, Option.bind_none]

/-- **Vectors keep their order.** -/
theorem Lawful.vector {count : Codec ι ℕ} {c : Codec ι β} {f : β → β} (hcount : count.Lawful id)
    (hc : c.Lawful f) : (vector count c).Lawful (List.map f) := by
  constructor
  · intro ys rest
    simp only [Codec.vector, List.append_assoc, hcount.restores, id, Option.bind_eq_bind,
      Option.bind_some, loadMany_restores hc]
  · intro ys xs hxs hne
    rcases prefix_append_cases hxs hne with ⟨hxs, hne⟩ | ⟨ws, rfl, hws, hne⟩
    · simp only [Codec.vector, hcount.complete _ xs hxs hne, Option.bind_eq_bind,
        Option.bind_none]
    · simp only [Codec.vector, hcount.restores, id, loadMany_complete hc ys ws hws hne,
        Option.bind_eq_bind, Option.bind_some]

/-! ## Items -/

/-- A value that is saved as one item. -/
def item (put : β → ι) (get : ι → Option β) : Codec ι β where
  save x := [put x]
  load
    | [] => none
    | i :: xs => (get i).map fun x => (x, xs)

theorem Lawful.item {put : β → ι} {get : ι → Option β} (h : ∀ x, get (put x) = some x) :
    (item put get).Lawful id := by
  constructor
  · intro x rest
    simp [Codec.item, h]
  · intro x xs hxs hne
    cases xs with
    | nil => rfl
    | cons y ys =>
      obtain ⟨hy, hys⟩ := List.cons_prefix_cons.1 hxs
      rw [hy, List.prefix_nil.1 hys] at hne
      exact absurd rfl hne

end Codec

end Archive
