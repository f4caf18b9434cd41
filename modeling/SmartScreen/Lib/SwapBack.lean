/-
  Removing an element of a vector by swapping it with the last one, and changing
  an element in place.
-/
import Mathlib.Tactic

namespace SwapBack

variable {β : Type*}

/-- `std::swap(xs.back(), xs[i])` -/
def swapBack (xs : List β) (i : ℕ) : List β :=
  match xs[i]?, xs.getLast? with
  | some x, some y => (xs.set i y).set (xs.length - 1) x
  | _, _ => xs

theorem swapBack_concat {ys : List β} {x y : β} {i : ℕ} (hi : (ys ++ [y])[i]? = some x) :
    swapBack (ys ++ [y]) i = ys.set i y ++ [x] := by
  simp only [swapBack, hi, List.getLast?_concat, List.length_append, List.length_singleton,
    Nat.add_sub_cancel]
  by_cases h : i < ys.length
  · rw [List.set_append_left _ _ h, List.set_append_right _ _ (by simp)]
    simp
  · have hlast : i = ys.length := by
      have := (List.getElem?_eq_some_iff.1 hi).1
      simp only [List.length_append, List.length_singleton] at this
      omega
    subst hlast
    rw [List.set_eq_of_length_le le_rfl]
    simp

/-- The last element stays where it is. -/
theorem swapBack_last (xs : List β) : swapBack xs (xs.length - 1) = xs := by
  rcases List.eq_nil_or_concat xs with rfl | ⟨ys, y, rfl⟩
  · rfl
  · simp only [List.concat_eq_append, List.length_append, List.length_singleton,
      Nat.add_sub_cancel]
    rw [swapBack_concat (x := y) (by simp), List.set_eq_of_length_le le_rfl]

/-- Exchanging an element for another one. -/
theorem set_concat_perm {ys : List β} {x y : β} {i : ℕ} (hi : (ys ++ [y])[i]? = some x) :
    (ys.set i y ++ [x]).Perm (ys ++ [y]) := by
  induction ys generalizing i with
  | nil =>
    cases i with
    | zero => simp at hi; simp [hi]
    | succ i => simp at hi
  | cons z ys ih =>
    cases i with
    | zero =>
      simp only [List.cons_append, List.getElem?_cons_zero, Option.some.injEq] at hi
      subst hi
      have hz : (y :: ys ++ [z]).Perm (z :: y :: ys) := List.perm_append_singleton ..
      have hy : (y :: ys).Perm (ys ++ [y]) := (List.perm_append_singleton ..).symm
      exact hz.trans (hy.cons z)
    | succ i => exact (ih hi).cons z

/-- **The element comes to the back**, the others stay in front of it. -/
theorem exists_swapBack {xs : List β} {x : β} {i : ℕ} (hi : xs[i]? = some x) :
    ∃ zs, swapBack xs i = zs ++ [x] ∧ (zs ++ [x]).Perm xs := by
  rcases List.eq_nil_or_concat xs with rfl | ⟨ys, y, rfl⟩
  · simp at hi
  · rw [List.concat_eq_append] at hi ⊢
    exact ⟨ys.set i y, swapBack_concat hi, set_concat_perm hi⟩

/-- Setting an element to one with the same image. -/
theorem map_set_of_eq {γ : Type*} {f : β → γ} {xs : List β} {x y : β} {i : ℕ}
    (hi : xs[i]? = some x) (h : f y = f x) : (xs.set i y).map f = xs.map f := by
  obtain ⟨hlt, rfl⟩ := List.getElem?_eq_some_iff.1 hi
  rw [List.map_set, h]
  refine List.ext_getElem (by simp) fun j _ _ => ?_
  rw [List.getElem_set]
  split_ifs with hj
  · subst hj
    rw [List.getElem_map]
  · rfl

/-- Changing an element that is filtered out. -/
theorem filter_modify {p : β → Bool} {f : β → β} {xs : List β} {x : β} {i : ℕ}
    (hi : xs[i]? = some x) (hx : p x = false) (hfx : p (f x) = false) :
    (xs.modify i f).filter p = xs.filter p := by
  induction xs generalizing i with
  | nil => simp at hi
  | cons z xs ih =>
    cases i with
    | zero =>
      obtain rfl : z = x := by simpa using hi
      simp [hx, hfx]
    | succ i =>
      rw [List.modify_succ_cons, List.filter_cons, List.filter_cons, ih (by simpa using hi)]

end SwapBack
