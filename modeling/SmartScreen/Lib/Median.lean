/-
  The upper median of a list.
-/
import Mathlib.Data.List.Sort
import Mathlib.Tactic

namespace Median

variable {γ : Type*} [LinearOrder γ] {xs : List γ} {a d : γ}

/-- The value in the middle of the sorted list, the right one of two; `d` if there is
    none. -/
def upperMedian (d : γ) (xs : List γ) : γ :=
  (xs.insertionSort (· ≤ ·)).getD (xs.length / 2) d

theorem pairwise_sorted (xs : List γ) : (xs.insertionSort (· ≤ ·)).Pairwise (· ≤ ·) :=
  List.pairwise_insertionSort (r := (· ≤ ·)) xs

theorem upperMedian_eq (h : xs ≠ []) :
    ∃ hi : xs.length / 2 < (xs.insertionSort (· ≤ ·)).length,
      upperMedian d xs = (xs.insertionSort (· ≤ ·))[xs.length / 2] := by
  have hpos := List.length_pos_iff.2 h
  have hi : xs.length / 2 < (xs.insertionSort (· ≤ ·)).length := by
    rw [List.length_insertionSort]
    omega
  refine ⟨hi, ?_⟩
  rw [upperMedian, List.getD_eq_getElem?_getD, List.getElem?_eq_getElem hi, Option.getD_some]

theorem upperMedian_mem (h : xs ≠ []) : upperMedian d xs ∈ xs := by
  obtain ⟨hi, heq⟩ := upperMedian_eq (d := d) h
  rw [heq]
  exact (List.perm_insertionSort (· ≤ ·) xs).mem_iff.1 (List.getElem_mem hi)

/-- In a sorted list the small values come first. -/
theorem getElem_le_of_countP {ys : List γ} (hys : ys.Pairwise (· ≤ ·)) {i : ℕ}
    (hi : i < ys.length) (h : i < ys.countP (· ≤ a)) : ys[i] ≤ a := by
  by_contra hlt
  have hrest : (ys.drop i).countP (· ≤ a) = 0 := by
    rw [List.countP_eq_zero]
    intro y hy hya
    obtain ⟨j, hj, rfl⟩ := List.getElem_of_mem hy
    rw [List.getElem_drop] at hya
    rcases Nat.eq_zero_or_pos j with rfl | hpos
    · exact hlt (of_decide_eq_true hya)
    · have hle := List.pairwise_iff_getElem.1 hys i (i + j) hi
        (by rw [List.length_drop] at hj; omega) (by omega)
      exact hlt (hle.trans (of_decide_eq_true hya))
  have hfirst : (ys.take i).countP (· ≤ a) ≤ i :=
    List.countP_le_length.trans (List.length_take_le ..)
  rw [← List.take_append_drop i ys, List.countP_append, hrest] at h
  omega

/-- **More than half of the values bound the median.** -/
theorem upperMedian_le (h : xs.length / 2 < xs.countP (· ≤ a)) : upperMedian d xs ≤ a := by
  have hne : xs ≠ [] := by
    rintro rfl
    simp at h
  obtain ⟨hi, heq⟩ := upperMedian_eq (d := d) hne
  rw [heq]
  refine getElem_le_of_countP (pairwise_sorted xs) hi ?_
  rwa [(List.perm_insertionSort (· ≤ ·) xs).countP_eq]

end Median
