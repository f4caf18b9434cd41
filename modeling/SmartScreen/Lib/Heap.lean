/-
  Binary heaps in a vector, with the largest key in front.

  * `IsHeap` is the order of such a heap, `IsHeap.le_front` what it is for.
  * `StdHeap` is any implementation of the heap functions of `std`: what they promise
    is the order and the elements, not their places.
-/
import Mathlib.Data.List.Sort
import Mathlib.Tactic

namespace Heap

variable {ε β : Type*} [LinearOrder β] {key : ε → β}

/-- No key is larger than that of the parent. -/
def IsHeap (key : ε → β) (xs : List ε) : Prop :=
  ∀ i x y, 0 < i → xs[i]? = some x → xs[(i - 1) / 2]? = some y → key x ≤ key y

theorem isHeap_singleton (x : ε) : IsHeap key [x] := by
  intro i y z hi hy
  obtain ⟨n, rfl⟩ : ∃ n, i = n + 1 := ⟨i - 1, by omega⟩
  cases hy

/-- **The front is the largest.** -/
theorem IsHeap.le_front {x : ε} {xs : List ε} (h : IsHeap key (x :: xs)) :
    ∀ y ∈ x :: xs, key y ≤ key x := by
  have hall : ∀ (i : ℕ) y, (x :: xs)[i]? = some y → key y ≤ key x := by
    intro i
    induction i using Nat.strongRecOn with
    | ind i ih =>
      intro y hy
      rcases Nat.eq_zero_or_pos i with rfl | hi
      · cases hy
        exact le_rfl
      · -- the parent is there, and it is not larger than the front
        have hlt : (i - 1) / 2 < i := by omega
        have hlen := (List.getElem?_eq_some_iff.1 hy).1
        have hparent := List.getElem?_eq_getElem (hlt.trans hlen)
        exact (h i y _ hi hy hparent).trans (ih _ hlt _ hparent)
  intro y hy
  obtain ⟨i, hi⟩ := List.mem_iff_getElem?.1 hy
  exact hall i y hi

/-- A list whose keys descend is a heap. -/
theorem isHeap_of_pairwise {xs : List ε} (h : xs.Pairwise fun x y => key y ≤ key x) :
    IsHeap key xs := by
  intro i x y hi hx hy
  obtain ⟨hlt, rfl⟩ := List.getElem?_eq_some_iff.1 hx
  obtain ⟨hlt', rfl⟩ := List.getElem?_eq_some_iff.1 hy
  exact List.pairwise_iff_getElem.1 h _ _ hlt' hlt (by omega)

/-- `std::push_heap` moves the last element into the heap of the others,
    `std::pop_heap` moves the front to the back and makes a heap of the rest, and
    `std::sort_heap` sorts a heap. -/
structure StdHeap (key : ε → β) where
  pushHeap : List ε → List ε
  popHeap : List ε → List ε
  sortHeap : List ε → List ε
  pushHeap_perm : ∀ xs, (pushHeap xs).Perm xs
  isHeap_pushHeap : ∀ xs x, IsHeap key xs → IsHeap key (pushHeap (xs ++ [x]))
  popHeap_cons : ∀ x xs, IsHeap key (x :: xs) →
    ∃ ys, popHeap (x :: xs) = ys ++ [x] ∧ ys.Perm xs ∧ IsHeap key ys
  sortHeap_perm : ∀ xs, (sortHeap xs).Perm xs
  pairwise_sortHeap : ∀ xs, IsHeap key xs → (sortHeap xs).Pairwise fun x y => key x ≤ key y

theorem pairwise_insertionSort_desc (xs : List ε) :
    (xs.insertionSort fun x y => key y ≤ key x).Pairwise fun x y => key y ≤ key x := by
  have : Std.Total fun x y : ε => key y ≤ key x := ⟨fun x y => le_total (key y) (key x)⟩
  have : IsTrans ε fun x y => key y ≤ key x := ⟨fun _ _ _ h h' => h'.trans h⟩
  exact List.pairwise_insertionSort _ _

theorem pairwise_insertionSort_asc (xs : List ε) :
    (xs.insertionSort fun x y => key x ≤ key y).Pairwise fun x y => key x ≤ key y := by
  have : Std.Total fun x y : ε => key x ≤ key y := ⟨fun x y => le_total (key x) (key y)⟩
  have : IsTrans ε fun x y => key x ≤ key y := ⟨fun _ _ _ h h' => h.trans h'⟩
  exact List.pairwise_insertionSort _ _

/-- Keep the elements sorted. -/
def sorting (key : ε → β) : StdHeap key where
  pushHeap xs := xs.insertionSort fun x y => key y ≤ key x
  popHeap
    | [] => []
    | x :: xs => xs.insertionSort (fun x y => key y ≤ key x) ++ [x]
  sortHeap xs := xs.insertionSort fun x y => key x ≤ key y
  pushHeap_perm xs := List.perm_insertionSort _ xs
  isHeap_pushHeap _ _ _ := isHeap_of_pairwise (pairwise_insertionSort_desc _)
  popHeap_cons _ xs _ :=
    ⟨_, rfl, List.perm_insertionSort _ xs, isHeap_of_pairwise (pairwise_insertionSort_desc _)⟩
  sortHeap_perm xs := List.perm_insertionSort _ xs
  pairwise_sortHeap _ _ := pairwise_insertionSort_asc _

end Heap
