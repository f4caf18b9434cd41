/-
  Slices of a list and windows that move over it.

  `slice l a b` is `l[a, b)`.  A `Window l` is a pair of bounds inside `l`; what
  it shows (`data`) is a slice and what lies behind it (`rest`) a suffix.  A
  window is `extend`ed at its end and `trim`med at its front, and a read inside
  it is a slice of the whole list (`read_data`).
-/
import Mathlib.Tactic

namespace Window

variable {α : Type*}

/-! ## Slices -/

/-- The elements `a, …, b - 1` of `l`. -/
def slice (l : List α) (a b : ℕ) : List α := (l.drop a).take (b - a)

theorem length_slice (l : List α) (a b : ℕ) : (slice l a b).length = min b l.length - a := by
  simp only [slice, List.length_take, List.length_drop]; omega

theorem length_slice_of_le {l : List α} {a b : ℕ} (h : b ≤ l.length) :
    (slice l a b).length = b - a := by
  rw [length_slice, min_eq_left h]

@[simp] theorem slice_self (l : List α) (a : ℕ) : slice l a a = [] := by simp [slice]

theorem slice_append {l : List α} {a b c : ℕ} (h : a ≤ b) (h' : b ≤ c) :
    slice l a b ++ slice l b c = slice l a c := by
  have hc : c - a = (b - a) + (c - b) := by omega
  have hb : l.drop b = (l.drop a).drop (b - a) := by rw [List.drop_drop]; congr 1; omega
  rw [slice, slice, slice, hc, List.take_add, hb]

theorem slice_append_take (l : List α) {a b : ℕ} (h : a ≤ b) (n : ℕ) :
    slice l a b ++ (l.drop b).take n = slice l a (b + n) := by
  rw [← slice_append h (Nat.le_add_right b n)]
  simp [slice]

theorem drop_slice (l : List α) (a b k : ℕ) : (slice l a b).drop k = slice l (a + k) b := by
  rw [slice, slice, List.drop_take, List.drop_drop]
  congr 1; omega

theorem take_slice (l : List α) {a b k : ℕ} (h : a + k ≤ b) :
    (slice l a b).take k = slice l a (a + k) := by
  rw [slice, slice, List.take_take]
  congr 1; omega

theorem slice_min_length (l : List α) (a b : ℕ) : slice l a (min b l.length) = slice l a b := by
  rcases le_total b l.length with h | h
  · rw [min_eq_left h]
  · rw [min_eq_right h, slice, slice, List.take_of_length_le, List.take_of_length_le] <;>
      simp only [List.length_drop] <;> omega

end Window

/-! ## Windows -/

/-- Bounds of a slice inside `l`. -/
@[ext] structure Window {α : Type*} (l : List α) where
  lo : ℕ
  hi : ℕ
  lo_le : lo ≤ hi
  hi_le : hi ≤ l.length

namespace Window

variable {α : Type*} {l : List α}

/-- The empty window at the front of the list. -/
def start (l : List α) : Window l := ⟨0, 0, le_rfl, Nat.zero_le _⟩

/-- What the window shows. -/
def data (w : Window l) : List α := slice l w.lo w.hi

/-- What lies behind the window. -/
def rest (w : Window l) : List α := l.drop w.hi

/-- Move the end of the window by `n` elements, at most to the end of the list. -/
def extend (w : Window l) (n : ℕ) : Window l :=
  ⟨w.lo, min (w.hi + n) l.length, le_min (w.lo_le.trans (Nat.le_add_right _ _))
    (w.lo_le.trans w.hi_le), min_le_right _ _⟩

/-- Give up the first `k` elements of the window. -/
def trim (w : Window l) (k : ℕ) (h : k ≤ w.hi - w.lo) : Window l :=
  ⟨w.lo + k, w.hi, by have := w.lo_le; omega, w.hi_le⟩

@[simp] theorem length_data (w : Window l) : w.data.length = w.hi - w.lo :=
  length_slice_of_le w.hi_le

@[simp] theorem data_start (l : List α) : (start l).data = [] := slice_self l 0
@[simp] theorem rest_start (l : List α) : (start l).rest = l := rfl

@[simp] theorem lo_extend (w : Window l) (n : ℕ) : (w.extend n).lo = w.lo := rfl
@[simp] theorem hi_extend (w : Window l) (n : ℕ) :
    (w.extend n).hi = min (w.hi + n) l.length := rfl

theorem data_extend (w : Window l) (n : ℕ) : w.data ++ w.rest.take n = (w.extend n).data := by
  rw [data, rest, slice_append_take l w.lo_le, data, hi_extend, lo_extend, slice_min_length]

theorem rest_extend (w : Window l) (n : ℕ) : w.rest.drop n = (w.extend n).rest := by
  rw [rest, List.drop_drop, rest, hi_extend]
  rcases le_total (w.hi + n) l.length with h | h
  · rw [min_eq_left h]
  · rw [min_eq_right h, List.drop_length, List.drop_eq_nil_of_le h]

theorem data_trim (w : Window l) (k : ℕ) (h : k ≤ w.hi - w.lo) :
    (w.trim k h).data = w.data.drop k := by
  rw [data, data, drop_slice]; rfl

/-- **A read inside a window is a slice of the list.** -/
theorem read_data (w : Window l) {a n : ℕ} (ha : w.lo ≤ a) (hn : a + n ≤ w.hi) :
    (w.data.drop (a - w.lo)).take n = slice l a (a + n) := by
  rw [data, drop_slice, Nat.add_sub_cancel' ha, take_slice l hn]

end Window
