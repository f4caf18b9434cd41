/-
  Files, their names, and what is read under a name.

  A file keeps its contents when its name changes, so a stream that is open goes on
  writing to a file that has been renamed, or whose name has been removed.
-/
import Mathlib.Tactic

namespace Files

variable {P ι : Type}

/-- Files with at most one name each; the numbers from `next` on are not in use. -/
structure FileSystem (P ι : Type) where
  names : P → Option ℕ
  contents : ℕ → List ι
  next : ℕ
  lt_next : ∀ p k, names p = some k → k < next
  injective : ∀ p q k, names p = some k → names q = some k → p = q

namespace FileSystem

section
variable (fs : FileSystem P ι)

def read (p : P) : Option (List ι) := (fs.names p).map fs.contents

/-- Write at the end of a file. -/
def append (k : ℕ) (xs : List ι) : FileSystem P ι :=
  { fs with contents := Function.update fs.contents k (fs.contents k ++ xs) }

variable [DecidableEq P]

/-- A new and empty file. -/
def create (p : P) : FileSystem P ι where
  names := Function.update fs.names p (some fs.next)
  contents := Function.update fs.contents fs.next []
  next := fs.next + 1
  lt_next := by
    intro q k hq
    by_cases hqp : q = p
    · rw [hqp, Function.update_self] at hq
      cases hq
      exact Nat.lt_succ_self _
    · rw [Function.update_of_ne hqp] at hq
      exact (fs.lt_next q k hq).trans (Nat.lt_succ_self _)
  injective := by
    have hnew : ∀ q, fs.names q ≠ some fs.next :=
      fun q hq => lt_irrefl _ (fs.lt_next q _ hq)
    intro q r k hq hr
    by_cases hqp : q = p <;> by_cases hrp : r = p
    · rw [hqp, hrp]
    · rw [hqp, Function.update_self] at hq
      rw [Function.update_of_ne hrp, ← hq] at hr
      exact absurd hr (hnew r)
    · rw [hrp, Function.update_self] at hr
      rw [Function.update_of_ne hqp, ← hr] at hq
      exact absurd hq (hnew q)
    · rw [Function.update_of_ne hqp] at hq
      rw [Function.update_of_ne hrp] at hr
      exact fs.injective q r k hq hr

/-- An empty file under the name: the one that is there, or a new one. -/
def truncate (p : P) : FileSystem P ι × ℕ :=
  match fs.names p with
  | some k => ({ fs with contents := Function.update fs.contents k [] }, k)
  | none => (fs.create p, fs.next)

/-- Remove a name. -/
def remove (p : P) : FileSystem P ι where
  names := Function.update fs.names p none
  contents := fs.contents
  next := fs.next
  lt_next := by
    intro q k hq
    by_cases hqp : q = p
    · rw [hqp, Function.update_self] at hq
      cases hq
    · rw [Function.update_of_ne hqp] at hq
      exact fs.lt_next q k hq
  injective := by
    intro q r k hq hr
    by_cases hqp : q = p
    · rw [hqp, Function.update_self] at hq
      cases hq
    by_cases hrp : r = p
    · rw [hrp, Function.update_self] at hr
      cases hr
    rw [Function.update_of_ne hqp] at hq
    rw [Function.update_of_ne hrp] at hr
    exact fs.injective q r k hq hr

/-- Give the file of the name `p` the name `q`; it replaces the file of that name.
    Without a file of the name `p` nothing happens. -/
def rename (p q : P) : FileSystem P ι where
  names := fun r =>
    if fs.names p = none then fs.names r
    else if r = q then fs.names p
    else if r = p then none
    else fs.names r
  contents := fs.contents
  next := fs.next
  lt_next := by
    intro r k hr
    split_ifs at hr
    · exact fs.lt_next r k hr
    · exact fs.lt_next p k hr
    · exact fs.lt_next r k hr
  injective := by
    intro r s k hr hs
    by_cases hp : fs.names p = none
    · rw [if_pos hp] at hr hs
      exact fs.injective r s k hr hs
    rw [if_neg hp] at hr hs
    by_cases hrq : r = q <;> by_cases hsq : s = q
    · rw [hrq, hsq]
    · rw [if_pos hrq] at hr
      rw [if_neg hsq] at hs
      split_ifs at hs with hsp
      exact absurd (fs.injective s p k hs hr) hsp
    · rw [if_neg hrq] at hr
      rw [if_pos hsq] at hs
      split_ifs at hr with hrp
      exact absurd (fs.injective r p k hr hs) hrp
    · rw [if_neg hrq] at hr
      rw [if_neg hsq] at hs
      split_ifs at hr hs
      exact fs.injective r s k hr hs

end

/-! ## What is read -/

section
variable {fs : FileSystem P ι} {p q : P} {k : ℕ} {xs : List ι}

theorem contents_append : (fs.append k xs).contents k = fs.contents k ++ xs :=
  Function.update_self ..

/-- Writing to one file leaves the others. -/
theorem read_append_of_ne (h : fs.names p ≠ some k) : (fs.append k xs).read p = fs.read p := by
  unfold read append
  dsimp only
  cases hp : fs.names p with
  | none => rfl
  | some l =>
    have hne : l ≠ k := by
      rintro rfl
      exact h hp
    exact congrArg some (Function.update_of_ne hne ..)

variable [DecidableEq P]

theorem names_truncate : (fs.truncate p).1.names p = some (fs.truncate p).2 := by
  unfold truncate
  split
  · assumption
  · exact Function.update_self ..

theorem contents_truncate : (fs.truncate p).1.contents (fs.truncate p).2 = [] := by
  unfold truncate
  split <;> exact Function.update_self ..

/-- Truncating one file leaves the others. -/
theorem read_truncate_of_ne (h : q ≠ p) : (fs.truncate p).1.read q = fs.read q := by
  unfold truncate read
  split
  · rename_i k hk
    dsimp only
    cases hq : fs.names q with
    | none => rfl
    | some l =>
      have hne : l ≠ k := by
        rintro rfl
        exact h (fs.injective q p l hq hk)
      exact congrArg some (Function.update_of_ne hne ..)
  · unfold create
    dsimp only
    rw [Function.update_of_ne h]
    cases hq : fs.names q with
    | none => rfl
    | some l => exact congrArg some (Function.update_of_ne (fs.lt_next q l hq).ne ..)

theorem read_remove : (fs.remove p).read p = none := by
  have hnames : (fs.remove p).names p = none := Function.update_self ..
  rw [read, hnames]
  rfl

theorem names_remove_of_ne (h : q ≠ p) : (fs.remove p).names q = fs.names q :=
  Function.update_of_ne h ..

theorem names_rename (h : fs.names p = some k) : (fs.rename p q).names q = some k := by
  unfold rename
  dsimp only
  rw [h, if_neg (Option.some_ne_none k), if_pos rfl]

end

end FileSystem

end Files
