/-
  Logs with several authors.

  An entry is a value with its author.  `of l c` is what `c` wrote, `values l`
  everything that was written, both in the order of the log.
-/
import Mathlib.Tactic

namespace Log

variable {κ α : Type*}

/-- The entries of one author. -/
def entries (c : κ) (xs : List α) : List (κ × α) := xs.map (c, ·)

theorem mem_entries {c : κ} {xs : List α} {y : κ × α} :
    y ∈ entries c xs ↔ ∃ x ∈ xs, (c, x) = y :=
  List.mem_map

def values (l : List (κ × α)) : List α := l.map Prod.snd

@[simp] theorem values_append_entries (l : List (κ × α)) (c : κ) (xs : List α) :
    values (l ++ entries c xs) = values l ++ xs := by
  simp [values, entries]

theorem length_append_entries (l : List (κ × α)) (c : κ) (xs : List α) :
    (l ++ entries c xs).length = l.length + xs.length := by
  simp [entries]

variable [DecidableEq κ]

def of (l : List (κ × α)) (c : κ) : List α := (l.filter (·.1 = c)).map Prod.snd

@[simp] theorem of_append_entries (l : List (κ × α)) (c : κ) (xs : List α) :
    of (l ++ entries c xs) c = of l c ++ xs := by
  simp [of, entries, List.filter_map, Function.comp_def]

theorem of_append_entries_of_ne (l : List (κ × α)) {c c' : κ} (h : c' ≠ c) (xs : List α) :
    of (l ++ entries c xs) c' = of l c' := by
  simp [of, entries, List.filter_map, Function.comp_def, Ne.symm h]

end Log
