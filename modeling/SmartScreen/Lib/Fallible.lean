/-
  Computations in `Except` and in `Option`.
-/
import Mathlib.Data.List.Forall2
import Mathlib.Tactic

namespace Fallible

universe u v

variable {ε : Type u} {β γ : Type v}

theorem bind_eq_ok {x : Except ε β} {k : β → Except ε γ} {r : γ} :
    (x >>= k) = .ok r ↔ ∃ a, x = .ok a ∧ k a = .ok r := by
  cases x with
  | error e =>
    constructor
    · rintro ⟨⟩
    · rintro ⟨_, ⟨⟩, _⟩
  | ok a => exact ⟨fun h => ⟨a, rfl, h⟩, fun ⟨_, ha, h⟩ => by cases ha; exact h⟩

theorem bind_eq_error {x : Except ε β} {k : β → Except ε γ} {e : ε} :
    (x >>= k) = .error e ↔ x = .error e ∨ ∃ a, x = .ok a ∧ k a = .error e := by
  cases x with
  | error e' =>
    refine ⟨fun h => Or.inl ?_, ?_⟩
    · cases h; rfl
    · rintro (h | ⟨_, h, _⟩)
      · cases h; rfl
      · cases h
  | ok a =>
    refine ⟨fun h => Or.inr ⟨a, rfl, h⟩, ?_⟩
    rintro (h | ⟨_, ha, h⟩)
    · cases h
    · cases ha; exact h

/-- A check in front of a result. -/
theorem ite_eq_ok {p : Prop} [Decidable p] {a r : γ} {e : ε} :
    (if p then .ok a else .error e : Except ε γ) = .ok r ↔ p ∧ r = a := by
  by_cases hp : p
  · simp only [hp, if_true, true_and, Except.ok.injEq]
    exact eq_comm
  · simp only [hp, if_false, false_and, reduceCtorEq]

/-! ## Lists -/

/-- `mapM` succeeds iff every call does. -/
theorem mapM_eq_ok {f : β → Except ε γ} {xs : List β} {ys : List γ} :
    xs.mapM f = .ok ys ↔ List.Forall₂ (fun x y => f x = .ok y) xs ys := by
  induction xs generalizing ys with
  | nil =>
    rw [List.mapM_nil, List.forall₂_nil_left_iff]
    exact ⟨fun h => by cases h; rfl, fun h => by rw [h]; rfl⟩
  | cons x xs ih =>
    rw [List.mapM_cons, List.forall₂_cons_left_iff]
    simp only [bind_eq_ok, ih]
    constructor
    · rintro ⟨y, hy, zs, hzs, h⟩
      cases h
      exact ⟨y, zs, hy, hzs, rfl⟩
    · rintro ⟨y, zs, hy, hzs, rfl⟩
      exact ⟨y, hy, zs, hzs, rfl⟩

theorem mapM_isOk {f : β → Except ε γ} {xs : List β} (h : ∀ x ∈ xs, ∃ y, f x = .ok y) :
    ∃ ys, xs.mapM f = .ok ys := by
  induction xs with
  | nil => exact ⟨[], rfl⟩
  | cons x xs ih =>
    obtain ⟨y, hy⟩ := h x (.head _)
    obtain ⟨ys, hys⟩ := ih fun x hx => h x (.tail _ hx)
    exact ⟨y :: ys, mapM_eq_ok.2 (.cons hy (mapM_eq_ok.1 hys))⟩

/-- `mapM` has an answer iff every call has one. -/
theorem mapM_eq_some {f : β → Option γ} {xs : List β} {ys : List γ} :
    xs.mapM f = some ys ↔ List.Forall₂ (fun x y => f x = some y) xs ys := by
  induction xs generalizing ys with
  | nil =>
    rw [List.mapM_nil, List.forall₂_nil_left_iff]
    exact ⟨fun h => by cases h; rfl, fun h => by rw [h]; rfl⟩
  | cons x xs ih =>
    rw [List.mapM_cons, List.forall₂_cons_left_iff, Option.bind_eq_bind,
      Option.bind_eq_some_iff]
    simp only [Option.bind_eq_bind, Option.bind_eq_some_iff, ih]
    constructor
    · rintro ⟨y, hy, zs, hzs, h⟩
      cases h
      exact ⟨y, zs, hy, hzs, rfl⟩
    · rintro ⟨y, zs, hy, hzs, rfl⟩
      exact ⟨y, hy, zs, hzs, rfl⟩

theorem mapM_isSome {f : β → Option γ} {xs : List β} (h : ∀ x ∈ xs, ∃ y, f x = some y) :
    ∃ ys, xs.mapM f = some ys ∧ ys.length = xs.length := by
  induction xs with
  | nil => exact ⟨[], rfl, rfl⟩
  | cons x xs ih =>
    obtain ⟨y, hy⟩ := h x (.head _)
    obtain ⟨ys, hys, hlen⟩ := ih fun x hx => h x (.tail _ hx)
    refine ⟨y :: ys, mapM_eq_some.2 (.cons hy (mapM_eq_some.1 hys)), ?_⟩
    rw [List.length_cons, List.length_cons, hlen]

theorem mapM_eq_some_map {f : β → Option γ} {g : β → γ} {xs : List β}
    (h : ∀ x ∈ xs, f x = some (g x)) : xs.mapM f = some (xs.map g) := by
  rw [mapM_eq_some, List.forall₂_map_right_iff, List.forall₂_same]
  exact h

/-- A loop whose steps all have an answer. -/
theorem foldlM_eq_some {f : γ → β → Option γ} {g : γ → β → γ} {xs : List β}
    (h : ∀ x ∈ xs, ∀ y, f y x = some (g y x)) (y : γ) :
    xs.foldlM f y = some (xs.foldl g y) := by
  induction xs generalizing y with
  | nil => rfl
  | cons x xs ih =>
    rw [List.foldlM_cons, h x (.head _), List.foldl_cons]
    exact ih (fun x hx => h x (.tail _ hx)) (g y x)

/-- Each call of `mapM` has an answer. -/
theorem exists_of_mapM {f : β → Option γ} {xs : List β} {ys : List γ}
    (h : xs.mapM f = some ys) : ∀ x ∈ xs, ∃ y, f x = some y := by
  have hall := mapM_eq_some.1 h
  clear h
  induction hall with
  | nil =>
    intro x hx
    cases hx
  | cons hxy _ ih =>
    intro x hx
    rcases List.mem_cons.1 hx with rfl | hx
    · exact ⟨_, hxy⟩
    · exact ih x hx

theorem filterMap_of_mapM {f : β → Option γ} {xs : List β} {ys : List γ}
    (h : xs.mapM f = some ys) : xs.filterMap f = ys := by
  have hall := mapM_eq_some.1 h
  clear h
  induction hall with
  | nil => rfl
  | cons hxy _ ih => rw [List.filterMap_cons_some hxy, ih]

end Fallible
