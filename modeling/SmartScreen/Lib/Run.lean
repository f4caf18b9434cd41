/-
  Runs of a transition relation.

  `Run step s tr t`: from `s` the system takes the steps `tr`, each recorded
  with the states before and after it, and is then in `t`.  An invariant is
  proved once per step (`Run.inv`, `Reach.inv`); where a step keeps a property
  exactly under a condition on the state before it, a run keeps the property in
  all its states iff all its steps meet the condition (`Run.forall_iff`).  What an
  event decides for the rest of a run is `Run.decided_iff`; `Run.along_iff` is for
  properties that look back at the steps before.
-/
import Mathlib.Tactic

namespace LTS

variable {σ α : Type*} {step : σ → α → σ → Prop}

/-- A run from `s` to `t` with the steps `tr`: state before, action, state after. -/
inductive Run (step : σ → α → σ → Prop) (s : σ) : List (σ × α × σ) → σ → Prop
  | nil : Run step s [] s
  | snoc {tr : List (σ × α × σ)} {t t' : σ} {a : α} :
      Run step s tr t → step t a t' → Run step s (tr ++ [(t, a, t')]) t'

/-- `t` is reached from `s` by some run. -/
def Reach (step : σ → α → σ → Prop) (s t : σ) : Prop := ∃ tr, Run step s tr t

theorem Reach.refl (s : σ) : Reach step s s := ⟨[], .nil⟩

theorem Reach.next {s t t' : σ} {a : α} (h : Reach step s t) (ha : step t a t') :
    Reach step s t' := by
  obtain ⟨tr, h⟩ := h
  exact ⟨_, h.snoc ha⟩

theorem Run.cons {s s' t : σ} {a : α} {tr : List (σ × α × σ)} (ha : step s a s')
    (h : Run step s' tr t) : Run step s ((s, a, s') :: tr) t := by
  induction h with
  | nil => exact Run.nil.snoc ha
  | snoc _ hb ih => exact ih.snoc hb

/-- One run after another. -/
theorem Run.append {s t u : σ} {tr tr' : List (σ × α × σ)} (h : Run step s tr t)
    (h' : Run step t tr' u) : Run step s (tr ++ tr') u := by
  induction h' with
  | nil => rwa [List.append_nil]
  | snoc _ ha ih =>
    rw [← List.append_assoc]
    exact ih.snoc ha

/-- The entries of a run are steps. -/
theorem Run.step_of_mem {s t : σ} {tr : List (σ × α × σ)} (h : Run step s tr t) :
    ∀ x ∈ tr, step x.1 x.2.1 x.2.2 := by
  induction h with
  | nil => simp
  | snoc _ ha ih =>
    intro x hx
    rcases List.mem_append.1 hx with hx | hx
    · exact ih x hx
    · rw [List.mem_singleton] at hx; subst hx; exact ha

/-- Every step of a run starts and ends in a reached state. -/
theorem Run.reach_of_mem {s t : σ} {tr : List (σ × α × σ)} (h : Run step s tr t) :
    ∀ x ∈ tr, Reach step s x.1 ∧ Reach step s x.2.2 := by
  induction h with
  | nil => simp
  | snoc hr ha ih =>
    intro x hx
    rcases List.mem_append.1 hx with hx | hx
    · exact ih x hx
    · rw [List.mem_singleton] at hx; subst hx
      exact ⟨⟨_, hr⟩, ⟨_, hr.snoc ha⟩⟩

/-- A run whose steps are also steps of another relation. -/
theorem Run.mono {step' : σ → α → σ → Prop} {s t : σ} {tr : List (σ × α × σ)}
    (h : Run step s tr t)
    (hstep : ∀ x ∈ tr, step x.1 x.2.1 x.2.2 → step' x.1 x.2.1 x.2.2) : Run step' s tr t := by
  induction h with
  | nil => exact .nil
  | @snoc tr t t' a _ ha ih =>
    exact (ih fun x hx => hstep x (by simp [hx])).snoc (hstep (t, a, t') (by simp) ha)

/-- **Invariants.**  What holds at the start and is kept by every step of the
    run holds at its end. -/
theorem Run.inv {I : σ → Prop} {s t : σ} {tr : List (σ × α × σ)} (h : Run step s tr t) (h₀ : I s)
    (hI : ∀ x ∈ tr, step x.1 x.2.1 x.2.2 → I x.1 → I x.2.2) : I t := by
  induction h with
  | nil => exact h₀
  | @snoc tr t t' a _ ha ih =>
    exact hI (t, a, t') (by simp) ha (ih fun x hx => hI x (by simp [hx]))

/-- A run in which every step lowers a rank is no longer than the rank. -/
theorem Run.length_add_le {J : ℕ → σ → Prop} {s t : σ} {tr : List (σ × α × σ)} {n : ℕ}
    (h : Run step s tr t) (h₀ : J n s)
    (hJ : ∀ x ∈ tr, step x.1 x.2.1 x.2.2 → ∀ k, J k x.1 → ∃ k' < k, J k' x.2.2) :
    ∃ k, J k t ∧ tr.length + k ≤ n := by
  induction h with
  | nil => exact ⟨n, h₀, by simp⟩
  | @snoc tr t t' a _ ha ih =>
    obtain ⟨k, hk, hle⟩ := ih fun x hx => hJ x (by simp [hx])
    obtain ⟨k', hlt, hk'⟩ := hJ (t, a, t') (by simp) ha k hk
    refine ⟨k', hk', ?_⟩
    rw [List.length_append, List.length_singleton]
    omega

theorem Reach.inv {I : σ → Prop} {s t : σ} (h : Reach step s t) (h₀ : I s)
    (hI : ∀ s a s', step s a s' → I s → I s') : I t := by
  obtain ⟨tr, h⟩ := h
  exact h.inv h₀ fun x _ hx => hI _ _ _ hx

/-- **Exact conditions.**  Let `J` be an invariant and let a step from a state
    of `P` lead to a state of `P` exactly under `C`.  Then all states of a run
    satisfy `P` iff all its steps meet `C`. -/
theorem Run.forall_iff {J P : σ → Prop} {C : σ → α → Prop} {s t : σ} {tr : List (σ × α × σ)}
    (h : Run step s tr t) (hJ₀ : J s) (hP₀ : P s)
    (hJ : ∀ s a s', step s a s' → J s → J s')
    (hP : ∀ s a s', step s a s' → J s → P s → (P s' ↔ C s a)) :
    (∀ x ∈ tr, P x.2.2) ↔ ∀ x ∈ tr, C x.1 x.2.1 := by
  suffices H : J t ∧ ((∀ x ∈ tr, P x.2.2) ↔ ∀ x ∈ tr, C x.1 x.2.1) ∧
      ((∀ x ∈ tr, P x.2.2) → P t) from H.2.1
  induction h with
  | nil => exact ⟨hJ₀, by simp, fun _ => hP₀⟩
  | @snoc tr t t' a _ ha ih =>
    obtain ⟨hJt, hiff, hlast⟩ := ih
    refine ⟨hJ _ _ _ ha hJt, ?_, fun h => h (t, a, t') (by simp)⟩
    simp only [List.mem_append, List.mem_singleton, or_imp, forall_and, forall_eq]
    constructor
    · rintro ⟨h₁, h₂⟩
      exact ⟨hiff.1 h₁, (hP _ _ _ ha hJt (hlast h₁)).1 h₂⟩
    · rintro ⟨h₁, h₂⟩
      have h₁ := hiff.2 h₁
      exact ⟨h₁, (hP _ _ _ ha hJt (hlast h₁)).2 h₂⟩

/-- **What an event decides.**  Let `D` hold once an event of `E` has come, and let
    `Q` be kept both ways by that event and by all later steps.  Then the events of
    a run come in states of `Q` iff `Q` holds at its end, should one have come. -/
theorem Run.decided_iff {J D Q : σ → Prop} {E : α → Prop} {s t : σ} {tr : List (σ × α × σ)}
    (h : Run step s tr t) (hJ₀ : J s) (hD₀ : ¬ D s)
    (hJ : ∀ s a s', step s a s' → J s → J s')
    (hE : ∀ s a s', step s a s' → J s → E a → ¬ D s ∧ D s')
    (hD : ∀ s a s', step s a s' → J s → ¬ E a → (D s' ↔ D s))
    (hQ : ∀ s a s', step s a s' → J s → D s' → (Q s' ↔ Q s)) :
    (∀ x ∈ tr, E x.2.1 → Q x.1) ↔ (D t → Q t) := by
  suffices H : J t ∧ ((∀ x ∈ tr, E x.2.1 → Q x.1) ↔ (D t → Q t)) from H.2
  induction h with
  | nil => exact ⟨hJ₀, by simp [hD₀]⟩
  | @snoc tr t t' a _ ha ih =>
    obtain ⟨hJt, hiff⟩ := ih
    refine ⟨hJ _ _ _ ha hJt, ?_⟩
    simp only [List.mem_append, List.mem_singleton, or_imp, forall_and, forall_eq]
    rw [hiff]
    by_cases hEa : E a
    · obtain ⟨hDt, hDt'⟩ := hE _ _ _ ha hJt hEa
      rw [hQ _ _ _ ha hJt hDt']
      constructor
      · rintro ⟨-, hQt⟩ -
        exact hQt hEa
      · intro hQt
        exact ⟨fun hDt'' => absurd hDt'' hDt, fun _ => hQt hDt'⟩
    · rw [hD _ _ _ ha hJt hEa]
      constructor
      · rintro ⟨hQt, -⟩ hDt
        exact (hQ _ _ _ ha hJt ((hD _ _ _ ha hJt hEa).2 hDt)).2 (hQt hDt)
      · intro hQt'
        refine ⟨fun hDt => ?_, fun hEa' => absurd hEa' hEa⟩
        exact (hQ _ _ _ ha hJt ((hD _ _ _ ha hJt hEa).2 hDt)).1 (hQt' hDt)

/-! ## Steps and what came before them -/

section
variable {P C : List (σ × α × σ) → σ × α × σ → Prop} {tr : List (σ × α × σ)} {x : σ × α × σ}

/-- Each entry of `tr`, together with those before it, satisfies `P`. -/
def Along (P : List (σ × α × σ) → σ × α × σ → Prop) (tr : List (σ × α × σ)) : Prop :=
  ∀ tr₁ x tr₂, tr = tr₁ ++ x :: tr₂ → P tr₁ x

theorem along_nil : Along P [] := by
  intro tr₁ x tr₂ h
  cases tr₁ <;> cases h

theorem along_snoc : Along P (tr ++ [x]) ↔ Along P tr ∧ P tr x := by
  constructor
  · intro h
    constructor
    · rintro tr₁ y tr₂ rfl
      exact h tr₁ y (tr₂ ++ [x]) (by simp)
    · exact h tr x [] rfl
  · rintro ⟨htr, hx⟩ tr₁ y tr₂ heq
    rcases List.eq_nil_or_concat tr₂ with rfl | ⟨tr₃, z, rfl⟩
    · obtain ⟨rfl, hxy⟩ := List.append_inj' heq rfl
      cases hxy
      exact hx
    · rw [List.concat_eq_append, ← List.cons_append, ← List.append_assoc] at heq
      obtain ⟨rfl, -⟩ := List.append_inj' heq rfl
      exact htr tr₁ y tr₃ rfl

/-- **Exact conditions that look back.**  Let `J` be an invariant of the steps so far
    that is kept under `C`, and let `P` hold of a step from a state of `J` exactly
    under `C`.  Then `P` holds along a run iff `C` does. -/
theorem Run.along_iff {J : List (σ × α × σ) → σ → Prop} {s t : σ} (h : Run step s tr t)
    (hJ₀ : J [] s)
    (hP : ∀ tr s a s', step s a s' → J tr s → (P tr (s, a, s') ↔ C tr (s, a, s')))
    (hJ : ∀ tr s a s', step s a s' → J tr s → C tr (s, a, s') → J (tr ++ [(s, a, s')]) s') :
    Along P tr ↔ Along C tr := by
  suffices H : (Along P tr ↔ Along C tr) ∧ (Along C tr → J tr t) from H.1
  induction h with
  | nil => exact ⟨iff_of_true along_nil along_nil, fun _ => hJ₀⟩
  | @snoc tr t t' a _ ha ih =>
    obtain ⟨hiff, hlast⟩ := ih
    rw [along_snoc, along_snoc]
    constructor
    · constructor
      · rintro ⟨htr, hx⟩
        have htr := hiff.1 htr
        exact ⟨htr, (hP _ _ _ _ ha (hlast htr)).1 hx⟩
      · rintro ⟨htr, hx⟩
        exact ⟨hiff.2 htr, (hP _ _ _ _ ha (hlast htr)).2 hx⟩
    · rintro ⟨htr, hx⟩
      exact hJ _ _ _ _ ha (hlast htr) hx

end

/-! ## Step functions -/

/-- The steps of `f` along a list of actions, up to one that is not possible. -/
def trace (f : σ → α → Option σ) (s : σ) : List α → List (σ × α × σ)
  | [] => []
  | a :: as =>
    match f s a with
    | some s' => (s, a, s') :: trace f s' as
    | none => []

theorem Run.trace {f : σ → α → Option σ} {s t : σ} {as : List α} (h : as.foldlM f s = some t) :
    Run (fun s a s' => f s a = some s') s (trace f s as) t := by
  induction as generalizing s with
  | nil => cases h; exact .nil
  | cons a as ih =>
    rw [List.foldlM_cons] at h
    obtain ⟨s', ha, h⟩ := Option.bind_eq_some_iff.1 h
    simp only [LTS.trace, ha]
    exact .cons ha (ih h)

theorem action_mem_of_mem_trace {f : σ → α → Option σ} {s : σ} {as : List α} {x : σ × α × σ}
    (h : x ∈ trace f s as) : x.2.1 ∈ as := by
  induction as generalizing s with
  | nil => cases h
  | cons a as ih =>
    rw [LTS.trace] at h
    split at h
    · rcases List.mem_cons.1 h with rfl | h
      · exact .head _
      · exact .tail _ (ih h)
    · cases h

end LTS
