/-
  Loops whose body may fail or read on forever.

  `Res ε σ β` is what a piece of code leaves when it is run on a state: a value
  with the state at its end, a fault with the state in which it struck, or
  nothing yet (`timeout`) because the rounds it was given did not suffice.  A
  piece of code is a function of the number of rounds; it is `Steady` if more
  rounds never change what it left.  `Returns p s b` says that it answers and
  `Faults p e s` that it leaves with a fault.

  * `whileTrue f` calls `f` until it answers `false`, `forEach f` calls `f` on
    every element of a vector and collects whether some call answered `true`;
  * `Heads f s` are the states in which a `whileTrue` calls `f`;
  * `Returns.of_whileTrue` says how a `whileTrue` ends, `ends_whileTrue` that it does
    when a rank decreases, and `returns_forEach` characterises `forEach`.
-/
import Mathlib.Data.List.Forall2
import Mathlib.Tactic

namespace Loop

variable {ε σ τ β γ : Type*}

/-! ## Results -/

/-- The result of a piece of code on a state. -/
inductive Res (ε σ β : Type*) where
  | ok (s : σ) (b : β)
  | fault (e : ε) (s : σ)
  | timeout

namespace Res

/-- Run `k` on the value and the state that `r` ends in. -/
def bind : Res ε σ β → (σ → β → Res ε σ γ) → Res ε σ γ
  | ok s b, k => k s b
  | fault e s, _ => fault e s
  | timeout, _ => timeout

/-- The same result, seen in a larger state. -/
def lift (f : σ → τ) : Res ε σ β → Res ε τ β
  | ok s b => ok (f s) b
  | fault e s => fault e (f s)
  | timeout => timeout

/-- The state in which a piece of code has answered. -/
def state? : Res ε σ β → Option σ
  | ok s _ => some s
  | _ => none

@[simp] theorem bind_ok (s : σ) (b : β) (k : σ → β → Res ε σ γ) : (ok s b).bind k = k s b := rfl
@[simp] theorem bind_fault (e : ε) (s : σ) (k : σ → β → Res ε σ γ) :
    (fault e s : Res ε σ β).bind k = fault e s := rfl
@[simp] theorem bind_timeout (k : σ → β → Res ε σ γ) :
    (timeout : Res ε σ β).bind k = timeout := rfl

@[simp] theorem lift_ok (f : σ → τ) (s : σ) (b : β) : (ok s b : Res ε σ β).lift f = ok (f s) b :=
  rfl

theorem bind_eq_ok {r : Res ε σ β} {k : σ → β → Res ε σ γ} {s : σ} {c : γ} :
    r.bind k = ok s c ↔ ∃ s' b, r = ok s' b ∧ k s' b = ok s c := by
  cases r <;> simp [bind]

theorem bind_eq_fault {r : Res ε σ β} {k : σ → β → Res ε σ γ} {e : ε} {s : σ} :
    r.bind k = fault e s ↔ r = fault e s ∨ ∃ s' b, r = ok s' b ∧ k s' b = fault e s := by
  cases r <;> simp [bind]

theorem bind_ne_timeout {r : Res ε σ β} {k : σ → β → Res ε σ γ} (h : r.bind k ≠ timeout) :
    r ≠ timeout := by
  rintro rfl; exact h rfl

theorem lift_eq_ok {f : σ → τ} {r : Res ε σ β} {t : τ} {b : β} :
    r.lift f = ok t b ↔ ∃ s, r = ok s b ∧ f s = t := by
  cases r <;> simp [lift, and_comm]

theorem lift_eq_fault {f : σ → τ} {r : Res ε σ β} {e : ε} {t : τ} :
    r.lift f = fault e t ↔ ∃ s, r = fault e s ∧ f s = t := by
  cases r <;> simp [lift, and_comm]

theorem exists_of_state? {r : Res ε σ β} {f : σ → γ} {c : γ} (h : r.state?.map f = some c) :
    ∃ s b, r = ok s b ∧ f s = c := by
  obtain ⟨s, hs, hc⟩ := Option.map_eq_some_iff.1 h
  cases r with
  | ok s' b => cases hs; exact ⟨s, b, rfl, hc⟩
  | _ => cases hs

theorem lift_ne_timeout {f : σ → τ} {r : Res ε σ β} : r.lift f ≠ timeout ↔ r ≠ timeout := by
  cases r <;> simp [lift]

end Res

open Res

/-! ## Answers -/

/-- More rounds never change what is left. -/
def Steady (p : ℕ → Res ε σ β) : Prop :=
  ∀ ⦃n m⦄, n ≤ m → p n ≠ .timeout → p m = p n

/-- Given enough rounds, `p` ends in `s` with the value `b`. -/
def Returns (p : ℕ → Res ε σ β) (s : σ) (b : β) : Prop := ∃ n, p n = .ok s b

/-- Given enough rounds, `p` leaves with the fault `e` in `s`. -/
def Faults (p : ℕ → Res ε σ β) (e : ε) (s : σ) : Prop := ∃ n, p n = .fault e s

/-- Given enough rounds, `p` answers, or it leaves with a fault of `E`. -/
def Ends (p : ℕ → Res ε σ β) (E : ε → Prop) : Prop :=
  (∃ s b, Returns p s b) ∨ ∃ e s, Faults p e s ∧ E e

theorem Steady.const (r : Res ε σ β) : Steady fun _ => r := fun _ _ _ _ => rfl

theorem Steady.bind {p : ℕ → Res ε σ β} {k : ℕ → σ → β → Res ε σ γ} (hp : Steady p)
    (hk : ∀ s b, Steady fun n => k n s b) : Steady fun n => (p n).bind (k n) := by
  intro n m hnm h
  have hpm := hp hnm (bind_ne_timeout h)
  simp only [hpm]
  cases hpn : p n with
  | ok s b => simp only [hpn, bind_ok] at h ⊢; exact hk s b hnm h
  | fault | timeout => rfl

theorem Steady.lift {p : ℕ → Res ε σ β} (f : σ → τ) (hp : Steady p) :
    Steady fun n => (p n).lift f := by
  intro n m hnm h
  have hm : p m = p n := hp hnm (lift_ne_timeout.1 h)
  simp only [hm]

/-- A steady piece of code has one answer. -/
theorem Returns.unique {p : ℕ → Res ε σ β} (hp : Steady p) {s s' : σ} {b b' : β}
    (h : Returns p s b) (h' : Returns p s' b') : s = s' ∧ b = b' := by
  obtain ⟨n, hn⟩ := h
  obtain ⟨m, hm⟩ := h'
  have h₁ := hp (le_max_left n m) (by simp [hn])
  have h₂ := hp (le_max_right n m) (by simp [hm])
  rw [h₁, hn, hm] at h₂
  simpa using h₂

/-- It leaves with one fault, in one state. -/
theorem Faults.unique {p : ℕ → Res ε σ β} (hp : Steady p) {s s' : σ} {e e' : ε}
    (h : Faults p e s) (h' : Faults p e' s') : e = e' ∧ s = s' := by
  obtain ⟨n, hn⟩ := h
  obtain ⟨m, hm⟩ := h'
  have h₁ := hp (le_max_left n m) (by simp [hn])
  have h₂ := hp (le_max_right n m) (by simp [hm])
  rw [h₁, hn, hm] at h₂
  simpa using h₂

/-- A steady piece of code that faults does not answer. -/
theorem Faults.not_returns {p : ℕ → Res ε σ β} (hp : Steady p) {s s' : σ} {b : β} {e : ε}
    (h : Faults p e s) : ¬ Returns p s' b := by
  obtain ⟨n, hn⟩ := h
  rintro ⟨m, hm⟩
  have h₁ := hp (le_max_left n m) (by simp [hn])
  have h₂ := hp (le_max_right n m) (by simp [hm])
  rw [h₁, hn, hm] at h₂
  cases h₂

theorem returns_const {r : Res ε σ β} {s : σ} {b : β} :
    Returns (fun _ => r) s b ↔ r = .ok s b := by
  simp [Returns]

/-- One computation after the other: enough rounds for both. -/
theorem Steady.bind_max {p : ℕ → Res ε σ β} {k : ℕ → σ → β → Res ε σ γ} {s : σ} {b : β}
    (hp : Steady p) (hk : Steady fun n => k n s b) {n m : ℕ} (hn : p n = .ok s b)
    (hm : k m s b ≠ .timeout) : (p (max n m)).bind (k (max n m)) = k m s b := by
  have h₁ : p (max n m) = .ok s b := (hp (le_max_left n m) (by simp [hn])).trans hn
  have h₂ : k (max n m) s b = k m s b := hk (le_max_right n m) hm
  rw [h₁, bind_ok, h₂]

theorem Returns.bind {p : ℕ → Res ε σ β} {k : ℕ → σ → β → Res ε σ γ} (hp : Steady p)
    {s s' : σ} {b : β} {c : γ} (hk : Steady fun n => k n s b) (h : Returns p s b)
    (h' : Returns (fun n => k n s b) s' c) : Returns (fun n => (p n).bind (k n)) s' c := by
  obtain ⟨n, hn⟩ := h
  obtain ⟨m, hm⟩ := h'
  exact ⟨max n m, (hp.bind_max hk hn (by simp [hm])).trans hm⟩

theorem Returns.of_bind {p : ℕ → Res ε σ β} {k : ℕ → σ → β → Res ε σ γ} {s' : σ} {c : γ}
    (h : Returns (fun n => (p n).bind (k n)) s' c) :
    ∃ s b, Returns p s b ∧ Returns (fun n => k n s b) s' c := by
  obtain ⟨n, hn⟩ := h
  obtain ⟨s, b, h₁, h₂⟩ := bind_eq_ok.1 hn
  exact ⟨s, b, ⟨n, h₁⟩, ⟨n, h₂⟩⟩

theorem returns_lift {p : ℕ → Res ε σ β} {f : σ → τ} {t : τ} {b : β} :
    Returns (fun n => (p n).lift f) t b ↔ ∃ s, Returns p s b ∧ f s = t := by
  simp only [Returns, lift_eq_ok]
  exact ⟨fun ⟨n, s, h, h'⟩ => ⟨s, ⟨n, h⟩, h'⟩, fun ⟨s, ⟨n, h⟩, h'⟩ => ⟨n, s, h, h'⟩⟩

theorem Faults.bind {p : ℕ → Res ε σ β} {k : ℕ → σ → β → Res ε σ γ} {e : ε} {s : σ}
    (h : Faults p e s) : Faults (fun n => (p n).bind (k n)) e s := by
  obtain ⟨n, hn⟩ := h
  exact ⟨n, by simp [hn]⟩

theorem Faults.bind_next {p : ℕ → Res ε σ β} {k : ℕ → σ → β → Res ε σ γ} (hp : Steady p)
    {s s' : σ} {b : β} {e : ε} (hk : Steady fun n => k n s b) (h : Returns p s b)
    (h' : Faults (fun n => k n s b) e s') : Faults (fun n => (p n).bind (k n)) e s' := by
  obtain ⟨n, hn⟩ := h
  obtain ⟨m, hm⟩ := h'
  exact ⟨max n m, (hp.bind_max hk hn (by simp [hm])).trans hm⟩

/-- What faults one after the other faults first or second. -/
theorem Faults.of_bind {p : ℕ → Res ε σ β} {k : ℕ → σ → β → Res ε σ γ} {e : ε} {s' : σ}
    (h : Faults (fun n => (p n).bind (k n)) e s') :
    Faults p e s' ∨ ∃ s b, Returns p s b ∧ Faults (fun n => k n s b) e s' := by
  obtain ⟨n, hn⟩ := h
  rcases bind_eq_fault.1 hn with h₁ | ⟨s, b, h₁, h₂⟩
  · exact Or.inl ⟨n, h₁⟩
  · exact Or.inr ⟨s, b, ⟨n, h₁⟩, n, h₂⟩

theorem Faults.of_lift {p : ℕ → Res ε σ β} {f : σ → τ} {e : ε} {t : τ}
    (h : Faults (fun n => (p n).lift f) e t) : ∃ s, Faults p e s ∧ f s = t := by
  obtain ⟨n, hn⟩ := h
  obtain ⟨s, hs, rfl⟩ := lift_eq_fault.1 hn
  exact ⟨s, ⟨n, hs⟩, rfl⟩

theorem faults_const {r : Res ε σ β} {e : ε} {s : σ} :
    Faults (fun _ => r) e s ↔ r = .fault e s := by
  simp [Faults]

theorem Faults.lift {p : ℕ → Res ε σ β} (f : σ → τ) {e : ε} {s : σ} (h : Faults p e s) :
    Faults (fun n => (p n).lift f) e (f s) := by
  obtain ⟨n, hn⟩ := h
  exact ⟨n, by simp [hn, Res.lift]⟩

/-! ## `while (f()) …` -/

/-- Call `f` until it answers `false`; the value is whether it answered `true`
    at least once. -/
def whileTrue (f : ℕ → σ → Res ε σ Bool) : ℕ → σ → Res ε σ Bool
  | 0, _ => .timeout
  | n + 1, s => (f n s).bind fun s' b =>
      if b then (whileTrue f n s').bind fun s'' _ => .ok s'' true else .ok s' false

/-- The states in which `whileTrue f`, started in `s`, calls `f`. -/
inductive Heads (f : ℕ → σ → Res ε σ Bool) (s : σ) : σ → Prop
  | refl : Heads f s s
  | next {t t' : σ} : Heads f s t → Returns (fun n => f n t) t' true → Heads f s t'

section
variable {f : ℕ → σ → Res ε σ Bool}

theorem Heads.inv {I : σ → Prop} {s t : σ} (h₀ : I s)
    (hI : ∀ t t', I t → Returns (fun n => f n t) t' true → I t') (h : Heads f s t) : I t := by
  induction h with
  | refl => exact h₀
  | next _ hr ih => exact hI _ _ ih hr

theorem Heads.trans {s t u : σ} (h : Heads f s t) (h' : Heads f t u) : Heads f s u := by
  induction h' with
  | refl => exact h
  | next _ hr ih => exact ih.next hr

theorem Steady.whileTrue (hf : ∀ s, Steady fun n => f n s) (s : σ) :
    Steady fun n => whileTrue f n s := by
  intro n m hnm
  induction n generalizing m s with
  | zero => intro h; exact absurd rfl h
  | succ n ih =>
    obtain ⟨m, rfl⟩ : ∃ k, m = k + 1 := ⟨m - 1, by omega⟩
    have hnm : n ≤ m := by omega
    simp only [Loop.whileTrue]
    intro h
    have hm : f m s = f n s := hf s hnm (bind_ne_timeout h)
    rw [hm]
    cases hfn : f n s with
    | ok s' b =>
      cases b with
      | false => rfl
      | true =>
        simp only [hfn, bind_ok, if_true] at h ⊢
        have hm' := ih s' hnm (bind_ne_timeout h)
        simp only at hm'
        rw [hm']
    | fault | timeout => rfl

/-- A first call that answers `true`, and the rest of the loop. -/
theorem whileTrue_max (hf : ∀ s, Steady fun n => f n s) {n m : ℕ} {s s₁ : σ}
    (hn : f n s = .ok s₁ true) (hm : whileTrue f m s₁ ≠ .timeout) :
    whileTrue f (max n m + 1) s = (whileTrue f m s₁).bind fun s' _ => .ok s' true := by
  have h₁ : f (max n m) s = .ok s₁ true :=
    (hf s (le_max_left n m) (by simp [hn])).trans hn
  have h₂ : whileTrue f (max n m) s₁ = whileTrue f m s₁ :=
    Steady.whileTrue hf s₁ (le_max_right n m) hm
  rw [whileTrue, h₁, bind_ok, if_pos rfl, h₂]

theorem Returns.whileTrue_stop {s s' : σ} (h : Returns (fun n => f n s) s' false) :
    Returns (fun n => whileTrue f n s) s' false := by
  obtain ⟨n, hn⟩ := h
  exact ⟨n + 1, by simp [whileTrue, hn]⟩

theorem Returns.whileTrue_next (hf : ∀ s, Steady fun n => f n s) {s s₁ s' : σ} {b : Bool}
    (h : Returns (fun n => f n s) s₁ true) (h' : Returns (fun n => whileTrue f n s₁) s' b) :
    Returns (fun n => whileTrue f n s) s' true := by
  obtain ⟨n, hn⟩ := h
  obtain ⟨m, (hm : whileTrue f m s₁ = .ok s' b)⟩ := h'
  refine ⟨max n m + 1, (whileTrue_max hf hn (by simp [hm])).trans ?_⟩
  rw [hm, bind_ok]

theorem Faults.whileTrue {s s' : σ} {e : ε} (h : Faults (fun n => f n s) e s') :
    Faults (fun n => whileTrue f n s) e s' := by
  obtain ⟨n, hn⟩ := h
  exact ⟨n + 1, by simp [Loop.whileTrue, hn]⟩

theorem Faults.whileTrue_next (hf : ∀ s, Steady fun n => f n s) {s s₁ s' : σ} {e : ε}
    (h : Returns (fun n => f n s) s₁ true) (h' : Faults (fun n => Loop.whileTrue f n s₁) e s') :
    Faults (fun n => Loop.whileTrue f n s) e s' := by
  obtain ⟨n, hn⟩ := h
  obtain ⟨m, (hm : Loop.whileTrue f m s₁ = .fault e s')⟩ := h'
  refine ⟨max n m + 1, (whileTrue_max hf hn (by simp [hm])).trans ?_⟩
  rw [hm, bind_fault]

/-- How a `whileTrue` ends: its first call answers `false`, or it answers
    `true` and the rest of the loop ends. -/
theorem Returns.of_whileTrue {s s' : σ} {b : Bool} (h : Returns (fun n => whileTrue f n s) s' b) :
    (b = false ∧ Returns (fun n => f n s) s' false) ∨
      (b = true ∧ ∃ s₁ c, Returns (fun n => f n s) s₁ true ∧
        Returns (fun n => whileTrue f n s₁) s' c) := by
  obtain ⟨n, hn⟩ := h
  cases n with
  | zero => simp [whileTrue] at hn
  | succ n =>
    obtain ⟨s₁, c, h₁, h₂⟩ := bind_eq_ok.1 hn
    cases c with
    | false =>
      simp only [Bool.false_eq_true, if_false, Res.ok.injEq] at h₂
      obtain ⟨rfl, rfl⟩ := h₂
      exact Or.inl ⟨rfl, n, h₁⟩
    | true =>
      simp only [if_true] at h₂
      obtain ⟨s₂, c, h₃, h₄⟩ := bind_eq_ok.1 h₂
      simp only [Res.ok.injEq] at h₄
      obtain ⟨rfl, rfl⟩ := h₄
      exact Or.inr ⟨rfl, s₁, c, ⟨n, h₁⟩, ⟨n, h₃⟩⟩

/-- A `whileTrue` ends with a call that answers `false`. -/
theorem Returns.heads_of_whileTrue {s s' : σ} {b : Bool}
    (h : Returns (fun n => Loop.whileTrue f n s) s' b) :
    ∃ t, Heads f s t ∧ Returns (fun n => f n t) s' false := by
  obtain ⟨n, hn⟩ := h
  induction n generalizing s b with
  | zero => cases hn
  | succ n ih =>
    obtain ⟨s₁, c, h₁, h₂⟩ := bind_eq_ok.1 hn
    cases c with
    | false =>
      cases h₂
      exact ⟨s, .refl, n, h₁⟩
    | true =>
      obtain ⟨s₂, c, h₃, h₄⟩ := bind_eq_ok.1 h₂
      cases h₄
      obtain ⟨t, ht, hret⟩ := ih h₃
      exact ⟨t, Heads.trans (.next .refl ⟨n, h₁⟩) ht, hret⟩

/-- The fault of a `whileTrue` is that of a call. -/
theorem Faults.heads_of_whileTrue {s s' : σ} {e : ε}
    (h : Faults (fun n => Loop.whileTrue f n s) e s') :
    ∃ t, Heads f s t ∧ Faults (fun n => f n t) e s' := by
  obtain ⟨n, hn⟩ := h
  induction n generalizing s with
  | zero => cases hn
  | succ n ih =>
    rcases bind_eq_fault.1 hn with h₁ | ⟨s₁, c, h₁, h₂⟩
    · exact ⟨s, .refl, n, h₁⟩
    cases c with
    | false => cases h₂
    | true =>
      rcases bind_eq_fault.1 h₂ with h₃ | ⟨_, _, -, h₃⟩
      · obtain ⟨t, ht, hfault⟩ := ih h₃
        exact ⟨t, Heads.trans (.next .refl ⟨n, h₁⟩) ht, hfault⟩
      · cases h₃

/-- A fault in some call of a `whileTrue` is its fault. -/
theorem Faults.whileTrue_of_heads (hf : ∀ s, Steady fun n => f n s) {s t s' : σ} {e : ε}
    (ht : Heads f s t) (h : Faults (fun n => f n t) e s') :
    Faults (fun n => Loop.whileTrue f n s) e s' := by
  have hloop : Faults (fun n => Loop.whileTrue f n t) e s' := h.whileTrue
  clear h
  induction ht with
  | refl => exact hloop
  | next _ hret ih => exact ih (.whileTrue_next hf hret hloop)

/-- A call of a `whileTrue` that answers `false` is its last. -/
theorem Returns.whileTrue_of_heads (hf : ∀ s, Steady fun n => f n s) {s t s' : σ}
    (ht : Heads f s t) (h : Returns (fun n => f n t) s' false) :
    ∃ b, Returns (fun n => Loop.whileTrue f n s) s' b := by
  have hloop : ∃ b, Returns (fun n => Loop.whileTrue f n t) s' b := ⟨false, h.whileTrue_stop⟩
  clear h
  induction ht with
  | refl => exact hloop
  | next _ hret ih =>
    obtain ⟨b, hb⟩ := hloop
    exact ih ⟨true, .whileTrue_next hf hret hb⟩

/-- **A loop ends if a rank decreases** with every call that answers `true`. -/
theorem ends_whileTrue (hf : ∀ s, Steady fun n => f n s) {I : ℕ → σ → Prop} {E : ε → Prop}
    (hI : ∀ k s, I k s → (∃ e s', Faults (fun n => f n s) e s' ∧ E e) ∨
      (∃ s', Returns (fun n => f n s) s' false) ∨
      ∃ k' s', k' < k ∧ I k' s' ∧ Returns (fun n => f n s) s' true)
    {k : ℕ} {s : σ} (hs : I k s) : Ends (fun n => Loop.whileTrue f n s) E := by
  induction k using Nat.strong_induction_on generalizing s with
  | _ k ih =>
    rcases hI k s hs with ⟨e, s', hfault, he⟩ | ⟨s', hstop⟩ | ⟨k', s', hk, hs', hnext⟩
    · exact Or.inr ⟨e, s', hfault.whileTrue, he⟩
    · exact Or.inl ⟨s', false, hstop.whileTrue_stop⟩
    · rcases ih k' hk hs' with ⟨t, b, hret⟩ | ⟨e, t, hfault, he⟩
      · exact Or.inl ⟨t, true, hnext.whileTrue_next hf hret⟩
      · exact Or.inr ⟨e, t, .whileTrue_next hf hnext hfault, he⟩

end

/-! ## `for (x : xs) f(x)` -/

/-- Call `f` on every element in order; the value is whether some call
    answered `true`. -/
def forEach (f : ℕ → σ → Res ε σ Bool) (n : ℕ) : List σ → Res ε (List σ) Bool
  | [] => .ok [] false
  | x :: xs =>
    match f n x with
    | .ok x' b => ((forEach f n xs).lift (x' :: ·)).bind fun ys c => .ok ys (b || c)
    | .fault e x' => .fault e (x' :: xs)
    | .timeout => .timeout

section
variable {f : ℕ → σ → Res ε σ Bool}

theorem Steady.forEach (hf : ∀ s, Steady fun n => f n s) (xs : List σ) :
    Steady fun n => forEach f n xs := by
  induction xs with
  | nil => exact .const _
  | cons x xs ih =>
    intro n m hnm
    simp only [Loop.forEach]
    cases hx : f n x with
    | ok x' b =>
      have hm : f m x = f n x := hf x hnm (by simp [hx])
      rw [hm, hx]
      have ht : Steady fun n => ((Loop.forEach f n xs).lift (x' :: ·)).bind fun ys c =>
          (.ok ys (b || c) : Res ε (List σ) Bool) := (ih.lift _).bind fun _ _ => .const _
      exact ht hnm
    | fault e x' =>
      have hm : f m x = f n x := hf x hnm (by simp [hx])
      rw [hm, hx]; exact fun _ => rfl
    | timeout => exact fun h => absurd rfl h

theorem forEach_cons_ok {n : ℕ} {x : σ} {xs ys : List σ} {c : Bool} :
    forEach f n (x :: xs) = .ok ys c ↔
      ∃ x' b ys' c', f n x = .ok x' b ∧ forEach f n xs = .ok ys' c' ∧ ys = x' :: ys' ∧
        c = (b || c') := by
  simp only [forEach]
  cases f n x with
  | ok x' b =>
    simp only [bind_eq_ok, lift_eq_ok, Res.ok.injEq]
    constructor
    · rintro ⟨zs, c', ⟨ys', h, rfl⟩, rfl, rfl⟩
      exact ⟨x', b, ys', c', ⟨rfl, rfl⟩, h, rfl, rfl⟩
    · rintro ⟨_, _, ys', c', ⟨rfl, rfl⟩, h, rfl, rfl⟩
      exact ⟨_, c', ⟨ys', h, rfl⟩, rfl, rfl⟩
  | fault | timeout => simp

theorem Returns.forEach_cons (hf : ∀ s, Steady fun n => f n s) {x x' : σ} {xs ys : List σ}
    {b c : Bool} (hx : Returns (fun n => f n x) x' b)
    (h : Returns (fun n => Loop.forEach f n xs) ys c) :
    Returns (fun n => Loop.forEach f n (x :: xs)) (x' :: ys) (b || c) := by
  obtain ⟨n, hn⟩ := hx
  obtain ⟨m, hm⟩ := h
  refine ⟨max n m, forEach_cons_ok.2 ⟨x', b, ys, c, ?_, ?_, rfl, rfl⟩⟩
  · rw [← hn]
    exact hf x (le_max_left n m) (by simp [hn])
  · rw [← hm]
    exact Steady.forEach hf xs (le_max_right n m) (by simp [hm])

/-- **`forEach` answers iff every call answers.** -/
theorem returns_forEach (hf : ∀ s, Steady fun n => f n s) {xs ys : List σ} {c : Bool} :
    Returns (fun n => forEach f n xs) ys c ↔
      ∃ ps : List (σ × Bool), List.Forall₂ (fun x p => Returns (fun n => f n x) p.1 p.2) xs ps ∧
        ys = ps.map Prod.fst ∧ c = ps.any Prod.snd := by
  induction xs generalizing ys c with
  | nil => simp [Returns, forEach, eq_comm]
  | cons x xs ih =>
    constructor
    · rintro ⟨n, hn⟩
      obtain ⟨x', b, ys', c', h₁, h₂, rfl, rfl⟩ := forEach_cons_ok.1 hn
      obtain ⟨ps, hps, rfl, rfl⟩ := ih.1 ⟨n, h₂⟩
      exact ⟨(x', b) :: ps, .cons ⟨n, h₁⟩ hps, rfl, rfl⟩
    · rintro ⟨_, hxs, rfl, rfl⟩
      obtain ⟨p, ps, hx, hps, rfl⟩ := List.forall₂_cons_left_iff.1 hxs
      exact hx.forEach_cons hf (ih.2 ⟨ps, hps, rfl, rfl⟩)

/-- If `forEach` answers `false`, then so does every call. -/
theorem Returns.of_forEach_false {xs ys : List σ} (h : Returns (fun n => forEach f n xs) ys false) :
    ∀ x ∈ xs, ∃ x', Returns (fun n => f n x) x' false := by
  obtain ⟨n, hn⟩ := h
  induction xs generalizing ys with
  | nil => simp
  | cons x xs ih =>
    obtain ⟨x', b, ys', c', h₁, h₂, rfl, hc⟩ := forEach_cons_ok.1 hn
    obtain ⟨rfl, rfl⟩ := Bool.or_eq_false_iff.1 hc.symm
    intro y hy
    rcases List.mem_cons.1 hy with rfl | hy
    · exact ⟨x', n, h₁⟩
    · exact ih h₂ y hy

theorem Returns.length_forEach (hf : ∀ s, Steady fun n => f n s) {xs ys : List σ} {c : Bool}
    (h : Returns (fun n => Loop.forEach f n xs) ys c) : ys.length = xs.length := by
  obtain ⟨ps, hps, rfl, -⟩ := (returns_forEach hf).1 h
  rw [List.length_map, hps.length_eq]

/-- Every element that `forEach` leaves is what a call left. -/
theorem Returns.of_mem_forEach (hf : ∀ s, Steady fun n => f n s) {xs ys : List σ} {c : Bool}
    (h : Returns (fun n => Loop.forEach f n xs) ys c) {y : σ} (hy : y ∈ ys) :
    ∃ xs₁ x xs₂ ys₁ c₁ b, xs = xs₁ ++ x :: xs₂ ∧
      Returns (fun n => Loop.forEach f n xs₁) ys₁ c₁ ∧ Returns (fun n => f n x) y b := by
  obtain ⟨n, hn⟩ := h
  induction xs generalizing ys c with
  | nil =>
    cases hn
    cases hy
  | cons x xs ih =>
    obtain ⟨x', b, ys', c', h₁, h₂, rfl, rfl⟩ := forEach_cons_ok.1 hn
    rcases List.mem_cons.1 hy with rfl | hy
    · exact ⟨[], x, xs, [], false, b, rfl, ⟨0, rfl⟩, n, h₁⟩
    · obtain ⟨xs₁, z, xs₂, ys₁, c₁, b₁, rfl, hret, hz⟩ := ih hy h₂
      exact ⟨x :: xs₁, z, xs₂, x' :: ys₁, b || c₁, b₁, rfl, .forEach_cons hf ⟨n, h₁⟩ hret, hz⟩

/-- The fault of a `forEach` is that of a call, after those before it have answered. -/
theorem Faults.of_forEach (hf : ∀ s, Steady fun n => f n s) {xs zs : List σ} {e : ε}
    (h : Faults (fun n => Loop.forEach f n xs) e zs) :
    ∃ xs₁ x xs₂ ys₁ c x', xs = xs₁ ++ x :: xs₂ ∧ zs = ys₁ ++ x' :: xs₂ ∧
      Returns (fun n => Loop.forEach f n xs₁) ys₁ c ∧ Faults (fun n => f n x) e x' := by
  obtain ⟨n, hn⟩ := h
  induction xs generalizing zs with
  | nil => cases hn
  | cons x xs ih =>
    simp only [Loop.forEach] at hn
    cases hx : f n x with
    | ok x' b =>
      simp only [hx] at hn
      rcases bind_eq_fault.1 hn with hn | ⟨_, _, -, hn⟩
      · obtain ⟨ys, hxs, rfl⟩ := lift_eq_fault.1 hn
        obtain ⟨xs₁, y, xs₂, ys₁, c, y', rfl, rfl, hret, hfault⟩ := ih hxs
        exact ⟨x :: xs₁, y, xs₂, x' :: ys₁, b || c, y', rfl, rfl, .forEach_cons hf ⟨n, hx⟩ hret,
          hfault⟩
      · cases hn
    | fault e' x' =>
      simp only [hx] at hn
      cases hn
      exact ⟨[], x, xs, [], false, x', rfl, rfl, ⟨0, rfl⟩, n, hx⟩
    | timeout =>
      simp only [hx] at hn
      cases hn

theorem forEach_append_fault {xs : List σ} {x x' : σ} {ys zs : List σ} {e : ε} {c : Bool} {n : ℕ}
    (h : forEach f n xs = .ok ys c) (hx : f n x = .fault e x') :
    forEach f n (xs ++ x :: zs) = .fault e (ys ++ x' :: zs) := by
  induction xs generalizing ys c with
  | nil => cases h; simp [forEach, hx]
  | cons y xs ih =>
    obtain ⟨y', b, ys', c', h₁, h₂, rfl, rfl⟩ := forEach_cons_ok.1 h
    simp [forEach, h₁, ih h₂, lift]

/-- A `forEach` stops at the first call that faults. -/
theorem Faults.forEach (hf : ∀ s, Steady fun n => f n s) {xs : List σ} {x x' : σ} {ys : List σ}
    (zs : List σ) {e : ε} {c : Bool} (h : Returns (fun n => Loop.forEach f n xs) ys c)
    (hx : Faults (fun n => f n x) e x') :
    Faults (fun n => Loop.forEach f n (xs ++ x :: zs)) e (ys ++ x' :: zs) := by
  obtain ⟨n, hn⟩ := h
  obtain ⟨m, hm⟩ := hx
  have h₁ := Steady.forEach hf xs (le_max_left n m) (by simp [hn])
  have h₂ := hf x (le_max_right n m) (by simp [hm])
  exact ⟨max n m, forEach_append_fault (h₁.trans hn) (h₂.trans hm)⟩

end

end Loop
