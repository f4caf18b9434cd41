/-
  Maps that keep their entries in the order of their keys, like `std::map`.

  An `OrderedMap` is a list of entries whose keys ascend.  `modify m k f` is
  `m[k] = f(m[k])`: an entry that is missing starts as zero.

  * `find_modify_self`, `find_modify_of_ne`: what `modify` does to the entries.
  * `find_collect`: what a loop leaves that modifies the entry of each element.
-/
import Mathlib.Tactic

variable {κ β ε : Type*} [LinearOrder κ]

structure OrderedMap (κ β : Type*) [LinearOrder κ] where
  entries : List (κ × β) := []
  sorted : entries.Pairwise fun x y => x.1 < y.1 := by exact .nil

namespace OrderedMap

def find (m : OrderedMap κ β) (k : κ) : Option β := m.entries.lookup k

def keys (m : OrderedMap κ β) : List κ := m.entries.map Prod.fst

/-! ## Changing an entry -/

section
variable [Zero β]

/-- The entries after one has been changed; it is inserted at its place. -/
def modifyEntries (k : κ) (f : β → β) : List (κ × β) → List (κ × β)
  | [] => [(k, f 0)]
  | (k', b) :: m =>
    if k < k' then (k, f 0) :: (k', b) :: m
    else if k = k' then (k', f b) :: m
    else (k', b) :: modifyEntries k f m

theorem mem_modifyEntries {k : κ} {f : β → β} {m : List (κ × β)} {x : κ × β}
    (h : x ∈ modifyEntries k f m) : x.1 = k ∨ x ∈ m := by
  induction m with
  | nil =>
    rw [List.mem_singleton.1 h]
    exact .inl rfl
  | cons y m ih =>
    rw [modifyEntries] at h
    split_ifs at h with hlt heq
    · rcases List.mem_cons.1 h with rfl | h
      · exact .inl rfl
      · exact .inr h
    · rcases List.mem_cons.1 h with rfl | h
      · exact .inl heq.symm
      · exact .inr (List.mem_cons_of_mem _ h)
    · rcases List.mem_cons.1 h with rfl | h
      · exact .inr List.mem_cons_self
      · exact (ih h).imp_right (List.mem_cons_of_mem _)

theorem sorted_modifyEntries {k : κ} {f : β → β} {m : List (κ × β)}
    (h : m.Pairwise fun x y => x.1 < y.1) :
    (modifyEntries k f m).Pairwise fun x y => x.1 < y.1 := by
  induction m with
  | nil => exact List.pairwise_singleton _ _
  | cons y m ih =>
    obtain ⟨hy, hm⟩ := List.pairwise_cons.1 h
    rw [modifyEntries]
    split_ifs with hlt heq
    · refine List.pairwise_cons.2 ⟨fun x hx => ?_, h⟩
      rcases List.mem_cons.1 hx with rfl | hx
      · exact hlt
      · exact hlt.trans (hy x hx)
    · exact List.pairwise_cons.2 ⟨hy, hm⟩
    · refine List.pairwise_cons.2 ⟨fun x hx => ?_, ih hm⟩
      rcases mem_modifyEntries hx with hx | hx
      · rw [hx]
        exact lt_of_le_of_ne (not_lt.1 hlt) (Ne.symm heq)
      · exact hy x hx

theorem lookup_modifyEntries_self {k : κ} {f : β → β} {m : List (κ × β)}
    (h : m.Pairwise fun x y => x.1 < y.1) :
    (modifyEntries k f m).lookup k = some (f ((m.lookup k).getD 0)) := by
  induction m with
  | nil => simp [modifyEntries]
  | cons y m ih =>
    obtain ⟨hy, hm⟩ := List.pairwise_cons.1 h
    rw [modifyEntries]
    split_ifs with hlt heq
    · -- the key is smaller than all that are there
      have hnone : (y :: m).lookup k = none := by
        rw [List.lookup_eq_none_iff]
        intro x hx
        rcases List.mem_cons.1 hx with rfl | hx
        · simpa using hlt.ne
        · simpa using (hlt.trans (hy x hx)).ne
      rw [List.lookup_cons_self, hnone, Option.getD_none]
    · subst heq
      rw [List.lookup_cons_self, List.lookup_cons_self, Option.getD_some]
    · have hne : (k == y.1) = false := by simpa using heq
      rw [List.lookup_cons, List.lookup_cons, hne]
      exact ih hm

theorem lookup_modifyEntries_of_ne {k k' : κ} (hne : k' ≠ k) (f : β → β) (m : List (κ × β)) :
    (modifyEntries k f m).lookup k' = m.lookup k' := by
  have hk : (k' == k) = false := by simpa using hne
  induction m with
  | nil => simp [modifyEntries, List.lookup_cons, hk]
  | cons y m ih =>
    rw [modifyEntries]
    split_ifs with hlt heq
    · rw [List.lookup_cons, hk]
    · subst heq
      rw [List.lookup_cons, List.lookup_cons, hk]
    · rw [List.lookup_cons, List.lookup_cons, ih]

def modify (m : OrderedMap κ β) (k : κ) (f : β → β) : OrderedMap κ β :=
  ⟨modifyEntries k f m.entries, sorted_modifyEntries m.sorted⟩

omit [Zero β] in
@[simp] theorem find_empty (k : κ) : ({} : OrderedMap κ β).find k = none := rfl

@[simp] theorem find_modify_self (m : OrderedMap κ β) (k : κ) (f : β → β) :
    (m.modify k f).find k = some (f ((m.find k).getD 0)) :=
  lookup_modifyEntries_self m.sorted

theorem find_modify_of_ne (m : OrderedMap κ β) {k k' : κ} (hne : k' ≠ k) (f : β → β) :
    (m.modify k f).find k' = m.find k' :=
  lookup_modifyEntries_of_ne hne f m.entries

end

/-! ## Keys -/

theorem nodup_keys (m : OrderedMap κ β) : m.keys.Nodup :=
  List.pairwise_map.2 (m.sorted.imp fun h => h.ne)

theorem find_eq_some_iff {m : OrderedMap κ β} {k : κ} {b : β} :
    m.find k = some b ↔ (k, b) ∈ m.entries := by
  obtain ⟨entries, hsorted⟩ := m
  show entries.lookup k = some b ↔ _
  induction entries with
  | nil => simp
  | cons y m ih =>
    obtain ⟨hy, hm⟩ := List.pairwise_cons.1 hsorted
    rw [List.lookup_cons, List.mem_cons]
    cases hk : k == y.1 with
    | true =>
      rw [beq_iff_eq] at hk
      constructor
      · intro h
        cases h
        exact .inl (Prod.ext hk rfl)
      · rintro (h | h)
        · rw [← h]
        · exact absurd hk (hy _ h).ne'
    | false =>
      rw [beq_eq_false_iff_ne] at hk
      rw [ih hm, or_iff_right]
      intro h
      exact hk (congrArg Prod.fst h)

theorem mem_keys_iff {m : OrderedMap κ β} {k : κ} : k ∈ m.keys ↔ ∃ b, m.find k = some b := by
  simp only [find_eq_some_iff, keys, List.mem_map, Prod.exists, exists_and_right, exists_eq_right]

/-! ## Loops -/

section
variable [Zero β]

/-- The loop `for (x : xs) m[key(x)] = f(x, m[key(x)])`. -/
def collect (key : ε → κ) (f : ε → β → β) (xs : List ε) (m : OrderedMap κ β := {}) :
    OrderedMap κ β :=
  xs.foldl (fun m x => m.modify (key x) (f x)) m

/-- **What the loop leaves**: an entry for each key, made by the elements with this
    key. -/
theorem find_collect (key : ε → κ) (f : ε → β → β) (xs : List ε) (m : OrderedMap κ β) (k : κ) :
    (collect key f xs m).find k =
      if k ∈ xs.map key then
        some ((xs.filter fun x => key x = k).foldl (fun b x => f x b) ((m.find k).getD 0))
      else m.find k := by
  induction xs generalizing m with
  | nil => simp [collect]
  | cons x xs ih =>
    rw [collect, List.foldl_cons, ← collect, ih]
    by_cases hk : key x = k
    · subst hk
      have hself : key x ∈ (x :: xs).map key := List.mem_cons_self
      rw [find_modify_self, if_pos hself, List.filter_cons, if_pos (decide_eq_true rfl),
        List.foldl_cons, Option.getD_some]
      split_ifs with hmem
      · rfl
      · have hnil : xs.filter (fun y => key y = key x) = [] := by
          rw [List.filter_eq_nil_iff]
          intro y hy hkey
          exact hmem (List.mem_map.2 ⟨y, hy, of_decide_eq_true hkey⟩)
        rw [hnil, List.foldl_nil]
    · rw [find_modify_of_ne m (Ne.symm hk)]
      simp [hk, Ne.symm hk]

/-- One entry for each key: an entry is alone with its key. -/
theorem filter_entries {γ : Type*} {m : OrderedMap κ γ} {k : κ} {c : γ} (h : m.find k = some c) :
    m.entries.filter (fun x => x.1 = k) = [(k, c)] := by
  rw [find_eq_some_iff] at h
  obtain ⟨entries, hsorted⟩ := m
  dsimp only at h ⊢
  induction entries with
  | nil => cases h
  | cons y m ih =>
    obtain ⟨hy, hm⟩ := List.pairwise_cons.1 hsorted
    rcases List.mem_cons.1 h with rfl | h
    · have hnil : m.filter (fun x => x.1 = k) = [] := by
        rw [List.filter_eq_nil_iff]
        intro x hx hkey
        exact (hy x hx).ne' (of_decide_eq_true hkey)
      rw [List.filter_cons, if_pos (decide_eq_true rfl), hnil]
    · rw [List.filter_cons_of_neg (by simpa using (hy _ h).ne)]
      exact ih hm h

/-- **A loop over the entries of another map** changes the entries with its keys. -/
theorem find_collect_entries {γ : Type*} (f : κ × γ → β → β) (m : OrderedMap κ γ)
    (m' : OrderedMap κ β) (k : κ) :
    (collect Prod.fst f m.entries m').find k =
      match m.find k with
      | some c => some (f (k, c) ((m'.find k).getD 0))
      | none => m'.find k := by
  rw [find_collect]
  cases h : m.find k with
  | some c =>
    have hk : k ∈ m.entries.map Prod.fst := mem_keys_iff.2 ⟨c, h⟩
    rw [if_pos hk, filter_entries h]
    rfl
  | none =>
    rw [if_neg]
    intro hk
    obtain ⟨c, hc⟩ := mem_keys_iff.1 hk
    rw [h] at hc
    cases hc

end

end OrderedMap
