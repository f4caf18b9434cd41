/-
  The neighbours that a search of libnabo has found so far (`index_heap.h`).

  `IndexHeapSTL` starts with an entry at infinity, which is the first one to be
  replaced when the heap is full, so that its front is what a further neighbour has
  to be closer than.

  * `Keeps`: the heap holds the nearest of the points that have been looked at.
  * `Keeps.replaceHead`: a closer point is taken in, and the farthest is dropped.
-/
import Mathlib.Order.WithBot
import SmartScreen.Lib.Heap

namespace SmartScreen.Nabo

open Heap

variable {T : Type*}

/-- The index of a point, and how far it is. -/
structure Entry (T : Type*) where
  index : ℕ
  value : WithTop T
deriving DecidableEq

/-- Where there is no neighbour. -/
def Entry.missing : Entry T := ⟨0, ⊤⟩

structure IndexHeapSTL (T : Type*) where
  data : List (Entry T) := [.missing]
  nbNeighbours : ℕ
deriving DecidableEq

namespace IndexHeapSTL

def reset (h : IndexHeapSTL T) : IndexHeapSTL T := { h with data := [.missing] }

/-- `data.front()`; there always is one. -/
def headValue (h : IndexHeapSTL T) : WithTop T :=
  match h.data with
  | [] => ⊤
  | entry :: _ => entry.value

variable [LinearOrder T]

/-- `data.back()` of a full heap is replaced after `pop_heap`. -/
def replaceHead (heap : StdHeap (Entry.value : Entry T → WithTop T)) (h : IndexHeapSTL T)
    (index : ℕ) (value : T) : IndexHeapSTL T :=
  if h.data.length = h.nbNeighbours then
    { h with data := heap.pushHeap ((heap.popHeap h.data).dropLast ++ [⟨index, value⟩]) }
  else { h with data := heap.pushHeap (h.data ++ [⟨index, value⟩]) }

/-- `sort_heap` -/
def sort (heap : StdHeap (Entry.value : Entry T → WithTop T)) (h : IndexHeapSTL T) :
    IndexHeapSTL T :=
  { h with data := heap.sortHeap h.data }

omit [LinearOrder T] in
/-- The indices and the distances, filled up where there are too few. -/
def getData (h : IndexHeapSTL T) : List ℕ × List (WithTop T) :=
  let data := h.data ++ List.replicate (h.nbNeighbours - h.data.length) .missing
  (data.map Entry.index, data.map Entry.value)

/-! ## What the heap holds -/

/-- The entries for the given points, with the one that is missing. -/
def entries (d : ℕ → T) (k : ℕ) (is : List ℕ) : List (Entry T) :=
  is.map (fun i => ⟨i, d i⟩) ++ if is.length < k then [.missing] else []

/-- Of the points that have been seen, the heap holds `is`.  The others are not
    eligible, or by their bound not closer than any of these. -/
structure Keeps (d : ℕ → T) (bound : ℕ → WithTop T) (eligible : ℕ → Prop) (seen : Set ℕ)
    (is : List ℕ) (h : IndexHeapSTL T) : Prop where
  isHeap : IsHeap Entry.value h.data
  pos : 0 < h.nbNeighbours
  nodup : is.Nodup
  length_le : is.length ≤ h.nbNeighbours
  mem : ∀ i ∈ is, i ∈ seen ∧ eligible i
  perm : h.data.Perm (entries d h.nbNeighbours is)
  rest : ∀ j ∈ seen, eligible j → j ∉ is → h.headValue ≤ bound j

section
variable {d : ℕ → T} {k : ℕ} {is : List ℕ} {h : IndexHeapSTL T}

theorem value_le_headValue (hheap : IsHeap Entry.value h.data) :
    ∀ entry ∈ h.data, entry.value ≤ h.headValue := by
  rw [headValue]
  cases hdata : h.data with
  | nil => simp
  | cons front data =>
    rw [hdata] at hheap
    exact hheap.le_front

/-- The front is one of the entries. -/
theorem headValue_le {b : WithTop T} (hne : h.data ≠ []) (hle : ∀ entry ∈ h.data, entry.value ≤ b) :
    h.headValue ≤ b := by
  rw [headValue]
  cases hdata : h.data with
  | nil => exact absurd hdata hne
  | cons front data => exact hle front (hdata ▸ List.mem_cons_self)

omit [LinearOrder T] in
theorem entries_of_lt (hlt : is.length < k) :
    entries d k is = is.map (fun i => ⟨i, d i⟩) ++ [.missing] := by
  rw [entries, if_pos hlt]

omit [LinearOrder T] in
theorem entries_of_le (hle : k ≤ is.length) : entries d k is = is.map fun i => ⟨i, d i⟩ := by
  rw [entries, if_neg hle.not_gt, List.append_nil]

omit [LinearOrder T] in
/-- Every entry but the missing one has a distance. -/
theorem eq_missing_of_top {entry : Entry T} (hentry : entry ∈ entries d k is)
    (htop : entry.value = ⊤) : entry = .missing := by
  rcases List.mem_append.1 hentry with hmem | hmem
  · obtain ⟨i, -, rfl⟩ := List.mem_map.1 hmem
    cases htop
  · split_ifs at hmem
    · exact List.mem_singleton.1 hmem
    · cases hmem

end

variable {d : ℕ → T} {bound : ℕ → WithTop T} {eligible : ℕ → Prop} {seen : Set ℕ}
  {is : List ℕ} {h : IndexHeapSTL T}

theorem keeps_reset (hpos : 0 < h.nbNeighbours) : Keeps d bound eligible ∅ [] h.reset where
  isHeap := isHeap_singleton _
  pos := hpos
  nodup := List.nodup_nil
  length_le := Nat.zero_le _
  mem := by simp
  perm := by
    rw [entries_of_lt hpos]
    exact .refl _
  rest := by simp

/-- Points that need not be kept. -/
theorem Keeps.skip (hh : Keeps d bound eligible seen is h) {skipped : Set ℕ}
    (hskip : ∀ j ∈ skipped, eligible j → h.headValue ≤ bound j) :
    Keeps d bound eligible (seen ∪ skipped) is h :=
  { hh with
    mem := fun i hi => ⟨Or.inl (hh.mem i hi).1, (hh.mem i hi).2⟩
    rest := by
      rintro j (hj | hj) hel hno
      · exact hh.rest j hj hel hno
      · exact hskip j hj hel }

/-- With fewer points than asked for, the front is at infinity. -/
theorem Keeps.headValue_eq_top (hh : Keeps d bound eligible seen is h)
    (hlt : is.length < h.nbNeighbours) : h.headValue = ⊤ := by
  have hmem : Entry.missing ∈ h.data := by
    rw [hh.perm.mem_iff, entries_of_lt hlt]
    exact List.mem_append_right _ (List.mem_singleton.2 rfl)
  exact top_le_iff.1 (value_le_headValue hh.isHeap _ hmem)

/-- What a full heap drops: the missing entry, or the farthest point. -/
theorem Keeps.exists_dropped (hh : Keeps d bound eligible seen is h) {front : Entry T}
    {data : List (Entry T)} (hdata : h.data = front :: data)
    (hfull : h.data.length = h.nbNeighbours) :
    ∃ rest : List ℕ, rest.length + 1 = h.nbNeighbours ∧ rest.Nodup ∧ (∀ i ∈ rest, i ∈ is) ∧
      data.Perm (rest.map fun i => ⟨i, d i⟩) ∧
      ∀ i ∈ is, i ∉ rest → front.value = d i := by
  have hfront : h.headValue = front.value := by rw [headValue, hdata]
  have hmem : front ∈ entries d h.nbNeighbours is :=
    hh.perm.mem_iff.1 (hdata ▸ List.mem_cons_self)
  have hperm : (front :: data).Perm (entries d h.nbNeighbours is) := hdata ▸ hh.perm
  have hlen := hh.perm.length_eq
  rcases hh.length_le.lt_or_eq with hlt | heq
  · -- the missing entry is in front
    obtain rfl := eq_missing_of_top hmem (hfront ▸ hh.headValue_eq_top hlt)
    rw [entries_of_lt hlt] at hperm hlen
    refine ⟨is, ?_, hh.nodup, fun _ => id, ?_, fun i hi hno => absurd hi hno⟩
    · rw [List.length_append, List.length_map, List.length_singleton] at hlen
      omega
    · exact (hperm.trans (List.perm_append_singleton ..)).cons_inv
  · -- a point is in front
    rw [entries_of_le heq.ge] at hperm hmem
    obtain ⟨p, hp, rfl⟩ := List.mem_map.1 hmem
    refine ⟨is.erase p, ?_, hh.nodup.erase p, fun i => List.mem_of_mem_erase, ?_, ?_⟩
    · rw [List.length_erase_of_mem hp]
      have := List.length_pos_of_mem hp
      omega
    · exact (hperm.trans ((List.perm_cons_erase hp).map _)).cons_inv
    · intro i hi hno
      rw [hh.nodup.mem_erase_iff] at hno
      by_cases hip : i = p
      · rw [hip]
      · exact absurd ⟨hip, hi⟩ hno

/-- A heap in which nothing is farther than the front of another one. -/
theorem headValue_le_of_perm {h' : IndexHeapSTL T} {xs : List (Entry T)} (hperm : h'.data.Perm xs)
    (hne : xs ≠ []) {b : WithTop T} (hle : ∀ entry ∈ xs, entry.value ≤ b) : h'.headValue ≤ b := by
  refine headValue_le ?_ fun entry hentry => hle entry (hperm.mem_iff.1 hentry)
  intro hnil
  rw [hnil] at hperm
  exact hne hperm.nil_eq.symm

/-- The heap is full: the front makes room. -/
theorem Keeps.replaceHead_full (heap : StdHeap (Entry.value : Entry T → WithTop T))
    (hh : Keeps d bound eligible seen is h) (hbound : ∀ j, (d j : WithTop T) ≤ bound j) {i : ℕ}
    (hnew : i ∉ seen) (hel : eligible i) (hlt : (d i : WithTop T) < h.headValue)
    (hfull : h.data.length = h.nbNeighbours) :
    ∃ is', Keeps d bound eligible (insert i seen) is' (h.replaceHead heap i (d i)) := by
  obtain ⟨front, data, hdata⟩ : ∃ front data, h.data = front :: data :=
    List.exists_cons_of_length_pos (hfull ▸ hh.pos)
  obtain ⟨rest, hlen, hnodup, hsub, hrest, hfront⟩ := hh.exists_dropped hdata hfull
  obtain ⟨ys, hpop, hys, hheap⟩ := heap.popHeap_cons front data (hdata ▸ hh.isHeap)
  have hi : i ∉ rest := fun hi => hnew (hh.mem i (hsub i hi)).1
  rw [IndexHeapSTL.replaceHead, if_pos hfull, hdata, hpop, List.dropLast_concat]
  have hpushed : (heap.pushHeap (ys ++ [⟨i, d i⟩])).Perm (⟨i, d i⟩ :: data) :=
    (heap.pushHeap_perm _).trans ((List.perm_append_singleton ..).trans (hys.cons _))
  have hhead : headValue ⟨heap.pushHeap (ys ++ [⟨i, d i⟩]), h.nbNeighbours⟩ ≤ h.headValue := by
    refine headValue_le_of_perm hpushed (List.cons_ne_nil _ _) ?_
    intro entry hentry
    rcases List.mem_cons.1 hentry with rfl | hentry
    · exact hlt.le
    · exact value_le_headValue hh.isHeap entry (hdata ▸ List.mem_cons_of_mem _ hentry)
  refine ⟨i :: rest, heap.isHeap_pushHeap _ _ hheap, hh.pos, hnodup.cons hi, hlen.le, ?_, ?_, ?_⟩
  · rw [List.forall_mem_cons]
    exact ⟨⟨Set.mem_insert _ _, hel⟩, fun j hj =>
      ⟨Set.mem_insert_of_mem _ (hh.mem j (hsub j hj)).1, (hh.mem j (hsub j hj)).2⟩⟩
  · rw [entries_of_le hlen.ge]
    exact hpushed.trans (hrest.cons _)
  · intro j hj helj hno
    rw [List.mem_cons, not_or] at hno
    have hj := hj.resolve_left hno.1
    refine hhead.trans ?_
    by_cases hjs : j ∈ is
    · -- what has been dropped is as far as the front was
      have hvalue : h.headValue = d j := by
        rw [headValue, hdata]
        exact hfront j hjs hno.2
      exact hvalue ▸ hbound j
    · exact hh.rest j hj helj hjs

/-- There is room: the missing entry stays. -/
theorem Keeps.replaceHead_room (heap : StdHeap (Entry.value : Entry T → WithTop T))
    (hh : Keeps d bound eligible seen is h) {i : ℕ} (hnew : i ∉ seen) (hel : eligible i)
    (hroom : h.data.length ≠ h.nbNeighbours) :
    Keeps d bound eligible (insert i seen) (i :: is) (h.replaceHead heap i (d i)) := by
  have hlen := hh.perm.length_eq
  have hlt : is.length < h.nbNeighbours := by
    refine hh.length_le.lt_of_ne ?_
    intro heq
    rw [entries_of_le heq.ge, List.length_map] at hlen
    exact hroom (hlen.trans heq)
  rw [entries_of_lt hlt, List.length_append, List.length_map, List.length_singleton] at hlen
  have hi : i ∉ is := fun hi => hnew (hh.mem i hi).1
  have hlt' : (i :: is).length < h.nbNeighbours := by
    rw [List.length_cons]
    omega
  rw [IndexHeapSTL.replaceHead, if_neg hroom]
  refine ⟨heap.isHeap_pushHeap _ _ hh.isHeap, hh.pos, hh.nodup.cons hi, hlt'.le, ?_, ?_, ?_⟩
  · rw [List.forall_mem_cons]
    exact ⟨⟨Set.mem_insert _ _, hel⟩, fun j hj =>
      ⟨Set.mem_insert_of_mem _ (hh.mem j hj).1, (hh.mem j hj).2⟩⟩
  · rw [entries_of_lt hlt', List.map_cons, List.cons_append, ← entries_of_lt hlt]
    exact (heap.pushHeap_perm _).trans ((List.perm_append_singleton ..).trans (hh.perm.cons _))
  · intro j hj helj hno
    rw [List.mem_cons, not_or] at hno
    have hbound := hh.rest j (hj.resolve_left hno.1) helj hno.2
    rw [hh.headValue_eq_top hlt] at hbound
    exact le_top.trans hbound

/-- **A point that is closer than the front** is taken in. -/
theorem Keeps.replaceHead (heap : StdHeap (Entry.value : Entry T → WithTop T))
    (hh : Keeps d bound eligible seen is h) (hbound : ∀ j, (d j : WithTop T) ≤ bound j) {i : ℕ}
    (hnew : i ∉ seen) (hel : eligible i) (hlt : (d i : WithTop T) < h.headValue) :
    ∃ is', Keeps d bound eligible (insert i seen) is' (h.replaceHead heap i (d i)) := by
  by_cases hfull : h.data.length = h.nbNeighbours
  · exact hh.replaceHead_full heap hbound hnew hel hlt hfull
  · exact ⟨_, hh.replaceHead_room heap hnew hel hfull⟩

@[simp] theorem nbNeighbours_replaceHead (heap : StdHeap (Entry.value : Entry T → WithTop T))
    (h : IndexHeapSTL T) (i : ℕ) (value : T) :
    (h.replaceHead heap i value).nbNeighbours = h.nbNeighbours := by
  rw [IndexHeapSTL.replaceHead]
  split_ifs <;> rfl

/-- **What is read off the heap**: the points with their distances, and the index 0 at
    infinity where they are too few. -/
theorem Keeps.getData (hh : Keeps d bound eligible seen is h) {data : List (Entry T)}
    (hdata : data.Perm h.data) :
    ((getData ⟨data, h.nbNeighbours⟩).1.zip (getData ⟨data, h.nbNeighbours⟩).2).Perm
      (is.map (fun i => (i, (d i : WithTop T))) ++
        List.replicate (h.nbNeighbours - is.length) (0, ⊤)) := by
  have hlen := (hdata.trans hh.perm).length_eq
  have hzip : ∀ xs : List (Entry T), (xs.map Entry.index).zip (xs.map Entry.value) =
      xs.map fun entry => (entry.index, entry.value) := fun xs => by
    rw [List.zip_map', List.map_inj_left]
    exact fun _ _ => rfl
  rw [IndexHeapSTL.getData, hzip, List.map_append, List.map_replicate]
  refine (((hdata.trans hh.perm).map _).append_right _).trans ?_
  rcases hh.length_le.lt_or_eq with hlt | heq
  · rw [entries_of_lt hlt] at hlen ⊢
    rw [List.length_append, List.length_map, List.length_singleton] at hlen
    have hsplit : h.nbNeighbours - is.length = 1 + (h.nbNeighbours - data.length) := by omega
    rw [List.map_append, List.map_map, List.append_assoc, hsplit, ← List.replicate_append_replicate]
    simp [Function.comp_def, Entry.missing]
  · rw [entries_of_le heq.ge] at hlen ⊢
    rw [hlen, List.length_map, List.map_map]
    simp [Function.comp_def, Entry.missing]

end IndexHeapSTL

end SmartScreen.Nabo
