/-
  The training set and the test set of a fold.

  `dropPartition` exchanges a partition with as many events at the end, which it then
  drops.  The two do not meet unless the partition is the last one (`exchanged_perm_append`);
  that one is not exchanged, although the events at the end are not its own when the
  number of events is not divisible by the number of partitions.

  * `complementary_iff`: when training set and test set have all events together;
  * `complementary_iff_of_nodup`: the same for pairwise different events.
-/
import SmartScreen.Classifier.CrossValidation

namespace SmartScreen

variable {F β : Type}

/-! ## Exchanging elements -/

section
variable {xs : List β} {i j k b m : ℕ}

theorem swapAt_perm (xs : List β) (i j : ℕ) : (swapAt xs i j).Perm xs := by
  unfold swapAt
  split
  · rename_i x y hx hy
    obtain ⟨hi, rfl⟩ := List.getElem?_eq_some_iff.1 hx
    obtain ⟨hj, rfl⟩ := List.getElem?_eq_some_iff.1 hy
    exact List.set_set_perm hi hj
  · exact .refl _

theorem getElem?_swapAt_of_ne (hi : k ≠ i) (hj : k ≠ j) : (swapAt xs i j)[k]? = xs[k]? := by
  unfold swapAt
  split
  · rw [List.getElem?_set_ne hj.symm, List.getElem?_set_ne hi.symm]
  · rfl

theorem getElem?_swapAt_right (hi : i < xs.length) (hj : j < xs.length) :
    (swapAt xs i j)[j]? = xs[i]? := by
  unfold swapAt
  rw [List.getElem?_eq_getElem hi, List.getElem?_eq_getElem hj]
  dsimp only
  rw [List.getElem?_set_self (by rwa [List.length_set])]

/-- The `m` elements from `b` on are exchanged with those at the end, the last one first. -/
def exchanged (xs : List β) (b m : ℕ) : List β :=
  (List.range m).foldl (fun ys k => swapAt ys (b + k) (xs.length - 1 - k)) xs

theorem exchanged_succ (xs : List β) (b m : ℕ) :
    exchanged xs b (m + 1) = swapAt (exchanged xs b m) (b + m) (xs.length - 1 - m) := by
  unfold exchanged
  rw [List.range_succ, List.foldl_append]
  rfl

theorem exchanged_perm (xs : List β) (b m : ℕ) : (exchanged xs b m).Perm xs := by
  induction m with
  | zero => exact .refl _
  | succ m ih =>
    rw [exchanged_succ]
    exact (swapAt_perm _ _ _).trans ih

/-- What comes to the end is the block, and what is not exchanged yet is in its place. -/
theorem getElem?_exchanged (hm : b + 2 * m ≤ xs.length) :
    (∀ k < m, (exchanged xs b m)[xs.length - 1 - k]? = xs[b + k]?) ∧
      ∀ k, m ≤ k → b + k + m < xs.length → (exchanged xs b m)[b + k]? = xs[b + k]? := by
  induction m with
  | zero => exact ⟨fun k hk => absurd hk (Nat.not_lt_zero k), fun k _ _ => rfl⟩
  | succ m ih =>
    obtain ⟨hback, hrest⟩ := ih (by omega)
    have hlen := (exchanged_perm xs b m).length_eq
    rw [exchanged_succ]
    constructor
    · intro k hk
      rcases Nat.lt_succ_iff_lt_or_eq.1 hk with hk | rfl
      · rw [getElem?_swapAt_of_ne (by omega) (by omega), hback k hk]
      · rw [getElem?_swapAt_right (by omega) (by omega), hrest k le_rfl (by omega)]
    · intro k hk hlt
      rw [getElem?_swapAt_of_ne (by omega) (by omega), hrest k (by omega) (by omega)]

theorem drop_exchanged (hm : b + 2 * m ≤ xs.length) :
    (exchanged xs b m).drop (xs.length - m) = ((xs.drop b).take m).reverse := by
  have hlen := (exchanged_perm xs b m).length_eq
  refine List.ext_getElem? fun t => ?_
  rw [List.getElem?_drop]
  by_cases ht : t < m
  · have hblock : ((xs.drop b).take m).length = m := by
      rw [List.length_take, List.length_drop]
      omega
    rw [List.getElem?_reverse (by rwa [hblock]), hblock, List.getElem?_take, if_pos (by omega),
      List.getElem?_drop, ← (getElem?_exchanged hm).1 (m - 1 - t) (by omega)]
    congr 1
    omega
  · rw [List.getElem?_eq_none (by omega), List.getElem?_eq_none]
    rw [List.length_reverse, List.length_take]
    omega

/-- **A block that does not meet its counterpart** is what is cut off after the exchange. -/
theorem exchanged_perm_append (hm : b + 2 * m ≤ xs.length) :
    ((exchanged xs b m).take (xs.length - m) ++ (xs.drop b).take m).Perm xs := by
  have hblock : ((xs.drop b).take m).Perm ((exchanged xs b m).drop (xs.length - m)) := by
    rw [drop_exchanged hm]
    exact (List.reverse_perm _).symm
  refine (List.Perm.append_left _ hblock).trans ?_
  rw [List.take_append_drop]
  exact exchanged_perm xs b m

/-- The first `e` elements are those behind `r` elements iff it is so with `r` and `e`
    exchanged. -/
theorem take_perm_drop_iff (ys : List β) (e r : ℕ) :
    (ys.take e).Perm (ys.drop r) ↔ (ys.take r).Perm (ys.drop e) := by
  have hsplit : (ys.take r ++ ys.drop r).Perm (ys.take e ++ ys.drop e) := by
    rw [List.take_append_drop, List.take_append_drop]
  constructor
  · intro h
    have hfront : (ys.take e ++ ys.take r).Perm (ys.take e ++ ys.drop e) :=
      (h.append_right _).trans (List.perm_append_comm.trans hsplit)
    exact (List.perm_append_left_iff _).1 hfront
  · intro h
    have hback : (ys.drop e ++ ys.take e).Perm (ys.drop e ++ ys.drop r) :=
      List.perm_append_comm.trans (hsplit.symm.trans (h.append_right _))
    exact (List.perm_append_left_iff _).1 hback

end

/-! ## Partitions -/

section
variable {labels : EventLabelManager F} {n i j : ℕ}

/-- All partitions together end inside the vector. -/
theorem elementsPerPartition_mul_le (labels : EventLabelManager F) (n : ℕ) :
    elementsPerPartition labels n * n ≤ labels.labeledEvents.length :=
  Nat.div_mul_le_self _ _

theorem partitionEnd_eq (hi : i < n) :
    partitionEnd labels n i = partitionBegin labels n i + elementsPerPartition labels n := by
  have hle : elementsPerPartition labels n * (i + 1) ≤ elementsPerPartition labels n * n :=
    Nat.mul_le_mul_left _ hi
  have hall := elementsPerPartition_mul_le labels n
  unfold partitionEnd partitionBegin
  rw [Nat.mul_comm, min_eq_right (hle.trans hall), Nat.mul_succ]

theorem partitionEnd_le (labels : EventLabelManager F) (n i : ℕ) :
    partitionEnd labels n i ≤ labels.labeledEvents.length :=
  min_le_left _ _

theorem getPartition_eq (hi : i < n) : getPartition labels n i =
    .ok ((labels.labeledEvents.drop (partitionBegin labels n i)).take
      (elementsPerPartition labels n)) := by
  unfold getPartition
  rw [if_pos hi, List.drop_take, partitionEnd_eq hi, Nat.add_sub_cancel_left]

/-- A partition that is not the last one is exchanged and dropped. -/
theorem dropPartition_eq (hi : i + 1 < n) : dropPartition labels n i =
    .ok { labels with
      labeledEvents := (exchanged labels.labeledEvents (partitionBegin labels n i)
        (elementsPerPartition labels n)).take
          (labels.labeledEvents.length - elementsPerPartition labels n) } := by
  have hlt : i < n := by omega
  unfold dropPartition
  rw [if_pos hlt]
  dsimp only
  rw [if_pos (by omega), partitionEnd_eq hlt, Nat.add_sub_cancel_left]
  rfl

/-- In place of the last one the events at the end are dropped. -/
theorem dropPartition_last (hi : i + 1 = n) : dropPartition labels n i =
    .ok { labels with
      labeledEvents := labels.labeledEvents.take
        (labels.labeledEvents.length - elementsPerPartition labels n) } := by
  unfold dropPartition
  rw [if_pos (by omega)]
  dsimp only
  rw [if_neg (by omega)]

/-- Different partitions have no indices in common. -/
theorem disjoint_partitions (hi : i < n) (hj : j < n) (hij : i ≠ j) (k : ℕ) :
    ¬ ((partitionBegin labels n i ≤ k ∧ k < partitionEnd labels n i) ∧
      partitionBegin labels n j ≤ k ∧ k < partitionEnd labels n j) := by
  rw [partitionEnd_eq hi, partitionEnd_eq hj]
  unfold partitionBegin
  rintro ⟨⟨hik, hki⟩, hjk, hkj⟩
  rcases Nat.lt_or_gt_of_ne hij with hlt | hlt
  · have hle := Nat.mul_le_mul_left (elementsPerPartition labels n) hlt
    rw [Nat.mul_succ] at hle
    omega
  · have hle := Nat.mul_le_mul_left (elementsPerPartition labels n) hlt
    rw [Nat.mul_succ] at hle
    omega

/-- The sets of a fold: training set and test set have all events together, the iterators
    stay inside the vector, and other folds have other events. -/
structure Complementary (labels : EventLabelManager F) (n i : ℕ) : Prop where
  perm : ∃ training test, dropPartition labels n i = .ok training ∧
    getPartition labels n i = .ok test ∧
    (training.labeledEvents ++ test).Perm labels.labeledEvents
  inside : partitionBegin labels n i ≤ partitionEnd labels n i ∧
    partitionEnd labels n i ≤ labels.labeledEvents.length ∧
    partitionEnd labels n i - partitionBegin labels n i ≤ labels.labeledEvents.length ∧
    elementsPerPartition labels n ≤ labels.labeledEvents.length
  disjoint : ∀ j < n, i ≠ j → ∀ k,
    ¬ ((partitionBegin labels n i ≤ k ∧ k < partitionEnd labels n i) ∧
      partitionBegin labels n j ≤ k ∧ k < partitionEnd labels n j)

/-- The iterators of a fold stay inside the vector, and other folds have other events. -/
theorem complementary_iff_perm (hi : i < n) : Complementary labels n i ↔ ∃ training test,
    dropPartition labels n i = .ok training ∧ getPartition labels n i = .ok test ∧
      (training.labeledEvents ++ test).Perm labels.labeledEvents := by
  have hend : partitionEnd labels n i = _ := partitionEnd_eq hi
  have hle := partitionEnd_le labels n i
  refine ⟨Complementary.perm, fun h => ⟨h, ⟨?_, hle, ?_, ?_⟩, fun j hj hij k => ?_⟩⟩
  · omega
  · omega
  · omega
  · exact disjoint_partitions hi hj hij k

/-- The last partition ends in front of the events that are in no partition. -/
theorem partitionBegin_add_of_last (labels : EventLabelManager F) (hi : i + 1 = n) :
    partitionBegin labels n i + elementsPerPartition labels n =
      labels.labeledEvents.length - labels.labeledEvents.length % n := by
  have hdiv := Nat.div_add_mod' labels.labeledEvents.length n
  unfold partitionBegin elementsPerPartition
  rw [← Nat.mul_succ, Nat.succ_eq_add_one, hi]
  omega

/-- What is dropped is the test set, but for the last partition. -/
theorem training_append_test_iff (hi : i < n) : (∃ training test,
    dropPartition labels n i = .ok training ∧ getPartition labels n i = .ok test ∧
      (training.labeledEvents ++ test).Perm labels.labeledEvents) ↔
      (i + 1 < n ∨
        ((labels.labeledEvents.drop (partitionBegin labels n i)).take
            (labels.labeledEvents.length % n)).Perm
          (labels.labeledEvents.drop
            (labels.labeledEvents.length - labels.labeledEvents.length % n))) := by
  have hall := elementsPerPartition_mul_le labels n
  by_cases hlast : i + 1 < n
  · refine iff_of_true ⟨_, _, dropPartition_eq hlast, getPartition_eq hi, ?_⟩ (Or.inl hlast)
    -- the partition behind it leaves room for its counterpart at the end
    have hroom : elementsPerPartition labels n * (i + 1 + 1) ≤ labels.labeledEvents.length :=
      (Nat.mul_le_mul_left _ hlast).trans hall
    refine exchanged_perm_append ?_
    unfold partitionBegin
    rw [Nat.mul_succ, Nat.mul_succ] at hroom
    omega
  · have hn : i + 1 = n := by omega
    have hbegin := partitionBegin_add_of_last labels hn
    have hmodle := Nat.mod_le labels.labeledEvents.length n
    have htail : labels.labeledEvents.drop
          (labels.labeledEvents.length - elementsPerPartition labels n) =
        (labels.labeledEvents.drop (partitionBegin labels n i)).drop
          (labels.labeledEvents.length % n) := by
      rw [List.drop_drop]
      congr 1
      omega
    have hbehind : labels.labeledEvents.drop
          (labels.labeledEvents.length - labels.labeledEvents.length % n) =
        (labels.labeledEvents.drop (partitionBegin labels n i)).drop
          (elementsPerPartition labels n) := by
      rw [List.drop_drop, hbegin]
    rw [hbehind, ← take_perm_drop_iff, ← htail, dropPartition_last hn, getPartition_eq hi]
    constructor
    · rintro ⟨_, _, ⟨⟩, ⟨⟩, hperm⟩
      refine Or.inr ((List.perm_append_left_iff _).1 (hperm.trans ?_))
      rw [List.take_append_drop]
    · intro h
      refine ⟨_, _, rfl, rfl, (List.Perm.append_left _ (h.resolve_left hlast)).trans ?_⟩
      rw [List.take_append_drop]

/-- For different events the last partition has to end with the vector, or be empty. -/
theorem complementary_iff_of_nodup (hnodup : labels.labeledEvents.Nodup) (hi : i < n) :
    Complementary labels n i ↔
      (i + 1 < n ∨ labels.labeledEvents.length % n = 0 ∨ labels.labeledEvents.length < n) := by
  rw [complementary_iff_perm hi, training_append_test_iff hi]
  by_cases hlast : i + 1 < n
  · exact iff_of_true (Or.inl hlast) (Or.inl hlast)
  have hn : i + 1 = n := by omega
  refine or_congr_right ⟨fun hperm => ?_, ?_⟩
  · by_contra hcon
    obtain ⟨hmod, hlt⟩ := not_or.1 hcon
    have helements : 0 < elementsPerPartition labels n :=
      Nat.div_pos (not_lt.1 hlt) (by omega)
    have hbegin := partitionBegin_add_of_last labels hn
    have hmodle := Nat.mod_le labels.labeledEvents.length n
    -- the first event of the partition would be behind it once more
    obtain ⟨x, xs, hxs⟩ : ∃ x xs, labels.labeledEvents.drop (partitionBegin labels n i) =
        x :: xs := by
      refine List.exists_cons_of_length_pos ?_
      rw [List.length_drop]
      omega
    have hbehind : labels.labeledEvents.drop
          (labels.labeledEvents.length - labels.labeledEvents.length % n) =
        (x :: xs).drop (elementsPerPartition labels n) := by
      rw [← hxs, List.drop_drop, hbegin]
    obtain ⟨r, hr⟩ := Nat.exists_eq_succ_of_ne_zero hmod
    obtain ⟨e, he⟩ := Nat.exists_eq_succ_of_ne_zero helements.ne'
    have hmem : x ∈ (x :: xs).drop (elementsPerPartition labels n) := by
      rw [← hbehind, ← hperm.mem_iff, hxs, hr]
      exact List.mem_cons_self
    rw [he] at hmem
    have hnodup' : (x :: xs).Nodup := hxs ▸ hnodup.sublist (List.drop_sublist _ _)
    exact (List.nodup_cons.1 hnodup').1 (List.mem_of_mem_drop hmem)
  · rintro (hmod | hlt)
    · rw [hmod, Nat.sub_zero, List.take_zero, List.drop_of_length_le le_rfl]
    · have helements : elementsPerPartition labels n = 0 := Nat.div_eq_of_lt hlt
      unfold partitionBegin
      rw [helements, Nat.zero_mul, Nat.mod_eq_of_lt hlt, Nat.sub_self, List.drop_zero,
        List.take_of_length_le le_rfl]

/-- **Training set and test set are complementary** exactly if the partition is not the
    last one, or the events behind the last partition are as many from its beginning on, up
    to their order. -/
theorem complementary_iff (labels : EventLabelManager F) (hi : i < n) :
    Complementary labels n i ↔
      (i + 1 < n ∨
        ((labels.labeledEvents.drop (partitionBegin labels n i)).take
            (labels.labeledEvents.length % n)).Perm
          (labels.labeledEvents.drop
            (labels.labeledEvents.length - labels.labeledEvents.length % n))) :=
  (complementary_iff_perm hi).trans (training_append_test_iff hi)

/-- Three events. -/
def threeEvents : EventLabelManager ℚ where
  labeledEvents := (List.range 3).map fun id => { eventMetaData := { eventId := some id } }

/-- With two partitions, the second event stays in the training set of the second one, and
    the third event is in neither set. -/
theorem last_partition_not_dropped :
    ∃ training test, dropPartition threeEvents 2 1 = .ok training ∧
      getPartition threeEvents 2 1 = .ok test ∧
      training.labeledEvents.map (·.eventMetaData.eventId) = [some 0, some 1] ∧
      test.map (·.eventMetaData.eventId) = [some 1] ∧
      ¬ Complementary threeEvents 2 1 := by
  refine ⟨_, _, rfl, rfl, rfl, rfl, ?_⟩
  rintro ⟨⟨_, _, ⟨⟩, ⟨⟩, hperm⟩, -, -⟩
  have hmem := hperm.mem_iff (a := { eventMetaData := { eventId := some 2 } })
  revert hmem
  decide +kernel

/-- The first of two partitions of three events. -/
theorem complementary_first : Complementary threeEvents 2 0 :=
  (complementary_iff threeEvents (by decide)).2 (Or.inl (by decide))

end

end SmartScreen
