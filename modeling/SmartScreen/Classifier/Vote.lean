/-
  The vote of the neighbours.

  `classifyOneEvent` counts the labels of the neighbours in a `std::map` and takes
  the first label with the largest count.

  * `Tallied` says that such a map holds the counts, sorted by the labels.
  * `Wins` says which label wins, without the map.
  * `vote_eq_some_iff`: the label that is taken is the one that wins.
  * `classifyOneEvent_eq_ok` is the result of a classification.
  * Labels are `double`s, so one may be NaN (`LabelType`).  A map that compares by `<` takes
    NaN for equal to any other label: the vote is right iff labels and NaN are not mixed
    (`majority_vote`).
-/
import Mathlib.Data.List.MinMax
import SmartScreen.Classifier.Totality
import SmartScreen.Lib.OrderedMap

namespace SmartScreen

variable {K : Type} [LinearOrder K]

/-! ## Counting -/

/-- The map after the votes have been counted. -/
structure Tallied (votes : List K) (labels : List (K × ℕ)) : Prop where
  sorted : labels.Pairwise fun x y => x.1 < y.1
  mem_iff : ∀ l n, (l, n) ∈ labels ↔ 0 < n ∧ n = votes.count l

/-- Counting a label changes its entry in the map. -/
theorem countLabel_eq (l : K) (labels : List (K × ℕ)) :
    countLabel l labels = OrderedMap.modifyEntries l (· + 1) labels := by
  induction labels with
  | nil => rfl
  | cons x labels ih =>
    obtain ⟨k, n⟩ := x
    rw [countLabel, OrderedMap.modifyEntries, ih]
    rcases lt_trichotomy l k with hlt | rfl | hgt
    · rw [if_neg hlt.asymm, if_pos hlt, if_pos hlt]
    · simp
    · rw [if_pos hgt, if_neg hgt.asymm, if_neg hgt.ne']

theorem foldl_countLabel (votes : List K) (labels : OrderedMap K ℕ) :
    votes.foldl (fun labels l => countLabel l labels) labels.entries =
      (OrderedMap.collect id (fun _ n => n + 1) votes labels).entries := by
  induction votes generalizing labels with
  | nil => rfl
  | cons l votes ih =>
    rw [List.foldl_cons, countLabel_eq]
    exact ih (labels.modify l (· + 1))

/-- **Counting the votes.** -/
theorem tallied (votes : List K) :
    Tallied votes (votes.foldl (fun labels l => countLabel l labels) []) := by
  have hlabels := foldl_countLabel votes {}
  refine ⟨hlabels ▸ OrderedMap.sorted _, ?_⟩
  intro l n
  have hcount : (fun n : ℕ => n + 1)^[(votes.filter fun x => id x = l).length] 0 =
      votes.count l := by
    rw [List.count, List.countP_eq_length_filter]
    exact (Nat.succ_iterate 0 _).trans (Nat.zero_add _)
  rw [hlabels, ← OrderedMap.find_eq_some_iff, OrderedMap.find_collect, List.map_id,
    OrderedMap.find_empty, Option.getD_none, List.foldl_const, hcount]
  split_ifs with hmem
  · have hpos : 0 < votes.count l := List.count_pos_iff.2 hmem
    rw [Option.some.injEq, eq_comm]
    constructor
    · rintro rfl
      exact ⟨hpos, rfl⟩
    · exact And.right
  · have hzero : votes.count l = 0 := List.count_eq_zero_of_not_mem hmem
    rw [hzero]
    constructor
    · rintro ⟨⟩
    · rintro ⟨hpos, rfl⟩
      exact absurd hpos (lt_irrefl 0)

/-! ## The winner -/

/-- No label has more votes, and no smaller label as many. -/
structure Wins (votes : List K) (label : K) : Prop where
  mem : label ∈ votes
  most : ∀ l, votes.count l ≤ votes.count label
  smallest : ∀ l, votes.count l = votes.count label → label ≤ l

theorem Wins.unique {votes : List K} {l l' : K} (h : Wins votes l) (h' : Wins votes l') :
    l = l' := by
  have hcount : votes.count l = votes.count l' := le_antisymm (h'.most l) (h.most l')
  exact le_antisymm (h.smallest l' hcount.symm) (h'.smallest l hcount)

theorem Wins.of_perm {votes votes' : List K} {label : K} (h : Wins votes label)
    (hp : votes'.Perm votes) : Wins votes' label := by
  refine ⟨hp.mem_iff.2 h.mem, fun l => ?_, fun l hl => ?_⟩
  · rw [hp.count_eq, hp.count_eq]
    exact h.most l
  · rw [hp.count_eq, hp.count_eq] at hl
    exact h.smallest l hl

theorem maxLabel_eq_argmax {L : Type} (labels : List (L × ℕ)) :
    maxLabel labels = labels.argmax Prod.snd := by
  unfold maxLabel List.argmax
  congr 1
  ext best x : 2
  cases best with
  | none => rfl
  | some b => by_cases h : b.2 < x.2 <;> simp [List.argAux, h]

/-- An entry with the largest count that comes first has the smallest label. -/
theorem Tallied.wins {votes : List K} {labels : List (K × ℕ)} (h : Tallied votes labels)
    {label : K} {n : ℕ} (hmax : maxLabel labels = some (label, n)) :
    Wins votes label ∧ n = votes.count label := by
  rw [maxLabel_eq_argmax, List.argmax_eq_some_iff] at hmax
  obtain ⟨hmem, hle, hfirst⟩ := hmax
  obtain ⟨hpos, rfl⟩ := (h.mem_iff _ _).1 hmem
  refine ⟨⟨List.count_pos_iff.1 hpos, fun l => ?_, fun l hl => ?_⟩, rfl⟩
  · rcases Nat.eq_zero_or_pos (votes.count l) with hzero | hl
    · omega
    · exact hle _ ((h.mem_iff l _).2 ⟨hl, rfl⟩)
  · have hlmem : (l, votes.count l) ∈ labels := (h.mem_iff l _).2 ⟨hl ▸ hpos, rfl⟩
    have hidx : labels.idxOf (label, votes.count label) ≤ labels.idxOf (l, votes.count l) := by
      convert hfirst _ hlmem hl.ge
    have hi := List.idxOf_lt_length_of_mem hmem
    have hj := List.idxOf_lt_length_of_mem hlmem
    rcases hidx.lt_or_eq with hlt | heq
    · have hsorted := List.pairwise_iff_getElem.1 h.sorted _ _ hi hj hlt
      rw [List.getElem_idxOf hi, List.getElem_idxOf hj] at hsorted
      exact hsorted.le
    · have hsame := (List.idxOf_inj hmem).1 heq
      cases hsame
      exact le_rfl

/-- **The label that `classifyOneEvent` takes is the one that wins the vote.** -/
theorem vote_eq_some_iff {votes : List K} {label : K} {n : ℕ} :
    vote votes = some (label, n) ↔ Wins votes label ∧ n = votes.count label := by
  constructor
  · exact (tallied votes).wins
  · rintro ⟨hwins, rfl⟩
    obtain ⟨⟨l, n⟩, hvote⟩ := DataClassifier.vote_isSome (List.ne_nil_of_mem hwins.mem)
    obtain ⟨hwins', rfl⟩ := (tallied votes).wins hvote
    rw [hvote, hwins.unique hwins']

/-- Some label wins. -/
theorem exists_wins {votes : List K} (hne : votes ≠ []) : ∃ label, Wins votes label := by
  obtain ⟨⟨l, n⟩, hvote⟩ := DataClassifier.vote_isSome hne
  exact ⟨l, (vote_eq_some_iff.1 hvote).1⟩

/-! ## NaN -/

/-- `EventMetaData::LabelType`, a `double`: NaN, or a value that has its place in the order. -/
inductive LabelType (K : Type) where
  | nan
  | number (x : K)
deriving DecidableEq

namespace LabelType

/-- NaN is not smaller than any label, nor is any label smaller than NaN. -/
instance : LT (LabelType K) where
  lt
    | .number x, .number y => x < y
    | _, _ => False

instance : DecidableLT (LabelType K)
  | .number x, .number y => inferInstanceAs (Decidable (x < y))
  | .nan, .number _ | .number _, .nan | .nan, .nan => inferInstanceAs (Decidable False)

theorem number_lt_number {x y : K} : number x < number y ↔ x < y := Iff.rfl

theorem not_nan_lt (l : LabelType K) : ¬ nan < l := by rintro ⟨⟩

theorem not_lt_nan (l : LabelType K) : ¬ l < nan := by cases l <;> rintro ⟨⟩

end LabelType

/-- A count is the same among the numbers of labels. -/
theorem countLabel_number (l : K) (labels : List (K × ℕ)) :
    countLabel (LabelType.number l) (labels.map (Prod.map .number id)) =
      (countLabel l labels).map (Prod.map .number id) := by
  induction labels with
  | nil => rfl
  | cons x labels ih =>
    obtain ⟨k, n⟩ := x
    simp only [List.map_cons, Prod.map_apply, id, countLabel, LabelType.number_lt_number]
    split_ifs
    · rw [ih]; rfl
    · rfl
    · rfl

theorem maxLabel_map {L M : Type} (g : L → M) (labels : List (L × ℕ)) :
    maxLabel (labels.map (Prod.map g id)) = (maxLabel labels).map (Prod.map g id) := by
  unfold maxLabel
  rw [List.foldl_map]
  refine @List.foldl_hom _ _ _ (Option.map (Prod.map g id)) _ _ labels none fun best x => ?_
  cases best with
  | none => rfl
  | some b =>
    simp only [Option.map_some, Prod.map_snd, id]
    split_ifs <;> rfl

/-- **Without NaN** the vote is the one of the numbers. -/
theorem vote_number (votes : List K) :
    vote (votes.map LabelType.number) = (vote votes).map (Prod.map .number id) := by
  have hcounts : (votes.map LabelType.number).foldl (fun labels l => countLabel l labels) [] =
      (votes.foldl (fun labels l => countLabel l labels) []).map (Prod.map .number id) := by
    rw [List.foldl_map]
    exact @List.foldl_hom _ _ _ (List.map (Prod.map LabelType.number id)) _ _ votes []
      fun labels l => countLabel_number l labels
  rw [vote, hcounts, maxLabel_map, vote]

/-- **A NaN that is counted first** takes all the votes. -/
theorem vote_nan (votes : List (LabelType K)) :
    vote (.nan :: votes) = some (.nan, votes.length + 1) := by
  have hcounts : ∀ (votes : List (LabelType K)) (n : ℕ),
      votes.foldl (fun labels l => countLabel l labels) [(.nan, n)] =
        [(.nan, n + votes.length)] := by
    intro votes
    induction votes with
    | nil => intro n; rfl
    | cons l votes ih =>
      intro n
      rw [List.foldl_cons, countLabel, if_neg (LabelType.not_nan_lt l),
        if_neg (LabelType.not_lt_nan l), ih, List.length_cons, Nat.add_right_comm, Nat.add_assoc]
  rw [vote, List.foldl_cons, countLabel, hcounts, Nat.add_comm]
  rfl

/-! ## The result of a classification -/

namespace DataClassifier

open Fallible Loop

variable {α F : Type} [FloatArith F] {lib : Libraries α F} {c : DataClassifier F}
  {f r : EventFeatures F} {indices : List ℕ}

/-- The labels of the neighbours that the search finds. -/
def votes (lib : Libraries α F) (c : DataClassifier F) (f : EventFeatures F) : List ℚ :=
  match neighbors lib c f with
  | .error _ => []
  | .ok indices => indices.filterMap c.neighborLabel

theorem neighbors_ok (h : neighbors lib c f = .ok indices) :
    ∃ nns, c.nns = some nns ∧ numberOfNeighbors < c.labeledMatrix.cols ∧
      nns.cloud.rows ≤ (c.normalized f).length ∧
      normalizeEvent c.normalizationVectors f.featureVector = .ok (c.normalized f) ∧
      indices = lib.nearest nns (c.normalized f) numberOfNeighbors := by
  cases hnns : c.nns with
  | none =>
    rw [neighbors, hnns] at h
    cases h
  | some nns =>
    rcases neighbors_cases lib f hnns with ⟨-, heq⟩ | ⟨-, -, heq⟩ | ⟨hfits, hallows, heq⟩
    · rw [heq] at h
      cases h
    · rw [heq] at h
      cases h
    · rw [heq] at h
      cases h
      have hquery : normalizeEvent c.normalizationVectors f.featureVector = .ok (c.normalized f) :=
        if_pos hfits
      refine ⟨nns, rfl, not_le.1 fun hcols => hallows (Or.inl hcols), ?_, hquery, rfl⟩
      rw [normalizeEvent_ok hquery]
      exact not_lt.1 fun hrows => hallows (Or.inr hrows)

/-- The neighbours in another order have the same labels. -/
theorem mapM_perm {L : Type} {labelOf : ℕ → Option L} {indices' : List ℕ} {labels : List L}
    (hlabels : indices.mapM labelOf = some labels) (hp : indices'.Perm indices) :
    ∃ labels', indices'.mapM labelOf = some labels' ∧ labels'.Perm labels := by
  obtain ⟨labels', hlabels', -⟩ := mapM_isSome fun i hi =>
    exists_of_mapM hlabels i (hp.subset hi)
  refine ⟨labels', hlabels', ?_⟩
  rw [← filterMap_of_mapM hlabels, ← filterMap_of_mapM hlabels']
  exact hp.filterMap _

/-- What is asked of the label that is picked among the labels of the neighbours: no other
    label outnumbers it, it is the smallest of those, the certainty is its share of the votes,
    and the order of the neighbours does not matter. -/
structure MajorityPick (lib : Libraries α F) (c : DataClassifier F)
    (labelOf : ℕ → Option (LabelType K)) (f : EventFeatures F) (indices : List ℕ)
    (labels : List (LabelType K)) (label : LabelType K) (certainty : ℚ) : Prop where
  picked : c.pickLabel lib labelOf f = .ok (label, certainty)
  mem : label ∈ labels
  most : ∀ l, labels.count l ≤ labels.count label
  smallest : ∀ l ∈ labels, labels.count l = labels.count label → l = label ∨ label < l
  certainty_eq : certainty * numberOfNeighbors = labels.count label
  order : ∀ (lib' : Libraries α F) (indices' : List ℕ), neighbors lib' c f = .ok indices' →
    indices'.Perm indices → c.pickLabel lib' labelOf f = .ok (label, certainty)

section
variable {labelOf : ℕ → Option (LabelType K)} {labels : List (LabelType K)}

theorem pickLabel_of_vote {label : LabelType K} {n : ℕ}
    (hmany : numberOfNeighbors < c.eventLabelManager.labeledEvents.length)
    (hsearch : neighbors lib c f = .ok indices) (hlabels : indices.mapM labelOf = some labels)
    (hvote : vote labels = some (label, n)) :
    c.pickLabel lib labelOf f = .ok (label, (n : ℚ) / numberOfNeighbors) :=
  pickLabel_eq_ok_iff.2 ⟨hmany, indices, labels, n, hsearch, hlabels, hvote, rfl⟩

/-- A label that every order of the neighbours votes for as often as they have it. -/
theorem majorityPick_of_vote {label : LabelType K}
    (hmany : numberOfNeighbors < c.eventLabelManager.labeledEvents.length)
    (hsearch : neighbors lib c f = .ok indices) (hlabels : indices.mapM labelOf = some labels)
    (hvote : ∀ labels', labels'.Perm labels → vote labels' = some (label, labels.count label))
    (hmem : label ∈ labels) (hmost : ∀ l, labels.count l ≤ labels.count label)
    (hsmallest : ∀ l ∈ labels, labels.count l = labels.count label → l = label ∨ label < l) :
    MajorityPick lib c labelOf f indices labels label
      ((labels.count label : ℚ) / numberOfNeighbors) where
  picked := pickLabel_of_vote hmany hsearch hlabels (hvote labels (.refl _))
  mem := hmem
  most := hmost
  smallest := hsmallest
  certainty_eq := div_mul_cancel₀ _ (by decide)
  order := by
    intro lib' indices' hsearch' hp
    obtain ⟨labels', hlabels', hperm⟩ := mapM_perm hlabels hp
    exact pickLabel_of_vote hmany hsearch' hlabels' (hvote labels' hperm)

omit [LinearOrder K] in
theorem exists_numbers (h : ∀ l ∈ labels, l ≠ .nan) : ∃ xs : List K, labels = xs.map .number := by
  induction labels with
  | nil => exact ⟨[], rfl⟩
  | cons l labels ih =>
    obtain ⟨xs, rfl⟩ := ih fun l hl => h l (List.mem_cons_of_mem _ hl)
    cases l with
    | nan => exact absurd rfl (h .nan List.mem_cons_self)
    | number x => exact ⟨x :: xs, rfl⟩

omit [LinearOrder K] in
/-- Some search finds the neighbours in another order. -/
theorem exists_search (hsearch : neighbors lib c f = .ok indices) (indices' : List ℕ) :
    ∃ lib' : Libraries α F, neighbors lib' c f = .ok indices' := by
  refine ⟨{ lib with nearest := fun _ _ _ => indices' }, ?_⟩
  obtain ⟨nns, hnns, -⟩ := neighbors_ok hsearch
  rcases neighbors_cases lib f hnns with ⟨-, heq⟩ | ⟨-, -, heq⟩ | ⟨hfits, hallows, -⟩
  · rw [heq] at hsearch
    cases hsearch
  · rw [heq] at hsearch
    cases hsearch
  · rcases neighbors_cases { lib with nearest := fun _ _ _ => indices' } f hnns with
      ⟨hnot, -⟩ | ⟨-, hrefuses, -⟩ | ⟨-, -, heq⟩
    · exact absurd hfits hnot
    · exact absurd hrefuses hallows
    · exact heq

/-- Without NaN the label that wins is picked. -/
theorem majorityPick_of_numbers
    (hmany : numberOfNeighbors < c.eventLabelManager.labeledEvents.length)
    (hsearch : neighbors lib c f = .ok indices) (hlabels : indices.mapM labelOf = some labels)
    (hne : labels ≠ []) (h : ∀ l ∈ labels, l ≠ .nan) :
    ∃ label certainty, MajorityPick lib c labelOf f indices labels label certainty := by
  have hinj : Function.Injective (LabelType.number : K → LabelType K) := by rintro x y ⟨⟩; rfl
  obtain ⟨xs, rfl⟩ := exists_numbers h
  have hxs : xs ≠ [] := by simpa using hne
  obtain ⟨x, hwins⟩ := exists_wins hxs
  have hcount : ∀ y : K, (xs.map LabelType.number).count (.number y) = xs.count y :=
    fun y => List.count_map_of_injective _ _ hinj y
  refine ⟨.number x, _, majorityPick_of_vote hmany hsearch hlabels ?_
    (List.mem_map_of_mem hwins.mem) ?_ ?_⟩
  · intro labels' hperm
    obtain ⟨ys, rfl⟩ := exists_numbers fun l hl => h l (hperm.subset hl)
    have hys : ys.Perm xs := (List.map_perm_map_iff hinj).1 hperm
    rw [vote_number, vote_eq_some_iff.2 ⟨hwins.of_perm hys, rfl⟩, hcount, hys.count_eq]
    rfl
  · intro l
    cases l with
    | nan => rw [List.count_eq_zero_of_not_mem (by simp)]; exact Nat.zero_le _
    | number y => rw [hcount, hcount]; exact hwins.most y
  · intro l hl hle
    obtain ⟨y, -, rfl⟩ := List.mem_map.1 hl
    rw [hcount, hcount] at hle
    rcases (hwins.smallest y hle).eq_or_lt with rfl | hlt
    · exact Or.inl rfl
    · exact Or.inr hlt

/-- If all labels are NaN, it is picked. -/
theorem majorityPick_of_nan
    (hmany : numberOfNeighbors < c.eventLabelManager.labeledEvents.length)
    (hsearch : neighbors lib c f = .ok indices) (hlabels : indices.mapM labelOf = some labels)
    (hne : labels ≠ []) (h : ∀ l ∈ labels, l = .nan) :
    ∃ label certainty, MajorityPick lib c labelOf f indices labels label certainty := by
  have hcount : labels.count .nan = labels.length :=
    List.count_eq_length.2 fun l hl => (h l hl).symm
  obtain ⟨l, hl⟩ := List.exists_mem_of_ne_nil labels hne
  refine ⟨.nan, _, majorityPick_of_vote hmany hsearch hlabels ?_ (h l hl ▸ hl) ?_ ?_⟩
  · rintro labels' hperm
    cases labels' with
    | nil => exact absurd (List.nil_perm.1 hperm) hne
    | cons l' labels' =>
      rw [h l' (hperm.subset List.mem_cons_self), vote_nan, hcount, ← hperm.length_eq,
        List.length_cons]
  · intro l
    rw [hcount]
    exact List.count_le_length
  · exact fun l hl _ => Or.inl (h l hl)

/-- **Majority vote.**  The search has found some neighbours, and they have labels.
    Then the label that is picked is the one that a majority vote asks for iff none of the
    neighbours' labels is NaN, or all are. -/
theorem majority_vote
    (hmany : numberOfNeighbors < c.eventLabelManager.labeledEvents.length)
    (hsearch : neighbors lib c f = .ok indices) (hne : indices ≠ [])
    (hlabels : indices.mapM labelOf = some labels) :
    (∃ label certainty, MajorityPick lib c labelOf f indices labels label certainty) ↔
      (∀ l ∈ labels, l ≠ .nan) ∨ ∀ l ∈ labels, l = .nan := by
  have hlen := (mapM_eq_some.1 hlabels).length_eq
  have hvotes : labels ≠ [] := by
    rintro rfl
    exact hne (List.eq_nil_of_length_eq_zero hlen)
  constructor
  · rintro ⟨label, certainty, h⟩
    refine or_iff_not_imp_left.2 fun hsome => ?_
    obtain ⟨l, hl, rfl⟩ : ∃ l ∈ labels, l = .nan := by simpa using hsome
    -- in another order the neighbour with the label NaN is counted first
    obtain ⟨i, hi, hlabel⟩ : ∃ i ∈ indices, labelOf i = some .nan := by
      rw [← filterMap_of_mapM hlabels] at hl
      simpa using hl
    have hp : (i :: indices.erase i).Perm indices := (List.perm_cons_erase hi).symm
    obtain ⟨lib', hsearch'⟩ := exists_search hsearch (i :: indices.erase i)
    obtain ⟨labels', hlabels', hperm⟩ := mapM_perm hlabels hp
    have hfirst : ∃ rest, labels' = .nan :: rest := by
      rw [← filterMap_of_mapM hlabels', List.filterMap_cons_some hlabel]
      exact ⟨_, rfl⟩
    obtain ⟨rest, rfl⟩ := hfirst
    have hpick := pickLabel_of_vote hmany hsearch' hlabels' (vote_nan rest)
    rw [h.order lib' _ hsearch' hp] at hpick
    cases hpick
    -- it takes the votes of all the others
    have hcount : labels.count .nan = labels.length := by
      have hshare := h.certainty_eq
      rw [div_mul_cancel₀ _ (by decide)] at hshare
      rw [← hperm.length_eq, List.length_cons]
      exact_mod_cast hshare.symm
    exact fun l hl => (List.count_eq_length.1 hcount l hl).symm
  · rintro (h | h)
    · exact majorityPick_of_numbers hmany hsearch hlabels hvotes h
    · exact majorityPick_of_nan hmany hsearch hlabels hvotes h

end

/-- Six labelled events, two with each of the labels 1, 2 and 3. -/
def pairedEvents : DataClassifier ℚ where
  eventLabelManager := { labeledEvents := [1, 1, 2, 2, 3, 3].map ({} : EventFeatures ℚ).withLabel }
  labeledMatrix := ⟨0, List.replicate 6 []⟩
  nns := some ⟨{}⟩

/-- A search that finds the indices 2, 4, 0, 3 and 1. -/
def shufflingLibraries : Libraries ℚ ℚ where
  phaseShift _ := 0
  rms _ := []
  harmonics _ := []
  nearest _ _ _ := [2, 4, 0, 3, 1]
  resized _ _ _ := []

/-- Two labels with two votes each: the smaller one wins. -/
theorem majority_vote_tie :
    let labelOf := fun i => (pairedEvents.neighborLabel i).map LabelType.number
    let labels := [2, 3, 1, 2, 1].map LabelType.number
    (∃ label certainty, MajorityPick shufflingLibraries pairedEvents labelOf {} [2, 4, 0, 3, 1]
      labels label certainty) ∧
    pairedEvents.pickLabel shufflingLibraries labelOf {} = .ok (.number 1, 2 / 5) := by
  refine ⟨(majority_vote (by decide) rfl (List.cons_ne_nil _ _) rfl).2 (Or.inl (by decide)), ?_⟩
  decide +kernel

/-- One neighbour has the label NaN, and four have the label 3: NaN is picked if it comes
    first, with five votes. -/
theorem majority_vote_nan :
    let labelOf := fun i => if i = 2 then some LabelType.nan else some (LabelType.number (3 : ℚ))
    let labels := [.nan, .number 3, .number 3, .number 3, .number 3]
    pairedEvents.pickLabel shufflingLibraries labelOf {} = .ok (.nan, 1) ∧
      ¬ ∃ label certainty, MajorityPick shufflingLibraries pairedEvents labelOf {} [2, 4, 0, 3, 1]
        labels label certainty := by
  have hpick : pairedEvents.pickLabel shufflingLibraries
      (fun i => if i = 2 then some LabelType.nan else some (LabelType.number (3 : ℚ))) {} =
        .ok (.nan, 1) := by decide +kernel
  refine ⟨hpick, ?_⟩
  rintro ⟨label, certainty, h⟩
  have hpicked := h.picked
  rw [hpick] at hpicked
  cases hpicked
  exact absurd h.certainty_eq (by decide +kernel)

end DataClassifier

end SmartScreen
