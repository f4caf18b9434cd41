/-
  The statistics of a cross-validation (`CrossValidationStats.h`).

  The guesses of all results are put one after the other; two maps count the correct
  and the incorrect ones by their actual labels, and are merged.
-/
import SmartScreen.Classifier.CrossValidation
import SmartScreen.Lib.OrderedMap

namespace SmartScreen

structure CrossValidationResult where
  brokenDown : List Guess := []

/-- What `calculateStats` has been given. -/
structure CrossValidationStats where
  results : List CrossValidationResult := []

/-- The lists are parts of a list, in its order, and together all of it; `p` says which
    part an element is in. -/
structure Splits {β : Type} (p : β → Prop) (all yes no : List β) : Prop where
  yes_sublist : yes.Sublist all
  no_sublist : no.Sublist all
  perm : (yes ++ no).Perm all
  yes : ∀ x ∈ yes, p x
  no : ∀ x ∈ no, ¬ p x

namespace CrossValidationStats

def correctClassificationsOf (cvResult : CrossValidationResult) : List Guess :=
  cvResult.brokenDown.filter fun guess => guess.classifiedLabel = guess.actualLabel

def incorrectClassificationsOf (cvResult : CrossValidationResult) : List Guess :=
  cvResult.brokenDown.filter fun guess => guess.classifiedLabel ≠ guess.actualLabel

def allClassificationsOf (cvResult : CrossValidationResult) : List Guess := cvResult.brokenDown

def correctClassificationStats (guesses : List Guess) : OrderedMap ℚ ℕ :=
  .collect Guess.actualLabel
    (fun guess n => n + if guess.actualLabel = guess.classifiedLabel then 1 else 0) guesses

def incorrectClassificationStats (guesses : List Guess) : OrderedMap ℚ ℕ :=
  .collect Guess.actualLabel
    (fun guess n => n + if guess.actualLabel ≠ guess.classifiedLabel then 1 else 0) guesses

section
variable (s : CrossValidationStats)

def correctClassifications : List Guess := s.results.flatMap correctClassificationsOf

def incorrectClassifications : List Guess := s.results.flatMap incorrectClassificationsOf

def allClassifications : List Guess := s.results.flatMap allClassificationsOf

def classificationStats : OrderedMap ℚ (ℕ × ℕ) :=
  let guesses := s.allClassifications
  let correct := correctClassificationStats guesses
  let incorrect := incorrectClassificationStats guesses
  let result := OrderedMap.collect Prod.fst (fun corr p => (corr.2, p.2)) correct.entries
  OrderedMap.collect Prod.fst (fun incorr p => (p.1, incorr.2)) incorrect.entries result

end

/-! ## The lists -/

variable (s : CrossValidationStats)

theorem correctClassifications_eq :
    s.correctClassifications =
      s.allClassifications.filter fun guess => guess.classifiedLabel = guess.actualLabel :=
  List.filter_flatMap.symm

theorem incorrectClassifications_eq :
    s.incorrectClassifications =
      s.allClassifications.filter fun guess => guess.classifiedLabel ≠ guess.actualLabel :=
  List.filter_flatMap.symm

theorem splits_classifications :
    Splits (fun guess : Guess => guess.classifiedLabel = guess.actualLabel) s.allClassifications
      s.correctClassifications s.incorrectClassifications := by
  rw [correctClassifications_eq, incorrectClassifications_eq]
  refine ⟨List.filter_sublist, List.filter_sublist, ?_, ?_, ?_⟩
  · simpa using List.filter_append_perm
      (fun guess : Guess => decide (guess.classifiedLabel = guess.actualLabel)) s.allClassifications
  · intro x hx
    simpa using (List.mem_filter.1 hx).2
  · intro x hx
    simpa using (List.mem_filter.1 hx).2

/-! ## The maps -/

/-- Counting in a loop. -/
theorem foldl_count {β : Type} (p : β → Prop) [DecidablePred p] (xs : List β) (n : ℕ) :
    xs.foldl (fun n x => n + if p x then 1 else 0) n = n + xs.countP p := by
  induction xs generalizing n with
  | nil => rfl
  | cons x xs ih =>
    rw [List.foldl_cons, ih, List.countP_cons]
    simp only [decide_eq_true_eq]
    omega

/-- A map that counts the guesses of a kind, by their actual labels. -/
theorem find_collect_count (p : Guess → Prop) [DecidablePred p] (guesses : List Guess) (l : ℚ) :
    (OrderedMap.collect Guess.actualLabel (fun guess n => n + if p guess then 1 else 0)
        guesses).find l =
      if l ∈ guesses.map Guess.actualLabel then
        some ((guesses.filter p).countP fun guess => guess.actualLabel = l)
      else none := by
  rw [OrderedMap.find_collect, OrderedMap.find_empty, Option.getD_none, foldl_count, zero_add,
    List.countP_filter, List.countP_filter]
  simp only [Bool.and_comm]

/-- **The merged map** has the counts of both. -/
theorem find_classificationStats (l : ℚ) :
    s.classificationStats.find l =
      if l ∈ s.allClassifications.map Guess.actualLabel then
        some (s.correctClassifications.countP fun guess => guess.actualLabel = l,
          s.incorrectClassifications.countP fun guess => guess.actualLabel = l)
      else none := by
  have hcorrect : (correctClassificationStats s.allClassifications).find l =
      if l ∈ s.allClassifications.map Guess.actualLabel then
        some (s.correctClassifications.countP fun guess => guess.actualLabel = l) else none := by
    rw [correctClassificationStats, find_collect_count, correctClassifications_eq]
    simp only [eq_comm]
  have hincorrect : (incorrectClassificationStats s.allClassifications).find l =
      if l ∈ s.allClassifications.map Guess.actualLabel then
        some (s.incorrectClassifications.countP fun guess => guess.actualLabel = l) else none := by
    rw [incorrectClassificationStats, find_collect_count, incorrectClassifications_eq]
    simp only [ne_comm]
  rw [classificationStats]
  simp only [OrderedMap.find_collect_entries, hcorrect, hincorrect, OrderedMap.find_empty]
  split_ifs <;> rfl

/-- Each guess is counted once. -/
theorem countP_add_countP (l : ℚ) :
    s.correctClassifications.countP (fun guess => guess.actualLabel = l) +
        s.incorrectClassifications.countP (fun guess => guess.actualLabel = l) =
      (s.allClassifications.map Guess.actualLabel).count l := by
  rw [← List.countP_append, s.splits_classifications.perm.countP_eq, List.count, List.countP_map]
  congr 1

theorem mem_keys_classificationStats {l : ℚ} :
    l ∈ s.classificationStats.keys ↔ l ∈ s.allClassifications.map Guess.actualLabel := by
  rw [OrderedMap.mem_keys_iff, find_classificationStats]
  split_ifs with h <;> simp [h]

/-- **Validation statistics add up.** -/
theorem classificationStats_add_up :
    Splits (fun guess : Guess => guess.classifiedLabel = guess.actualLabel) s.allClassifications
      s.correctClassifications s.incorrectClassifications ∧
    (∀ l, l ∈ s.classificationStats.keys ↔ ∃ guess ∈ s.allClassifications,
      guess.actualLabel = l) ∧
    (∀ l counts, s.classificationStats.find l = some counts →
      counts = (s.correctClassifications.countP fun guess => guess.actualLabel = l,
        s.incorrectClassifications.countP fun guess => guess.actualLabel = l)) ∧
    (s.classificationStats.entries.map fun entry => entry.2.1 + entry.2.2).sum =
      s.allClassifications.length := by
  have hfind : ∀ l counts, s.classificationStats.find l = some counts →
      counts = (s.correctClassifications.countP fun guess => guess.actualLabel = l,
        s.incorrectClassifications.countP fun guess => guess.actualLabel = l) := by
    intro l counts h
    rw [find_classificationStats] at h
    split_ifs at h
    exact (Option.some.inj h).symm
  refine ⟨s.splits_classifications, fun l => ?_, hfind, ?_⟩
  · rw [mem_keys_classificationStats, List.mem_map]
  · have hkeys : s.classificationStats.keys.Perm
        (s.allClassifications.map Guess.actualLabel).dedup := by
      rw [List.perm_ext_iff_of_nodup s.classificationStats.nodup_keys (List.nodup_dedup _)]
      intro l
      rw [mem_keys_classificationStats, List.mem_dedup]
    calc
      (s.classificationStats.entries.map fun entry => entry.2.1 + entry.2.2).sum
      _ = (s.classificationStats.keys.map
            fun l => (s.allClassifications.map Guess.actualLabel).count l).sum := by
        rw [OrderedMap.keys, List.map_map]
        congr 1
        refine List.map_congr_left fun entry hentry => ?_
        have hcounts := hfind entry.1 entry.2 (OrderedMap.find_eq_some_iff.2 hentry)
        rw [Function.comp_apply, ← countP_add_countP, hcounts]
      _ = ((s.allClassifications.map Guess.actualLabel).dedup.map
            fun l => (s.allClassifications.map Guess.actualLabel).count l).sum :=
        (hkeys.map _).sum_eq
      _ = (s.allClassifications.map Guess.actualLabel).length :=
        List.sum_map_count_dedup_eq_length _
      _ = s.allClassifications.length := List.length_map _

end CrossValidationStats

end SmartScreen
