import Mathlib.Data.List.Basic

/-!
# Stable sorting

Sorting is stable, so it sorts any part of a list as it sorts the whole. What comes before
everything else is sorted by itself, and stands in front.
-/

set_option autoImplicit false

namespace Governance

variable {α : Type} {le : α → α → Bool}

theorem mergeSort_cons_eq (trans : ∀ a b c, le a b = true → le b c = true → le a c = true)
    (total : ∀ a b, (le a b || le b a) = true) (item : α) (list : List α) :
    (item :: list).mergeSort le =
      (list.mergeSort le).filter (fun other => !le item other) ++
        item :: (list.mergeSort le).filter (fun other => le item other) := by
  obtain ⟨front, back, whole, rest, before⟩ := List.mergeSort_cons trans total item list
  have sorted := List.pairwise_mergeSort trans total (item :: list)
  rw [whole] at sorted
  obtain ⟨after, _⟩ := List.pairwise_cons.mp (List.pairwise_append.mp sorted).2.1
  -- the sorted rest is parted into what comes before the item and what does not
  have front_before : ∀ other ∈ front, le item other = false := by
    intro other listed
    simpa using before other listed
  rw [whole, rest, List.filter_append, List.filter_append]
  congr 1
  · rw [List.filter_eq_self.mpr (by simpa using front_before),
      List.filter_eq_nil_iff.mpr (by simpa using after), List.append_nil]
  · rw [List.filter_eq_nil_iff.mpr (by simpa using front_before),
      List.filter_eq_self.mpr after, List.nil_append]

theorem filter_mergeSort (trans : ∀ a b c, le a b = true → le b c = true → le a c = true)
    (total : ∀ a b, (le a b || le b a) = true) (keep : α → Bool) (list : List α) :
    (list.mergeSort le).filter keep = (list.filter keep).mergeSort le := by
  induction list with
  | nil => rw [List.mergeSort_nil, List.filter_nil, List.mergeSort_nil]
  | cons item rest ih =>
      cases kept : keep item with
      | true =>
          rw [List.filter_cons_of_pos kept, mergeSort_cons_eq trans total,
            mergeSort_cons_eq trans total, ← ih, List.filter_append, List.filter_cons_of_pos kept,
            List.filter_comm keep, List.filter_comm keep]
      | false =>
          obtain ⟨front, back, whole, shape, _⟩ := List.mergeSort_cons trans total item rest
          have dropped : ¬ keep item = true := Bool.eq_false_iff.mp kept
          rw [List.filter_cons_of_neg dropped, ← ih, whole, shape, List.filter_append,
            List.filter_append, List.filter_cons_of_neg dropped]

theorem eq_filter_append_filter {first : α → Bool} {list : List α}
    (sorted : list.Pairwise fun a b => first b = true → first a = true) :
    list = list.filter first ++ list.filter fun item => !first item := by
  induction list with
  | nil => rfl
  | cons item rest ih =>
      obtain ⟨before, sorted⟩ := List.pairwise_cons.mp sorted
      cases front : first item with
      | true =>
          rw [List.filter_cons_of_pos front, List.filter_cons_of_neg (by simp [front]),
            List.cons_append, ← ih sorted]
      | false =>
          have none_first : ∀ other ∈ item :: rest, first other = false := by
            refine List.forall_mem_cons.mpr ⟨front, fun other listed => ?_⟩
            rw [Bool.eq_false_iff]
            intro other_first
            rw [before other listed other_first] at front
            cases front
          rw [List.filter_eq_nil_iff.mpr (by simpa using none_first),
            List.filter_eq_self.mpr (by simpa using none_first), List.nil_append]

/-- What comes before everything else is sorted by itself, and in front. -/
theorem mergeSort_eq_append (trans : ∀ a b c, le a b = true → le b c = true → le a c = true)
    (total : ∀ a b, (le a b || le b a) = true) {first : α → Bool}
    (downward : ∀ a b, le a b = true → first b = true → first a = true) (list : List α) :
    list.mergeSort le =
      (list.filter first).mergeSort le ++ (list.filter fun item => !first item).mergeSort le := by
  rw [← filter_mergeSort trans total, ← filter_mergeSort trans total]
  refine eq_filter_append_filter ((List.pairwise_mergeSort trans total list).imp ?_)
  exact fun {a b} before => downward a b before

end Governance
