import Governance.Text.Split
import Mathlib.Data.List.TakeWhile

/-!
# Joining and splitting

Joined words stand behind the first one, each after a separator, and pieces that do not hold the
separator are found again where they have been joined with it.
-/

set_option autoImplicit false

namespace Governance.Text

variable {α : Type}

theorem intercalate_cons (separator word : List α) (words : List (List α)) :
    separator.intercalate (word :: words) = word ++ words.flatMap fun word => separator ++ word := by
  induction words generalizing word with
  | nil => simp [List.intercalate]
  | cons next words ih =>
      rw [List.flatMap_cons, List.append_assoc, ← ih next]
      simp [List.intercalate]

theorem eq_false_of_head?_dropWhile {kept : α → Bool} {list : List α} {item : α}
    (first : (list.dropWhile kept).head? = some item) : kept item = false := by
  have stops := List.head?_dropWhile_not kept list
  rwa [first] at stops

/-- A text ends where a condition on its items fails first. -/
theorem span_append {kept : α → Bool} {front rest : List α}
    (inside : ∀ item ∈ front, kept item = true)
    (ends : ∀ item, rest.head? = some item → kept item = false) :
    (front ++ rest).takeWhile kept = front ∧ (front ++ rest).dropWhile kept = rest := by
  have stops : rest.takeWhile kept = [] ∧ rest.dropWhile kept = rest := by
    cases rest with
    | nil => exact ⟨rfl, rfl⟩
    | cons item more =>
        have other := ends item rfl
        exact ⟨by rw [List.takeWhile_cons, other]; rfl, by rw [List.dropWhile_cons, other]; rfl⟩
  rw [List.takeWhile_append_of_pos inside, List.dropWhile_append_of_pos inside, stops.1, stops.2,
    List.append_nil]
  exact ⟨rfl, rfl⟩

theorem span_append_of_stop {kept : α → Bool} (front : List α) {rest : List α}
    (ends : ∀ item, rest.head? = some item → kept item = false) :
    (front ++ rest).takeWhile kept = front.takeWhile kept ∧
      (front ++ rest).dropWhile kept = front.dropWhile kept ++ rest := by
  have whole : front.takeWhile kept ++ (front.dropWhile kept ++ rest) = front ++ rest := by
    rw [← List.append_assoc, List.takeWhile_append_dropWhile]
  rw [← whole]
  apply span_append
  · intro item listed
    exact List.mem_takeWhile_imp listed
  · intro item first
    rw [List.head?_append, Option.or_eq_some_iff] at first
    obtain stopped | ⟨_, stopped⟩ := first
    · exact eq_false_of_head?_dropWhile stopped
    · exact ends item stopped

variable [DecidableEq α]

theorem splitOn_of_not_mem {separator : α} {piece : List α} (absent : separator ∉ piece) :
    splitOn separator piece = [piece] := by
  induction piece with
  | nil => rfl
  | cons item rest ih =>
      rw [splitOn, if_neg (Ne.symm (List.ne_of_not_mem_cons absent)),
        ih (List.not_mem_of_not_mem_cons absent)]

theorem splitOn_append {separator : α} {piece : List α} (absent : separator ∉ piece)
    (rest : List α) : splitOn separator (piece ++ separator :: rest) = piece :: splitOn separator rest := by
  induction piece with
  | nil => rw [List.nil_append, splitOn, if_pos rfl]
  | cons item piece ih =>
      rw [List.cons_append, splitOn, if_neg (Ne.symm (List.ne_of_not_mem_cons absent)),
        ih (List.not_mem_of_not_mem_cons absent)]

theorem splitOn_joined {separator : α} {piece : List α} {pieces : List (List α)}
    (absent : ∀ given ∈ piece :: pieces, separator ∉ given) :
    splitOn separator (piece ++ pieces.flatMap (separator :: ·)) = piece :: pieces := by
  induction pieces generalizing piece with
  | nil =>
      rw [List.flatMap_nil, List.append_nil]
      exact splitOn_of_not_mem (absent piece List.mem_cons_self)
  | cons next pieces ih =>
      rw [List.flatMap_cons, List.cons_append, splitOn_append (absent piece List.mem_cons_self),
        ih (List.forall_mem_cons.mp absent).2]

theorem not_mem_of_mem_splitOn {separator : α} {list piece : List α}
    (listed : piece ∈ splitOn separator list) : separator ∉ piece := by
  induction list generalizing piece with
  | nil =>
      cases List.mem_singleton.mp listed
      exact List.not_mem_nil
  | cons item rest ih =>
      rw [splitOn] at listed
      split at listed
      · rcases List.mem_cons.mp listed with rfl | later
        · exact List.not_mem_nil
        · exact ih later
      · rename_i different
        obtain ⟨first, pieces, shape⟩ := List.exists_cons_of_ne_nil (splitOn_ne_nil separator rest)
        rw [shape] at listed ih
        rcases List.mem_cons.mp listed with rfl | later
        · rw [List.mem_cons, not_or]
          exact ⟨Ne.symm different, ih List.mem_cons_self⟩
        · exact ih (List.mem_cons_of_mem _ later)

theorem eq_of_splitOn_eq_singleton {separator : α} {list piece : List α}
    (single : splitOn separator list = [piece]) : list = piece := by
  rw [← intercalate_splitOn separator list, single, intercalate_cons, List.flatMap_nil,
    List.append_nil]

theorem splitOnce?_of_not_mem {separator : α} {list : List α} (absent : separator ∉ list) :
    splitOnce? separator list = none := by
  induction list with
  | nil => rfl
  | cons item rest ih =>
      rw [splitOnce?, if_neg (Ne.symm (List.ne_of_not_mem_cons absent)),
        ih (List.not_mem_of_not_mem_cons absent)]
      rfl

theorem splitOnce?_append {separator : α} {piece : List α}
    (absent : separator ∉ piece) (rest : List α) :
    splitOnce? separator (piece ++ separator :: rest) = some (piece, rest) := by
  induction piece with
  | nil => rw [List.nil_append, splitOnce?, if_pos rfl]
  | cons item piece ih =>
      rw [List.cons_append, splitOnce?, if_neg (Ne.symm (List.ne_of_not_mem_cons absent)),
        ih (List.not_mem_of_not_mem_cons absent)]
      rfl

end Governance.Text
