import Governance.FieldPath.Text
import Governance.Proofs.FieldPath.Keys
import Governance.Proofs.Text.Split
import Mathlib.Data.List.TakeWhile

/-!
# Path text reads back

The text of a path of plain keys reads as the path, with one exception: a path of a single key that
consists of blanks has a blank text, which is refused.
-/

set_option autoImplicit false

namespace Governance

namespace FieldPath

/-! ## Plain keys -/

theorem isPlainKey_iff {key : String} :
    isPlainKey key = true ↔ key.toList ≠ [] ∧ '.' ∉ key.toList ∧ '[' ∉ key.toList ∧
      ']' ∉ key.toList ∧ position? key.toList = none := by
  simp only [isPlainKey, Bool.and_eq_true, Bool.not_eq_true', List.isEmpty_eq_false_iff,
    List.all_eq_true, decide_eq_true_eq, Option.isNone_iff_eq_none]
  constructor
  · intro plain
    obtain ⟨⟨nonempty, apart⟩, noPosition⟩ := plain
    refine ⟨nonempty, ?_, ?_, ?_, noPosition⟩ <;> intro listed <;> simpa using apart _ listed
  · intro plain
    obtain ⟨nonempty, noDot, noOpening, noClosing, noPosition⟩ := plain
    refine ⟨⟨nonempty, fun c listed => ⟨⟨?_, ?_⟩, ?_⟩⟩, noPosition⟩ <;> rintro rfl <;> contradiction

theorem readPart_of_isPlainKey {key : String} (plain : isPlainKey key = true) :
    readPart key.toList = .ok [.key key] := by
  obtain ⟨nonempty, _, noOpening, noClosing, noPosition⟩ := isPlainKey_iff.mp plain
  have kept : ∀ c ∈ key.toList, (c ≠ '[' : Bool) = true := by
    intro c listed
    simp only [decide_eq_true_eq]
    rintro rfl
    exact noOpening listed
  have name : key.toList.takeWhile (· ≠ '[') = key.toList := List.takeWhile_eq_self_iff.mpr kept
  have indices : key.toList.dropWhile (· ≠ '[') = [] := List.dropWhile_eq_nil_iff.mpr kept
  have noClose : key.toList.contains ']' = false := by simpa using noClosing
  have filled : key.toList.isEmpty = false := List.isEmpty_eq_false_iff.mpr nonempty
  simp only [readPart, filled, name, indices, readName, noClose, noPosition, String.ofList_toList,
    List.isEmpty_nil, Bool.false_eq_true, if_false, if_true]

theorem readParts_of_isPlainKey {keys : List String}
    (plain : ∀ key ∈ keys, isPlainKey key = true) :
    readParts (keys.map String.toList) = .ok (keys.map .key) := by
  induction keys with
  | nil => rfl
  | cons key keys ih =>
      rw [List.map_cons, readParts, readPart_of_isPlainKey (plain key List.mem_cons_self),
        ih (List.forall_mem_cons.mp plain).2]
      rfl

/-! ## Paths of plain keys -/

theorem toList_display_ofKeys (key : String) (keys : List String) :
    (ofKeys (key :: keys)).display.toList
      = key.toList ++ (keys.map String.toList).flatMap ('.' :: ·) := by
  have behind : (keys.map Segment.key).map segmentText = keys.map fun key => "." ++ key := by
    rw [List.map_map]
    rfl
  rw [display, ofKeys, List.map_cons]
  simp only [behind, String.toList_append, String.toList_join, List.flatMap_map]
  rfl

theorem readParts_display_ofKeys {key : String} {keys : List String}
    (plain : ∀ given ∈ key :: keys, isPlainKey given = true) :
    readParts (Text.splitOn '.' (ofKeys (key :: keys)).display.toList)
      = .ok ((key :: keys).map .key) := by
  have noDot : ∀ piece ∈ (key :: keys).map String.toList, '.' ∉ piece := by
    intro piece listed
    obtain ⟨given, present, rfl⟩ := List.mem_map.mp listed
    exact (isPlainKey_iff.mp (plain given present)).2.1
  rw [toList_display_ofKeys, Text.splitOn_joined noDot, ← List.map_cons,
    readParts_of_isPlainKey plain]

/-- The text of a path of plain keys reads as the path, unless it is blank. -/
theorem parse_display_ofKeys {key : String} {keys : List String}
    (plain : ∀ given ∈ key :: keys, isPlainKey given = true)
    (filled : Text.isBlankText (ofKeys (key :: keys)).display = false) :
    parse (ofKeys (key :: keys)).display = .ok (ofKeys (key :: keys)) := by
  rw [parse, filled, readParts_display_ofKeys plain]
  rfl

theorem display_singleton (key : String) : (ofKeys [key]).display = key := by
  simp [display, ofKeys]

theorem isBlankText_display_iff {key : String} {keys : List String} :
    Text.isBlankText (ofKeys (key :: keys)).display = true ↔
      keys = [] ∧ Text.isBlankText key = true := by
  cases keys with
  | nil => rw [display_singleton, eq_self, true_and]
  | cons next keys =>
      rw [Text.isBlankText, toList_display_ofKeys, List.map_cons, List.flatMap_cons]
      have dot : Text.isBlank '.' = false := by decide
      simp [dot]

end FieldPath

end Governance
