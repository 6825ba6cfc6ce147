import Governance.Proofs.Text.Split
import Governance.Text.Blank
import Mathlib.Data.List.DropRight

/-!
# Trimming

Blanks around a text make no difference to the text that is left without them.
-/

set_option autoImplicit false

namespace Governance.Text

theorem toList_trim (text : String) :
    (trim text).toList = (text.toList.dropWhile isBlank).rdropWhile isBlank := by
  rw [trim, String.toList_ofList]
  rfl

structure Trimmed (text : List Char) : Prop where
  first : ∀ c, text.head? = some c → isBlank c = false
  last : ∀ c, text.getLast? = some c → isBlank c = false

theorem trimmed_of_not_blank {text : List Char} (clean : ∀ c ∈ text, isBlank c = false) :
    Trimmed text :=
  ⟨fun c first => clean c (List.mem_of_head? first),
    fun c last => clean c (List.mem_of_getLast? last)⟩

theorem Trimmed.append {front back : List Char} (trimmedFront : Trimmed front)
    (trimmedBack : Trimmed back) : Trimmed (front ++ back) := by
  constructor
  · intro c first
    rw [List.head?_append, Option.or_eq_some_iff] at first
    obtain front | ⟨_, back⟩ := first
    · exact trimmedFront.first c front
    · exact trimmedBack.first c back
  · intro c last
    rw [List.getLast?_append, Option.or_eq_some_iff] at last
    obtain back | ⟨_, front⟩ := last
    · exact trimmedBack.last c back
    · exact trimmedFront.last c front

theorem trim_of_trimmed {text : String} (trimmed : Trimmed text.toList) : trim text = text := by
  apply String.toList_inj.mp
  have front : text.toList.dropWhile isBlank = text.toList := by
    apply List.dropWhile_eq_self_iff.mpr
    intro proper blank
    rw [trimmed.first _ (List.head?_eq_getElem? ▸ List.getElem?_eq_getElem proper)] at blank
    cases blank
  rw [toList_trim, front]
  apply List.rdropWhile_eq_self_iff.mpr
  intro proper blank
  rw [trimmed.last _ (List.getLast?_eq_some_getLast proper)] at blank
  cases blank

theorem rdropWhile_append_of_pos {kept : List Char} {after : List Char}
    (back : ∀ c ∈ after, isBlank c = true) :
    (kept ++ after).rdropWhile isBlank = kept.rdropWhile isBlank := by
  have blank : ∀ c ∈ after.reverse, isBlank c = true := fun c listed =>
    back c (List.mem_reverse.mp listed)
  rw [List.rdropWhile, List.reverse_append, List.dropWhile_append_of_pos blank]
  rfl

theorem trim_surrounded {before text after : String}
    (front : ∀ c ∈ before.toList, isBlank c = true) (back : ∀ c ∈ after.toList, isBlank c = true) :
    trim (before ++ text ++ after) = trim text := by
  apply String.toList_inj.mp
  rw [toList_trim, toList_trim, String.toList_append, String.toList_append, List.append_assoc,
    List.dropWhile_append_of_pos front, List.dropWhile_append]
  split
  · -- nothing but blanks stands in the middle
    rename_i empty
    rw [List.isEmpty_iff.mp empty, List.dropWhile_eq_nil_iff.mpr back]
  · rw [rdropWhile_append_of_pos back]

theorem trimmed_trim (text : String) : Trimmed (trim text).toList := by
  rw [toList_trim]
  constructor
  · intro c first
    obtain ⟨rest, whole⟩ := List.rdropWhile_prefix isBlank (l := text.toList.dropWhile isBlank)
    apply eq_false_of_head?_dropWhile
    rw [← whole, List.head?_append, first]
    rfl
  · intro c last
    have proper : (text.toList.dropWhile isBlank).rdropWhile isBlank ≠ [] := by
      intro empty
      rw [empty] at last
      cases last
    have visible := List.rdropWhile_last_not isBlank _ proper
    rw [List.getLast?_eq_some_getLast proper] at last
    cases last
    exact Bool.not_eq_true _ ▸ visible

theorem exists_surrounded (text : String) : ∃ before after : String,
    (∀ c ∈ before.toList, isBlank c = true) ∧ (∀ c ∈ after.toList, isBlank c = true) ∧
      text = before ++ trim text ++ after := by
  refine ⟨String.ofList (text.toList.takeWhile isBlank),
    String.ofList ((text.toList.dropWhile isBlank).rtakeWhile isBlank), ?_, ?_, ?_⟩
  · intro c listed
    rw [String.toList_ofList] at listed
    exact List.mem_takeWhile_imp listed
  · intro c listed
    rw [String.toList_ofList] at listed
    exact List.mem_rtakeWhile_imp listed
  · apply String.toList_inj.mp
    rw [String.toList_append, String.toList_append, toList_trim, String.toList_ofList,
      String.toList_ofList, List.append_assoc, List.rdropWhile_append_rtakeWhile,
      List.takeWhile_append_dropWhile]

end Governance.Text
