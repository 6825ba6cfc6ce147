import Governance.Proofs.Canonical.Equivalence
import Governance.Proofs.Canonical.Listing

/-!
# Canonical text reads back

Reading the canonical text of a value gives its normal form, which is its own normal form, so that
its canonical text is the text that was read.
-/

set_option autoImplicit false

namespace Governance.Canonical

variable {registry : FieldRegistry}

/-! ## Normal forms -/

theorem pairwise_sortByText (items : List Json) :
    (sortByText items).Pairwise fun a b => text a ≤ text b := by
  rw [← List.pairwise_map (f := text), map_text_sortByText]
  exact pairwise_mergeSort_texts _

theorem sortByText_of_pairwise {items : List Json}
    (ordered : items.Pairwise fun a b => text a ≤ text b) : sortByText items = items := by
  have paired : (items.map fun item => (text item, item)).Pairwise
      fun a b => decide (a.1 ≤ b.1) = true :=
    List.pairwise_map.mpr (ordered.imp decide_eq_true)
  rw [sortByText, List.mergeSort_of_pairwise paired, List.map_map]
  exact List.map_id items

theorem exists_of_mem_arranged {keys : List String} {items : List Json} {item : Json}
    (listed : item ∈ if registry.isOrderless keys then sortByText (arrangedItems registry keys items)
      else arrangedItems registry keys items) :
    ∃ given ∈ items, arranged registry keys given = item := by
  rw [arrangedItems_eq_map] at listed
  split at listed
  · exact List.mem_map.mp ((sortByText_perm _).mem_iff.mp listed)
  · exact List.mem_map.mp listed

theorem arranged_arranged (keys : List String) (value : Json) :
    arranged registry keys (arranged registry keys value) = arranged registry keys value := by
  induction value using Json.induct generalizing keys with
  | null | bool | int | float | str => rfl
  | arr items ih =>
      have settled : ∀ list : List Json, (∀ item ∈ list, ∃ given ∈ items, arranged registry keys given = item) →
          arrangedItems registry keys list = list := by
        intro list each
        rw [arrangedItems_eq_map]
        refine (List.map_congr_left fun item listed => ?_).trans (List.map_id _)
        obtain ⟨given, present, rfl⟩ := each item listed
        exact ih given present keys
      rw [arranged, arranged, settled _ fun item => exists_of_mem_arranged]
      split
      · rw [sortByText_of_pairwise (pairwise_sortByText _)]
      · rfl
  | obj members ih =>
      rw [arranged, arranged, arrangedMembers_eq_map, arrangedMembers_eq_map, List.map_map]
      refine congrArg Json.obj (List.map_congr_left fun member listed => ?_)
      exact Prod.ext rfl (ih member listed _)

theorem wellFormed_arranged {keys : List String} {value : Json} (known : value.WellFormed) :
    (arranged registry keys value).WellFormed := by
  induction value using Json.induct generalizing keys with
  | null | bool | int | float | str => exact known
  | arr items ih =>
      rw [arranged, Json.wellFormed_arr]
      intro item listed
      obtain ⟨given, present, rfl⟩ := exists_of_mem_arranged listed
      exact ih given present (Json.wellFormed_arr.mp known given present)
  | obj members ih =>
      obtain ⟨ascending, values⟩ := Json.wellFormed_obj.mp known
      rw [arranged, Json.wellFormed_obj, arrangedMembers_eq_map]
      refine ⟨List.pairwise_map.mpr ascending, fun member listed => ?_⟩
      obtain ⟨given, present, rfl⟩ := List.mem_map.mp listed
      exact ih given present (values given present)

theorem nesting_arranged {keys : List String} {value : Json} {depth : Nat}
    (shallow : value.nesting ≤ depth) : (arranged registry keys value).nesting ≤ depth := by
  induction value using Json.induct generalizing keys depth with
  | null | bool | int | float | str => exact shallow
  | arr items ih =>
      obtain ⟨inner, rfl, within⟩ := Json.nesting_arr_le_iff.mp shallow
      rw [arranged, Json.nesting_arr_le_iff]
      refine ⟨inner, rfl, fun item listed => ?_⟩
      obtain ⟨given, present, rfl⟩ := exists_of_mem_arranged listed
      exact ih given present (within given present)
  | obj members ih =>
      obtain ⟨inner, rfl, within⟩ := Json.nesting_obj_le_iff.mp shallow
      rw [arranged, Json.nesting_obj_le_iff, arrangedMembers_eq_map]
      refine ⟨inner, rfl, fun member listed => ?_⟩
      obtain ⟨given, present, rfl⟩ := List.mem_map.mp listed
      exact ih given present (within given present)

/-! ## Texts -/

theorem readsAs_text {value : Json} (known : value.WellFormed) (free : value.floatFree = true) :
    Json.ReadsAs (text value).toList value := by
  rw [text_eq_compact]
  refine ⟨listed value, Json.spells_compact ?_, nesting_listed_iff.mpr (Nat.le_refl _),
    normalized_listed known⟩
  exact legible_listed (Json.legible_of_wellFormed known free)

/-- A value without floats that is nested at most 127 deep has a canonical text. It reads as the
normal form of the value, and the canonical text of what was read is the same again. -/
theorem textAt_readsBack (registry : FieldRegistry) (path : FieldPath) (value : Json)
    (known : value.WellFormed) (free : value.floatFree = true) (shallow : value.nesting ≤ 127) :
    ∃ normal written, valueAt registry path value = .ok normal ∧
      textAt registry path value = .ok written ∧
      Json.parseValue? written = some normal ∧
      textAt registry path normal = .ok written := by
  have freeNormal := @floatFree_arranged registry path.keys value free
  have reads := readsAs_text (@wellFormed_arranged registry path.keys value known) freeNormal
  refine ⟨_, _, normalize_eq_arranged registry free, textAt_eq free, ?_, ?_⟩
  · exact Json.parseValue?_of_readsAs reads (nesting_arranged shallow)
  · rw [textAt_eq freeNormal, arranged_arranged]

def escapedMembers : Json :=
  .obj [("a", .int (-7)), ("a\n", .str "é\"\\\t"),
    ("blocked_actions", .arr [.str "b", .arr [], .str "a"])]

theorem textAt_readsBack_escapedMembers :
    ∃ normal written, valueAt .standard .root escapedMembers = .ok normal ∧
      textAt .standard .root escapedMembers = .ok written ∧
      Json.parseValue? written = some normal ∧ textAt .standard .root normal = .ok written :=
  textAt_readsBack .standard .root escapedMembers (by decide) (by decide) (by decide)

end Governance.Canonical
