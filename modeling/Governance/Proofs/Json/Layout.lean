import Governance.Json.Text
import Governance.Proofs.Json.Reading
import Governance.Proofs.Text.Split

/-!
# Laid out values

The compact and the indented text of a value both spell the value, members in the order in which
they are listed. Left out are floats, and integers that no text is read as.
-/

set_option autoImplicit false

namespace Governance.Json

/-! ## Values whose text reads back -/

mutual

def legible : Json → Bool
  | .int value => intMin ≤ value && value ≤ intMax
  | .float _ => false
  | .arr items => legibleItems items
  | .obj members => legibleMembers members
  | _ => true
  termination_by structural value => value

def legibleItems : List Json → Bool
  | [] => true
  | item :: rest => legible item && legibleItems rest
  termination_by structural items => items

def legibleMembers : List (String × Json) → Bool
  | [] => true
  | (_, value) :: rest => legible value && legibleMembers rest
  termination_by structural members => members

end

theorem legibleItems_iff {items : List Json} :
    legibleItems items = true ↔ ∀ item ∈ items, item.legible = true := by
  induction items with
  | nil => simp [legibleItems]
  | cons item rest ih => simp [legibleItems, ih]

theorem legibleMembers_iff {members : List (String × Json)} :
    legibleMembers members = true ↔ ∀ member ∈ members, member.2.legible = true := by
  induction members with
  | nil => simp [legibleMembers]
  | cons member rest ih => simp [legibleMembers, ih]

@[simp] theorem legible_arr {items : List Json} :
    (arr items).legible = true ↔ ∀ item ∈ items, item.legible = true := by
  simp only [legible, legibleItems_iff]

@[simp] theorem legible_obj {members : List (String × Json)} :
    (obj members).legible = true ↔ ∀ member ∈ members, member.2.legible = true := by
  simp only [legible, legibleMembers_iff]

@[simp] theorem legible_str (text : String) : (str text).legible = true := rfl

@[simp] theorem legible_int {value : Int} :
    (int value).legible = true ↔ intMin ≤ value ∧ value ≤ intMax := by
  simp [legible]

theorem legible_of_wellFormed {value : Json} (known : value.WellFormed)
    (free : value.floatFree = true) : value.legible = true := by
  induction value using induct with
  | null | bool | str => rfl
  | int value => exact known
  | float => cases free
  | arr items ih =>
      exact legible_arr.mpr fun item listed =>
        ih item listed (wellFormed_arr.mp known item listed) (floatFree_arr.mp free item listed)
  | obj members ih =>
      exact legible_obj.mpr fun member listed =>
        ih member listed ((wellFormed_obj.mp known).2 member listed) (floatFree_obj.mp free member listed)

theorem spells_bool (value : Bool) : Spells (boolText value).toList (.bool value) := by
  cases value with
  | false => exact spells_false
  | true => exact spells_true

/-! ## Compact text -/

theorem compactItems_eq_map (items : List Json) : compactItems items = items.map compact := by
  induction items with
  | nil => rfl
  | cons item rest ih => rw [compactItems, ih, List.map_cons]

theorem compactMembers_eq_map (members : List (String × Json)) :
    compactMembers members
      = members.map fun member => quoted member.1 ++ ":" ++ compact member.2 := by
  induction members with
  | nil => rfl
  | cons member rest ih => rw [compactMembers, ih, List.map_cons]

theorem spells_compact {value : Json} (known : value.legible = true) :
    Spells value.compact.toList value := by
  induction value using induct with
  | null => exact spells_null
  | bool value => exact spells_bool value
  | int value =>
      simp only [legible, Bool.and_eq_true, decide_eq_true_eq] at known
      exact spells_int known.1 known.2
  | float => cases known
  | str text => exact spells_str text
  | arr items ih =>
      have each := fun item listed => ih item listed (legible_arr.mp known item listed)
      cases items with
      | nil => exact spells_arr_nil
      | cons item items =>
          have whole := @spells_arr (fun value => value.compact.toList) [] [] item items blank_nil
            blank_nil each
          simpa [compact, compactItems_eq_map, String.toList_intercalate, Text.intercalate_cons,
            List.flatMap_map, Function.comp_def] using whole
  | obj members ih =>
      have each := fun member listed => ih member listed (legible_obj.mp known member listed)
      cases members with
      | nil => exact spells_obj_nil
      | cons member members =>
          have whole := @spells_obj (fun value => value.compact.toList) [] [] [] member members
            blank_nil blank_nil blank_nil each
          simpa [compact, compactMembers_eq_map, String.toList_intercalate, Text.intercalate_cons,
            List.flatMap_map, writeMember, Function.comp_def] using whole

/-- A text is the compact text of one value only. -/
theorem compact_injective {value other : Json} (known : value.legible = true)
    (known' : other.legible = true) (same : value.compact = other.compact) : value = other := by
  have read := (spells_compact known).read (max value.nesting other.nesting) _ []
    (Nat.le_max_left _ _) (Nat.le_refl _) endsNumber_nil
  have read' := (spells_compact known').read (max value.nesting other.nesting) _ []
    (Nat.le_max_right _ _) (Nat.le_refl _) endsNumber_nil
  rw [same, read'] at read
  exact (Prod.mk.inj (Option.some.inj read)).1.symm

/-! ## Indented text -/

theorem indentedItems_eq_map (level : Nat) (items : List Json) :
    indentedItems level items = items.map (indentedAt (level + 1)) := by
  induction items with
  | nil => rfl
  | cons item rest ih => rw [indentedItems, ih, List.map_cons]

theorem indentedMembers_eq_map (level : Nat) (members : List (String × Json)) :
    indentedMembers level members
      = members.map fun member => quoted member.1 ++ ": " ++ indentedAt (level + 1) member.2 := by
  induction members with
  | nil => rfl
  | cons member rest ih => rw [indentedMembers, ih, List.map_cons]

theorem blank_newline (level : Nat) : Blank (newline level).toList := by
  intro c listed
  rw [newline, String.toList_ofList] at listed
  rcases List.mem_cons.mp listed with rfl | listed
  · rfl
  · rw [List.eq_of_mem_replicate listed]
    rfl

theorem spells_indentedAt {value : Json} (known : value.legible = true) (level : Nat) :
    Spells (value.indentedAt level).toList value := by
  induction value using induct generalizing level with
  | null =>
      rw [indentedAt]
      exact spells_null
  | bool value => exact spells_bool value
  | int value =>
      simp only [legible, Bool.and_eq_true, decide_eq_true_eq] at known
      exact spells_int known.1 known.2
  | float => cases known
  | str text => exact spells_str text
  | arr items ih =>
      have each := fun item listed => ih item listed (legible_arr.mp known item listed) (level + 1)
      cases items with
      | nil => simpa [indentedAt, indentedItems, block] using spells_arr_nil
      | cons item items =>
          have whole := @spells_arr (fun value => (value.indentedAt (level + 1)).toList) _ _ item
            items (blank_newline (level + 1)) (blank_newline level) each
          simpa [indentedAt, block, indentedItems_eq_map, String.toList_intercalate,
            Text.intercalate_cons, List.flatMap_map, Function.comp_def] using whole
  | obj members ih =>
      have each := fun member listed => ih member listed (legible_obj.mp known member listed) (level + 1)
      cases members with
      | nil => simpa [indentedAt, indentedMembers, block] using spells_obj_nil
      | cons member members =>
          have space : Blank [' '] := List.forall_mem_singleton.mpr rfl
          have whole := @spells_obj (fun value => (value.indentedAt (level + 1)).toList) _ _ _ member
            members space (blank_newline (level + 1)) (blank_newline level) each
          simpa [indentedAt, block, indentedMembers_eq_map, String.toList_intercalate,
            Text.intercalate_cons, List.flatMap_map, writeMember, Function.comp_def] using whole

theorem spells_indented {value : Json} (known : value.legible = true) :
    Spells value.indented.toList value :=
  spells_indentedAt known 0

/-! ## Laid out texts -/

/-- Whether a text is the compact or the indented text of a value, with blanks behind it. -/
def IsLaidOut (value : Json) (text : String) : Prop :=
  ∃ gap, Blank gap ∧
    (text.toList = value.compact.toList ++ gap ∨ text.toList = value.indented.toList ++ gap)

theorem parse?_of_isLaidOut {value : Json} {text : String} (known : value.legible = true)
    (shallow : value.nesting ≤ nestingMax) (laid : value.IsLaidOut text) :
    parse? .any text = some value := by
  obtain ⟨gap, blank, shape | shape⟩ := laid
  · exact parse?_of_spells shape (spells_compact known) blank shallow
  · exact parse?_of_spells shape (spells_indented known) blank shallow

end Governance.Json
