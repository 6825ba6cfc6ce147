import Mathlib.Data.List.Perm.Basic
import Governance.Proofs.Canonical.Text

/-!
# Arranged values

The normal form as a total function: sets have their elements in the order of their canonical
texts, and nothing else moves. Where there are no floats, normalizing succeeds and gives this form.
-/

set_option autoImplicit false

namespace Governance.Canonical

variable (registry : FieldRegistry)

mutual

/-- A value at a sequence of keys with the elements of its sets in the order of their texts. -/
def arranged (keys : List String) : Json → Json
  | .arr items =>
    .arr (if registry.isOrderless keys then sortByText (arrangedItems keys items)
      else arrangedItems keys items)
  | .obj members => .obj (arrangedMembers keys members)
  | value => value
  termination_by structural value => value

def arrangedItems (keys : List String) : List Json → List Json
  | [] => []
  | item :: rest => arranged keys item :: arrangedItems keys rest
  termination_by structural items => items

def arrangedMembers (keys : List String) : List (String × Json) → List (String × Json)
  | [] => []
  | (key, value) :: rest => (key, arranged (keys ++ [key]) value) :: arrangedMembers keys rest
  termination_by structural members => members

end

theorem arrangedItems_eq_map (keys : List String) (items : List Json) :
    arrangedItems registry keys items = items.map (arranged registry keys) := by
  induction items with
  | nil => rfl
  | cons item rest ih => rw [arrangedItems, ih, List.map_cons]

theorem arrangedMembers_eq_map (keys : List String) (members : List (String × Json)) :
    arrangedMembers registry keys members
      = members.map fun member => (member.1, arranged registry (keys ++ [member.1]) member.2) := by
  induction members with
  | nil => rfl
  | cons member rest ih => rw [arrangedMembers, ih, List.map_cons]

/-! ## Sorting by text -/

theorem sortByText_perm (items : List Json) : (sortByText items).Perm items := by
  have sorted := (List.mergeSort_perm (items.map fun item => (text item, item))
    fun a b => decide (a.1 ≤ b.1)).map Prod.snd
  simpa [sortByText, List.map_map, Function.comp_def] using sorted

theorem map_text_sortByText (items : List Json) :
    (sortByText items).map text = (items.map text).mergeSort fun a b => decide (a ≤ b) := by
  -- every pair that is sorted holds an element behind its own text
  have paired : ∀ pair ∈ (items.map fun item => (text item, item)).mergeSort
      (fun a b => decide (a.1 ≤ b.1)), text pair.2 = pair.1 := by
    intro pair member
    obtain ⟨item, _, rfl⟩ := List.mem_map.mp ((List.mergeSort_perm _ _).mem_iff.mp member)
    rfl
  rw [sortByText, List.map_map]
  refine (List.map_congr_left paired).trans ?_
  rw [List.map_mergeSort (s := fun a b => decide (a ≤ b)) fun _ _ _ _ => rfl, List.map_map]
  rfl

theorem pairwise_mergeSort_texts (texts : List String) :
    (texts.mergeSort fun a b => decide (a ≤ b)).Pairwise (· ≤ ·) := by
  refine (List.pairwise_mergeSort ?_ ?_ texts).imp of_decide_eq_true
  · intro a b c first second
    exact decide_eq_true (String.le_trans (of_decide_eq_true first) (of_decide_eq_true second))
  · intro a b
    simpa using String.le_total a b

/-- Sorting leaves the same list of two lists exactly if they have the same elements equally
often. -/
theorem mergeSort_eq_iff_perm {texts others : List String} :
    texts.mergeSort (fun a b => decide (a ≤ b)) = others.mergeSort (fun a b => decide (a ≤ b)) ↔
      texts.Perm others := by
  constructor
  · intro same
    exact (List.mergeSort_perm texts _).symm.trans (same ▸ List.mergeSort_perm others _)
  · intro perm
    refine List.Perm.eq_of_pairwise (fun _ _ _ _ => String.le_antisymm)
      (pairwise_mergeSort_texts _) (pairwise_mergeSort_texts _) ?_
    exact (List.mergeSort_perm _ _).trans (perm.trans (List.mergeSort_perm _ _).symm)

/-! ## Values without floats -/

theorem floatFree_arranged {keys : List String} {value : Json} (free : value.floatFree = true) :
    (arranged registry keys value).floatFree = true := by
  induction value using Json.induct generalizing keys with
  | null | bool | int | str => exact free
  | float => cases free
  | arr items ih =>
      have items_free : ∀ item ∈ arrangedItems registry keys items, item.floatFree = true := by
        rw [arrangedItems_eq_map]
        intro item member
        obtain ⟨given, present, rfl⟩ := List.mem_map.mp member
        exact ih given present (Json.floatFree_arr.mp free given present)
      rw [arranged, Json.floatFree_arr]
      intro item member
      split at member
      · exact items_free item ((sortByText_perm _).mem_iff.mp member)
      · exact items_free item member
  | obj members ih =>
      rw [arranged, Json.floatFree_obj, arrangedMembers_eq_map]
      intro member listed
      obtain ⟨given, present, rfl⟩ := List.mem_map.mp listed
      exact ih given present (Json.floatFree_obj.mp free given present)

theorem normalizeItems_eq {keys : List String} {items : List Json}
    (each : ∀ item ∈ items, normalize registry keys item = .ok (arranged registry keys item)) :
    normalizeItems registry keys items = .ok (arrangedItems registry keys items) := by
  induction items with
  | nil => rfl
  | cons item rest ih =>
      rw [normalizeItems, each item List.mem_cons_self,
        ih fun later member => each later (List.mem_cons_of_mem _ member)]
      rfl

theorem normalizeMembers_eq {keys : List String} {members : List (String × Json)}
    (each : ∀ member ∈ members, normalize registry (keys ++ [member.1]) member.2
      = .ok (arranged registry (keys ++ [member.1]) member.2)) :
    normalizeMembers registry keys members = .ok (arrangedMembers registry keys members) := by
  induction members with
  | nil => rfl
  | cons member rest ih =>
      rw [normalizeMembers, each member List.mem_cons_self,
        ih fun later present => each later (List.mem_cons_of_mem _ present)]
      rfl

/-- Without floats a value has a normal form, and it is the arranged value. -/
theorem normalize_eq_arranged {keys : List String} {value : Json}
    (free : value.floatFree = true) :
    normalize registry keys value = .ok (arranged registry keys value) := by
  induction value using Json.induct generalizing keys with
  | null | bool | int | str => rfl
  | float => cases free
  | arr items ih =>
      rw [normalize, normalizeItems_eq registry fun item present =>
        ih item present (Json.floatFree_arr.mp free item present)]
      rfl
  | obj members ih =>
      rw [normalize, normalizeMembers_eq registry fun member present =>
        ih member present (Json.floatFree_obj.mp free member present)]
      rfl

/-! ## Values with a normal form -/

theorem normalize_of_normalizeItems {keys : List String} {items normal : List Json}
    (done : normalizeItems registry keys items = .ok normal) :
    ∀ item ∈ items, ∃ written, normalize registry keys item = .ok written := by
  induction items generalizing normal with
  | nil => exact fun _ member => nomatch member
  | cons item rest ih =>
      rw [normalizeItems] at done
      cases first : normalize registry keys item with
      | error problem => simp [first] at done
      | ok written =>
          rw [first] at done
          cases later : normalizeItems registry keys rest with
          | error problem => simp [later, Except.map] at done
          | ok others => exact List.forall_mem_cons.mpr ⟨⟨written, first⟩, ih later⟩

theorem normalize_of_normalizeMembers {keys : List String} {members normal : List (String × Json)}
    (done : normalizeMembers registry keys members = .ok normal) :
    ∀ member ∈ members, ∃ written,
      normalize registry (keys ++ [member.1]) member.2 = .ok written := by
  induction members generalizing normal with
  | nil => exact fun _ member => nomatch member
  | cons member rest ih =>
      rw [normalizeMembers] at done
      cases first : normalize registry (keys ++ [member.1]) member.2 with
      | error problem => simp [first] at done
      | ok written =>
          rw [first] at done
          cases later : normalizeMembers registry keys rest with
          | error problem => simp [later, Except.map] at done
          | ok others => exact List.forall_mem_cons.mpr ⟨⟨written, first⟩, ih later⟩

theorem floatFree_of_normalize {keys : List String} {value normal : Json}
    (done : normalize registry keys value = .ok normal) : value.floatFree = true := by
  induction value using Json.induct generalizing keys normal with
  | null | bool | int | str => rfl
  | float => simp [normalize] at done
  | arr items ih =>
      rw [normalize] at done
      cases inner : normalizeItems registry keys items with
      | error problem => simp [inner] at done
      | ok written =>
          rw [Json.floatFree_arr]
          intro item present
          obtain ⟨_, each⟩ := normalize_of_normalizeItems registry inner item present
          exact ih item present each
  | obj members ih =>
      rw [normalize] at done
      cases inner : normalizeMembers registry keys members with
      | error problem => simp [inner] at done
      | ok written =>
          rw [Json.floatFree_obj]
          intro member present
          obtain ⟨_, each⟩ := normalize_of_normalizeMembers registry inner member present
          exact ih member present each

end Governance.Canonical
