import Governance.Proofs.Canonical.Text
import Governance.Proofs.Json.Layout
import Governance.Proofs.Json.Normal

/-!
# What canonical text lists

Canonical text is the compact text of a value whose members have been put into the order of their
quoted keys. That order is a listing of the value and nothing more: putting the members back into
the order of their keys gives the value.
-/

set_option autoImplicit false

namespace Governance.Canonical

def writtenMembers (members : List (String × Json)) : List (String × Json) :=
  members.mergeSort fun a b => decide (Json.quoted a.1 ≤ Json.quoted b.1)

theorem writtenMembers_perm (members : List (String × Json)) :
    (writtenMembers members).Perm members :=
  List.mergeSort_perm _ _

theorem map_writtenMembers {α : Type} (change : String → Json → α) (members : List (String × Json)) :
    (writtenMembers members).map (fun member => (member.1, change member.1 member.2))
      = (members.map fun member => (member.1, change member.1 member.2)).mergeSort
          fun a b => decide (Json.quoted a.1 ≤ Json.quoted b.1) := by
  refine List.map_mergeSort ?_
  intro a _ b _
  rfl

mutual

/-- A value with its members in the order in which they are written. -/
def listed : Json → Json
  | .arr items => .arr (listedItems items)
  | .obj members => .obj (writtenMembers (listedMembers members))
  | value => value
  termination_by structural value => value

def listedItems : List Json → List Json
  | [] => []
  | item :: rest => listed item :: listedItems rest
  termination_by structural items => items

def listedMembers : List (String × Json) → List (String × Json)
  | [] => []
  | (key, value) :: rest => (key, listed value) :: listedMembers rest
  termination_by structural members => members

end

theorem listedItems_eq_map (items : List Json) : listedItems items = items.map listed := by
  induction items with
  | nil => rfl
  | cons item rest ih => rw [listedItems, ih, List.map_cons]

theorem listedMembers_eq_map (members : List (String × Json)) :
    listedMembers members = members.map fun member => (member.1, listed member.2) := by
  induction members with
  | nil => rfl
  | cons member rest ih => rw [listedMembers, ih, List.map_cons]

/-- The members of a listing are the listed members of the value, in some order. -/
theorem listed_obj (members : List (String × Json)) :
    listed (.obj members)
      = .obj ((writtenMembers members).map fun member => (member.1, listed member.2)) := by
  rw [listed, listedMembers_eq_map, writtenMembers, map_writtenMembers fun _ value => listed value]

/-! ## The text of a listing -/

theorem sortedTexts_eq_map (members : List (String × Json)) :
    sortedTexts members
      = (writtenMembers members).map fun member => (Json.quoted member.1, text member.2) := by
  rw [sortedTexts, memberTexts_eq_map, writtenMembers]
  refine Eq.symm (List.map_mergeSort ?_)
  intro a _ b _
  rfl

theorem text_eq_compact (value : Json) : text value = (listed value).compact := by
  induction value using Json.induct with
  | null | bool | int | float | str => rfl
  | arr items ih =>
      rw [text, listed, Json.compact, itemTexts_eq_map, listedItems_eq_map, Json.compactItems_eq_map,
        List.map_map]
      congr 3
      exact List.map_congr_left ih
  | obj members ih =>
      have ordered : (memberTexts members).mergeSort (fun a b => decide (a.1 ≤ b.1))
          = (writtenMembers members).map fun member => (Json.quoted member.1, text member.2) :=
        sortedTexts_eq_map members
      rw [text, listed_obj, Json.compact, Json.compactMembers_eq_map]
      simp only [ordered, List.map_map]
      congr 3
      refine List.map_congr_left fun member present => ?_
      rw [Function.comp_apply, Function.comp_apply, ih member ((writtenMembers_perm members).mem_iff.mp present)]

/-! ## The value of a listing -/

theorem normalized_listed {value : Json} (known : value.WellFormed) :
    (listed value).normalized = value := by
  induction value using Json.induct with
  | null | bool | int | float | str => rfl
  | arr items ih =>
      rw [listed, Json.normalized, listedItems_eq_map, Json.normalizedItems_eq_map, List.map_map]
      refine congrArg Json.arr ((List.map_congr_left fun item present => ?_).trans (List.map_id _))
      exact ih item present (Json.wellFormed_arr.mp known item present)
  | obj members ih =>
      obtain ⟨ascending, values⟩ := Json.wellFormed_obj.mp known
      have same : ((writtenMembers members).map fun member => (member.1, listed member.2)).map
          (fun member => (member.1, member.2.normalized)) = writtenMembers members := by
        rw [List.map_map]
        refine (List.map_congr_left fun member present => ?_).trans (List.map_id _)
        have given := (writtenMembers_perm members).mem_iff.mp present
        exact Prod.ext rfl (ih member given (values member given))
      have perm := writtenMembers_perm members
      rw [← same] at perm
      rw [listed_obj, Json.normalized, Json.normalizedMembers_eq ascending perm]

theorem forall_mem_writtenMembers {members : List (String × Json)} {holds : Json → Prop} :
    (∀ member ∈ (writtenMembers members).map fun member => (member.1, listed member.2),
        holds member.2) ↔ ∀ member ∈ members, holds (listed member.2) := by
  simp only [List.forall_mem_map]
  exact forall_congr' fun member => by rw [(writtenMembers_perm members).mem_iff]

theorem nesting_listed_iff {value : Json} {depth : Nat} :
    (listed value).nesting ≤ depth ↔ value.nesting ≤ depth := by
  induction value using Json.induct generalizing depth with
  | null | bool | int | float | str => rfl
  | arr items ih =>
      rw [listed, Json.nesting_arr_le_iff, Json.nesting_arr_le_iff, listedItems_eq_map]
      simp only [List.forall_mem_map]
      exact exists_congr fun inner => and_congr_right fun _ => forall₂_congr fun item present =>
        ih item present
  | obj members ih =>
      rw [listed_obj, Json.nesting_obj_le_iff, Json.nesting_obj_le_iff]
      refine exists_congr fun inner => and_congr_right fun _ => ?_
      rw [@forall_mem_writtenMembers members fun value => value.nesting ≤ inner]
      exact forall₂_congr fun member present => ih member present

theorem legible_listed {value : Json} (known : value.legible = true) :
    (listed value).legible = true := by
  induction value using Json.induct with
  | null | bool | int | float | str => exact known
  | arr items ih =>
      rw [listed, Json.legible_arr, listedItems_eq_map, List.forall_mem_map]
      exact fun item present => ih item present (Json.legible_arr.mp known item present)
  | obj members ih =>
      rw [listed_obj, Json.legible_obj,
        @forall_mem_writtenMembers members fun value => value.legible = true]
      exact fun member present => ih member present (Json.legible_obj.mp known member present)

end Governance.Canonical
