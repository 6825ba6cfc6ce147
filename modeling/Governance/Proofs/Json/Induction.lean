import Governance.Json.Basic
import Governance.Proofs.SortedMap.Lookup

/-!
# Induction on JSON values

One induction principle for values, in which every element of an array and every member of an
object comes with its hypothesis. The companions of functions on values that run over elements and
members are restated by quantifiers, so that no later proof needs a mutual recursion.
-/

set_option autoImplicit false

namespace Governance.Json

/-- A property that passes from elements to arrays and from members to objects holds of all values. -/
@[elab_as_elim]
theorem induct {motive : Json → Prop} (null : motive .null) (bool : ∀ value, motive (.bool value))
    (int : ∀ value, motive (.int value)) (float : ∀ value, motive (.float value))
    (str : ∀ value, motive (.str value))
    (arr : ∀ items, (∀ item ∈ items, motive item) → motive (.arr items))
    (obj : ∀ members, (∀ member ∈ members, motive member.2) → motive (.obj members))
    (value : Json) : motive value :=
  @Json.rec motive (fun items => ∀ item ∈ items, motive item)
    (fun members => ∀ member ∈ members, motive member.2) (fun member => motive member.2)
    null bool int float str arr obj (fun _ member => nomatch member)
    (fun _ _ headIH restIH => List.forall_mem_cons.mpr ⟨headIH, restIH⟩)
    (fun _ member => nomatch member)
    (fun _ _ headIH restIH => List.forall_mem_cons.mpr ⟨headIH, restIH⟩)
    (fun _ _ valueIH => valueIH) value

/-! ## Values without floats -/

theorem floatFreeItems_iff {items : List Json} :
    floatFreeItems items = true ↔ ∀ item ∈ items, item.floatFree = true := by
  induction items with
  | nil => simp [floatFreeItems]
  | cons item rest ih => simp [floatFreeItems, ih]

theorem floatFreeMembers_iff {members : List (String × Json)} :
    floatFreeMembers members = true ↔ ∀ member ∈ members, member.2.floatFree = true := by
  induction members with
  | nil => simp [floatFreeMembers]
  | cons member rest ih => simp [floatFreeMembers, ih]

@[simp] theorem floatFree_arr {items : List Json} :
    (arr items).floatFree = true ↔ ∀ item ∈ items, item.floatFree = true := by
  simp only [floatFree, floatFreeItems_iff]

@[simp] theorem floatFree_obj {members : List (String × Json)} :
    (obj members).floatFree = true ↔ ∀ member ∈ members, member.2.floatFree = true := by
  simp only [floatFree, floatFreeMembers_iff]

/-! ## Well-formed values -/

theorem wellFormedItems_iff {items : List Json} :
    wellFormedItems items = true ↔ ∀ item ∈ items, item.WellFormed := by
  induction items with
  | nil => simp [wellFormedItems]
  | cons item rest ih => simp [wellFormedItems, ih, WellFormed]

theorem wellFormedMembers_iff {before : Option String} {members : List (String × Json)} :
    wellFormedMembers before members = true ↔
      (∀ earlier ∈ before, ∀ member ∈ members, earlier < member.1)
        ∧ Entries.Ascending members ∧ ∀ member ∈ members, member.2.WellFormed := by
  induction members generalizing before with
  | nil => simp [wellFormedMembers, Entries.Ascending]
  | cons member rest ih =>
      simp only [wellFormedMembers, Bool.and_eq_true, ih, Entries.Ascending, List.pairwise_cons,
        List.mem_cons, forall_eq_or_imp, Option.mem_def, Option.some.injEq, forall_eq']
      constructor
      · intro given
        obtain ⟨⟨first, value⟩, above, ascending, values⟩ := given
        refine ⟨fun earlier given => ?_, ⟨above, ascending⟩, value, values⟩
        subst given
        have less : earlier < member.1 := by simpa using first
        exact ⟨less, fun later present => String.lt_trans less (above later present)⟩
      · intro given
        obtain ⟨first, ⟨above, ascending⟩, value, values⟩ := given
        refine ⟨⟨?_, value⟩, above, ascending, values⟩
        cases before with
        | none => rfl
        | some earlier => simpa using (first earlier rfl).1

@[simp] theorem wellFormed_arr {items : List Json} :
    (arr items).WellFormed ↔ ∀ item ∈ items, item.WellFormed :=
  wellFormedItems_iff

@[simp] theorem wellFormed_obj {members : List (String × Json)} :
    (obj members).WellFormed ↔
      Entries.Ascending members ∧ ∀ member ∈ members, member.2.WellFormed := by
  have ordered := @wellFormedMembers_iff none members
  simp only [Option.mem_def, reduceCtorEq, false_implies, implies_true, true_and] at ordered
  exact ordered

theorem wellFormed_member? {value found : Json} {key : String} (known : value.WellFormed)
    (member : value.member? key = some found) : found.WellFormed := by
  cases value with
  | obj members => exact (wellFormed_obj.mp known).2 _ (Entries.mem_of_find? member)
  | null | bool | int | float | str | arr => cases member

theorem floatFree_member? {value found : Json} {key : String} (free : value.floatFree = true)
    (member : value.member? key = some found) : found.floatFree = true := by
  cases value with
  | obj members => exact floatFree_obj.mp free _ (Entries.mem_of_find? member)
  | null | bool | int | float | str | arr => cases member

/-! ## Properties that parts inherit -/

/-- A property that an array has exactly if its elements have it, that an object passes on to its
members, and that an object keeps when a member with the property is put in. -/
structure Hereditary (holds : Json → Prop) : Prop where
  null : holds .null
  bool : ∀ value, holds (.bool value)
  empty : holds (.obj [])
  items : ∀ {items}, holds (.arr items) ↔ ∀ item ∈ items, holds item
  member : ∀ {members}, holds (.obj members) → ∀ member ∈ members, holds member.2
  put : ∀ {members name value}, holds (.obj members) → holds value →
    holds (.obj (Entries.put name value members))

theorem hereditary_floatFree : Hereditary fun value => value.floatFree = true where
  null := rfl
  bool _ := rfl
  empty := rfl
  items := floatFree_arr
  member := floatFree_obj.mp
  put free free' := floatFree_obj.mpr (Entries.forall_mem_put free' (floatFree_obj.mp free))

theorem hereditary_wellFormed : Hereditary WellFormed where
  null := rfl
  bool _ := rfl
  empty := rfl
  items := wellFormed_arr
  member known := (wellFormed_obj.mp known).2
  put known known' := by
    obtain ⟨ascending, inner⟩ := wellFormed_obj.mp known
    exact wellFormed_obj.mpr ⟨Entries.put_ascending ascending, Entries.forall_mem_put known' inner⟩

theorem getD_find?_null {holds : Json → Prop} {members : List (String × Json)} (null : holds .null)
    (each : ∀ member ∈ members, holds member.2) (name : String) :
    holds ((Entries.find? name members).getD .null) := by
  cases found : Entries.find? name members with
  | none => exact null
  | some value => exact each _ (Entries.mem_of_find? found)

/-! ## Equality of values without floats -/

theorem sameItems_iff {left right : List Json}
    (agree : ∀ item ∈ left, ∀ other, item.same other = true ↔ item = other) :
    sameItems left right = true ↔ left = right := by
  induction left generalizing right with
  | nil => cases right <;> simp [sameItems]
  | cons item rest ih =>
      cases right with
      | nil => simp [sameItems]
      | cons other others =>
          simp only [sameItems, Bool.and_eq_true, List.cons.injEq]
          rw [agree item List.mem_cons_self other,
            ih fun later present => agree later (List.mem_cons_of_mem _ present)]

theorem sameMembers_iff {left right : List (String × Json)}
    (agree : ∀ member ∈ left, ∀ other, member.2.same other = true ↔ member.2 = other) :
    sameMembers left right = true ↔ left = right := by
  induction left generalizing right with
  | nil => cases right <;> simp [sameMembers]
  | cons member rest ih =>
      cases right with
      | nil => simp [sameMembers]
      | cons other others =>
          simp only [sameMembers, Bool.and_eq_true, List.cons.injEq, beq_iff_eq]
          rw [agree member List.mem_cons_self other.2,
            ih fun later present => agree later (List.mem_cons_of_mem _ present)]
          exact and_congr_left fun _ => Prod.ext_iff.symm

theorem same_iff {value other : Json} (free : value.floatFree = true) :
    value.same other = true ↔ value = other := by
  induction value using induct generalizing other with
  | null => cases other <;> simp [same]
  | bool | int | str => cases other <;> simp [same]
  | float => cases free
  | arr items ih =>
      cases other <;> simp only [same, Bool.false_eq_true, reduceCtorEq, arr.injEq]
      exact sameItems_iff fun item present _ => ih item present (floatFree_arr.mp free item present)
  | obj members ih =>
      cases other <;> simp only [same, Bool.false_eq_true, reduceCtorEq, obj.injEq]
      exact sameMembers_iff fun member present _ =>
        ih member present (floatFree_obj.mp free member present)

end Governance.Json
