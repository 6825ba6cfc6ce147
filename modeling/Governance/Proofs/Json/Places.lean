import Governance.Proofs.Json.Induction
import Mathlib.Data.List.Lex

/-!
# Places inside a value

A place leads into a value, from an object to a member and from an array to an element. Going
through a value in depth, members by ascending key and elements by position, passes places in
lexicographic order. The first float is the one at the least place that has a float.
-/

set_option autoImplicit false

namespace Governance.Json

inductive Step where
  | member (key : String)
  | item (position : Nat)

/-- Which of two parts of one value is passed first. -/
inductive Step.Before : Step → Step → Prop where
  | member {key later : String} : key < later → Before (.member key) (.member later)
  | item {position later : Nat} : position < later → Before (.item position) (.item later)

instance : Std.Asymm Step.Before where
  asymm first second before after := by
    cases before with
    | member less => cases after with | member more => exact String.lt_asymm less more
    | item less => cases after with | item more => exact Nat.lt_asymm less more

inductive At : Json → List Step → Json → Prop where
  | here {value : Json} : At value [] value
  | member {members : List (String × Json)} {key : String} {value found : Json}
      {place : List Step} : Entries.find? key members = some value → At value place found →
      At (.obj members) (.member key :: place) found
  | item {items : List Json} {position : Nat} {value found : Json} {place : List Step} :
      items[position]? = some value → At value place found →
      At (.arr items) (.item position :: place) found

/-- Whether a number is the first float of a value: all others are at later places. -/
def FirstFloat (value : Json) (number : Binary64) : Prop :=
  ∃ place, value.At place (.float number) ∧ ∀ other found, value.At other (.float found) →
    other = place ∨ List.Lex Step.Before place other

variable {value found : Json} {place : List Step} {number : Binary64}

theorem At.unique (here : value.At place found) {other : Json} (there : value.At place other) :
    found = other := by
  induction here with
  | here => cases there; rfl
  | member listed _ ih =>
      cases there with
      | member listed' there =>
          cases listed.symm.trans listed'
          exact ih there
  | item listed _ ih =>
      cases there with
      | item listed' there =>
          cases listed.symm.trans listed'
          exact ih there

theorem At.floatFree (here : value.At place found) (free : value.floatFree = true) :
    found.floatFree = true := by
  induction here with
  | here => exact free
  | member listed _ ih => exact ih (floatFree_obj.mp free _ (Entries.mem_of_find? listed))
  | item listed _ ih => exact ih (floatFree_arr.mp free _ (List.mem_of_getElem? listed))

/-! ## The first float -/

theorem FirstFloat.unique (first : value.FirstFloat number) {other : Binary64}
    (first' : value.FirstFloat other) : number = other := by
  obtain ⟨place, here, least⟩ := first
  obtain ⟨place', there, least'⟩ := first'
  have same : place' = place := by
    rcases least place' other there with same | before
    · exact same
    · rcases least' place number here with same | after
      · exact same.symm
      · exact absurd after (Std.Asymm.asymm _ _ before)
  subst same
  exact Json.float.inj (here.unique there)

theorem firstFloat_float (number : Binary64) : (Json.float number).FirstFloat number := by
  refine ⟨[], .here, fun other found there => ?_⟩
  cases there
  exact .inl rfl

/-- The first float of an array is that of the first element that has one. -/
theorem FirstFloat.arr {front back : List Json} (clean : ∀ item ∈ front, item.floatFree = true)
    (first : value.FirstFloat number) : (Json.arr (front ++ value :: back)).FirstFloat number := by
  obtain ⟨place, here, least⟩ := first
  have stored : (front ++ value :: back)[front.length]? = some value := by simp
  refine ⟨.item front.length :: place, .item stored here, fun other found there => ?_⟩
  cases there with
  | @item _ position inner _ rest listed there =>
      rcases Nat.lt_trichotomy position front.length with earlier | rfl | later
      · -- elements in front have no floats
        rw [List.getElem?_append_left earlier] at listed
        cases there.floatFree (clean inner (List.mem_of_getElem? listed))
      · cases stored.symm.trans listed
        rcases least rest found there with rfl | behind
        · exact .inl rfl
        · exact .inr (.cons behind)
      · exact .inr (.rel (.item later))

/-- The first float of an object is that of the first member that has one. -/
theorem FirstFloat.obj {front back : List (String × Json)} {key : String}
    (ascending : Entries.Ascending (front ++ (key, value) :: back))
    (clean : ∀ member ∈ front, member.2.floatFree = true) (first : value.FirstFloat number) :
    (Json.obj (front ++ (key, value) :: back)).FirstFloat number := by
  obtain ⟨place, here, least⟩ := first
  have stored : Entries.find? key (front ++ (key, value) :: back) = some value :=
    Entries.find?_of_mem ascending (List.mem_append_right _ List.mem_cons_self)
  refine ⟨.member key :: place, .member stored here, fun other found there => ?_⟩
  cases there with
  | @member _ name inner _ rest listed there =>
      rcases List.mem_append.mp (Entries.mem_of_find? listed) with earlier | behind
      · cases there.floatFree (clean _ earlier)
      · rcases List.mem_cons.mp behind with same | later
        · cases same
          rcases least rest found there with rfl | behind
          · exact .inl rfl
          · exact .inr (.cons behind)
        · have less := (List.pairwise_cons.mp (List.pairwise_append.mp ascending).2.1).1 _ later
          exact .inr (.rel (.member less))

end Governance.Json
