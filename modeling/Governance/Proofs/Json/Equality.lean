import Governance.Proofs.Json.Induction

/-!
# Equality of values

Equality of values tells two values apart only where equality does, except that the two zeros are
equal. It is an equivalence: equal values are equal to the same values. They also agree on whether
they hold a float and on the text that they are.
-/

set_option autoImplicit false

namespace Governance.Json

theorem sameItems_self {items : List Json} (reflexive : ∀ item ∈ items, item.same item = true) :
    sameItems items items = true := by
  induction items with
  | nil => rfl
  | cons item rest ih =>
      obtain ⟨first, later⟩ := List.forall_mem_cons.mp reflexive
      rw [sameItems, first, ih later, Bool.and_true]

theorem sameMembers_self {members : List (String × Json)}
    (reflexive : ∀ member ∈ members, member.2.same member.2 = true) :
    sameMembers members members = true := by
  induction members with
  | nil => rfl
  | cons member rest ih =>
      obtain ⟨first, later⟩ := List.forall_mem_cons.mp reflexive
      simp [sameMembers, first, ih later]

theorem same_self (value : Json) : value.same value = true := by
  induction value using induct with
  | null => rfl
  | bool | int | str => simp [same]
  | float value => simp [same, Binary64.sameNumber]
  | arr items ih => exact sameItems_self ih
  | obj members ih => exact sameMembers_self ih

theorem sameItems_congr {items others : List Json}
    (each : ∀ item ∈ items, ∀ other value, item.same other = true → item.same value = other.same value)
    (equal : sameItems items others = true) (values : List Json) :
    sameItems items values = sameItems others values := by
  induction items generalizing others values with
  | nil =>
      cases others with
      | nil => rfl
      | cons => cases equal
  | cons item rest ih =>
      cases others with
      | nil => cases equal
      | cons other others =>
          obtain ⟨first, later⟩ := List.forall_mem_cons.mp each
          obtain ⟨head, tail⟩ := Bool.and_eq_true_iff.mp equal
          cases values with
          | nil => rfl
          | cons value values => rw [sameItems, sameItems, first other value head, ih later tail]

theorem sameMembers_congr {members others : List (String × Json)}
    (each : ∀ member ∈ members, ∀ other value,
      member.2.same other = true → member.2.same value = other.same value)
    (equal : sameMembers members others = true) (values : List (String × Json)) :
    sameMembers members values = sameMembers others values := by
  induction members generalizing others values with
  | nil =>
      cases others with
      | nil => rfl
      | cons => cases equal
  | cons member rest ih =>
      cases others with
      | nil => cases equal
      | cons other others =>
          obtain ⟨first, later⟩ := List.forall_mem_cons.mp each
          rw [sameMembers, Bool.and_eq_true, Bool.and_eq_true, beq_iff_eq] at equal
          obtain ⟨⟨key, head⟩, tail⟩ := equal
          cases values with
          | nil => rfl
          | cons value values =>
              rw [sameMembers, sameMembers, key, first other.2 value.2 head, ih later tail]

theorem same_congr {value other : Json} (equal : value.same other = true) (third : Json) :
    value.same third = other.same third := by
  induction value using induct generalizing other third with
  | null | bool | int | str =>
      rw [(same_iff rfl).mp equal]
  | float value =>
      cases other with
      | float other =>
          have place : value.place = other.place := by simpa [same, Binary64.sameNumber] using equal
          cases third <;> simp [same, Binary64.sameNumber, place]
      | null | bool | int | str | arr | obj => cases equal
  | arr items ih =>
      cases other with
      | arr others =>
          cases third with
          | arr values =>
              exact sameItems_congr (fun item listed _ value equal => ih item listed equal value)
                equal values
          | null | bool | int | float | str | obj => rfl
      | null | bool | int | float | str | obj => cases equal
  | obj members ih =>
      cases other with
      | obj others =>
          cases third with
          | obj values =>
              exact sameMembers_congr
                (fun member listed _ value equal => ih member listed equal value) equal values
          | null | bool | int | float | str | arr => rfl
      | null | bool | int | float | str | arr => cases equal

theorem same_symm {value other : Json} (equal : value.same other = true) :
    other.same value = true := by
  rw [← same_congr equal, same_self]

/-- A value without floats has no equal but itself. -/
theorem eq_of_same {value other : Json} (equal : value.same other = true)
    (free : other.floatFree = true) : value = other :=
  ((same_iff free).mp (same_symm equal)).symm

theorem text?_of_same {value other : Json} (equal : value.same other = true) :
    value.text? = other.text? := by
  cases value <;> cases other <;> simp_all [same, text?]

end Governance.Json
