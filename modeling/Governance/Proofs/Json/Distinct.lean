import Governance.Effective.Merge
import Governance.Proofs.Json.Equality

/-!
# Values up to equality

A list of values collapses to any list that holds each of them once, where equal values count as
one. Taking out repetitions is one way to collapse a list. Values without floats have no equals but
themselves, so all lists that they collapse to are rearrangements of each other.
-/

set_option autoImplicit false

namespace Governance.Json

variable {value other : Json} {items : List Json}

theorem memberOf_eq_true_iff :
    value.memberOf items = true ↔ ∃ item ∈ items, value.same item = true := by
  rw [memberOf, List.any_eq_true]

theorem memberOf_of_mem (listed : value ∈ items) : value.memberOf items = true :=
  memberOf_eq_true_iff.mpr ⟨value, listed, same_self value⟩

theorem memberOf_of_same (equal : value.same other = true) :
    value.memberOf items = other.memberOf items := by
  rw [memberOf, memberOf, funext (same_congr equal)]

structure Represents (all some : List Json) : Prop where
  listed : some ⊆ all
  covers : ∀ value ∈ all, value.memberOf some = true

/-- A list that holds every value of another one once: no two of its values are equal. -/
structure Collapses (all distinct : List Json) : Prop extends Represents all distinct where
  apart : distinct.Pairwise fun earlier later => earlier.same later = false

theorem nodup_of_apart (apart : items.Pairwise fun earlier later => earlier.same later = false) :
    items.Nodup := by
  refine apart.imp ?_
  rintro earlier _ unequal rfl
  rw [same_self] at unequal
  cases unequal

/-! ## Taking out repetitions -/

theorem apart_distinctAfter {seen : List Json}
    (apart : seen.Pairwise fun earlier later => earlier.same later = false) (items : List Json) :
    (distinctAfter seen items).Pairwise fun earlier later => earlier.same later = false := by
  induction items generalizing seen with
  | nil => exact apart
  | cons item rest ih =>
      rw [distinctAfter]
      split
      · exact ih apart
      · rename_i fresh
        apply ih
        refine List.pairwise_append.mpr ⟨apart, List.pairwise_singleton _ _, ?_⟩
        intro earlier listed last given
        rw [List.mem_singleton.mp given, Bool.eq_false_iff]
        intro equal
        exact fresh (memberOf_eq_true_iff.mpr ⟨earlier, listed, same_symm equal⟩)

namespace Represents

variable {all more distinct : List Json}

theorem self (items : List Json) : Represents items items :=
  ⟨List.Subset.refl items, fun _ => memberOf_of_mem⟩

theorem of_mem_iff (stands : Represents all distinct) (same : ∀ value, value ∈ more ↔ value ∈ all) :
    Represents more distinct where
  listed value given := (same value).mpr (stands.listed given)
  covers value given := stands.covers value ((same value).mp given)

theorem skip (stands : Represents all distinct) (repeated : value.memberOf distinct = true) :
    Represents (all ++ [value]) distinct := by
  refine ⟨List.subset_append_of_subset_left _ stands.listed, fun given member => ?_⟩
  rcases List.mem_append.mp member with earlier | last
  · exact stands.covers given earlier
  · rw [List.mem_singleton.mp last]
    exact repeated

theorem append (stands : Represents all distinct) (items : List Json) :
    Represents (all ++ items) (distinct ++ items) := by
  refine ⟨List.append_subset.mpr ⟨List.subset_append_of_subset_left _ stands.listed,
    List.subset_append_right _ _⟩, fun value member => ?_⟩
  rcases List.mem_append.mp member with earlier | last
  · obtain ⟨item, listed, equal⟩ := memberOf_eq_true_iff.mp (stands.covers value earlier)
    exact memberOf_eq_true_iff.mpr ⟨item, List.mem_append_left _ listed, equal⟩
  · exact memberOf_of_mem (List.mem_append_right _ last)

theorem distinctAfter (stands : Represents all distinct) (items : List Json) :
    Represents (all ++ items) (distinctAfter distinct items) := by
  induction items generalizing all distinct with
  | nil =>
      rw [List.append_nil]
      exact stands
  | cons item rest ih =>
      rw [Json.distinctAfter, List.append_cons]
      cases repeated : item.memberOf distinct with
      | true => exact ih (stands.skip repeated)
      | false => exact ih (stands.append [item])

theorem trans {fewer : List Json} (stands : Represents all distinct)
    (stands' : Represents distinct fewer) : Represents all fewer := by
  refine ⟨List.Subset.trans stands'.listed stands.listed, fun value given => ?_⟩
  obtain ⟨item, listed, equal⟩ := memberOf_eq_true_iff.mp (stands.covers value given)
  rw [memberOf_of_same equal]
  exact stands'.covers item listed

/-- Lists without floats that represent the same values, each of them once, are rearrangements of
each other. -/
theorem perm_of_floatFree {distinct' : List Json} (stands : Represents all distinct)
    (stands' : Represents all distinct') (once : distinct.Nodup) (once' : distinct'.Nodup)
    (free : ∀ value ∈ distinct, value.floatFree = true) : distinct.Perm distinct' := by
  refine (List.perm_ext_iff_of_nodup once once').mpr fun value => ⟨fun given => ?_, fun given => ?_⟩
  · obtain ⟨item, listed, equal⟩ :=
      memberOf_eq_true_iff.mp (stands'.covers value (stands.listed given))
    rwa [(same_iff (free value given)).mp equal]
  · obtain ⟨item, listed, equal⟩ :=
      memberOf_eq_true_iff.mp (stands.covers value (stands'.listed given))
    rwa [eq_of_same equal (free item listed)]

end Represents

/-- The union of two lists represents both of them, and holds no value twice. -/
theorem collapses_union (items others : List Json) :
    Collapses (items ++ others) (distinctAfter [] (items ++ others)) := by
  have stands : Represents ([] ++ (items ++ others)) (distinctAfter [] (items ++ others)) :=
    (Represents.self []).distinctAfter (items ++ others)
  rw [List.nil_append] at stands
  exact ⟨stands, apart_distinctAfter List.Pairwise.nil _⟩

end Governance.Json
