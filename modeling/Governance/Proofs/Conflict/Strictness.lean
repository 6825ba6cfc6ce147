import Governance.Conflict.Classify
import Governance.Proofs.Field.Orderly
import Governance.Proofs.Json.Induction

/-!
# The order of strictness

When a later value of a field restricts at least as much as an earlier one, by the directive of the
field. For every directive of a registry in good order this is a preorder on the values of its
kind, and values that impose nothing come first in it.
-/

set_option autoImplicit false

namespace Governance

/-! ## Comparing lists -/

namespace Json

theorem memberOf_iff {value : Json} {items : List Json} (free : value.floatFree = true) :
    value.memberOf items = true ↔ value ∈ items := by
  rw [memberOf, List.any_eq_true]
  constructor
  · intro found
    obtain ⟨item, listed, same⟩ := found
    rwa [(same_iff free).mp same]
  · intro listed
    exact ⟨value, listed, (same_iff free).mpr rfl⟩

theorem allIn_iff {items others : List Json} (free : ∀ item ∈ items, item.floatFree = true) :
    allIn items others = true ↔ items ⊆ others := by
  rw [allIn, List.all_eq_true]
  exact forall₂_congr fun item listed => memberOf_iff (free item listed)

theorem sameItems_eq_true_iff {items others : List Json}
    (free : ∀ item ∈ items, item.floatFree = true) :
    sameItems items others = true ↔ items = others :=
  sameItems_iff fun item listed _ => same_iff (free item listed)

theorem beginsWith_iff {items starts : List Json} (free : ∀ item ∈ items, item.floatFree = true) :
    beginsWith items starts = true ↔ starts <+: items := by
  induction items generalizing starts with
  | nil => cases starts <;> simp [beginsWith]
  | cons item rest ih =>
      cases starts with
      | nil => simp [beginsWith]
      | cons start starts =>
          rw [beginsWith, Bool.and_eq_true, same_iff (free item List.mem_cons_self),
            ih fun later listed => free later (List.mem_cons_of_mem _ listed),
            List.cons_prefix_cons, eq_comm]

end Json

/-! ## Values of a kind -/

namespace ValueKind

theorem exists_items_of_accepts {kind : ValueKind} {value : Json}
    (array : kind.isArray = true) (accepted : kind.accepts value = true) :
    ∃ items, value = .arr items := by
  cases kind with
  | boolean | number => cases array
  | stringArray | objectArray =>
      cases value with
      | arr items => exact ⟨items, rfl⟩
      | null | bool | int | float | str | obj => cases accepted

theorem exists_flag_of_accepts {value : Json}
    (accepted : ValueKind.boolean.accepts value = true) : ∃ flag, value = .bool flag := by
  cases value with
  | bool flag => exact ⟨flag, rfl⟩
  | null | int | float | str | arr | obj => cases accepted

theorem exists_number_of_accepts {value : Json} (free : value.floatFree = true)
    (accepted : ValueKind.number.accepts value = true) : ∃ number, value = .int number := by
  cases value with
  | int number => exact ⟨number, rfl⟩
  | float => cases free
  | null | bool | str | arr | obj => cases accepted

end ValueKind

/-! ## Strictness of values -/

namespace FieldDirective

def NumbersAtLeast (directive : FieldDirective) (earlier later : Int) : Prop :=
  match directive.strictness with
  | .lowerIsStricter => later ≤ earlier
  | .higherIsStricter => earlier ≤ later
  | _ => False

/-- Whether a set has only grown or only shrunk, whichever is stricter, a sequence has only gone on
at its end, and what should not change has the same elements. -/
def ItemsAtLeast (directive : FieldDirective) (earlier later : List Json) : Prop :=
  match directive.strictness, directive.isOrderless with
  | .moreIsStricter, true => earlier ⊆ later
  | .fewerIsStricter, true => later ⊆ earlier
  | .moreIsStricter, false | .fewerIsStricter, false => earlier <+: later
  | .anyChangeIsLooser, true => ∀ item, item ∈ earlier ↔ item ∈ later
  | .anyChangeIsLooser, false => earlier = later
  | _, _ => False

inductive AtLeastAsStrict (directive : FieldDirective) : Json → Json → Prop where
  | flags {earlier later : Bool} : directive.strictness = .trueIsStricter →
      (earlier = true → later = true) → AtLeastAsStrict directive (.bool earlier) (.bool later)
  | numbers {earlier later : Int} : directive.NumbersAtLeast earlier later →
      AtLeastAsStrict directive (.int earlier) (.int later)
  | items {earlier later : List Json} : directive.ItemsAtLeast earlier later →
      AtLeastAsStrict directive (.arr earlier) (.arr later)

variable {directive : FieldDirective}

theorem numbersAtLeast_trans {first second third : Int}
    (earlier : directive.NumbersAtLeast first second)
    (later : directive.NumbersAtLeast second third) : directive.NumbersAtLeast first third := by
  obtain ⟨kind, ordering, merge, strictness⟩ := directive
  cases strictness with
  | lowerIsStricter => exact Int.le_trans later earlier
  | higherIsStricter => exact Int.le_trans earlier later
  | trueIsStricter | moreIsStricter | fewerIsStricter | anyChangeIsLooser => exact earlier

theorem itemsAtLeast_trans {first second third : List Json}
    (earlier : directive.ItemsAtLeast first second)
    (later : directive.ItemsAtLeast second third) : directive.ItemsAtLeast first third := by
  obtain ⟨kind, ordering, merge, strictness⟩ := directive
  cases strictness with
  | moreIsStricter =>
      cases ordering
      · exact List.Subset.trans earlier later
      · exact List.IsPrefix.trans earlier later
  | fewerIsStricter =>
      cases ordering
      · exact List.Subset.trans later earlier
      · exact List.IsPrefix.trans earlier later
  | anyChangeIsLooser =>
      cases ordering
      · exact fun item => (earlier item).trans (later item)
      · exact Eq.trans earlier later
  | trueIsStricter | lowerIsStricter | higherIsStricter => exact earlier

theorem atLeastAsStrict_trans {first second third : Json}
    (earlier : directive.AtLeastAsStrict first second)
    (later : directive.AtLeastAsStrict second third) : directive.AtLeastAsStrict first third := by
  cases earlier with
  | flags direction kept =>
      cases later with
      | flags _ kept' => exact .flags direction (kept' ∘ kept)
  | numbers moved =>
      cases later with
      | numbers moved' => exact .numbers (numbersAtLeast_trans moved moved')
  | items moved =>
      cases later with
      | items moved' => exact .items (itemsAtLeast_trans moved moved')

theorem atLeastAsStrict_self {value : Json} (coherent : directive.isCoherent = true)
    (free : value.floatFree = true) (accepted : directive.kind.accepts value = true) :
    directive.AtLeastAsStrict value value := by
  obtain ⟨kind, ordering, merge, strictness⟩ := directive
  cases kind with
  | boolean =>
      cases value with
      | bool flag =>
          cases strictness with
          | trueIsStricter => exact .flags rfl id
          | _ => cases coherent
      | _ => cases accepted
  | number =>
      cases value with
      | int number =>
          cases strictness with
          | lowerIsStricter | higherIsStricter => exact .numbers (Int.le_refl number)
          | _ => cases coherent
      | float => cases free
      | _ => cases accepted
  | stringArray | objectArray =>
      cases value with
      | arr items =>
          refine .items ?_
          cases strictness with
          | moreIsStricter | fewerIsStricter =>
              cases ordering
              · exact List.Subset.refl items
              · exact List.prefix_refl items
          | anyChangeIsLooser =>
              cases ordering
              · exact fun item => Iff.rfl
              · rfl
          | _ => cases coherent
      | _ => cases accepted

end FieldDirective

/-! ## Classified differences -/

namespace ConflictClassification

/-- How a change is classified by whether the later value is at least as strict as the earlier one,
and by whether it is so the other way round. -/
inductive Grades (kept back : Prop) : Option ConflictClassification → Prop where
  | unchanged : kept → back → Grades kept back none
  | stricter : kept → ¬ back → Grades kept back (some .stricter)
  | looser : ¬ kept → Grades kept back (some .looser)

section Grades

variable {kept back : Prop} {result : Option ConflictClassification}

theorem Grades.eq_none_iff (grades : Grades kept back result) : result = none ↔ kept ∧ back := by
  cases grades with
  | unchanged same same' => exact iff_of_true rfl ⟨same, same'⟩
  | stricter _ notBack => exact iff_of_false nofun fun both => notBack both.2
  | looser notKept => exact iff_of_false nofun fun both => notKept both.1

theorem Grades.eq_stricter_iff (grades : Grades kept back result) :
    result = some .stricter ↔ kept ∧ ¬ back := by
  cases grades with
  | unchanged _ same => exact iff_of_false nofun fun both => both.2 same
  | stricter tightened notBack => exact iff_of_true rfl ⟨tightened, notBack⟩
  | looser notKept => exact iff_of_false nofun fun both => notKept both.1

theorem Grades.eq_looser_iff (grades : Grades kept back result) :
    result = some .looser ↔ ¬ kept := by
  cases grades with
  | unchanged same _ => exact iff_of_false nofun fun notKept => notKept same
  | stricter tightened _ => exact iff_of_false nofun fun notKept => notKept tightened
  | looser notKept => exact iff_of_true rfl notKept

theorem Grades.of_ne_looser (grades : Grades kept back result) (notLooser : result ≠ some .looser) :
    kept :=
  Classical.not_not.mp fun notKept => notLooser (grades.eq_looser_iff.mpr notKept)

end Grades

theorem grades_ofFlags (earlier later : Bool) :
    Grades (earlier = true → later = true) (later = true → earlier = true)
      (ofFlags (.bool earlier) (.bool later)) := by
  cases earlier with
  | false =>
      cases later with
      | false => exact .unchanged id id
      | true => exact .stricter nofun fun back => nomatch back rfl
  | true =>
      cases later with
      | false => exact .looser fun kept => nomatch kept rfl
      | true => exact .unchanged id id

variable {earlier later : List Json}

theorem grades_allIn (moreIsStricter : Bool) (earlier later : List Json) :
    Grades ((if moreIsStricter then Json.allIn earlier later else Json.allIn later earlier) = true)
      ((if moreIsStricter then Json.allIn later earlier else Json.allIn earlier later) = true)
      (ofSets moreIsStricter earlier later) := by
  rw [ofSets]
  generalize Json.allIn earlier later = kept
  generalize Json.allIn later earlier = old
  cases kept with
  | false =>
      cases moreIsStricter with
      | false =>
          cases old with
          | false => exact .looser nofun
          | true => exact .stricter rfl nofun
      | true => exact .looser nofun
  | true =>
      cases old with
      | true =>
          cases moreIsStricter with
          | false | true => exact .unchanged rfl rfl
      | false =>
          cases moreIsStricter with
          | false => exact .looser nofun
          | true => exact .stricter rfl nofun

theorem grades_ofSets (moreIsStricter : Bool) (free : ∀ item ∈ earlier, item.floatFree = true)
    (free' : ∀ item ∈ later, item.floatFree = true) :
    Grades (if moreIsStricter = true then earlier ⊆ later else later ⊆ earlier)
      (if moreIsStricter = true then later ⊆ earlier else earlier ⊆ later)
      (ofSets moreIsStricter earlier later) := by
  have grades := grades_allIn moreIsStricter earlier later
  rw [← Json.allIn_iff free, ← Json.allIn_iff free']
  cases moreIsStricter with
  | false | true => exact grades

theorem grades_ofSequences (free : ∀ item ∈ earlier, item.floatFree = true)
    (free' : ∀ item ∈ later, item.floatFree = true) :
    Grades (earlier <+: later) (later <+: earlier) (ofSequences earlier later) := by
  rw [ofSequences]
  split
  · rename_i same
    obtain rfl := (Json.sameItems_eq_true_iff free).mp same
    exact .unchanged (List.prefix_refl _) (List.prefix_refl _)
  · rename_i different
    rw [Json.sameItems_eq_true_iff free] at different
    split
    · rename_i extended
      obtain ⟨longer, begins⟩ := Bool.and_eq_true_iff.mp extended
      refine .stricter ((Json.beginsWith_iff free').mp begins) fun back => ?_
      exact Nat.not_lt.mpr back.length_le (of_decide_eq_true longer)
    · rename_i other
      refine .looser fun kept => other ?_
      have longer : earlier.length < later.length :=
        Nat.lt_of_le_of_ne kept.length_le fun same => different (kept.eq_of_length same)
      exact Bool.and_eq_true_iff.mpr ⟨decide_eq_true longer, (Json.beginsWith_iff free').mpr kept⟩

theorem grades_ofFixed (orderless : Bool) (free : ∀ item ∈ earlier, item.floatFree = true)
    (free' : ∀ item ∈ later, item.floatFree = true) :
    Grades (if orderless = true then ∀ item, item ∈ earlier ↔ item ∈ later else earlier = later)
      (if orderless = true then ∀ item, item ∈ later ↔ item ∈ earlier else later = earlier)
      (ofFixed orderless earlier later) := by
  have sameElements : (∀ item, item ∈ earlier ↔ item ∈ later) ↔
      (Json.allIn earlier later && Json.allIn later earlier) = true := by
    rw [Bool.and_eq_true, Json.allIn_iff free, Json.allIn_iff free']
    exact ⟨fun same => ⟨fun item => (same item).mp, fun item => (same item).mpr⟩,
      fun both item => ⟨fun listed => both.1 listed, fun listed => both.2 listed⟩⟩
  rw [ofFixed]
  cases orderless with
  | false =>
      simp only [Bool.false_eq_true, if_false, ← Json.sameItems_eq_true_iff free]
      split
      · rename_i same
        exact .unchanged same ((Json.sameItems_eq_true_iff free).mp same).symm
      · rename_i different
        exact .looser different
  | true =>
      simp only [if_true]
      split
      · rename_i same
        have elements := sameElements.mpr same
        exact .unchanged elements fun item => (elements item).symm
      · rename_i different
        exact .looser fun elements => different (sameElements.mp elements)

end ConflictClassification

namespace FieldDirective

variable {directive : FieldDirective}

theorem atLeastAsStrict_bool_iff {earlier later : Bool} :
    directive.AtLeastAsStrict (.bool earlier) (.bool later) ↔
      directive.strictness = .trueIsStricter ∧ (earlier = true → later = true) :=
  ⟨fun | .flags direction kept => ⟨direction, kept⟩, fun both => .flags both.1 both.2⟩

theorem atLeastAsStrict_int_iff {earlier later : Int} :
    directive.AtLeastAsStrict (.int earlier) (.int later) ↔
      directive.NumbersAtLeast earlier later :=
  ⟨fun | .numbers moved => moved, .numbers⟩

theorem atLeastAsStrict_arr_iff {earlier later : List Json} :
    directive.AtLeastAsStrict (.arr earlier) (.arr later) ↔ directive.ItemsAtLeast earlier later :=
  ⟨fun | .items moved => moved, .items⟩

theorem grades_numbers {earlier later : Int} (self : directive.NumbersAtLeast earlier earlier) :
    ConflictClassification.Grades (directive.NumbersAtLeast earlier later)
      (directive.NumbersAtLeast later earlier)
      (ConflictClassification.ofKind directive (.int earlier) (.int later)) := by
  obtain ⟨kind, ordering, merge, strictness⟩ := directive
  simp only [ConflictClassification.ofKind, ConflictClassification.ofNumbers, Json.compareNumbers?]
  cases strictness with
  | lowerIsStricter =>
      cases order : compare later earlier with
      | lt =>
          have less := Int.compare_eq_lt.mp order
          exact .stricter (Int.le_of_lt less) (Int.not_le.mpr less)
      | eq =>
          obtain rfl := Int.compare_eq_eq.mp order
          exact .unchanged self self
      | gt => exact .looser (Int.not_le.mpr (Int.compare_eq_gt.mp order))
  | higherIsStricter =>
      cases order : compare later earlier with
      | lt => exact .looser (Int.not_le.mpr (Int.compare_eq_lt.mp order))
      | eq =>
          obtain rfl := Int.compare_eq_eq.mp order
          exact .unchanged self self
      | gt =>
          have greater := Int.compare_eq_gt.mp order
          exact .stricter (Int.le_of_lt greater) (Int.not_le.mpr greater)
  | trueIsStricter | moreIsStricter | fewerIsStricter | anyChangeIsLooser => exact self.elim

theorem grades_items {earlier later : List Json}
    (free : ∀ item ∈ earlier, item.floatFree = true) (free' : ∀ item ∈ later, item.floatFree = true)
    (self : directive.ItemsAtLeast earlier earlier) :
    ConflictClassification.Grades (directive.ItemsAtLeast earlier later)
      (directive.ItemsAtLeast later earlier)
      (ConflictClassification.ofKind directive (.arr earlier) (.arr later)) := by
  obtain ⟨kind, ordering, merge, strictness⟩ := directive
  cases strictness with
  | moreIsStricter =>
      cases ordering with
      | orderless => exact ConflictClassification.grades_ofSets true free free'
      | ordered => exact ConflictClassification.grades_ofSequences free free'
  | fewerIsStricter =>
      cases ordering with
      | orderless => exact ConflictClassification.grades_ofSets false free free'
      | ordered => exact ConflictClassification.grades_ofSequences free free'
  | anyChangeIsLooser =>
      cases ordering with
      | orderless => exact ConflictClassification.grades_ofFixed true free free'
      | ordered => exact ConflictClassification.grades_ofFixed false free free'
  | trueIsStricter | lowerIsStricter | higherIsStricter => exact self.elim

theorem grades_ofKind {earlier later : Json} (coherent : directive.isCoherent = true)
    (free : earlier.floatFree = true) (free' : later.floatFree = true)
    (accepted : directive.kind.accepts earlier = true)
    (accepted' : directive.kind.accepts later = true) :
    ConflictClassification.Grades (directive.AtLeastAsStrict earlier later)
      (directive.AtLeastAsStrict later earlier)
      (ConflictClassification.ofKind directive earlier later) := by
  have self := atLeastAsStrict_self coherent free accepted
  cases known : directive.kind with
  | boolean =>
      rw [known] at accepted accepted'
      obtain ⟨flag, rfl⟩ := ValueKind.exists_flag_of_accepts accepted
      obtain ⟨flag', rfl⟩ := ValueKind.exists_flag_of_accepts accepted'
      obtain ⟨direction, _⟩ := atLeastAsStrict_bool_iff.mp self
      simp only [atLeastAsStrict_bool_iff, direction, true_and, ConflictClassification.ofKind]
      exact ConflictClassification.grades_ofFlags flag flag'
  | number =>
      rw [known] at accepted accepted'
      obtain ⟨number, rfl⟩ := ValueKind.exists_number_of_accepts free accepted
      obtain ⟨number', rfl⟩ := ValueKind.exists_number_of_accepts free' accepted'
      rw [atLeastAsStrict_int_iff, atLeastAsStrict_int_iff]
      exact grades_numbers (atLeastAsStrict_int_iff.mp self)
  | stringArray | objectArray =>
      have array : directive.kind.isArray = true := by rw [known]; rfl
      obtain ⟨items, rfl⟩ := ValueKind.exists_items_of_accepts array accepted
      obtain ⟨items', rfl⟩ := ValueKind.exists_items_of_accepts array accepted'
      rw [atLeastAsStrict_arr_iff, atLeastAsStrict_arr_iff]
      exact grades_items (Json.floatFree_arr.mp free) (Json.floatFree_arr.mp free')
        (atLeastAsStrict_arr_iff.mp self)

/-- Values that are as strict as each other are equal, or sets with the same elements. -/
theorem eq_or_elements_of_atLeastAsStrict {earlier later : Json}
    (strict : directive.AtLeastAsStrict earlier later)
    (strict' : directive.AtLeastAsStrict later earlier) :
    earlier = later ∨ (directive.isOrderless = true ∧ ∃ items others, earlier = .arr items ∧
      later = .arr others ∧ ∀ item, item ∈ items ↔ item ∈ others) := by
  cases strict with
  | flags _ kept =>
      obtain ⟨_, kept'⟩ := atLeastAsStrict_bool_iff.mp strict'
      exact .inl (congrArg Json.bool (Bool.eq_iff_iff.mpr ⟨kept, kept'⟩))
  | numbers moved =>
      have moved' := atLeastAsStrict_int_iff.mp strict'
      refine .inl (congrArg Json.int ?_)
      obtain ⟨kind, ordering, merge, strictness⟩ := directive
      cases strictness with
      | lowerIsStricter => exact Int.le_antisymm moved' moved
      | higherIsStricter => exact Int.le_antisymm moved moved'
      | trueIsStricter | moreIsStricter | fewerIsStricter | anyChangeIsLooser => exact moved.elim
  | @items items others moved =>
      have moved' := atLeastAsStrict_arr_iff.mp strict'
      obtain ⟨kind, ordering, merge, strictness⟩ := directive
      cases ordering with
      | orderless =>
          refine .inr ⟨rfl, items, others, rfl, rfl, ?_⟩
          cases strictness with
          | moreIsStricter =>
              exact fun item => ⟨fun listed => moved listed, fun listed => moved' listed⟩
          | fewerIsStricter =>
              exact fun item => ⟨fun listed => moved' listed, fun listed => moved listed⟩
          | anyChangeIsLooser => exact moved
          | trueIsStricter | lowerIsStricter | higherIsStricter => exact moved.elim
      | ordered =>
          refine .inl (congrArg Json.arr ?_)
          cases strictness with
          | moreIsStricter | fewerIsStricter =>
              exact List.IsPrefix.eq_of_length_le moved (List.IsPrefix.length_le moved')
          | anyChangeIsLooser => exact moved
          | trueIsStricter | lowerIsStricter | higherIsStricter => exact moved.elim

end FieldDirective

end Governance
