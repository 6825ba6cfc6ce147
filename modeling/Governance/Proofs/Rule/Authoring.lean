import Governance.Proofs.Condition.FailClosed
import Governance.Rule.Validation
import Mathlib.Logic.Basic

/-!
# Rules that may be written

Checking a list of rules ends at the first problem of the report on the list. There is none exactly
if no identifier repeats and every condition is sound: not too deep, without a disjunction of
nothing, and with operands that its operators can use.
-/

set_option autoImplicit false

namespace Governance

namespace Condition

inductive PartOf : Condition → Condition → Prop where
  | self {condition : Condition} : PartOf condition condition
  | all {part child : Condition} {children : List Condition} :
      child ∈ children → PartOf part child → PartOf part (.all children)
  | any {part child : Condition} {children : List Condition} :
      child ∈ children → PartOf part child → PartOf part (.any children)

/-- Whether a rule may be written with a condition. -/
structure Sound (condition : Condition) : Prop where
  shallow : condition.depth ≤ 32
  alternatives : ¬ PartOf (.any []) condition
  supported : ∀ field value, ¬ PartOf (.leaf field .unsupported value) condition
  array : ∀ field operator value, PartOf (.leaf field operator value) condition →
    operator = .memberOf ∨ operator = .notMemberOf → ∃ items, value = .arr items
  version : ∀ field operator value, PartOf (.leaf field operator value) condition →
    operator = .versionLessThan ∨ operator = .versionGreaterThan →
    ∃ text version, value = .str text ∧ Version.parseLenient? text = some version
  requirement : ∀ field value, PartOf (.leaf field .versionSatisfiesRange value) condition →
    ∃ text requirement, value = .str text ∧ Requirement.parse? text = some requirement

/-- A node that is refused wherever it stands. -/
inductive Flawed : Condition → Prop where
  | disjunction : Flawed (.any [])
  | comparison {field : FieldPath} {operator : Operator} {value : Json} :
      operator.Unusable value → Flawed (.leaf field operator value)

/-! ## Parts -/

variable {children : List Condition} {holds : Condition → Prop}

theorem forall_partOf_leaf {field : FieldPath} {operator : Operator} {value : Json} :
    (∀ part, PartOf part (.leaf field operator value) → holds part) ↔
      holds (.leaf field operator value) := by
  refine ⟨fun each => each _ .self, fun here part within => ?_⟩
  cases within
  exact here

theorem forall_partOf_all :
    (∀ part, PartOf part (.all children) → holds part) ↔
      holds (.all children) ∧ ∀ child ∈ children, ∀ part, PartOf part child → holds part := by
  constructor
  · intro each
    exact ⟨each _ .self, fun child listed part within => each part (.all listed within)⟩
  · rintro ⟨here, below⟩ part within
    cases within with
    | self => exact here
    | all listed within => exact below _ listed part within

theorem forall_partOf_any :
    (∀ part, PartOf part (.any children) → holds part) ↔
      holds (.any children) ∧ ∀ child ∈ children, ∀ part, PartOf part child → holds part := by
  constructor
  · intro each
    exact ⟨each _ .self, fun child listed part within => each part (.any listed within)⟩
  · rintro ⟨here, below⟩ part within
    cases within with
    | self => exact here
    | any listed within => exact below _ listed part within

theorem greatestDepth_le_iff {bound : Nat} :
    greatestDepth children ≤ bound ↔ ∀ child ∈ children, child.depth ≤ bound := by
  induction children with
  | nil => simp [greatestDepth]
  | cons child rest ih => rw [greatestDepth, Nat.max_le, ih, List.forall_mem_cons]

theorem not_flawed_all : ¬ Flawed (.all children) := nofun

theorem flawed_any_iff : Flawed (.any children) ↔ children = [] := by
  constructor
  · intro flawed
    cases flawed
    rfl
  · rintro rfl
    exact .disjunction

end Condition

/-! ## Comparisons -/

namespace Operator

variable {operator : Operator} {value : Json}

theorem isArray_eq_false_iff : value.isArray = false ↔ ¬ ∃ items, value = .arr items := by
  cases value <;> simp [Json.isArray, Json.items?]

theorem version?_eq_none_iff :
    version? value = none ↔
      ¬ ∃ text version, value = .str text ∧ Version.parseLenient? text = some version := by
  cases value with
  | str text => simp [version?, Json.text?, Option.eq_none_iff_forall_ne_some]
  | null | bool | int | float | arr | obj => simp [version?, Json.text?]

theorem requirement?_eq_none_iff :
    requirement? value = none ↔
      ¬ ∃ text requirement, value = .str text ∧ Requirement.parse? text = some requirement := by
  cases value with
  | str text => simp [requirement?, Json.text?, Option.eq_none_iff_forall_ne_some]
  | null | bool | int | float | arr | obj => simp [requirement?, Json.text?]

theorem unusable_iff :
    operator.Unusable value ↔ match operator with
      | .unsupported => True
      | .memberOf | .notMemberOf => value.isArray = false
      | .versionLessThan | .versionGreaterThan => version? value = none
      | .versionSatisfiesRange => requirement? value = none
      | .equals | .notEquals => False := by
  constructor
  · intro unusable
    cases unusable with
    | unsupported => trivial
    | memberOf other | notMemberOf other => exact other
    | versionLessThan unread | versionGreaterThan unread | versionSatisfiesRange unread =>
        exact unread
  · intro problem
    cases operator with
    | unsupported => exact .unsupported
    | memberOf => exact .memberOf problem
    | notMemberOf => exact .notMemberOf problem
    | versionLessThan => exact .versionLessThan problem
    | versionGreaterThan => exact .versionGreaterThan problem
    | versionSatisfiesRange => exact .versionSatisfiesRange problem
    | equals | notEquals => exact problem.elim

theorem not_unusable_iff :
    ¬ operator.Unusable value ↔ operator ≠ .unsupported ∧
      (operator = .memberOf ∨ operator = .notMemberOf → ∃ items, value = .arr items) ∧
      (operator = .versionLessThan ∨ operator = .versionGreaterThan →
        ∃ text version, value = .str text ∧ Version.parseLenient? text = some version) ∧
      (operator = .versionSatisfiesRange →
        ∃ text requirement, value = .str text ∧ Requirement.parse? text = some requirement) := by
  rw [unusable_iff]
  cases operator with
  | unsupported | equals | notEquals => simp
  | memberOf | notMemberOf => simp [isArray_eq_false_iff]
  | versionLessThan | versionGreaterThan => simp [version?_eq_none_iff]
  | versionSatisfiesRange => simp [requirement?_eq_none_iff]

end Operator

theorem Condition.sound_iff {condition : Condition} :
    condition.Sound ↔
      condition.depth ≤ PolicyRule.conditionDepthMax ∧
        ∀ part, PartOf part condition → ¬ part.Flawed := by
  constructor
  · intro sound
    refine ⟨sound.shallow, fun part within flawed => ?_⟩
    cases flawed with
    | disjunction => exact sound.alternatives within
    | @comparison field operator value unusable =>
        refine Operator.not_unusable_iff.mpr ⟨?_, ?_, ?_, ?_⟩ unusable
        · rintro rfl
          exact sound.supported field value within
        · exact sound.array field operator value within
        · exact sound.version field operator value within
        · rintro rfl
          exact sound.requirement field value within
  · rintro ⟨shallow, flawless⟩
    have usable (field : FieldPath) (operator : Operator) (value : Json)
        (within : PartOf (.leaf field operator value) condition) :=
      Operator.not_unusable_iff.mp fun unusable => flawless _ within (.comparison unusable)
    constructor
    · exact shallow
    · exact fun within => flawless _ within .disjunction
    · exact fun field value within => (usable field _ value within).1 rfl
    · exact fun field operator value within => (usable field operator value within).2.1
    · exact fun field operator value within => (usable field operator value within).2.2.1
    · exact fun field value within => (usable field _ value within).2.2.2 rfl

/-! ## One rule -/

namespace PolicyRule

open Condition

variable {rule : RuleId}

theorem validateLeaf_eq_ok_iff {field : FieldPath} {operator : Operator} {value : Json} :
    validateLeaf rule field operator value = .ok () ↔ ¬ operator.Unusable value := by
  unfold validateLeaf
  rw [Operator.unusable_iff]
  cases operator with
  | unsupported | equals | notEquals => simp
  | memberOf | notMemberOf => cases value.isArray <;> simp
  | versionLessThan | versionGreaterThan => cases Operator.version? value <;> simp
  | versionSatisfiesRange => cases Operator.requirement? value <;> simp

theorem validateChildren_eq_ok_iff {depth : Nat} {children : List Condition} :
    validateChildren rule depth children = .ok () ↔
      ∀ child ∈ children, validateCondition rule depth child = .ok () := by
  induction children with
  | nil => simp [validateChildren]
  | cons child rest ih =>
      rw [validateChildren, List.forall_mem_cons, ← ih]
      cases validateCondition rule depth child with
      | error problem => simp
      | ok => simp

/-- Children pass if there is room for each and no node below is flawed, provided that this is how
each child passes at the depth of the children. -/
theorem validateChildren_eq_ok_iff_of {depth : Nat} {children : List Condition}
    (each : ∀ child ∈ children, ∀ {depth : Nat}, validateCondition rule depth child = .ok () ↔
      depth + child.depth ≤ conditionDepthMax + 1 ∧ ∀ part, PartOf part child → ¬ part.Flawed) :
    validateChildren rule depth children = .ok () ↔
      (∀ child ∈ children, depth + child.depth ≤ conditionDepthMax + 1) ∧
        ∀ child ∈ children, ∀ part, PartOf part child → ¬ part.Flawed := by
  rw [validateChildren_eq_ok_iff, ← forall₂_and]
  exact forall₂_congr fun child listed => each child listed

theorem unless_eq_ok_iff {refused : Prop} [Decidable refused] {problem : ValidationError}
    {rest : Except ValidationError Unit} :
    (if refused then .error problem else rest) = .ok () ↔ ¬ refused ∧ rest = .ok () := by
  by_cases refuse : refused <;> simp [refuse]

/-- There is room for a combination at a depth if there is room for its children one level down. -/
theorem fits_iff {depth bound : Nat} {children : List Condition} :
    depth + (1 + greatestDepth children) ≤ bound + 1 ↔
      ¬ bound < depth ∧ ∀ child ∈ children, depth + 1 + child.depth ≤ bound + 1 := by
  constructor
  · intro fits
    refine ⟨by omega, fun child listed => ?_⟩
    have deepest := greatestDepth_le_iff.mp (Nat.le_refl (greatestDepth children)) child listed
    omega
  · rintro ⟨here, below⟩
    have deepest : greatestDepth children ≤ bound - depth := by
      apply greatestDepth_le_iff.mpr
      intro child listed
      have fits := below child listed
      omega
    omega

/-- A condition passes at a depth if there is room for it and no node in it is flawed. -/
theorem validateCondition_eq_ok_iff {depth : Nat} {condition : Condition} :
    validateCondition rule depth condition = .ok () ↔
      depth + condition.depth ≤ conditionDepthMax + 1 ∧
        ∀ part, PartOf part condition → ¬ part.Flawed := by
  induction condition using Condition.induct generalizing depth with
  | leaf field operator value =>
      have flawed : Flawed (.leaf field operator value) ↔ operator.Unusable value :=
        ⟨fun | .comparison unusable => unusable, .comparison⟩
      rw [validateCondition, unless_eq_ok_iff, validateLeaf_eq_ok_iff, forall_partOf_leaf, flawed,
        Condition.depth, Nat.not_lt, Nat.add_le_add_iff_right]
  | all children ih =>
      rw [validateCondition, unless_eq_ok_iff, validateChildren_eq_ok_iff_of ih,
        forall_partOf_all, Condition.depth, fits_iff, and_assoc]
      simp only [not_flawed_all, not_false_eq_true, true_and]
  | any children ih =>
      rw [validateCondition, unless_eq_ok_iff, unless_eq_ok_iff,
        validateChildren_eq_ok_iff_of ih, forall_partOf_any, Condition.depth, fits_iff,
        flawed_any_iff, List.isEmpty_iff, and_assoc]
      exact and_congr_right fun _ => and_left_comm

theorem validate_eq_ok_iff {rule : PolicyRule} :
    rule.validate = .ok () ↔ rule.condition.Sound := by
  rw [validate, validateCondition_eq_ok_iff, sound_iff, Nat.add_comm, Nat.add_le_add_iff_right]

/-! ## Lists of rules -/

variable {seen : List RuleId} {rules : List PolicyRule}

theorem violationsOf_eq_nil_iff {rule : PolicyRule} :
    violationsOf seen rule = [] ↔ rule.id ∉ seen ∧ rule.condition.Sound := by
  rw [violationsOf, List.append_eq_nil_iff, ← validate_eq_ok_iff]
  refine and_congr (by simp) ?_
  cases rule.validate <;> simp

theorem violationsAfter_eq_nil_iff :
    violationsAfter seen rules = [] ↔
      (∀ rule ∈ rules, rule.id ∉ seen) ∧ (rules.map PolicyRule.id).Nodup ∧
        ∀ rule ∈ rules, rule.condition.Sound := by
  induction rules generalizing seen with
  | nil => simp [violationsAfter]
  | cons rule rest ih =>
      have apart : (∀ later ∈ rest, later.id ∉ rule.id :: seen) ↔
          rule.id ∉ rest.map PolicyRule.id ∧ ∀ later ∈ rest, later.id ∉ seen := by
        simp only [List.mem_cons, not_or, List.mem_map, not_exists, not_and, forall₂_and]
      rw [violationsAfter, List.append_eq_nil_iff, violationsOf_eq_nil_iff, ih, apart,
        List.forall_mem_cons, List.forall_mem_cons, List.map_cons, List.nodup_cons]
      constructor
      · rintro ⟨⟨fresh, sound⟩, ⟨unique, fresh'⟩, distinct, sound'⟩
        exact ⟨⟨fresh, fresh'⟩, ⟨unique, distinct⟩, sound, sound'⟩
      · rintro ⟨⟨fresh, fresh'⟩, ⟨unique, distinct⟩, sound, sound'⟩
        exact ⟨⟨fresh, sound⟩, ⟨unique, fresh'⟩, distinct, sound'⟩

def firstOf : List ValidationError → Except ValidationError Unit
  | [] => .ok ()
  | problem :: _ => .error problem

theorem validateAfter_eq_firstOf :
    validateAfter seen rules = firstOf (violationsAfter seen rules) := by
  induction rules generalizing seen with
  | nil => rfl
  | cons rule rest ih =>
      rw [validateAfter, violationsAfter, violationsOf, ih]
      split
      · rfl
      · cases rule.validate with
        | error problem => rfl
        | ok => rfl

theorem firstOf_eq_ok_iff {problems : List ValidationError} :
    firstOf problems = .ok () ↔ problems = [] := by
  cases problems <;> simp [firstOf]

theorem firstOf_eq_error_iff {problems : List ValidationError} {problem : ValidationError} :
    firstOf problems = .error problem ↔ problems.head? = some problem := by
  cases problems <;> simp [firstOf]

/-- Checking a list of rules succeeds exactly if the report on it is empty, and otherwise fails with
the first problem of the report. The report is empty exactly if the identifiers are distinct and the
conditions are sound. -/
theorem validateAll_agrees (rules : List PolicyRule) :
    (validateAll rules = .ok () ↔ violations rules = []) ∧
      (∀ problem, validateAll rules = .error problem ↔
        (violations rules).head? = some problem) ∧
      (violations rules = [] ↔
        (rules.map PolicyRule.id).Nodup ∧ ∀ rule ∈ rules, rule.condition.Sound) := by
  have ends : validateAll rules = firstOf (violations rules) := validateAfter_eq_firstOf
  refine ⟨?_, fun problem => ?_, ?_⟩
  · rw [ends, firstOf_eq_ok_iff]
  · rw [ends, firstOf_eq_error_iff]
  · rw [violations, violationsAfter_eq_nil_iff]
    exact and_iff_right fun rule _ => List.not_mem_nil

end PolicyRule

end Governance
