import Governance.Condition.Evaluate

/-!
# What a condition compares

A condition looks at a document through the fields of its comparisons and through nothing else, so
documents that agree on these fields are not told apart.
-/

set_option autoImplicit false

namespace Governance.Condition

@[elab_as_elim]
theorem induct {motive : Condition → Prop}
    (leaf : ∀ field operator value, motive (.leaf field operator value))
    (all : ∀ children, (∀ child ∈ children, motive child) → motive (.all children))
    (any : ∀ children, (∀ child ∈ children, motive child) → motive (.any children))
    (condition : Condition) : motive condition :=
  @Condition.rec motive (fun children => ∀ child ∈ children, motive child) leaf all any
    (fun _ listed => nomatch listed)
    (fun _ _ headIH restIH => List.forall_mem_cons.mpr ⟨headIH, restIH⟩) condition

inductive Compares : Condition → FieldPath → Prop where
  | leaf {field : FieldPath} {operator : Operator} {value : Json} :
      Compares (.leaf field operator value) field
  | all {children : List Condition} {child : Condition} {field : FieldPath} :
      child ∈ children → Compares child field → Compares (.all children) field
  | any {children : List Condition} {child : Condition} {field : FieldPath} :
      child ∈ children → Compares child field → Compares (.any children) field

theorem evaluateAll_eq_all (document : Json) (children : List Condition) :
    evaluateAll document children = children.all (evaluate document) := by
  induction children with
  | nil => rfl
  | cons child rest ih => rw [evaluateAll, ih, List.all_cons]

theorem evaluateAny_eq_any (document : Json) (children : List Condition) :
    evaluateAny document children = children.any (evaluate document) := by
  induction children with
  | nil => rfl
  | cons child rest ih => rw [evaluateAny, ih, List.any_cons]

/-- Documents that agree on the compared fields give a condition the same value. -/
theorem evaluate_eq_of_present? {document other : Json} {condition : Condition}
    (agree : ∀ field, condition.Compares field → field.present? document = field.present? other) :
    condition.evaluate document = condition.evaluate other := by
  induction condition using induct with
  | leaf field operator value => rw [evaluate, evaluate, agree field .leaf]
  | all children ih =>
      have same : ∀ child ∈ children, child.evaluate document = child.evaluate other :=
        fun child listed => ih child listed fun field compared => agree field (.all listed compared)
      rw [evaluate, evaluate, evaluateAll_eq_all, evaluateAll_eq_all, Bool.eq_iff_iff,
        List.all_eq_true, List.all_eq_true]
      exact forall₂_congr fun child listed => by rw [same child listed]
  | any children ih =>
      have same : ∀ child ∈ children, child.evaluate document = child.evaluate other :=
        fun child listed => ih child listed fun field compared => agree field (.any listed compared)
      rw [evaluate, evaluate, evaluateAny_eq_any, evaluateAny_eq_any, Bool.eq_iff_iff,
        List.any_eq_true, List.any_eq_true]
      exact exists_congr fun child => and_congr_right fun listed => by rw [same child listed]

end Governance.Condition
