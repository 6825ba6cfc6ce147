import Governance.Condition.Evaluate
import Governance.Rule.Basic
import Governance.ValidationError

/-!
# Validation of rules

Checks on rules that are being written. A rule is refused when its condition is nested too deeply,
has a disjunction of nothing, or compares a field in a way that could never hold. Evaluation does
not rely on these checks.
-/

set_option autoImplicit false

namespace Governance.PolicyRule

def conditionDepthMax : Nat := 32

def validateLeaf (rule : RuleId) (field : FieldPath) (operator : Operator) (value : Json) :
    Except ValidationError Unit :=
  let require (passed : Bool) (problem : OperandProblem) : Except ValidationError Unit :=
    if passed then .ok () else .error (.invalidComparisonValue rule field operator problem)
  match operator with
  | .unsupported => .error (.unsupportedOperator rule field)
  | .memberOf => require value.isArray .notAnArray
  | .notMemberOf => require value.isArray .notAnArray
  | .versionLessThan => require (Operator.version? value).isSome .notAVersion
  | .versionGreaterThan => require (Operator.version? value).isSome .notAVersion
  | .versionSatisfiesRange => require (Operator.requirement? value).isSome .notARequirement
  | .equals => .ok ()
  | .notEquals => .ok ()

mutual

def validateCondition (rule : RuleId) (depth : Nat) : Condition → Except ValidationError Unit
  | .leaf field operator value =>
    if conditionDepthMax < depth then .error (.conditionTooDeep rule conditionDepthMax)
    else validateLeaf rule field operator value
  | .all children =>
    if conditionDepthMax < depth then .error (.conditionTooDeep rule conditionDepthMax)
    else validateChildren rule (depth + 1) children
  | .any children =>
    if conditionDepthMax < depth then .error (.conditionTooDeep rule conditionDepthMax)
    else if children.isEmpty then .error (.emptyDisjunction rule)
    else validateChildren rule (depth + 1) children
  termination_by structural condition => condition

def validateChildren (rule : RuleId) (depth : Nat) :
    List Condition → Except ValidationError Unit
  | [] => .ok ()
  | child :: rest =>
    match validateCondition rule depth child with
    | .error problem => .error problem
    | .ok () => validateChildren rule depth rest
  termination_by structural children => children

end

def validate (rule : PolicyRule) : Except ValidationError Unit :=
  validateCondition rule.id 1 rule.condition

def validateAfter (seen : List RuleId) : List PolicyRule → Except ValidationError Unit
  | [] => .ok ()
  | rule :: rest =>
    if rule.id ∈ seen then .error (.duplicateRuleId rule.id)
    else match rule.validate with
      | .error problem => .error problem
      | .ok () => validateAfter (rule.id :: seen) rest

def validateAll (rules : List PolicyRule) : Except ValidationError Unit := validateAfter [] rules

def violationsOf (seen : List RuleId) (rule : PolicyRule) : List ValidationError :=
  (if rule.id ∈ seen then [.duplicateRuleId rule.id] else [])
    ++ match rule.validate with
      | .error problem => [problem]
      | .ok () => []

def violationsAfter (seen : List RuleId) : List PolicyRule → List ValidationError
  | [] => []
  | rule :: rest => violationsOf seen rule ++ violationsAfter (rule.id :: seen) rest

/-- Every problem of a list of rules: repeated identifiers, and the first problem of each rule. -/
def violations (rules : List PolicyRule) : List ValidationError := violationsAfter [] rules

end Governance.PolicyRule
