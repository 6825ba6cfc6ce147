import Governance.Condition.Basic
import Governance.FieldPath.Access
import Governance.Version.Requirement

/-!
# Evaluation of conditions

Conditions are evaluated on the document of an event. Evaluation always gives an answer and fails
closed: a comparison with a field that is absent or `null` does not hold, not even one that asks
for a difference, and neither does one whose operand cannot be used.
-/

set_option autoImplicit false

namespace Governance

/-- The value of a field in a document, unless it is absent. A `null` counts as absent. -/
def FieldPath.present? (field : FieldPath) (document : Json) : Option Json :=
  match field.lookup? document with
  | some .null => none
  | found => found

namespace Operator

def version? (value : Json) : Option Version := value.text?.bind Version.parseLenient?

def requirement? (value : Json) : Option Requirement := value.text?.bind Requirement.parse?

def precedence? (actual expected : Json) : Option Ordering := do
  let left ← version? actual
  let right ← version? expected
  some (left.precedence right)

def holds (operator : Operator) (actual expected : Json) : Bool :=
  match operator with
  | .equals => actual.same expected
  | .notEquals => !actual.same expected
  | .memberOf => expected.items?.any fun items => actual.memberOf items
  | .notMemberOf => expected.items?.any fun items => !actual.memberOf items
  | .versionLessThan => precedence? actual expected == some .lt
  | .versionGreaterThan => precedence? actual expected == some .gt
  | .versionSatisfiesRange =>
    match version? actual, requirement? expected with
    | some version, some requirement => requirement.isSatisfiedBy version
    | _, _ => false
  | .unsupported => false

end Operator

namespace Condition

mutual

def evaluate (document : Json) : Condition → Bool
  | .leaf field operator value =>
    (field.present? document).any fun actual => operator.holds actual value
  | .all children => evaluateAll document children
  | .any children => evaluateAny document children
  termination_by structural condition => condition

def evaluateAll (document : Json) : List Condition → Bool
  | [] => true
  | child :: rest => evaluate document child && evaluateAll document rest
  termination_by structural children => children

def evaluateAny (document : Json) : List Condition → Bool
  | [] => false
  | child :: rest => evaluate document child || evaluateAny document rest
  termination_by structural children => children

end

end Condition

end Governance
