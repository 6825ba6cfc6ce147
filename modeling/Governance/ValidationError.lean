import Governance.Condition.Basic
import Governance.Field.Directive
import Governance.Policy.Basic
import Governance.Scope.Basic

/-!
# Validation errors

Why a record is not accepted: a blank identifier, a text that is no path, a rule that could never
work, a policy that does not fit the registry, or scopes that form no chain or forest. A record
with such an error is refused and never mended silently.
-/

set_option autoImplicit false

namespace Governance

inductive OperandProblem where
  | notAnArray
  | notAVersion
  | notARequirement
  deriving DecidableEq, Repr

def OperandProblem.message : OperandProblem → String
  | .notAnArray => "expected an array"
  | .notAVersion => "expected a version string"
  | .notARequirement => "expected a version requirement"

inductive PolicySection where
  | rules
  | overrides
  deriving DecidableEq, Repr

def PolicySection.name : PolicySection → String
  | .rules => "rules"
  | .overrides => "override_rules"

inductive RuleListProblem where
  | notAnArray (found : Json)
  | malformed (cause : Wire.DecodeError)
  deriving DecidableEq

def decisionRulesField : String := "decision_rules"

def RuleListProblem.message : RuleListProblem → String
  | .notAnArray found =>
    decisionRulesField ++ " must be an array, found " ++ ValueKind.describe found
  | .malformed cause => cause.message

inductive ValidationError where
  | emptyIdentifier (kind : IdentifierKind)
  | invalidFieldPath (text : String) (problem : PathProblem)
  | unsupportedOperator (rule : RuleId) (field : FieldPath)
  | invalidComparisonValue (rule : RuleId) (field : FieldPath) (operator : Operator)
      (problem : OperandProblem)
  | emptyDisjunction (rule : RuleId)
  | conditionTooDeep (rule : RuleId) (limit : Nat)
  | duplicateRuleId (rule : RuleId)
  | malformedDecisionRule (index : Nat) (problem : RuleListProblem)
  | ruleSetNotObject (policy : PolicyId) (part : PolicySection)
  | fieldKindMismatch (policy : PolicyId) (field : FieldPath) (expected : ValueKind)
      (found : Json)
  | emptyChain
  | chainTargetMismatch (expected actual : ScopeId)
  | brokenChain (scope expectedParent : ScopeId) (actualParent : Option ScopeId)
  | scopeDepthOrder (scope : ScopeId) (parentType childType : ScopeType)
  | duplicateScope (scope : ScopeId)
  | unknownScope (scope : ScopeId)
  | scopeCycle (scope : ScopeId)
  | policyScopeNotInChain (policy : PolicyId) (scope : ScopeId)
  deriving DecidableEq

namespace ValidationError

def message : ValidationError → String
  | .emptyIdentifier kind => Wire.emptyIdentifierMessage kind
  | .invalidFieldPath text problem => Wire.invalidFieldPathMessage text problem
  | .unsupportedOperator rule field =>
    "rule " ++ rule.text ++ " uses an unsupported operator on field " ++ field.display
  | .invalidComparisonValue rule field operator problem =>
    "rule " ++ rule.text ++ ": invalid comparison value for " ++ Wire.Named.name operator
      ++ " on " ++ field.display ++ ": " ++ problem.message
  | .emptyDisjunction rule => "rule " ++ rule.text ++ " contains an empty OR condition"
  | .conditionTooDeep rule limit =>
    "rule " ++ rule.text ++ " condition nesting exceeds " ++ toString limit ++ " levels"
  | .duplicateRuleId rule => "duplicate rule id: " ++ rule.text
  | .malformedDecisionRule index problem =>
    "malformed decision rule at index " ++ toString index ++ ": " ++ problem.message
  | .ruleSetNotObject policy part =>
    "policy " ++ policy.text ++ ": " ++ part.name ++ " must be a JSON object"
  | .fieldKindMismatch policy field expected found =>
    "policy " ++ policy.text ++ ": field " ++ field.display ++ " expects " ++ expected.name
      ++ ", found " ++ ValueKind.describe found
  | .emptyChain => "ancestor chain is empty"
  | .chainTargetMismatch expected actual =>
    "ancestor chain ends at scope " ++ actual.text ++ ", expected target " ++ expected.text
  | .brokenChain scope expectedParent actualParent =>
    "scope " ++ scope.text ++ " has parent "
      ++ Text.quoteOption (actualParent.map Identifier.text) ++ ", expected "
      ++ expectedParent.text
  | .scopeDepthOrder scope parentType childType =>
    "scope " ++ scope.text ++ " of type " ++ Wire.Named.name childType
      ++ " cannot sit below a " ++ Wire.Named.name parentType ++ " scope"
  | .duplicateScope scope => "duplicate scope: " ++ scope.text
  | .unknownScope scope => "unknown scope: " ++ scope.text
  | .scopeCycle scope => "scope hierarchy contains a cycle through " ++ scope.text
  | .policyScopeNotInChain policy scope =>
    "policy " ++ policy.text ++ " is attached to scope " ++ scope.text
      ++ ", which is not in the chain"

end ValidationError

def Identifier.ofText (kind : IdentifierKind) (text : String) :
    Except ValidationError (Identifier kind) :=
  match Identifier.ofText? kind text with
  | some id => .ok id
  | none => .error (.emptyIdentifier kind)

def FieldPath.ofText (text : String) : Except ValidationError FieldPath :=
  (FieldPath.parse text).mapError (.invalidFieldPath text)

end Governance
