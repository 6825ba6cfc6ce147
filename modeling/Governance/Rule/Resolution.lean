import Governance.Effective.Basic
import Governance.Event
import Governance.Rule.Validation

/-!
# Resolution

The verdict on an event. Active rules are tried in ascending order of priority, those of one
priority by identifier, and the first one whose condition holds decides. If there is none, the
event has to be reviewed. Nothing but the event and the rules enters the verdict.
-/

set_option autoImplicit false

namespace Governance

def Verdict.noMatchReason : String := "no matching rule"

namespace PolicyRule

def mayPrecede (left right : PolicyRule) : Bool :=
  left.priority < right.priority
    || (left.priority == right.priority && !decide (right.id < left.id))

def inOrder (rules : List PolicyRule) : List PolicyRule :=
  (rules.filter PolicyRule.active).mergeSort mayPrecede

def applies (rule : PolicyRule) (document : Json) : Bool := rule.condition.evaluate document

end PolicyRule

namespace UsageEvent

def verdictOf (event : UsageEvent) (rule : PolicyRule) : Verdict :=
  { status := rule.decision.status
    reason := rule.decision.reason
    rule := some rule.id
    snapshot := event.context.snapshot }

def unmatched (event : UsageEvent) : Verdict :=
  { status := .requiresReview
    reason := Verdict.noMatchReason
    rule := none
    snapshot := event.context.snapshot }

def resolve (event : UsageEvent) (rules : List PolicyRule) : Verdict :=
  match (PolicyRule.inOrder rules).find? (·.applies event.document) with
  | some rule => event.verdictOf rule
  | none => event.unmatched

def explain (event : UsageEvent) (rules : List PolicyRule) : List RuleEvaluation :=
  (PolicyRule.inOrder rules).map fun rule =>
    { rule := rule.id, priority := rule.priority, matched := rule.applies event.document }

end UsageEvent

/-! ## Rules of an effective policy -/

namespace PolicyRule

def readFrom (index : Nat) : List Json → Except ValidationError (List PolicyRule)
  | [] => .ok []
  | item :: rest =>
    match PolicyRule.ofJson item with
    | .error cause => .error (.malformedDecisionRule index (.malformed cause))
    | .ok rule => (readFrom (index + 1) rest).map (rule :: ·)

def firstRepeated? (seen : List RuleId) : List PolicyRule → Option RuleId
  | [] => none
  | rule :: rest =>
    if rule.id ∈ seen then some rule.id else firstRepeated? (rule.id :: seen) rest

end PolicyRule

namespace EffectivePolicy

/-- The decision rules that an effective policy carries. Their array is a set, so no identifier may
repeat: rules with one identifier would have no order that the digest covers. -/
def decisionRules (policy : EffectivePolicy) : Except ValidationError (List PolicyRule) :=
  match policy.values.member? decisionRulesField with
  | none => .ok []
  | some .null => .ok []
  | some (.arr items) =>
    match PolicyRule.readFrom 0 items with
    | .error problem => .error problem
    | .ok rules =>
      match PolicyRule.firstRepeated? [] rules with
      | some id => .error (.duplicateRuleId id)
      | none => .ok rules
  | some found => .error (.malformedDecisionRule 0 (.notAnArray found))

def resolve (policy : EffectivePolicy) (event : UsageEvent) : Except ValidationError Verdict :=
  policy.decisionRules.map event.resolve

end EffectivePolicy

end Governance
