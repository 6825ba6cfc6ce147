import Governance.Condition.Wire

/-!
# Decision rules and verdicts

A rule decides an event if its condition holds. The verdict on an event names the rule that decided
it, if one did, and the policy snapshot that it is bound to.
-/

set_option autoImplicit false

namespace Governance

inductive DecisionStatus where
  | allow
  | block
  | requiresReview
  deriving DecidableEq, Repr

instance : Wire.Named DecisionStatus where
  all := [.allow, .block, .requiresReview]
  name
    | .allow => "allow"
    | .block => "block"
    | .requiresReview => "requires_review"

structure Decision where
  status : DecisionStatus
  reason : String
  deriving DecidableEq, Repr

/-- A decision rule. Rules with a lower priority number come first; inactive rules are skipped. -/
structure PolicyRule where
  id : RuleId
  priority : Int64
  active : Bool
  condition : Condition
  decision : Decision
  deriving DecidableEq

structure Verdict where
  status : DecisionStatus
  reason : String
  rule : Option RuleId
  snapshot : PolicySnapshotId
  deriving DecidableEq, Repr

structure RuleEvaluation where
  rule : RuleId
  priority : Int64
  matched : Bool
  deriving DecidableEq, Repr

/-! ## Records -/

def Decision.toJson (decision : Decision) : Json :=
  .obj [("status", .str (Wire.Named.name decision.status)), ("reason", .str decision.reason)]

def Decision.ofJson : Json → Wire.Decoded Decision :=
  Wire.record "struct Decision" 2 fun given =>
    Decision.mk <$> given.field 0 "status" Wire.named <*> given.field 1 "reason" Wire.text

namespace PolicyRule

def ofCondition (id : RuleId) (priority : Int64) (condition : Condition) (decision : Decision) :
    PolicyRule :=
  { id, priority, active := true, condition, decision }

def toJson (rule : PolicyRule) : Json :=
  .obj [("id", .str rule.id.text), ("priority", .int rule.priority.toInt),
    ("active", .bool rule.active), ("condition", rule.condition.toJson),
    ("decision", rule.decision.toJson)]

def ofJson : Json → Wire.Decoded PolicyRule :=
  Wire.record "struct PolicyRule" 5 fun given =>
    PolicyRule.mk <$> given.field 0 "id" (Wire.identifier .rule)
      <*> given.field 1 "priority" Wire.int64
      <*> given.fieldOr (some true) 2 "active" Wire.flag
      <*> given.field 3 "condition" Condition.ofJson
      <*> given.field 4 "decision" Decision.ofJson

end PolicyRule

def Verdict.toJson (verdict : Verdict) : Json :=
  .obj ([("status", .str (Wire.Named.name verdict.status)), ("reason", .str verdict.reason)]
    ++ Wire.present "rule_id" (verdict.rule.map fun id => .str id.text)
    ++ [("policy_snapshot_id", .str verdict.snapshot.text)])

def Verdict.ofJson : Json → Wire.Decoded Verdict :=
  Wire.record "struct Verdict" 4 fun given =>
    Verdict.mk <$> given.field 0 "status" Wire.named
      <*> given.field 1 "reason" Wire.text
      <*> given.optionalField 2 "rule_id" (Wire.identifier .rule)
      <*> given.field 3 "policy_snapshot_id" (Wire.identifier .policySnapshot)

def RuleEvaluation.toJson (evaluation : RuleEvaluation) : Json :=
  .obj [("rule_id", .str evaluation.rule.text), ("priority", .int evaluation.priority.toInt),
    ("matched", .bool evaluation.matched)]

def RuleEvaluation.ofJson : Json → Wire.Decoded RuleEvaluation :=
  Wire.record "struct RuleEvaluation" 3 fun given =>
    RuleEvaluation.mk <$> given.field 0 "rule_id" (Wire.identifier .rule)
      <*> given.field 1 "priority" Wire.int64
      <*> given.field 2 "matched" Wire.flag

end Governance
