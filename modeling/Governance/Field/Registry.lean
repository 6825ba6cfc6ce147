import Governance.Field.Directive
import Governance.FieldPath.Basic

/-!
# The field registry

The table of directives by field. A field is named by the keys of its path; array positions do not
count, so that all elements of an array share the directive of the array. One standard table serves
every part of the library, because two parts with different tables would disagree about which
arrays are sets and hence about the digest of a policy.
-/

set_option autoImplicit false

namespace Governance

structure FieldRegistry where
  directives : SortedMap (List String) FieldDirective
  deriving DecidableEq, Inhabited

namespace FieldRegistry

def empty : FieldRegistry := ⟨{}⟩

def register (registry : FieldRegistry) (path : FieldPath) (directive : FieldDirective) :
    FieldRegistry :=
  ⟨registry.directives.insert path.keys directive⟩

def directiveForKeys? (registry : FieldRegistry) (keys : List String) : Option FieldDirective :=
  registry.directives.find? keys

def directive? (registry : FieldRegistry) (path : FieldPath) : Option FieldDirective :=
  registry.directiveForKeys? path.keys

def isOrderless (registry : FieldRegistry) (keys : List String) : Bool :=
  (registry.directiveForKeys? keys).any FieldDirective.isOrderless

/-- Whether a sequence of keys leads to registered fields further down. In key order these fields
follow the sequence one after another, so the first field that does not begin with it ends the
search. -/
def hasDescendants (registry : FieldRegistry) (keys : List String) : Bool :=
  ((registry.directives.keysFrom keys).takeWhile keys.isPrefixOf).any fun field =>
    keys.length < field.length

def toList (registry : FieldRegistry) : List (FieldPath × FieldDirective) :=
  registry.directives.entries.map fun (keys, directive) => (FieldPath.ofKeys keys, directive)

def size (registry : FieldRegistry) : Nat := registry.directives.size

def isEmpty (registry : FieldRegistry) : Bool := registry.directives.isEmpty

def standardFields : List (List String × FieldDirective) :=
  [(["controls", "hitl", "required"], .requiredFlag),
   (["controls", "audit_trail_required"], .requiredFlag),
   (["require_impact_assessment"], .requiredFlag),
   (["data_residency_required"], .requiredFlag),
   (["usage_restrictions", "max_daily_requests"], .upperBound),
   (["risk", "max_risk_score"], .upperBound),
   (["min_approvals"], .lowerBound),
   (["data_handling", "retention_days"], .lowerBound),
   (["blocked_actions"], .set .stringArray .moreIsStricter),
   (["controls", "hitl", "reviewers"], .set .stringArray .moreIsStricter),
   (["data_handling", "prohibited_data_types"], .set .stringArray .moreIsStricter),
   (["allowed_tools"], .set .stringArray .fewerIsStricter),
   (["allowed_channels"], .set .stringArray .fewerIsStricter),
   (["approval_chain"], .sequence .stringArray),
   (["controls", "hitl", "review_stages"], .sequence .objectArray),
   (["decision_rules"], .set .objectArray .anyChangeIsLooser)]

def standard : FieldRegistry := ⟨SortedMap.ofList standardFields⟩

end FieldRegistry

end Governance
