import Governance.Wire.Decode

/-!
# Scoped policies

A policy is a document of rules attached to a scope, with the mode in which its fields combine
with what the scopes above contributed.
-/

set_option autoImplicit false

namespace Governance

/-- How the fields of a policy combine with inherited values: in place of everything under the top
level keys that the policy sets, by the merge rule of each field, or at the end of arrays. -/
inductive InheritanceMode where
  | replace
  | merge
  | append
  deriving DecidableEq, Repr

instance : Wire.Named InheritanceMode where
  all := [.replace, .merge, .append]
  name
    | .replace => "replace"
    | .merge => "merge"
    | .append => "append"

/-- A policy of a scope. Overrides are applied field by field after the rules. -/
structure ScopedPolicy where
  id : PolicyId
  scope : ScopeId
  mode : InheritanceMode
  rules : Json
  overrides : Option Json
  derivedFrom : Option PolicyId
  deriving DecidableEq

namespace ScopedPolicy

def ofRules (id : PolicyId) (scope : ScopeId) (mode : InheritanceMode) (rules : Json) :
    ScopedPolicy :=
  { id, scope, mode, rules, overrides := none, derivedFrom := none }

def withOverrides (policy : ScopedPolicy) (overrides : Json) : ScopedPolicy :=
  { policy with overrides := some overrides }

def toJson (policy : ScopedPolicy) : Json :=
  .obj ([("policy_id", .str policy.id.text), ("scope_id", .str policy.scope.text),
      ("inheritance_mode", .str (Wire.Named.name policy.mode)), ("rules", policy.rules)]
    ++ Wire.present "override_rules" policy.overrides
    ++ Wire.present "parent_policy_id" (policy.derivedFrom.map fun id => .str id.text))

def ofJson : Json → Wire.Decoded ScopedPolicy :=
  Wire.record "struct ScopedPolicy" 6 fun given =>
    ScopedPolicy.mk <$> given.field 0 "policy_id" (Wire.identifier .policy)
      <*> given.field 1 "scope_id" (Wire.identifier .scope)
      <*> given.fieldOr (some .merge) 2 "inheritance_mode" Wire.named
      <*> given.field 3 "rules" Wire.value
      <*> given.optionalField 4 "override_rules" Wire.value
      <*> given.optionalField 5 "parent_policy_id" (Wire.identifier .policy)

end ScopedPolicy

end Governance
