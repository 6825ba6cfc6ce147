import Governance.Identifier
import Governance.Wire.Decode

/-!
# Scopes

A scope is a node of the organization: an enterprise, or a region, country or brand below it.
Levels may be skipped on the way down but never reversed.
-/

set_option autoImplicit false

namespace Governance

inductive ScopeType where
  | enterprise
  | region
  | country
  | brand
  deriving DecidableEq, Repr

namespace ScopeType

def depth : ScopeType → Nat
  | .enterprise => 0
  | .region => 1
  | .country => 2
  | .brand => 3

instance : Wire.Named ScopeType where
  all := [.enterprise, .region, .country, .brand]
  name
    | .enterprise => "enterprise"
    | .region => "region"
    | .country => "country"
    | .brand => "brand"

end ScopeType

/-- A scope with the scope above it; a root has none. The location is for readers only. -/
structure Scope where
  id : ScopeId
  type : ScopeType
  parent : Option ScopeId
  location : String
  deriving DecidableEq, Repr

namespace Scope

def toJson (scope : Scope) : Json :=
  .obj ([("id", .str scope.id.text), ("scope_type", .str (Wire.Named.name scope.type))]
    ++ Wire.present "parent_id" (scope.parent.map fun parent => .str parent.text)
    ++ [("path", .str scope.location)])

def ofJson : Json → Wire.Decoded Scope :=
  Wire.record "struct Scope" 4 fun given =>
    Scope.mk <$> given.field 0 "id" (Wire.identifier .scope)
      <*> given.field 1 "scope_type" Wire.named
      <*> given.optionalField 2 "parent_id" (Wire.identifier .scope)
      <*> given.fieldOr (some "") 3 "path" Wire.text

end Scope

end Governance
