import Governance.SortedMap
import Governance.Text.Blank

/-!
# Identifiers

Identifiers are texts that are not blank. The kind keeps those of scopes, policies, rules and so on
apart. They compare by their text.
-/

set_option autoImplicit false

namespace Governance

inductive IdentifierKind where
  | scope
  | policy
  | rule
  | tenant
  | enterprise
  | policySnapshot
  deriving DecidableEq, Repr

def IdentifierKind.description : IdentifierKind → String
  | .scope => "scope id"
  | .policy => "policy id"
  | .rule => "rule id"
  | .tenant => "tenant id"
  | .enterprise => "enterprise id"
  | .policySnapshot => "policy snapshot id"

structure Identifier (kind : IdentifierKind) where
  text : String
  not_blank : Text.isBlankText text = false
  deriving DecidableEq

namespace Identifier

variable {kind : IdentifierKind}

instance : Repr (Identifier kind) := ⟨fun id => reprPrec id.text⟩

def ofText? (kind : IdentifierKind) (text : String) : Option (Identifier kind) :=
  if blank : Text.isBlankText text = false then some ⟨text, blank⟩ else none

instance : KeyOrder (Identifier kind) where
  lt left right := left.text < right.text
  irrefl id := KeyOrder.irrefl id.text
  trans := KeyOrder.trans (κ := String)
  total {a b} notLess notGreater := by
    cases a
    cases b
    congr
    exact KeyOrder.total notLess notGreater

instance : DecidableLT (Identifier kind) :=
  fun left right => inferInstanceAs (Decidable (left.text < right.text))

end Identifier

abbrev ScopeId := Identifier .scope

abbrev PolicyId := Identifier .policy

abbrev RuleId := Identifier .rule

abbrev TenantId := Identifier .tenant

abbrev EnterpriseId := Identifier .enterprise

abbrev PolicySnapshotId := Identifier .policySnapshot

end Governance
