import Governance.ValidationError

/-!
# Ancestor chains

A chain lists the scopes above a scope and the scope itself, from the top down. Each scope names
the one before it as its parent and is deeper than it.
-/

set_option autoImplicit false

namespace Governance.Scope

def checkDepth (parent child : Scope) : Except ValidationError Unit :=
  if child.type.depth ≤ parent.type.depth then
    .error (.scopeDepthOrder child.id parent.type child.type)
  else .ok ()

def firstRepeated? (seen : List ScopeId) : List Scope → Option ScopeId
  | [] => none
  | scope :: rest =>
    if scope.id ∈ seen then some scope.id else firstRepeated? (scope.id :: seen) rest

def checkLinks : List Scope → Except ValidationError Unit
  | parent :: child :: rest =>
    if child.parent ≠ some parent.id then
      .error (.brokenChain child.id parent.id child.parent)
    else match checkDepth parent child with
      | .error problem => .error problem
      | .ok () => checkLinks (child :: rest)
  | _ => .ok ()

def checkChain (target : ScopeId) (chain : List Scope) : Except ValidationError Unit :=
  match chain.getLast? with
  | none => .error .emptyChain
  | some last =>
    if last.id ≠ target then .error (.chainTargetMismatch target last.id)
    else match firstRepeated? [] chain with
      | some id => .error (.duplicateScope id)
      | none => checkLinks chain

end Governance.Scope
