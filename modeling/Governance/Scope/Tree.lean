import Governance.Scope.Chain

/-!
# Scope trees

The scopes of an organization by identifier. A tree answers which scopes are above a scope, and
which effective policies have to be computed again when a scope changes.
-/

set_option autoImplicit false

namespace Governance

/-- The scopes of an organization, with the identifiers of the scopes directly below each of them.
A scope without others below it has no entry. -/
structure ScopeTree where
  scopes : SortedMap ScopeId Scope
  below : SortedMap ScopeId (SortedMap ScopeId Unit)
  deriving DecidableEq

namespace ScopeTree

/-! ## Building -/

def index : List Scope → SortedMap ScopeId Scope → Except ValidationError (SortedMap ScopeId Scope)
  | [], scopes => .ok scopes
  | scope :: rest, scopes =>
    if scopes.contains scope.id then .error (.duplicateScope scope.id)
    else index rest (scopes.insert scope.id scope)

def checkParent (scopes : SortedMap ScopeId Scope) (scope : Scope) :
    Except ValidationError Unit :=
  match scope.parent with
  | none => .ok ()
  | some parent => if scopes.contains parent then .ok () else .error (.unknownScope parent)

def link (below : SortedMap ScopeId (SortedMap ScopeId Unit)) (scope : Scope) :
    SortedMap ScopeId (SortedMap ScopeId Unit) :=
  match scope.parent with
  | none => below
  | some parent =>
    below.insert parent (((below.find? parent).getD {}).insert scope.id ())

def linkAll (scopes : SortedMap ScopeId Scope) :
    List Scope → SortedMap ScopeId (SortedMap ScopeId Unit) →
      Except ValidationError (SortedMap ScopeId (SortedMap ScopeId Unit))
  | [], below => .ok below
  | scope :: rest, below =>
    match checkParent scopes scope with
    | .error problem => .error problem
    | .ok () => linkAll scopes rest (link below scope)

/-- Walks up from a scope for at most a number of steps. A walk that comes back to its start, or
that is longer than there are scopes, is a cycle. -/
def walkUp (scopes : SortedMap ScopeId Scope) (start : ScopeId) :
    Nat → Scope → Except ValidationError Unit
  | steps, current =>
    match current.parent with
    | none => .ok ()
    | some parent =>
      match steps with
      | 0 => .error (.scopeCycle start)
      | steps + 1 =>
        if parent = start then .error (.scopeCycle start)
        else match scopes.find? parent with
          | none => .error (.unknownScope parent)
          | some above => walkUp scopes start steps above

def checkCycle (scopes : SortedMap ScopeId Scope) (scope : Scope) : Except ValidationError Unit :=
  walkUp scopes scope.id scopes.size scope

def checkDepth (scopes : SortedMap ScopeId Scope) (scope : Scope) : Except ValidationError Unit :=
  match scope.parent.bind scopes.find? with
  | none => .ok ()
  | some parent => Scope.checkDepth parent scope

def checkEach (check : Scope → Except ValidationError Unit) :
    List Scope → Except ValidationError Unit
  | [] => .ok ()
  | scope :: rest =>
    match check scope with
    | .error problem => .error problem
    | .ok () => checkEach check rest

/-- Builds a tree. Repeated identifiers are found first, then parents that do not exist, then
cycles, then scopes that are not deeper than their parents; each in the order of identifiers. -/
def ofList (list : List Scope) : Except ValidationError ScopeTree := do
  let scopes ← index list {}
  let below ← linkAll scopes scopes.values {}
  checkEach (checkCycle scopes) scopes.values
  checkEach (checkDepth scopes) scopes.values
  .ok ⟨scopes, below⟩

/-! ## Looking around -/

def find? (tree : ScopeTree) (id : ScopeId) : Option Scope := tree.scopes.find? id

def size (tree : ScopeTree) : Nat := tree.scopes.size

def isEmpty (tree : ScopeTree) : Bool := tree.scopes.isEmpty

def roots (tree : ScopeTree) : List Scope :=
  tree.scopes.values.filter fun scope => scope.parent.isNone

def childIds (tree : ScopeTree) (id : ScopeId) : List ScopeId :=
  ((tree.below.find? id).getD {}).keys

def children (tree : ScopeTree) (id : ScopeId) : List Scope :=
  (tree.childIds id).filterMap tree.find?

/-- The scopes from a scope up to its root, in front of a chain that has been collected below it.
The number of steps bounds the walk; in a tree it is never reached. -/
def chainAbove (tree : ScopeTree) : Nat → ScopeId → List Scope → Except ValidationError (List Scope)
  | steps, id, below =>
    match tree.find? id with
    | none => .error (.unknownScope id)
    | some scope =>
      match scope.parent, steps with
      | none, _ => .ok (scope :: below)
      | some parent, 0 => .error (.unknownScope parent)
      | some parent, steps + 1 => chainAbove tree steps parent (scope :: below)

def ancestorChain (tree : ScopeTree) (id : ScopeId) : Except ValidationError (List Scope) :=
  chainAbove tree tree.size id []

/-- Visits waiting scopes from first to last; the children of a visited scope wait behind all
others. The number of visits is bounded. -/
def visit (tree : ScopeTree) : Nat → List ScopeId → List ScopeId
  | 0, _ => []
  | _ + 1, [] => []
  | visits + 1, id :: waiting =>
    id :: visit tree visits (waiting ++ tree.childIds id)

/-- A scope and everything below it, level by level, siblings by identifier. Every scope comes
after its parent, so effective policies can be computed again in this order. -/
def invalidationOrder (tree : ScopeTree) (changed : ScopeId) :
    Except ValidationError (List ScopeId) :=
  if tree.scopes.contains changed then .ok (visit tree tree.size [changed])
  else .error (.unknownScope changed)

end ScopeTree

end Governance
