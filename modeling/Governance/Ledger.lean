import Governance.Effective.Compute
import Governance.Evidence.Compile
import Governance.Rule.Resolution

/-!
# The ledger

The policies of an organization and the effective policies that have been computed from them. When
a scope changes, the effective policies of the scope and of everything below it are computed again
from the top down; one that fails stays as it was.
-/

set_option autoImplicit false

namespace Governance

structure Ledger where
  settings : InheritanceSettings
  tree : ScopeTree
  policies : SortedMap PolicyId ScopedPolicy := {}
  effective : SortedMap ScopeId EffectivePolicy := {}
  deriving DecidableEq

structure TracedDecision where
  verdict : Verdict
  trace : List RuleEvaluation
  bundle : Except ProofError ProofBundle

namespace Ledger

/-! ## Policies -/

def put (ledger : Ledger) (policy : ScopedPolicy) : Ledger :=
  { ledger with policies := ledger.policies.insert policy.id policy }

def drop (ledger : Ledger) (id : PolicyId) : Ledger :=
  { ledger with policies := ledger.policies.erase id }

/-! ## Effective policies -/

/-- Computes the effective policy of a scope, as the successor of the one on record if there is
one. -/
def computeAt (ledger : Ledger) (scope : ScopeId) : Except InheritanceError EffectiveOutcome :=
  let policies := ledger.policies.values
  match ledger.effective.find? scope with
  | none => ledger.settings.computeInTree ledger.tree scope policies
  | some previous =>
    match ledger.tree.ancestorChain scope with
    | .error problem => .error (.validation problem)
    | .ok chain =>
      ledger.settings.recompute previous scope chain
        (InheritanceSettings.policiesOf chain policies)

def refresh (ledger : Ledger) (scope : ScopeId) :
    Ledger × Except InheritanceError EffectiveOutcome :=
  match ledger.computeAt scope with
  | .error problem => (ledger, .error problem)
  | .ok outcome =>
    ({ ledger with effective := ledger.effective.insert scope outcome.policy }, .ok outcome)

def refreshAll (ledger : Ledger) :
    List ScopeId → Ledger × List (ScopeId × Except InheritanceError EffectiveOutcome)
  | [] => (ledger, [])
  | scope :: rest =>
    let (ledger, result) := ledger.refresh scope
    let (ledger, results) := refreshAll ledger rest
    (ledger, (scope, result) :: results)

def cascade (ledger : Ledger) (scope : ScopeId) :
    Except ValidationError
      (Ledger × List (ScopeId × Except InheritanceError EffectiveOutcome)) :=
  (ledger.tree.invalidationOrder scope).map ledger.refreshAll

/-! ## Decisions -/

def decide (ledger : Ledger) (scope : ScopeId) (event : UsageEvent) (bundleId : BundleId)
    (extras : SortedMap String Json) : Option (Except ValidationError TracedDecision) :=
  (ledger.effective.find? scope).map fun policy =>
    policy.decisionRules.map fun rules =>
      let verdict := event.resolve rules
      { verdict
        trace := event.explain rules
        bundle := ProofBundle.compile bundleId event verdict extras }

end Ledger

end Governance
