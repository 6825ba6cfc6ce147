import Governance.Effective.Merge
import Governance.Scope.Tree

/-!
# Computing effective policies

The policies of the scopes along a chain are applied from the top down, those of one scope by
identifier. A single incompatible conflict makes the whole computation fail. The same chain and
policies always give the same result, whatever the order in which the policies are listed.
-/

set_option autoImplicit false

namespace Governance

inductive InheritanceError where
  | validation (cause : ValidationError)
  | conflict (scope : ScopeId) (policy : PolicyId) (conflicts : List PolicyConflict)
  | canonicalization (cause : CanonicalizationError)
  deriving DecidableEq

def InheritanceError.message : InheritanceError → String
  | .validation cause => "validation error: " ++ cause.message
  | .conflict scope policy conflicts =>
    "policy " ++ policy.text ++ " at scope " ++ scope.text
      ++ " is incompatible with its ancestors (" ++ toString conflicts.length ++ " conflict(s))"
  | .canonicalization cause => "canonicalization error: " ++ cause.message

/-! ## The order of application -/

/-- Puts beside each policy the place of its scope in a chain. The first policy of another scope
is an error. -/
def ScopedPolicy.placeAll (chain : List Scope) :
    List ScopedPolicy → Except ValidationError (List (Nat × ScopedPolicy))
  | [] => .ok []
  | policy :: rest =>
    match chain.findIdx? fun scope => scope.id = policy.scope with
    | none => .error (.policyScopeNotInChain policy.id policy.scope)
    | some place => (placeAll chain rest).map ((place, policy) :: ·)

def ScopedPolicy.mayPrecede (left right : Nat × ScopedPolicy) : Bool :=
  left.1 < right.1 || (left.1 == right.1 && !decide (right.2.id < left.2.id))

/-- The policies of a chain in the order in which they are applied: from the top down, and by
identifier at each scope. Policies that agree in both keep their order. -/
def ScopedPolicy.applicationOrder (chain : List Scope) (policies : List ScopedPolicy) :
    Except ValidationError (List ScopedPolicy) :=
  (placeAll chain policies).map fun placed => (placed.mergeSort mayPrecede).map Prod.snd

/-! ## Results -/

namespace MergeState

def document (state : MergeState) : Json :=
  state.fields.entries.foldl (fun document (field, merged) =>
    (field.insert document merged.value).1) (.obj [])

def provenance (state : MergeState) : SortedMap FieldPath FieldProvenance :=
  state.fields.map MergedField.source

def incompatible? (state : MergeState) : Option PolicyConflict :=
  state.conflicts.find? fun conflict => conflict.classification == .incompatible

end MergeState

/-- The version after the given one. The greatest version stays. -/
def EffectivePolicy.nextVersion (version : UInt64) : UInt64 :=
  if version.toNat = Text.wordMax then version else version + 1

namespace InheritanceSettings

def outcome (settings : InheritanceSettings) (target : ScopeId) (state : MergeState) :
    Except InheritanceError EffectiveOutcome :=
  match state.incompatible? with
  | some first => .error (.conflict first.childScope first.childPolicy state.conflicts)
  | none =>
    let values := state.document
    match ContentDigest.ofDocument settings.registry values with
    | .error problem => .error (.canonicalization problem)
    | .ok contentHash =>
      .ok {
        policy := { scope := target, values, provenance := state.provenance, contentHash,
                    version := 1 }
        conflicts := state.conflicts }

def mergeChain (settings : InheritanceSettings) (target : ScopeId) (chain : List Scope)
    (policies : List ScopedPolicy) : Except ValidationError MergeState := do
  Scope.checkChain target chain
  let ordered ← ScopedPolicy.applicationOrder chain policies
  settings.applyAll ordered {}

def compute (settings : InheritanceSettings) (target : ScopeId) (chain : List Scope)
    (policies : List ScopedPolicy) : Except InheritanceError EffectiveOutcome :=
  match settings.mergeChain target chain policies with
  | .error problem => .error (.validation problem)
  | .ok state => settings.outcome target state

/-- Computes an effective policy again. Its version is the previous one if the digest is the same,
and the next one otherwise. -/
def recompute (settings : InheritanceSettings) (previous : EffectivePolicy) (target : ScopeId)
    (chain : List Scope) (policies : List ScopedPolicy) :
    Except InheritanceError EffectiveOutcome :=
  if previous.scope ≠ target then
    .error (.validation (.chainTargetMismatch previous.scope target))
  else match settings.compute target chain policies with
    | .error problem => .error problem
    | .ok outcome =>
      let version :=
        if outcome.policy.contentHash = previous.contentHash then previous.version
        else EffectivePolicy.nextVersion previous.version
      .ok { outcome with policy := { outcome.policy with version } }

def policiesOf (chain : List Scope) (policies : List ScopedPolicy) : List ScopedPolicy :=
  policies.filter fun policy => chain.any fun scope => scope.id = policy.scope

def computeInTree (settings : InheritanceSettings) (tree : ScopeTree) (target : ScopeId)
    (policies : List ScopedPolicy) : Except InheritanceError EffectiveOutcome :=
  match tree.ancestorChain target with
  | .error problem => .error (.validation problem)
  | .ok chain => settings.compute target chain (policiesOf chain policies)

end InheritanceSettings

end Governance
