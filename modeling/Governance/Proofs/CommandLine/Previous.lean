import Governance.Proofs.CommandLine.Effective
import Governance.Proofs.Effective.Version

/-!
# Effective policies after previous ones

With a previous policy of the scope at hand, the command that computes an effective policy walks the
tree and picks the policies of the chain by itself. Its report is the one that it gives without a
previous policy, but for the version. What fails, fails for the same reason in both ways; only a
scope that is not in the tree is reported once as a failed computation, and once as it stands.
-/

set_option autoImplicit false

namespace Governance

/-- A walk to the root fails only at a scope that is not there. -/
theorem ScopeTree.chainAbove_eq_error {tree : ScopeTree} {steps : Nat} {id : ScopeId}
    {below : List Scope} {problem : ValidationError}
    (failed : tree.chainAbove steps id below = .error problem) :
    ∃ unknown, problem = .unknownScope unknown := by
  fun_induction chainAbove tree steps id below with
  | case1 steps id below absent =>
      cases failed
      exact ⟨id, rfl⟩
  | case2 => cases failed
  | case3 id below scope found parent =>
      cases failed
      exact ⟨parent, rfl⟩
  | case4 steps id below scope found parent above ih => exact ih failed

namespace CommandLine

inductive FollowsOn (previous : EffectivePolicy) :
    Except CommandError Report → Except CommandError Report → Prop where
  | computed (outcome : EffectiveOutcome) :
      FollowsOn previous (.ok (.effective (.computed outcome)))
        (.ok (.effective (.computed (outcome.after previous))))
  | rejected (scope : ScopeId) (conflicts : List PolicyConflict) :
      FollowsOn previous (.ok (.effective (.rejected scope conflicts)))
        (.ok (.effective (.rejected scope conflicts)))
  | failed (cause : CommandError) : FollowsOn previous (.error cause) (.error cause)
  /-- The same cause, wrapped and bare. -/
  | unknown (scope : ScopeId) :
      FollowsOn previous (.error (.inheritance (.validation (.unknownScope scope))))
        (.error (.validation (.unknownScope scope)))

variable {config : Config} {tree : ScopeTree} {target : ScopeId} {policies : List ScopedPolicy}
  {previous : EffectivePolicy}

/-- A step that both ways have in common either fails in both, or both go on from its value. -/
theorem FollowsOn.bind {α : Type} {previous : EffectivePolicy} (step : Except CommandError α)
    {next next' : α → Except CommandError Report}
    (follows : ∀ value, step = .ok value → FollowsOn previous (next value) (next' value)) :
    FollowsOn previous (step >>= next) (step >>= next') := by
  cases step with
  | error cause => exact .failed cause
  | ok value => exact follows value rfl

theorem followsOn_ofResult (result : Except InheritanceError EffectiveOutcome) :
    FollowsOn previous ((EffectiveReport.ofResult result).map .effective)
      ((EffectiveReport.ofResult (result.map (EffectiveOutcome.after previous))).map .effective) := by
  cases result with
  | ok outcome => exact .computed outcome
  | error cause =>
      cases cause with
      | conflict scope policy conflicts => exact .rejected scope conflicts
      | validation cause => exact .failed _
      | canonicalization cause => exact .failed _

theorem followsOn_effectiveOf (own : previous.scope = target) :
    FollowsOn previous ((effectiveOf config tree target policies none).map .effective)
      ((effectiveOf config tree target policies (some previous)).map .effective) := by
  rw [effectiveOf, effectiveOf, InheritanceSettings.computeInTree]
  cases walked : tree.ancestorChain target with
  | error problem =>
      obtain ⟨unknown, rfl⟩ := ScopeTree.chainAbove_eq_error walked
      exact .unknown unknown
  | ok chain =>
      -- both ways pick the policies of the chain, in the order of the list
      have relevant : (policies.filter fun policy => chain.any fun scope => scope.id = policy.scope)
          = InheritanceSettings.policiesOf chain policies := rfl
      simp only [relevant, InheritanceSettings.recompute_eq_map own]
      exact followsOn_ofResult _

/-- With a previous policy of its scope, the command reports what it reports without it, save for
the version, or fails for the same cause. -/
theorem effective_followsOn (config : Config) (files : Files)
    (scopes policies target path : String) (previous : EffectivePolicy)
    (loaded : loadEffective files path = .ok previous)
    (own : ∀ id, Identifier.ofText .scope target = .ok id → previous.scope = id) :
    FollowsOn previous (effective config files scopes policies target none)
      (effective config files scopes policies target (some path)) := by
  refine .bind _ fun scopes _ => .bind _ fun policies _ => .bind _ fun tree _ => .bind _ ?_
  intro id named
  simp only [loaded]
  refine followsOn_effectiveOf (own id ?_)
  cases known : Identifier.ofText .scope target with
  | error problem => simp [known, Except.mapError] at named
  | ok id' =>
      rw [known] at named
      cases named
      rfl

/-- With inputs that can be read, the command computes from what they hold. -/
theorem effective_of_loaded {files : Files} {scopes policies name : String} {scopeList : List Scope}
    {policyList : List ScopedPolicy} (placed : loadScopes files scopes = .ok scopeList)
    (written : loadPolicies files policies = .ok policyList)
    (built : ScopeTree.ofList scopeList = .ok tree)
    (named : Identifier.ofText .scope name = .ok target) :
    effective config files scopes policies name none
      = (effectiveOf config tree target policyList none).map .effective := by
  simp only [effective, placed, written, built, named, Except.mapError, bind, Except.bind]

/-! ### Approvals of a company, with a previous policy on file -/

open InheritanceSettings (companyScope companyApprovals)
open EffectivePolicy (storedApprovals)

def companyFiles : Files
  | "scopes.json" =>
    some "[\x7b\"id\": \"company\", \"scope_type\": \"enterprise\", \"path\": \"\"\x7d]"
  | "policies.json" =>
    some "[\x7b\"policy_id\": \"base\", \"scope_id\": \"company\", \"rules\": \x7b\"min_approvals\": 2\x7d\x7d]"
  | "previous.json" => some (storedApprovals 0 7).toJson.compact
  | _ => none

theorem loadScopes_companyFiles : loadScopes companyFiles "scopes.json" = .ok [companyScope] := by
  decide +kernel

theorem loadPolicies_companyFiles :
    loadPolicies companyFiles "policies.json" = .ok [companyApprovals] := by
  decide +kernel

theorem loadEffective_companyFiles :
    loadEffective companyFiles "previous.json" = .ok (storedApprovals 0 7) := by
  have laid : (storedApprovals 0 7).toJson.IsLaidOut (storedApprovals 0 7).toJson.compact :=
    ⟨[], List.forall_mem_nil _, .inl (List.append_nil _).symm⟩
  have presents : Presents ⟨storedApprovals 0 7, []⟩ (storedApprovals 0 7).toJson :=
    .policy (by decide)
  have given : companyFiles "previous.json" = some (storedApprovals 0 7).toJson.compact := by
    simp [companyFiles]
  exact (loadEffective_eq_ok_iff (by decide) given laid presents (by decide) (by decide)
    (List.forall_mem_nil _) (List.forall_mem_nil _)).mpr rfl

theorem effective_companyFiles : ∃ outcome,
    effective {} companyFiles "scopes.json" "policies.json" "company" none
      = .ok (.effective (.computed outcome)) := by
  obtain ⟨outcome, computed⟩ := EffectivePolicy.compute_companyApprovals
  obtain ⟨tree, built, walked⟩ : ∃ tree, ScopeTree.ofList [companyScope] = .ok tree ∧
      tree.ancestorChain companyScope.id = .ok [companyScope] :=
    ⟨_, rfl, by decide⟩
  have named : Identifier.ofText .scope "company" = .ok companyScope.id := rfl
  have reported : effectiveOf {} tree companyScope.id [companyApprovals] none
      = .ok (.computed outcome) := by
    rw [effectiveOf, InheritanceSettings.computeInTree, walked]
    exact congrArg EffectiveReport.ofResult computed
  refine ⟨outcome, ?_⟩
  rw [effective_of_loaded loadScopes_companyFiles loadPolicies_companyFiles built named, reported]
  rfl

theorem effective_followsOn_companyFiles : ∃ outcome,
    effective {} companyFiles "scopes.json" "policies.json" "company" none
        = .ok (.effective (.computed outcome)) ∧
      effective {} companyFiles "scopes.json" "policies.json" "company" (some "previous.json")
        = .ok (.effective (.computed (outcome.after (storedApprovals 0 7)))) := by
  obtain ⟨outcome, computed⟩ := effective_companyFiles
  have own : ∀ id, Identifier.ofText .scope "company" = .ok id →
      (storedApprovals 0 7).scope = id := by
    intro id named
    cases named
    rfl
  have follows := effective_followsOn {} companyFiles "scopes.json" "policies.json" "company"
    "previous.json" (storedApprovals 0 7) loadEffective_companyFiles own
  rw [computed] at follows
  generalize effective {} companyFiles "scopes.json" "policies.json" "company"
    (some "previous.json") = result at follows
  cases follows with
  | computed => exact ⟨outcome, computed, rfl⟩

end CommandLine

end Governance
