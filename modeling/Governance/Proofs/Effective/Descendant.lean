import Governance.Proofs.Effective.Levels
import Governance.Proofs.Effective.Replacement

/-!
# Descendants

A scope further down a chain builds on what the scopes above it computed. A conflict that stopped
their computation stops its computation as well, unless one of its own policies cannot be read.
Otherwise its conflicts begin with theirs, and a field that its policies leave alone keeps its value
and its source.
-/

set_option autoImplicit false

namespace Governance

def ScopedPolicy.Malformed (policy : ScopedPolicy) (registry : FieldRegistry)
    (problem : ValidationError) : Prop :=
  policy.declared registry = .error problem ∨ policy.overridden registry = .error problem

/-- Whether an outcome extends one that further policies were added to. -/
structure EffectiveOutcome.Extends (registry : FieldRegistry) (added : List ScopedPolicy)
    (earlier later : EffectiveOutcome) : Prop where
  conflicts : earlier.conflicts <+: later.conflicts
  kept : ∀ field ∈ earlier.policy.provenance.keys,
    (∀ policy ∈ added, policy.LeavesAlone registry field) →
    later.policy.value? field = earlier.policy.value? field ∧
      later.policy.provenance.find? field = earlier.policy.provenance.find? field

theorem MergeState.incompatible?_of_prefix {state final : MergeState} {first : PolicyConflict}
    (grows : state.conflicts <+: final.conflicts) (found : state.incompatible? = some first) :
    final.incompatible? = some first := by
  obtain ⟨more, shape⟩ := grows
  rw [incompatible?] at found ⊢
  rw [← shape, List.find?_append, found, Option.some_or]

namespace InheritanceSettings

variable {settings : InheritanceSettings} {target : ScopeId} {chain : List Scope}
  {policies : List ScopedPolicy}

/-! ## Failing runs -/

theorem applyPolicy_eq_error {policy : ScopedPolicy} {state : MergeState}
    {problem : ValidationError} (failed : settings.applyPolicy policy state = .error problem) :
    policy.Malformed settings.registry problem := by
  rw [applyPolicy] at failed
  cases rules : policy.declared settings.registry with
  | error problem' =>
      simp only [rules, Except.error.injEq] at failed
      exact .inl (failed ▸ rules)
  | ok declared =>
      cases overrides : policy.overridden settings.registry with
      | error problem' =>
          simp only [rules, overrides, Except.error.injEq] at failed
          exact .inr (failed ▸ overrides)
      | ok overridden => simp [rules, overrides] at failed

theorem applyAll_eq_error {state : MergeState} {problem : ValidationError}
    (failed : settings.applyAll policies state = .error problem) :
    ∃ policy ∈ policies, policy.Malformed settings.registry problem := by
  induction policies generalizing state with
  | nil => cases failed
  | cons policy rest ih =>
      rw [applyAll] at failed
      cases first : settings.applyPolicy policy state with
      | error problem' =>
          simp only [first, Except.error.injEq] at failed
          exact ⟨policy, List.mem_cons_self, applyPolicy_eq_error (failed ▸ first)⟩
      | ok middle =>
          rw [first] at failed
          obtain ⟨other, listed, malformed⟩ := ih failed
          exact ⟨other, List.mem_cons_of_mem _ listed, malformed⟩

theorem applyAll_append_of_ok {front back : List ScopedPolicy} {state middle : MergeState}
    (applied : settings.applyAll front state = .ok middle) :
    settings.applyAll (front ++ back) state = settings.applyAll back middle := by
  induction front generalizing state with
  | nil =>
      cases applied
      rfl
  | cons policy rest ih =>
      obtain ⟨next, first, later⟩ := applyAll_cons_eq_ok applied
      rw [List.cons_append, applyAll, first]
      exact ih later

theorem compute_eq_conflict {place : ScopeId} {culprit : PolicyId} {conflicts : List PolicyConflict}
    (failed : settings.compute target chain policies = .error (.conflict place culprit conflicts)) :
    ∃ state first, settings.mergeChain target chain policies = .ok state ∧
      state.incompatible? = some first ∧ first.childScope = place ∧ first.childPolicy = culprit ∧
      state.conflicts = conflicts := by
  rw [compute] at failed
  cases merged : settings.mergeChain target chain policies with
  | error problem => simp [merged] at failed
  | ok state =>
      simp only [merged, outcome] at failed
      cases found : state.incompatible? with
      | none =>
          simp only [found] at failed
          cases digest : ContentDigest.ofDocument settings.registry state.document with
          | error problem => simp [digest] at failed
          | ok contentHash => simp [digest] at failed
      | some first =>
          simp only [found, Except.error.injEq, InheritanceError.conflict.injEq] at failed
          exact ⟨state, first, rfl, found, failed⟩

/-! ## The scope below a chain -/

variable {scope : Scope}

/-- A conflict that stops the computation above stops the one below, whatever is added to it. -/
theorem compute_below_conflict (checked : Scope.checkChain scope.id (chain ++ [scope]) = .ok ())
    (attached : ∀ policy ∈ policies, policy.IsAttached (chain ++ [scope]))
    {place : ScopeId} {culprit : PolicyId} {conflicts : List PolicyConflict}
    (failed : settings.compute target chain (policiesOf chain policies)
      = .error (.conflict place culprit conflicts)) :
    (∃ more, settings.compute scope.id (chain ++ [scope]) policies
        = .error (.conflict place culprit (conflicts ++ more))) ∨
      ∃ policy ∈ policiesOf [scope] policies, ∃ problem,
        policy.Malformed settings.registry problem ∧
        settings.compute scope.id (chain ++ [scope]) policies = .error (.validation problem) := by
  obtain ⟨above, below, placed, placed', added⟩ := ScopedPolicy.applicationOrder_append attached
  obtain ⟨middle, first, merged, found, rfl, rfl, rfl⟩ := compute_eq_conflict failed
  obtain ⟨_, ordered, again, front⟩ := mergeChain_eq_ok merged
  cases placed.symm.trans again
  -- the longer run passes through the state in which the shorter one ended
  have further : settings.mergeChain scope.id (chain ++ [scope]) policies
      = settings.applyAll below middle := by
    simp only [mergeChain, checked, placed', bind, Except.bind]
    exact applyAll_append_of_ok front
  rw [compute, further]
  cases back : settings.applyAll below middle with
  | error problem =>
      obtain ⟨policy, listed, malformed⟩ := applyAll_eq_error back
      exact .inr ⟨policy, added policy listed, problem, malformed, rfl⟩
  | ok final =>
      have grows := conflicts_prefix_applyAll back
      obtain ⟨more, shape⟩ := id grows
      refine .inl ⟨more, ?_⟩
      simp only [outcome, MergeState.incompatible?_of_prefix grows found, shape]

theorem extends_of_compute (attached : ∀ policy ∈ policies, policy.IsAttached (chain ++ [scope]))
    {earlier later : EffectiveOutcome}
    (computed : settings.compute target chain (policiesOf chain policies) = .ok earlier)
    (computed' : settings.compute scope.id (chain ++ [scope]) policies = .ok later) :
    earlier.Extends settings.registry (policiesOf [scope] policies) later := by
  obtain ⟨above, below, placed, placed', added⟩ := ScopedPolicy.applicationOrder_append attached
  obtain ⟨middle, final, run, run', back⟩ := runs_of_compute placed placed' computed computed'
  constructor
  · rw [run.conflicts, run'.conflicts]
    exact conflicts_prefix_applyAll back
  · intro field listed alone
    obtain ⟨merged, found⟩ := Option.isSome_iff_exists.mp ((run.shows.listed field).mp listed)
    have same := find?_applyAll_of_leavesAlone (fun policy listed => alone policy (added policy listed))
      run'.settled back
    constructor
    · rw [run.shows.value field merged found, run'.shows.value field merged (same.trans found)]
    · rw [run.find?_provenance, run'.find?_provenance, same]

/-- What a scope computes extends what the chain above it computed from its share of the policies,
conflicts included. -/
theorem compute_descendant (settings : InheritanceSettings) (target : ScopeId) (chain : List Scope)
    (scope : Scope) (policies : List ScopedPolicy)
    (checked : Scope.checkChain scope.id (chain ++ [scope]) = .ok ())
    (attached : ∀ policy ∈ policies, policy.IsAttached (chain ++ [scope])) :
    (∀ place culprit conflicts, settings.compute target chain (policiesOf chain policies)
        = .error (.conflict place culprit conflicts) →
      (∃ more, settings.compute scope.id (chain ++ [scope]) policies
          = .error (.conflict place culprit (conflicts ++ more))) ∨
        ∃ policy ∈ policiesOf [scope] policies, ∃ problem,
          policy.Malformed settings.registry problem ∧
          settings.compute scope.id (chain ++ [scope]) policies = .error (.validation problem)) ∧
      ∀ earlier later,
        settings.compute target chain (policiesOf chain policies) = .ok earlier →
        settings.compute scope.id (chain ++ [scope]) policies = .ok later →
        earlier.Extends settings.registry (policiesOf [scope] policies) later :=
  ⟨fun _ _ _ => compute_below_conflict checked attached, fun _ _ => extends_of_compute attached⟩

/-! ### A brand below its company -/

def companyLimit : ScopedPolicy :=
  { companyApprovals with id := ⟨"flat", by decide⟩, rules := .obj [("limits", .int 5)] }

theorem compute_companyLimits : ∃ outcome,
    compute {} companyScope.id [companyScope] [companyLimits] = .ok outcome ∧
      outcome.policy.provenance.keys
        = [.ofKeys ["limits", "daily"], .ofKeys ["min_approvals"]] := by
  obtain ⟨state, applied, settled, free, fields⟩ : ∃ state,
      InheritanceSettings.applyAll {} [companyLimits] {} = .ok state ∧
        state.incompatible? = none ∧ state.document.floatFree = true ∧
        state.fields.keys = [.ofKeys ["limits", "daily"], .ofKeys ["min_approvals"]] :=
    ⟨_, rfl, by decide, by decide, by decide⟩
  obtain ⟨outcome, computed, _, provenance, _⟩ := @compute_of_applyAll {} companyScope.id
    [companyScope] [companyLimits] _ _ (by decide) (applicationOrder_companyScope rfl) applied
    settled free
  exact ⟨outcome, computed, by rw [provenance, MergeState.keys_provenance, fields]⟩

theorem compute_companyLimit : ∃ conflicts,
    compute {} companyScope.id [companyScope] [companyLimits, companyLimit]
      = .error (.conflict companyScope.id companyLimit.id conflicts) := by
  have placed : ScopedPolicy.applicationOrder [companyScope] [companyLimits, companyLimit]
      = .ok [companyLimits, companyLimit] := by
    have found : ScopedPolicy.placeAll [companyScope] [companyLimits, companyLimit]
        = .ok [(0, companyLimits), (0, companyLimit)] := rfl
    rw [ScopedPolicy.applicationOrder, found, Except.map,
      List.mergeSort_of_pairwise (by decide)]
    rfl
  obtain ⟨state, applied, first, found, place, culprit⟩ : ∃ state,
      InheritanceSettings.applyAll {} [companyLimits, companyLimit] {} = .ok state ∧
        ∃ first, state.incompatible? = some first ∧ first.childScope = companyScope.id ∧
          first.childPolicy = companyLimit.id :=
    ⟨_, rfl, _, rfl, rfl, rfl⟩
  refine ⟨state.conflicts, ?_⟩
  have merged : mergeChain {} companyScope.id [companyScope] [companyLimits, companyLimit]
      = .ok state := by
    have checked : Scope.checkChain companyScope.id [companyScope] = .ok () := by decide
    simp only [mergeChain, checked, placed, bind, Except.bind, applied]
  rw [compute, merged]
  simp only [outcome, found, place, culprit]

theorem declared_brandApprovals :
    brandApprovals.declared .standard = .ok [(.ofKeys ["min_approvals"], .int 3)] := by rfl

theorem leavesAlone_brandApprovals {field : FieldPath} (different : .ofKeys ["min_approvals"] ≠ field) :
    brandApprovals.LeavesAlone .standard field := by
  constructor
  · intro value declares
    rcases declares with ⟨leaves, declared, listed⟩ | ⟨leaves, overridden, listed⟩
    · rw [declared_brandApprovals] at declared
      cases declared
      cases List.mem_singleton.mp listed
      exact different rfl
    · cases overridden
      cases listed
  · intro replacing
    cases replacing

theorem compute_descendant_brandApprovals :
    (∃ earlier later, compute {} companyScope.id [companyScope] [companyLimits] = .ok earlier ∧
      compute {} brandScope.id [companyScope, brandScope] [companyLimits, brandApprovals]
        = .ok later ∧
      earlier.conflicts <+: later.conflicts ∧
      later.policy.value? (.ofKeys ["limits", "daily"])
        = earlier.policy.value? (.ofKeys ["limits", "daily"])) ∧
      ∃ conflicts, compute {} brandScope.id [companyScope, brandScope]
          [companyLimits, companyLimit, brandApprovals]
        = .error (.conflict companyScope.id companyLimit.id conflicts) := by
  constructor
  · obtain ⟨earlier, computed, keys⟩ := compute_companyLimits
    obtain ⟨_, later, _, computed', _, _⟩ :=
      @values_brandChain companyLimits brandApprovals _ _ rfl rfl rfl rfl (by decide) (by decide)
        (by decide) (by decide)
    have extended := (compute_descendant {} companyScope.id [companyScope] brandScope
      [companyLimits, brandApprovals] (by decide) (by simp [ScopedPolicy.IsAttached]; decide)).2
        earlier later computed computed'
    refine ⟨earlier, later, computed, computed', extended.conflicts, ?_⟩
    refine (extended.kept _ (by rw [keys]; decide) fun policy listed => ?_).1
    cases List.mem_singleton.mp (show policy ∈ [brandApprovals] from listed)
    exact leavesAlone_brandApprovals (by decide)
  · obtain ⟨conflicts, failed⟩ := compute_companyLimit
    rcases (compute_descendant {} companyScope.id [companyScope] brandScope
      [companyLimits, companyLimit, brandApprovals] (by decide)
      (by simp [ScopedPolicy.IsAttached]; decide)).1 _ _ conflicts failed with
      ⟨more, failed'⟩ | ⟨policy, listed, problem, malformed, _⟩
    · exact ⟨conflicts ++ more, failed'⟩
    · cases List.mem_singleton.mp (show policy ∈ [brandApprovals] from listed)
      rcases malformed with unread | unread
      · cases declared_brandApprovals.symm.trans unread
      · cases unread

end InheritanceSettings

end Governance
