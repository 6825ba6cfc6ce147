import Governance.Proofs.Conflict.Settlement

/-!
# The weight of looser conflicts

How heavily looser conflicts weigh is a label on them and nothing else. Two computations that differ
in this setting record the same conflicts in the same order and end in the same way, with the same
policy where they end in one. Under the lenient setting a computed policy can always be activated,
under the strict one exactly if nothing in it is looser.
-/

set_option autoImplicit false

namespace Governance

/-! ## Weighing anew -/

def PolicyConflict.weighedBy (weights : ConflictPolicy) (conflict : PolicyConflict) :
    PolicyConflict :=
  { conflict with severity := weights.severity conflict.classification }

namespace MergeState

def weighedBy (weights : ConflictPolicy) (state : MergeState) : MergeState :=
  { state with conflicts := state.conflicts.map (PolicyConflict.weighedBy weights) }

variable {weights : ConflictPolicy} {state : MergeState}

theorem incompatible?_weighedBy :
    (state.weighedBy weights).incompatible?
      = state.incompatible?.map (PolicyConflict.weighedBy weights) :=
  List.find?_map

end MergeState

namespace InheritanceSettings

def weighing (settings : InheritanceSettings) (weights : ConflictPolicy) : InheritanceSettings :=
  { settings with conflicts := weights }

def reweighed (weights : ConflictPolicy) :
    Except InheritanceError EffectiveOutcome → Except InheritanceError EffectiveOutcome
  | .ok outcome =>
    .ok { outcome with conflicts := outcome.conflicts.map (PolicyConflict.weighedBy weights) }
  | .error (.conflict scope policy conflicts) =>
    .error (.conflict scope policy (conflicts.map (PolicyConflict.weighedBy weights)))
  | .error (.validation problem) => .error (.validation problem)
  | .error (.canonicalization problem) => .error (.canonicalization problem)

variable {settings : InheritanceSettings} {weights : ConflictPolicy} {policy : ScopedPolicy}
  {isOverride : Bool} {field : FieldPath} {declared : Json} {inherited : Option MergedField}
  {displaced : SortedMap FieldPath MergedField} {leaves : Leaves} {state : MergeState}

/-! ## One policy -/

theorem clearedBy_weighing :
    (settings.weighing weights).clearedBy policy field declared (state.weighedBy weights)
      = (settings.clearedBy policy field declared state).map
          (PolicyConflict.weighedBy weights) := by
  rw [clearedBy, clearedBy, List.map_map]
  rfl

theorem foundBy_weighing :
    (settings.weighing weights).foundBy policy isOverride field declared inherited
      = (settings.foundBy policy isOverride field declared inherited).map
          (PolicyConflict.weighedBy weights) := by
  cases inherited with
  | none => rfl
  | some inherited =>
      -- differences are found by the registry alone
      have same : (settings.weighing weights).difference field inherited.value
          ((settings.weighing weights).comparedOf policy isOverride field declared inherited)
            = settings.difference field inherited.value
                (settings.comparedOf policy isOverride field declared inherited) := rfl
      rw [foundBy, foundBy, same]
      cases settings.difference field inherited.value
          (settings.comparedOf policy isOverride field declared inherited) with
      | none => rfl
      | some classification => rfl

theorem applyLeaf_weighing :
    (settings.weighing weights).applyLeaf policy isOverride field declared inherited
        (state.weighedBy weights)
      = (settings.applyLeaf policy isOverride field declared inherited state).weighedBy weights := by
  have fields : ((settings.weighing weights).applyLeaf policy isOverride field declared inherited
      (state.weighedBy weights)).fields
        = (settings.applyLeaf policy isOverride field declared inherited state).fields := by
    cases inherited <;> rfl
  have conflicts : ((settings.weighing weights).applyLeaf policy isOverride field declared inherited
      (state.weighedBy weights)).conflicts
        = (settings.applyLeaf policy isOverride field declared inherited state).conflicts.map
            (PolicyConflict.weighedBy weights) := by
    rw [conflicts_applyLeaf, conflicts_applyLeaf, clearedBy_weighing, foundBy_weighing,
      List.map_append, List.map_append]
    rfl
  exact congrArg₂ MergeState.mk fields conflicts

theorem declareAll_weighing :
    (settings.weighing weights).declareAll policy isOverride displaced leaves
        (state.weighedBy weights)
      = (settings.declareAll policy isOverride displaced leaves state).weighedBy weights := by
  induction leaves generalizing state with
  | nil => rfl
  | cons leaf rest ih =>
      rw [declareAll_cons, declareAll_cons, applyLeaf_weighing, ih]
      rfl

theorem applyRules_weighing :
    (settings.weighing weights).applyRules policy leaves (state.weighedBy weights)
      = (settings.applyRules policy leaves state).weighedBy weights := by
  by_cases replacing : policy.mode = .replace
  · have declared : (settings.weighing weights).replaced policy leaves (state.weighedBy weights)
        = (settings.replaced policy leaves state).weighedBy weights := by
      rw [replaced, replaced, applyDeclared_eq_declareAll, applyDeclared_eq_declareAll]
      exact @declareAll_weighing settings weights policy false (displacedBy leaves state) leaves
        { state with fields := state.fields.filter fun field _ => !covers leaves field }
    have lost : (settings.weighing weights).dropped policy
        (displacedBy leaves (state.weighedBy weights)) leaves
          = (settings.dropped policy (displacedBy leaves state) leaves).map
              (PolicyConflict.weighedBy weights) := by
      rw [dropped, dropped, List.map_map]
      rfl
    rw [applyRules_of_replace replacing, applyRules_of_replace replacing, declared, lost]
    exact congrArg (MergeState.mk _) List.map_append.symm
  · rw [applyRules_of_not_replace replacing, applyRules_of_not_replace replacing]
    exact declareAll_weighing

theorem applyPolicy_weighing :
    (settings.weighing weights).applyPolicy policy (state.weighedBy weights)
      = (settings.applyPolicy policy state).map (MergeState.weighedBy weights) := by
  have registry : (settings.weighing weights).registry = settings.registry := rfl
  rw [applyPolicy, applyPolicy, registry]
  cases policy.declared settings.registry with
  | error problem => rfl
  | ok declared =>
      cases policy.overridden settings.registry with
      | error problem => rfl
      | ok overridden =>
          simp only [applyOverridden_eq_declareAll, applyRules_weighing, declareAll_weighing,
            Except.map]

/-! ## Computations -/

theorem applyAll_weighing {policies : List ScopedPolicy} :
    (settings.weighing weights).applyAll policies (state.weighedBy weights)
      = (settings.applyAll policies state).map (MergeState.weighedBy weights) := by
  induction policies generalizing state with
  | nil => rfl
  | cons policy rest ih =>
      rw [applyAll, applyAll, applyPolicy_weighing]
      cases settings.applyPolicy policy state with
      | error problem => rfl
      | ok next => exact ih

variable {target : ScopeId} {chain : List Scope} {policies : List ScopedPolicy}

theorem mergeChain_weighing :
    (settings.weighing weights).mergeChain target chain policies
      = (settings.mergeChain target chain policies).map (MergeState.weighedBy weights) := by
  rw [mergeChain, mergeChain]
  cases Scope.checkChain target chain with
  | error problem => rfl
  | ok =>
      cases ScopedPolicy.applicationOrder chain policies with
      | error problem => rfl
      | ok ordered =>
          exact @applyAll_weighing settings weights {} ordered

theorem outcome_weighing :
    (settings.weighing weights).outcome target (state.weighedBy weights)
      = reweighed weights (settings.outcome target state) := by
  have registry : (settings.weighing weights).registry = settings.registry := rfl
  have document : (state.weighedBy weights).document = state.document := rfl
  rw [outcome, outcome, MergeState.incompatible?_weighedBy, registry, document]
  cases state.incompatible? with
  | some first => rfl
  | none =>
      cases digest : ContentDigest.ofDocument settings.registry state.document with
      | error problem => simp only [Option.map_none, digest, reweighed]
      | ok contentHash =>
          simp only [Option.map_none, digest, reweighed]
          rfl

/-- A computation under another configuration is the same computation with its conflicts weighed
anew. -/
theorem compute_weighing :
    (settings.weighing weights).compute target chain policies
      = reweighed weights (settings.compute target chain policies) := by
  rw [compute, compute, mergeChain_weighing]
  cases settings.mergeChain target chain policies with
  | error problem => rfl
  | ok state => exact outcome_weighing

/-! ## Severity and activation -/

variable {conflicts : List PolicyConflict} {outcome : EffectiveOutcome}

/-- The configuration of a computation has weighed every conflict that is reported. -/
theorem severity_of_reports (reported : Reports (settings.compute target chain policies) conflicts) :
    ∀ conflict ∈ conflicts,
      conflict.severity = settings.conflicts.severity conflict.classification := by
  obtain ⟨final, merged, rfl⟩ := merged_of_reports reported
  -- the same configuration weighs them as they are
  have again := @mergeChain_weighing settings settings.conflicts target chain policies
  change settings.mergeChain target chain policies = _ at again
  rw [merged, Except.map, Except.ok.injEq] at again
  have same := congrArg MergeState.conflicts again.symm
  intro conflict recorded
  have fixed := List.map_inj_left.mp (same.trans (List.map_id _).symm) conflict recorded
  exact (congrArg PolicyConflict.severity fixed).symm

/-- Only errors block activation, and no conflict of a computed outcome has been resolved yet. -/
theorem blocksActivation_of_compute (computed : settings.compute target chain policies = .ok outcome) :
    outcome.blocksActivation = true ↔ settings.conflicts.looserSeverity = .error ∧
      ∃ conflict ∈ outcome.conflicts, conflict.classification = .looser := by
  obtain ⟨ordered, final, run⟩ := run_of_compute computed
  have reported : Reports (settings.compute target chain policies) outcome.conflicts :=
    computed ▸ .outcome outcome
  have weighed := severity_of_reports reported
  rw [EffectiveOutcome.blocksActivation_iff]
  constructor
  · intro blocked
    obtain ⟨conflict, recorded, severity, _⟩ := blocked
    have compatible := run.settled conflict (run.conflicts ▸ recorded)
    rw [weighed conflict recorded] at severity
    cases classification : conflict.classification with
    | stricter =>
        rw [classification] at severity
        cases severity
    | incompatible => exact absurd classification compatible
    | looser =>
        rw [classification, ConflictPolicy.severity] at severity
        cases setting : settings.conflicts.looserSeverity with
        | warning =>
            rw [setting] at severity
            cases severity
        | error => exact ⟨rfl, conflict, recorded, classification⟩
  · intro given
    obtain ⟨strict, conflict, recorded, looser⟩ := given
    refine ⟨conflict, recorded, ?_, ?_⟩
    · rw [weighed conflict recorded, looser, ConflictPolicy.severity, strict]
      rfl
    · rw [(unsettled_of_compute computed conflict recorded).1]
      decide

end InheritanceSettings

/-! ## The two settings -/

/-- Two conflicts that are the same except for the severity that looser conflicts have. -/
structure PolicyConflict.Relabels (lenient strict : PolicyConflict) : Prop where
  same : strict = { lenient with severity := strict.severity }
  looser : lenient.classification = .looser →
    lenient.severity = .warning ∧ strict.severity = .error
  others : lenient.classification ≠ .looser → strict.severity = lenient.severity

namespace InheritanceSettings

inductive EndsAlike : Except InheritanceError EffectiveOutcome →
    Except InheritanceError EffectiveOutcome → Prop where
  | computed {policy : EffectivePolicy} {lenient strict : List PolicyConflict} :
      List.Forall₂ PolicyConflict.Relabels lenient strict →
      EndsAlike (.ok ⟨policy, lenient⟩) (.ok ⟨policy, strict⟩)
  | rejected {scope : ScopeId} {policy : PolicyId} {lenient strict : List PolicyConflict} :
      List.Forall₂ PolicyConflict.Relabels lenient strict →
      EndsAlike (.error (.conflict scope policy lenient)) (.error (.conflict scope policy strict))
  | malformed {problem : ValidationError} :
      EndsAlike (.error (.validation problem)) (.error (.validation problem))
  | unhashable {problem : CanonicalizationError} :
      EndsAlike (.error (.canonicalization problem)) (.error (.canonicalization problem))

theorem relabels_weighedBy {conflicts : List PolicyConflict}
    (lenient : ∀ conflict ∈ conflicts,
      conflict.severity = ConflictPolicy.severity ⟨.warning⟩ conflict.classification) :
    List.Forall₂ PolicyConflict.Relabels conflicts
      (conflicts.map (PolicyConflict.weighedBy ⟨.error⟩)) := by
  rw [List.forall₂_map_right_iff, List.forall₂_same]
  intro conflict recorded
  have severity := lenient conflict recorded
  refine ⟨rfl, fun looser => ?_, fun other => ?_⟩
  · rw [severity, PolicyConflict.weighedBy, looser]
    exact ⟨rfl, rfl⟩
  · rw [severity, PolicyConflict.weighedBy]
    cases classification : conflict.classification with
    | looser => exact absurd classification other
    | stricter | incompatible => rfl

/-- Computing with looser conflicts as warnings and as errors ends alike. A policy computed with
warnings can be activated, one computed with errors exactly if no conflict is looser. -/
theorem compute_endsAlike (registry : FieldRegistry) (target : ScopeId) (chain : List Scope)
    (policies : List ScopedPolicy) :
    EndsAlike (compute { registry, conflicts := ⟨.warning⟩ } target chain policies)
        (compute { registry, conflicts := ⟨.error⟩ } target chain policies) ∧
      (∀ outcome, compute { registry, conflicts := ⟨.warning⟩ } target chain policies = .ok outcome →
        outcome.blocksActivation = false) ∧
      ∀ outcome, compute { registry, conflicts := ⟨.error⟩ } target chain policies = .ok outcome →
        (outcome.blocksActivation = true ↔
          ∃ conflict ∈ outcome.conflicts, conflict.classification = .looser) := by
  refine ⟨?_, fun outcome computed => ?_, fun outcome computed => ?_⟩
  · have strict : compute { registry, conflicts := ⟨.error⟩ } target chain policies
        = reweighed ⟨.error⟩ (compute { registry, conflicts := ⟨.warning⟩ } target chain policies) :=
      @compute_weighing { registry, conflicts := ⟨.warning⟩ } ⟨.error⟩ target chain policies
    have weighed := @severity_of_reports { registry, conflicts := ⟨.warning⟩ } target chain policies
    rw [strict]
    cases result : compute { registry, conflicts := ⟨.warning⟩ } target chain policies with
    | ok outcome => exact .computed (relabels_weighedBy (weighed (result ▸ .outcome outcome)))
    | error cause =>
        cases cause with
        | validation problem => exact .malformed
        | canonicalization problem => exact .unhashable
        | conflict scope policy conflicts =>
            exact .rejected (relabels_weighedBy (weighed (result ▸ .refused)))
  · rw [← Bool.not_eq_true, blocksActivation_of_compute computed]
    exact fun blocked => nomatch blocked.1
  · rw [blocksActivation_of_compute computed]
    exact and_iff_right rfl

/-- One approval less than inherited is let through with a warning and held back as an error. -/
theorem compute_endsAlike_approvalPolicies : ∃ policy warnings,
    compute {} brandScope.id brandChain approvalPolicies = .ok ⟨policy, warnings⟩ ∧
      compute { conflicts := ⟨.error⟩ } brandScope.id brandChain approvalPolicies
        = .ok ⟨policy, [approvalConflict]⟩ ∧
      List.Forall₂ PolicyConflict.Relabels warnings [approvalConflict] ∧
      EffectiveOutcome.blocksActivation ⟨policy, warnings⟩ = false ∧
      EffectiveOutcome.blocksActivation ⟨policy, [approvalConflict]⟩ = true := by
  obtain ⟨policy, computed⟩ := compute_strict_approvals
  obtain ⟨alike, activates, blocks⟩ :=
    compute_endsAlike .standard brandScope.id brandChain approvalPolicies
  obtain ⟨lenient, result⟩ : ∃ lenient,
      compute {} brandScope.id brandChain approvalPolicies = lenient := ⟨_, rfl⟩
  rw [computed, result] at alike
  cases alike with
  | computed relabels =>
      exact ⟨policy, _, result, computed, relabels, activates _ result,
        (blocks _ computed).mpr ⟨approvalConflict, List.mem_cons_self, rfl⟩⟩

end InheritanceSettings

end Governance
