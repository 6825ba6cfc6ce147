import Governance.Proofs.Effective.Coherence
import Governance.Proofs.Effective.Order

/-!
# Policies listed in any order

Policies that are told apart by scope and identifier have one order of application, however they
are listed, and so have the values, sources and conflicts that come of it. Only the error for a
policy of a scope outside of the chain names the one that is listed first.
-/

set_option autoImplicit false

namespace Governance

namespace ScopedPolicy

variable {chain : List Scope} {policy : ScopedPolicy} {policies others ordered : List ScopedPolicy}

def IsAttached (chain : List Scope) (policy : ScopedPolicy) : Prop :=
  ∃ scope ∈ chain, scope.id = policy.scope

theorem isAttached_iff_findIdx? :
    policy.IsAttached chain ↔
      ∃ place, chain.findIdx? (fun scope => scope.id = policy.scope) = some place := by
  rw [← Option.isSome_iff_exists, List.findIdx?_isSome, List.any_eq_true]
  simp [IsAttached]

theorem not_isAttached_of_findIdx?
    (absent : chain.findIdx? (fun scope => scope.id = policy.scope) = none) :
    ¬ policy.IsAttached chain := by
  intro attached
  obtain ⟨place, found⟩ := isAttached_iff_findIdx?.mp attached
  rw [absent] at found
  cases found

theorem placeAll_cases (chain : List Scope) (policies : List ScopedPolicy) :
    ((∀ policy ∈ policies, policy.IsAttached chain) ∧
        ∃ placed, placeAll chain policies = .ok placed) ∨
      ∃ policy ∈ policies, ¬ policy.IsAttached chain ∧
        placeAll chain policies = .error (.policyScopeNotInChain policy.id policy.scope) := by
  induction policies with
  | nil => exact .inl ⟨List.forall_mem_nil _, [], rfl⟩
  | cons policy rest ih =>
      rw [placeAll]
      cases found : chain.findIdx? fun scope => scope.id = policy.scope with
      | none =>
          exact .inr ⟨policy, List.mem_cons_self, not_isAttached_of_findIdx? found, rfl⟩
      | some place =>
          rcases ih with ⟨attached, placed, succeeded⟩ | ⟨other, listed, detached, failed⟩
          · refine .inl ⟨List.forall_mem_cons.mpr ⟨?_, attached⟩, (place, policy) :: placed, ?_⟩
            · exact isAttached_iff_findIdx?.mpr ⟨place, found⟩
            · simp only [succeeded, Except.map]
          · refine .inr ⟨other, List.mem_cons_of_mem _ listed, detached, ?_⟩
            simp only [failed, Except.map]

theorem applicationOrder_cases (chain : List Scope) (policies : List ScopedPolicy) :
    ((∀ policy ∈ policies, policy.IsAttached chain) ∧
        ∃ ordered, applicationOrder chain policies = .ok ordered) ∨
      ∃ policy ∈ policies, ¬ policy.IsAttached chain ∧
        applicationOrder chain policies = .error (.policyScopeNotInChain policy.id policy.scope) := by
  rw [applicationOrder]
  rcases placeAll_cases chain policies with
    ⟨attached, placed, succeeded⟩ | ⟨policy, listed, detached, failed⟩
  · rw [succeeded]
    exact .inl ⟨attached, _, rfl⟩
  · rw [failed]
    exact .inr ⟨policy, listed, detached, rfl⟩

theorem Before.asymm {policy other : ScopedPolicy} (before : Before chain policy other)
    (after : Before chain other policy) : False := by
  obtain ⟨place, place', found, found', first⟩ := before
  obtain ⟨_, _, same', same, second⟩ := after
  obtain rfl := Option.some.inj (found.symm.trans same)
  obtain rfl := Option.some.inj (found'.symm.trans same')
  rcases first with above | ⟨level, less⟩
  · rcases second with below | ⟨level, _⟩
    · omega
    · omega
  · rcases second with below | ⟨_, greater⟩
    · omega
    · exact KeyOrder.irrefl _ (KeyOrder.trans less greater)

/-- Policies that are told apart by scope and identifier have one order of application. -/
theorem applicationOrder_eq_of_perm {ordered' : List ScopedPolicy} (perm : policies.Perm others)
    (distinct : (policies.map fun policy => (policy.scope, policy.id)).Nodup)
    (placed : applicationOrder chain policies = .ok ordered)
    (placed' : applicationOrder chain others = .ok ordered') : ordered = ordered' := by
  have distinct' := (perm.map fun policy => (policy.scope, policy.id)).nodup_iff.mp distinct
  have sorted := pairwise_before distinct placed
  have sorted' := pairwise_before distinct' placed'
  have same : ordered.Perm ordered' :=
    (applicationOrder_eq_ok placed).1.trans (perm.trans (applicationOrder_eq_ok placed').1.symm)
  refine List.Perm.eq_of_pairwise ?_ sorted sorted' same
  intro policy other _ _ before after
  exact (before.asymm after).elim

end ScopedPolicy

namespace InheritanceSettings

variable {settings : InheritanceSettings} {target : ScopeId} {chain : List Scope}
  {policies others : List ScopedPolicy}

theorem compute_of_applicationOrder_eq
    (same : ScopedPolicy.applicationOrder chain policies = ScopedPolicy.applicationOrder chain others) :
    settings.compute target chain policies = settings.compute target chain others := by
  simp only [compute, mergeChain, same]

theorem compute_of_unchecked {problem : ValidationError}
    (refused : Scope.checkChain target chain = .error problem) :
    settings.compute target chain policies = .error (.validation problem) := by
  simp only [compute, mergeChain, refused, bind, Except.bind]

theorem compute_of_detached {problem : ValidationError}
    (checked : Scope.checkChain target chain = .ok ())
    (failed : ScopedPolicy.applicationOrder chain policies = .error problem) :
    settings.compute target chain policies = .error (.validation problem) := by
  simp only [compute, mergeChain, checked, failed, bind, Except.bind]

/-- Listing policies in another order changes nothing, as long as no two policies of one scope share
an identifier. Where policies are not attached to the chain, both listings fail for such a policy,
maybe for different ones. -/
theorem compute_eq_of_perm (settings : InheritanceSettings) (target : ScopeId) (chain : List Scope)
    (policies others : List ScopedPolicy)
    (distinct : (policies.map fun policy => (policy.scope, policy.id)).Nodup)
    (perm : policies.Perm others) :
    settings.compute target chain policies = settings.compute target chain others ∨
      ∃ first ∈ policies, ∃ second ∈ policies,
        ¬ first.IsAttached chain ∧ ¬ second.IsAttached chain ∧
        settings.compute target chain policies
          = .error (.validation (.policyScopeNotInChain first.id first.scope)) ∧
        settings.compute target chain others
          = .error (.validation (.policyScopeNotInChain second.id second.scope)) := by
  cases checked : Scope.checkChain target chain with
  | error problem => exact .inl ((compute_of_unchecked checked).trans (compute_of_unchecked checked).symm)
  | ok =>
      rcases ScopedPolicy.applicationOrder_cases chain policies with
        ⟨attached, ordered, placed⟩ | ⟨first, listed, detached, failed⟩
      · rcases ScopedPolicy.applicationOrder_cases chain others with
          ⟨_, ordered', placed'⟩ | ⟨second, listed', detached', _⟩
        · have same := ScopedPolicy.applicationOrder_eq_of_perm perm distinct placed placed'
          refine .inl (compute_of_applicationOrder_eq ?_)
          rw [placed, placed', same]
        · exact absurd (attached second (perm.mem_iff.mpr listed')) detached'
      · rcases ScopedPolicy.applicationOrder_cases chain others with
          ⟨attached, _⟩ | ⟨second, listed', detached', failed'⟩
        · exact absurd (attached first (perm.mem_iff.mp listed)) detached
        · exact .inr ⟨first, listed, second, perm.mem_iff.mpr listed', detached, detached',
            compute_of_detached checked failed, compute_of_detached checked failed'⟩

theorem compute_eq_of_perm_thresholdPolicies : ∃ outcome,
    compute {} brandScope.id brandChain thresholdPolicies = .ok outcome ∧
      compute {} brandScope.id brandChain thresholdPolicies.reverse = .ok outcome := by
  obtain ⟨outcome, computed⟩ := compute_thresholdPolicies
  refine ⟨outcome, computed, ?_⟩
  rcases compute_eq_of_perm {} brandScope.id brandChain thresholdPolicies
    thresholdPolicies.reverse (by decide) (List.reverse_perm _).symm with
    same | ⟨_, _, _, _, _, _, failed, _⟩
  · rw [← same, computed]
  · rw [computed] at failed
    cases failed

end InheritanceSettings

end Governance
