import Governance.Proofs.Effective.Descendant
import Governance.Proofs.Effective.Flaws
import Governance.Proofs.Scope.Descendants

/-!
# Effective policies of a tree

What a tree of scopes guarantees to the computation of effective policies. The chain of a scope of
the tree passes the check, so that only a malformed policy can make the computation fail for a
record. A scope that stands under no changed scope computes what it computed before.
-/

set_option autoImplicit false

namespace Governance

def ValidationError.concernsScopes : ValidationError → Bool
  | .emptyChain => true
  | .chainTargetMismatch _ _ => true
  | .brokenChain _ _ _ => true
  | .scopeDepthOrder _ _ _ => true
  | .duplicateScope _ => true
  | .unknownScope _ => true
  | .scopeCycle _ => true
  | .policyScopeNotInChain _ _ => true
  | _ => false

/-! ## What is wrong with a malformed policy -/

namespace ScopedPolicy

variable {policy : ScopedPolicy} {registry : FieldRegistry} {problem : ValidationError}

theorem Flaw.concernsScopes {part : PolicySection} {document : Json}
    (flaw : policy.Flaw registry part document problem) : problem.concernsScopes = false := by
  cases flaw <;> rfl

/-- What is wrong with a malformed policy are its documents. -/
theorem Malformed.concernsScopes (malformed : policy.Malformed registry problem) :
    problem.concernsScopes = false := by
  rcases malformed with rules | overrides
  · exact (flaw_of_leaves_eq_error rules).concernsScopes
  · obtain ⟨_, _, flaw⟩ := flaw_of_overridden_eq_error overrides
    exact flaw.concernsScopes

end ScopedPolicy

namespace InheritanceSettings

variable {settings : InheritanceSettings} {target : ScopeId} {chain : List Scope}
  {policies others : List ScopedPolicy} {tree : ScopeTree} {scopes : List Scope}

theorem isAttached_of_mem_policiesOf :
    ∀ policy ∈ policiesOf chain policies, policy.IsAttached chain := by
  intro policy listed
  simpa [ScopedPolicy.IsAttached] using (List.mem_filter.mp listed).2

/-- With a chain that passes the check and policies that are attached to it, an invalid record is a
malformed policy. -/
theorem compute_eq_validation (checked : Scope.checkChain target chain = .ok ())
    (attached : ∀ policy ∈ policies, policy.IsAttached chain) {problem : ValidationError}
    (failed : settings.compute target chain policies = .error (.validation problem)) :
    ∃ policy ∈ policies, policy.Malformed settings.registry problem := by
  rcases ScopedPolicy.applicationOrder_cases chain policies with
    ⟨_, ordered, placed⟩ | ⟨policy, listed, detached, _⟩
  · have merged : settings.mergeChain target chain policies = settings.applyAll ordered {} := by
      simp only [mergeChain, checked, placed, bind, Except.bind]
    rw [compute, merged] at failed
    cases applied : settings.applyAll ordered {} with
    | error problem' =>
        simp only [applied, Except.error.injEq, InheritanceError.validation.injEq] at failed
        obtain ⟨policy, listed, malformed⟩ := applyAll_eq_error applied
        exact ⟨policy, (ScopedPolicy.applicationOrder_eq_ok placed).1.mem_iff.mp listed,
          failed ▸ malformed⟩
    | ok state =>
        simp only [applied, outcome] at failed
        cases found : state.incompatible? with
        | some first => simp [found] at failed
        | none =>
            cases digest : ContentDigest.ofDocument settings.registry state.document <;>
              simp [found, digest] at failed
  · exact absurd (attached policy listed) detached

/-! ## Chains of a tree -/

/-- Every scope of a tree has a whole chain, which is found within any number of steps that is not
below the number of scopes, and which no computation ever rejects. -/
theorem computeInTree_accepts_chain (scopes : List Scope) (tree : ScopeTree) (id : ScopeId)
    (built : ScopeTree.ofList scopes = .ok tree) (listed : id ∈ scopes.map Scope.id) :
    ∃ chain, tree.ancestorChain id = .ok chain ∧
      (∀ steps, tree.size ≤ steps → tree.chainAbove steps id [] = .ok chain) ∧
      tree.WholeChain id chain ∧
      ∀ (settings : InheritanceSettings) (policies : List ScopedPolicy) (problem : ValidationError),
        settings.computeInTree tree id policies = .error (.validation problem) →
          problem.concernsScopes = false := by
  obtain ⟨formed, _⟩ := ScopeTree.ofList_eq_ok built
  obtain ⟨scope, found⟩ := ScopeTree.find?_of_mem built listed
  obtain ⟨chain, up, whole, walks⟩ := formed.chainAbove found
  have ends := walks tree.size (Nat.le_refl _)
  refine ⟨chain, ends, walks, whole, fun settings policies problem failed => ?_⟩
  rw [computeInTree, ScopeTree.ancestorChain, ends] at failed
  obtain ⟨policy, _, malformed⟩ :=
    compute_eq_validation (up.checkChain formed) isAttached_of_mem_policiesOf failed
  exact malformed.concernsScopes

theorem computeInTree_accepts_chain_brandScope : ∃ tree chain,
    ScopeTree.ofList [brandScope, companyScope] = .ok tree ∧
      tree.ancestorChain brandScope.id = .ok chain ∧ tree.WholeChain brandScope.id chain ∧
      chain = [companyScope, brandScope] := by
  obtain ⟨tree, built, walked⟩ : ∃ tree, ScopeTree.ofList [brandScope, companyScope] = .ok tree ∧
      tree.ancestorChain brandScope.id = .ok [companyScope, brandScope] :=
    ⟨_, rfl, by decide⟩
  obtain ⟨chain, found, _, whole, _⟩ := computeInTree_accepts_chain [brandScope, companyScope] tree
    brandScope.id built (by decide)
  refine ⟨tree, chain, built, found, whole, ?_⟩
  exact Except.ok.inj (found.symm.trans walked)

/-! ## Changes of one scope -/

theorem policiesOf_eq_of_outside {changed : ScopeId} (outside : changed ∉ chain.map Scope.id)
    (same : policies.filter (fun policy => policy.scope ≠ changed)
      = others.filter (fun policy => policy.scope ≠ changed)) :
    policiesOf chain policies = policiesOf chain others := by
  have apart : ∀ list : List ScopedPolicy,
      policiesOf chain (list.filter fun policy => policy.scope ≠ changed) = policiesOf chain list := by
    intro list
    rw [policiesOf, policiesOf, List.filter_filter]
    refine List.filter_congr fun policy _ => ?_
    rw [Bool.and_eq_left_iff_imp, List.any_eq_true]
    intro attached
    obtain ⟨scope, present, named⟩ := attached
    simp only [decide_eq_true_eq] at named ⊢
    intro here
    exact outside (List.mem_map.mpr ⟨scope, present, named.trans here⟩)
  rw [← apart policies, same, apart others]

/-- Only the policies of its chain matter to a scope of a tree. -/
theorem computeInTree_congr (formed : tree.Formed)
    (same : ∀ chain, tree.Ancestry target chain → policiesOf chain policies = policiesOf chain others) :
    settings.computeInTree tree target policies = settings.computeInTree tree target others := by
  cases found : tree.find? target with
  | none => rw [computeInTree, computeInTree, ScopeTree.ancestorChain_eq_error found]
  | some scope =>
      obtain ⟨chain, up, _, walks⟩ := formed.chainAbove found
      rw [computeInTree, computeInTree, ScopeTree.ancestorChain, walks tree.size (Nat.le_refl _)]
      simp only [same chain up]

/-- A change of the policies of one scope changes nothing for the scopes that are not listed for
being computed again. -/
theorem computeInTree_eq_of_not_invalidated (scopes : List Scope) (tree : ScopeTree)
    (changed : ScopeId) (built : ScopeTree.ofList scopes = .ok tree)
    (listed : changed ∈ scopes.map Scope.id) :
    ∃ order, tree.invalidationOrder changed = .ok order ∧
      ∀ (settings : InheritanceSettings) (target : ScopeId) (policies others : List ScopedPolicy),
        target ∉ order →
        policies.filter (fun policy => policy.scope ≠ changed)
          = others.filter (fun policy => policy.scope ≠ changed) →
        settings.computeInTree tree target policies = settings.computeInTree tree target others := by
  obtain ⟨formed, _⟩ := ScopeTree.ofList_eq_ok built
  obtain ⟨_, stored⟩ := ScopeTree.find?_of_mem built listed
  obtain ⟨order, walked, _, below⟩ := ScopeTree.invalidationOrder_eq_ok formed stored
  refine ⟨order, walked, fun settings target policies others unlisted same => ?_⟩
  rw [below] at unlisted
  refine computeInTree_congr formed fun chain up => policiesOf_eq_of_outside ?_ same
  rwa [ScopeTree.under_iff_mem_chain formed up] at unlisted

theorem computeInTree_eq_of_not_invalidated_companyScope : ∃ tree,
    ScopeTree.ofList [brandScope, companyScope] = .ok tree ∧
      tree.invalidationOrder brandScope.id = .ok [brandScope.id] ∧
      computeInTree {} tree companyScope.id [brandApprovals, companyApprovals]
        = computeInTree {} tree companyScope.id [companyApprovals] := by
  obtain ⟨tree, built, walked⟩ : ∃ tree, ScopeTree.ofList [brandScope, companyScope] = .ok tree ∧
      tree.invalidationOrder brandScope.id = .ok [brandScope.id] :=
    ⟨_, rfl, by decide⟩
  obtain ⟨order, found, unchanged⟩ := computeInTree_eq_of_not_invalidated [brandScope, companyScope]
    tree brandScope.id built (by decide)
  obtain rfl := Except.ok.inj (walked.symm.trans found)
  exact ⟨tree, built, walked, unchanged {} companyScope.id _ _ (by decide) (by decide)⟩

end InheritanceSettings

end Governance
