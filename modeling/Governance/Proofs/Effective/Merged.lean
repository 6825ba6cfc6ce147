import Governance.Proofs.Effective.Step

/-!
# Fields under policies that merge

Policies that merge and override nothing treat a registered field by its merge rule alone. The value
at the end of a chain is that of all declared values, merged one after another; what stands beside
the field in the policies does not matter, as long as the computation succeeds.
-/

set_option autoImplicit false

namespace Governance

def FieldDirective.mergeInto (directive : FieldDirective) : Option Json → Option Json → Option Json
  | inherited, none => inherited
  | none, some declared => some declared
  | some inherited, some declared => some (directive.merge.combine inherited declared)

namespace InheritanceSettings

variable {settings : InheritanceSettings} {keys : List String} {directive : FieldDirective}

theorem value_applyPolicy (found : settings.registry.directiveForKeys? keys = some directive)
    (reachable : settings.registry.Reachable keys) {policy : ScopedPolicy}
    (known : policy.WellFormed) (merging : policy.mode = .merge) (plain : policy.overrides = none)
    {state final : MergeState} (settled : final.Settled)
    (applied : settings.applyPolicy policy state = .ok final) :
    (final.fields.find? (.ofKeys keys)).map MergedField.value
      = directive.mergeInto ((state.fields.find? (.ofKeys keys)).map MergedField.value)
          (policy.declaredAt? false (.ofKeys keys)) := by
  have additive : policy.mode ≠ .replace := fun replacing => nomatch merging.symm.trans replacing
  obtain ⟨_, _, byRules⟩ := declaration_of_additive reachable known additive plain applied settled
  cases given : policy.declaredAt? false (.ofKeys keys) with
  | none =>
      rw [given] at byRules
      rw [byRules.eq_kept]
      cases state.fields.find? (.ofKeys keys) <;> rfl
  | some value =>
      rw [given] at byRules
      rw [byRules.eq_declared, Option.map_some]
      cases state.fields.find? (.ofKeys keys) with
      | none => rfl
      | some inherited =>
          rw [resultOf, FieldRegistry.directive?_ofKeys.trans found, if_neg Bool.false_ne_true, merging]
          rfl

theorem value_applyAll (found : settings.registry.directiveForKeys? keys = some directive)
    (reachable : settings.registry.Reachable keys) {policies : List ScopedPolicy}
    (known : ∀ policy ∈ policies, policy.WellFormed)
    (merging : ∀ policy ∈ policies, policy.mode = .merge)
    (plain : ∀ policy ∈ policies, policy.overrides = none) {state final : MergeState}
    (settled : final.Settled) (applied : settings.applyAll policies state = .ok final) :
    (final.fields.find? (.ofKeys keys)).map MergedField.value
      = (policies.map fun policy => policy.declaredAt? false (.ofKeys keys)).foldl
          directive.mergeInto ((state.fields.find? (.ofKeys keys)).map MergedField.value) := by
  induction policies generalizing state with
  | nil =>
      cases applied
      rfl
  | cons policy rest ih =>
      obtain ⟨middle, first, later⟩ := applyAll_cons_eq_ok applied
      obtain ⟨known, known_rest⟩ := List.forall_mem_cons.mp known
      obtain ⟨merging, merging_rest⟩ := List.forall_mem_cons.mp merging
      obtain ⟨plain, plain_rest⟩ := List.forall_mem_cons.mp plain
      have settled' := settled.of_subset (conflicts_prefix_applyAll later).subset
      have step := value_applyPolicy found reachable known merging plain settled' first
      rw [List.map_cons, List.foldl_cons, ← step]
      exact ih known_rest merging_rest plain_rest later

/-- The value of a registered field at the end of a chain. -/
theorem Run.value?_of_merging {chain : List Scope} {policies ordered : List ScopedPolicy}
    {outcome : EffectiveOutcome} {final : MergeState}
    (run : settings.Run chain policies outcome ordered final)
    (found : settings.registry.directiveForKeys? keys = some directive)
    (reachable : settings.registry.Reachable keys)
    (known : ∀ policy ∈ policies, policy.WellFormed)
    (merging : ∀ policy ∈ policies, policy.mode = .merge)
    (plain : ∀ policy ∈ policies, policy.overrides = none) :
    outcome.policy.value? (.ofKeys keys)
      = (ordered.map fun policy => (FieldPath.ofKeys keys).lookup? policy.rules).foldl
          directive.mergeInto none := by
  rw [run.value? reachable]
  exact value_applyAll found reachable (fun policy listed => known policy (run.mem_iff.mp listed))
    (fun policy listed => merging policy (run.mem_iff.mp listed))
    (fun policy listed => plain policy (run.mem_iff.mp listed)) run.settled run.applied

end InheritanceSettings

end Governance
