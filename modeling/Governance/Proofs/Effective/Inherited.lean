import Governance.Proofs.Effective.Coherence
import Governance.Proofs.Effective.Loosening
import Governance.Proofs.Effective.Order
import Governance.Proofs.Field.Orderly

/-!
# What a beginning of the policies imposes

The first policies of a chain have an effective policy of their own, if all of them together have
one. What it imposes is imposed by the whole chain as well, or a later policy is on record for
loosening it. There is one exception: a value that imposes nothing may go without a record.
-/

set_option autoImplicit false

namespace Governance

namespace EffectiveOutcome

/-- Whether a looser conflict on a field is on record whose declaring policy is one of the policies
but not one of the first ones. -/
def RecordsLoosening (policies front : List ScopedPolicy) (outcome : EffectiveOutcome)
    (field : FieldPath) : Prop :=
  ∃ conflict ∈ outcome.conflicts, conflict.field = field ∧ conflict.classification = .looser ∧
    (∃ policy ∈ policies, policy.scope = conflict.childScope ∧ policy.id = conflict.childPolicy) ∧
    ∀ policy ∈ front, ¬ (policy.scope = conflict.childScope ∧ policy.id = conflict.childPolicy)

/-- Whether a later outcome answers for everything that an outcome of the first policies imposes.
Each field is at least as strict later on, or it is gone but imposed nothing, or a policy that came
after the first ones is on record for loosening it. -/
def AnswersFor (registry : FieldRegistry) (policies front : List ScopedPolicy)
    (earlier later : EffectiveOutcome) : Prop :=
  ∀ field ∈ earlier.policy.provenance.keys, ∃ value, earlier.policy.value? field = some value ∧
    ((∃ value', field ∈ later.policy.provenance.keys ∧
        later.policy.value? field = some value' ∧ registry.AtLeastAsStrict field value value') ∨
      (field ∉ later.policy.provenance.keys ∧ registry.ImposesNothing field value) ∨
      later.RecordsLoosening policies front field)

variable {policies front back : List ScopedPolicy} {earlier later : EffectiveOutcome}

theorem recordsLoosening_of_loosens {field : FieldPath} (within : back ⊆ policies)
    (apart : ∀ policy ∈ front, ∀ other ∈ back,
      ¬ (policy.scope = other.scope ∧ policy.id = other.id))
    (loosens : Loosens back field later.conflicts) :
    later.RecordsLoosening policies front field := by
  obtain ⟨conflict, recorded, named, looser, policy, listed, scope, id⟩ := loosens
  refine ⟨conflict, recorded, named, looser, ⟨policy, within listed, scope, id⟩, ?_⟩
  intro other front_listed same
  exact apart other front_listed policy listed ⟨same.1.trans scope.symm, same.2.trans id.symm⟩

theorem answersFor_of_tracked {registry : FieldRegistry} {middle final : MergeState}
    (shows : earlier.Shows middle) (shows' : later.Shows final) (within : back ⊆ policies)
    (apart : ∀ policy ∈ front, ∀ other ∈ back,
      ¬ (policy.scope = other.scope ∧ policy.id = other.id))
    (tracked : ∀ field merged, middle.fields.find? field = some merged →
      Tracked registry back field merged.value (final.fields.find? field) final.conflicts) :
    earlier.AnswersFor registry policies front later := by
  intro field listed
  obtain ⟨merged, found⟩ := Option.isSome_iff_exists.mp ((shows.listed field).mp listed)
  refine ⟨merged.value, shows.value field merged found, ?_⟩
  have followed := tracked field merged found
  rw [← shows'.conflicts] at followed
  cases reached : final.fields.find? field with
  | some current =>
      rw [reached] at followed
      cases followed with
      | kept strict =>
          have listed' := (shows'.listed field).mpr (reached ▸ rfl)
          exact .inl ⟨current.value, listed', shows'.value field current reached, strict⟩
      | recorded loosens => exact .inr (.inr (recordsLoosening_of_loosens within apart loosens))
  | none =>
      rw [reached] at followed
      cases followed with
      | lost nothing =>
          refine .inr (.inl ⟨fun listed' => ?_, nothing⟩)
          have present := (shows'.listed field).mp listed'
          rw [reached] at present
          cases present
      | recorded loosens => exact .inr (.inr (recordsLoosening_of_loosens within apart loosens))

end EffectiveOutcome

namespace InheritanceSettings

variable {settings : InheritanceSettings} {target : ScopeId} {chain : List Scope}
  {policies : List ScopedPolicy}

/-- The first policies of a chain have an effective policy if all of them have one, and then
nothing that the first ones impose is loosened without a record. -/
theorem compute_take (orderly : settings.registry.Orderly)
    (free : ∀ policy ∈ policies, policy.FloatFree)
    (distinct : (policies.map fun policy => (policy.scope, policy.id)).Nodup)
    {later : EffectiveOutcome} (computed : settings.compute target chain policies = .ok later) :
    ∃ ordered, ScopedPolicy.applicationOrder chain policies = .ok ordered ∧
      ∀ count, ∃ earlier, settings.compute target chain (ordered.take count) = .ok earlier ∧
        earlier.AnswersFor settings.registry policies (ordered.take count) later := by
  obtain ⟨final, merged, settled, values, provenance, conflicts⟩ := compute_eq_ok computed
  obtain ⟨checked, ordered, placed, applied⟩ := mergeChain_eq_ok merged
  obtain ⟨perm, again⟩ := ScopedPolicy.applicationOrder_eq_ok placed
  rw [MergeState.incompatible?_eq_none_iff] at settled
  have shows' := EffectiveOutcome.shows_of_eq (sound_applyAll_placed applied) values provenance
    conflicts
  refine ⟨ordered, placed, fun count => ?_⟩
  -- the state after the first policies is passed on the way to the final one
  rw [← List.take_append_drop count ordered] at applied
  obtain ⟨middle, front_applied, back_applied⟩ := applyAll_append_eq_ok applied
  have free_ordered : ∀ policy ∈ ordered, policy.FloatFree := fun policy listed =>
    free policy (perm.mem_iff.mp listed)
  have sound := sound_applyAll_fits
    (fun policy listed => free_ordered policy (List.mem_of_mem_take listed)) front_applied
  -- conflicts are never taken back, so an incompatible one could not have gone away
  have settled_front : middle.Settled :=
    settled.of_subset (conflicts_prefix_applyAll back_applied).subset
  obtain ⟨earlier, computed_front, values', provenance', conflicts'⟩ :=
    @compute_of_applyAll settings target chain _ _ _ checked (again count) front_applied
      (MergeState.incompatible?_eq_none_iff.mpr settled_front) (MergeState.floatFree_document sound)
  have shows := EffectiveOutcome.shows_of_eq (sound_applyAll_placed front_applied) values'
    provenance' conflicts'
  have distinct_ordered := (perm.map fun policy => (policy.scope, policy.id)).nodup_iff.mpr distinct
  refine ⟨earlier, computed_front, EffectiveOutcome.answersFor_of_tracked shows shows'
    (fun policy listed => perm.mem_iff.mp (List.mem_of_mem_drop listed))
    (fun policy listed other listed' =>
      ScopedPolicy.not_mem_take_of_mem_drop distinct_ordered listed listed')
    fun field merged found => ?_⟩
  refine tracked_applyAll orderly (List.Subset.refl _)
    (fun policy listed => free_ordered policy (List.mem_of_mem_drop listed)) sound settled
    back_applied ?_
  rw [found]
  exact .kept (FieldRegistry.atLeastAsStrict_self orderly (sound.holds field merged found))

/-- No silent loosening under the standard registry: whatever a beginning of the policies imposes is
imposed by all of them together, or a conflict with a later policy says otherwise. -/
theorem compute_answersFor_take (conflictPolicy : ConflictPolicy) (target : ScopeId)
    (chain : List Scope) (policies : List ScopedPolicy) (later : EffectiveOutcome)
    (free : ∀ policy ∈ policies, policy.FloatFree)
    (distinct : (policies.map fun policy => (policy.scope, policy.id)).Nodup)
    (computed : compute { conflicts := conflictPolicy } target chain policies = .ok later) :
    ∃ ordered, ScopedPolicy.applicationOrder chain policies = .ok ordered ∧
      ∀ count, ∃ earlier,
        compute { conflicts := conflictPolicy } target chain (ordered.take count) = .ok earlier ∧
          earlier.AnswersFor .standard policies (ordered.take count) later :=
  compute_take FieldRegistry.standard_orderly free distinct computed

theorem compute_answersFor_take_thresholdPolicies : ∃ later,
    compute {} brandScope.id brandChain thresholdPolicies = .ok later ∧
      ∃ earlier, compute {} brandScope.id brandChain (thresholdPolicies.take 1)
        = .ok earlier ∧
          earlier.AnswersFor .standard thresholdPolicies (thresholdPolicies.take 1) later := by
  obtain ⟨later, computed⟩ := compute_thresholdPolicies
  have floatFree : ∀ policy ∈ thresholdPolicies, policy.FloatFree :=
    List.forall_mem_cons.mpr ⟨ScopedPolicy.floatFree_ofRules rfl,
      List.forall_mem_singleton.mpr (ScopedPolicy.floatFree_ofRules rfl)⟩
  obtain ⟨ordered, placed, answers⟩ := compute_answersFor_take {} _ _ _ later floatFree
    (by decide) computed
  rw [applicationOrder_thresholdPolicies] at placed
  cases placed
  exact ⟨later, computed, answers 1⟩

end InheritanceSettings

end Governance
