import Governance.Proofs.Effective.Declared
import Governance.Proofs.Effective.Loosening
import Governance.Proofs.Effective.Order

/-!
# One policy and one field

What applying a policy does to a single field, in a run that ends without an incompatible conflict.
The rules decide first, what is left or declared then is what the overrides inherit, and a field
that neither of them names is dropped or stays as it was.
-/

set_option autoImplicit false

namespace Governance

def ScopedPolicy.source (policy : ScopedPolicy) (isOverride : Bool) : FieldProvenance :=
  ⟨policy.scope, policy.id, policy.mode, isOverride⟩

/-- What a document of a policy that declares a field, or does not, makes of the field. Where it is
not declared, what is kept stays; otherwise the conflict with the inherited value is on record. -/
inductive Declaration (settings : InheritanceSettings) (policy : ScopedPolicy) (isOverride : Bool)
    (field : FieldPath) (inherited kept : Option MergedField) (conflicts : List PolicyConflict) :
    Option Json → Option MergedField → Prop where
  | absent : Declaration settings policy isOverride field inherited kept conflicts none kept
  | present {value : Json} :
      settings.foundBy policy isOverride field value inherited ⊆ conflicts →
      Declaration settings policy isOverride field inherited kept conflicts (some value)
        (some ⟨settings.resultOf policy isOverride field value inherited, policy.source isOverride⟩)

namespace Declaration

variable {settings : InheritanceSettings} {policy : ScopedPolicy} {isOverride : Bool}
  {field : FieldPath} {inherited kept final : Option MergedField} {conflicts : List PolicyConflict}

theorem eq_kept
    (declaration : Declaration settings policy isOverride field inherited kept conflicts none final) :
    final = kept := by
  cases declaration
  rfl

theorem eq_declared {value : Json}
    (declaration : Declaration settings policy isOverride field inherited kept conflicts (some value)
      final) :
    final = some ⟨settings.resultOf policy isOverride field value inherited,
      policy.source isOverride⟩ := by
  cases declaration
  rfl

theorem foundBy_subset {value : Json}
    (declaration : Declaration settings policy isOverride field inherited kept conflicts (some value)
      final) : settings.foundBy policy isOverride field value inherited ⊆ conflicts := by
  cases declaration with
  | present recorded => exact recorded

theorem mono {declared : Option Json} {more : List PolicyConflict}
    (declaration : Declaration settings policy isOverride field inherited kept conflicts declared
      final) (grows : conflicts ⊆ more) :
    Declaration settings policy isOverride field inherited kept more declared final := by
  cases declaration with
  | absent => exact .absent
  | present recorded => exact .present (List.Subset.trans recorded grows)

end Declaration

namespace InheritanceSettings

variable {settings : InheritanceSettings} {policy : ScopedPolicy}

/-! ## One document -/

def declareAll (settings : InheritanceSettings) (policy : ScopedPolicy) (isOverride : Bool)
    (displaced : SortedMap FieldPath MergedField) (leaves : Leaves) (state : MergeState) :
    MergeState :=
  leaves.foldl (fun state leaf => settings.applyLeaf policy isOverride leaf.1 leaf.2
    ((state.fields.find? leaf.1).or (displaced.find? leaf.1)) state) state

theorem applyDeclared_eq_declareAll {displaced : SortedMap FieldPath MergedField} {leaves : Leaves}
    {state : MergeState} :
    settings.applyDeclared policy displaced leaves state
      = settings.declareAll policy false displaced leaves state := rfl

theorem applyOverridden_eq_declareAll {leaves : Leaves} {state : MergeState} :
    settings.applyOverridden policy leaves state
      = settings.declareAll policy true ∅ leaves state := by
  simp only [applyOverridden, declareAll, SortedMap.find?_empty, Option.or_none]

variable {isOverride : Bool} {displaced : SortedMap FieldPath MergedField} {leaves : Leaves}
  {state : MergeState}

theorem conflicts_prefix_declareAll :
    state.conflicts <+: (settings.declareAll policy isOverride displaced leaves state).conflicts := by
  induction leaves generalizing state with
  | nil => exact List.prefix_rfl
  | cons leaf rest ih => exact conflicts_prefix_applyLeaf.trans ih

theorem foundBy_subset_applyLeaf {field : FieldPath} {declared : Json} {inherited : Option MergedField} :
    settings.foundBy policy isOverride field declared inherited ⊆
      (settings.applyLeaf policy isOverride field declared inherited state).conflicts := by
  rw [conflicts_applyLeaf]
  exact List.subset_append_right _ _

/-- Each field is declared once at most, and no declared field changes another one. -/
theorem declaration_declareAll (field : FieldPath) (ascending : Entries.Ascending leaves)
    (settled : (settings.declareAll policy isOverride displaced leaves state).Settled) :
    Declaration settings policy isOverride field
      ((state.fields.find? field).or (displaced.find? field)) (state.fields.find? field)
      (settings.declareAll policy isOverride displaced leaves state).conflicts
      (Entries.find? field leaves)
      ((settings.declareAll policy isOverride displaced leaves state).fields.find? field) := by
  induction leaves generalizing state with
  | nil => exact .absent
  | cons leaf rest ih =>
      obtain ⟨above, ascending⟩ := List.pairwise_cons.mp ascending
      have followed := ih ascending settled
      have settled' := settled.of_subset
        (@conflicts_prefix_declareAll settings policy isOverride displaced rest _).subset
      obtain ⟨path, value⟩ := leaf
      by_cases same : path = field
      · subst same
        -- the fields that follow are others
        have once : Entries.find? path rest = none := by
          refine Entries.find?_eq_none_iff.mpr fun later listed equal => ?_
          exact KeyOrder.irrefl path (equal ▸ above later listed)
        rw [once, find?_applyLeaf, if_pos rfl] at followed
        rw [Entries.find?, if_pos rfl, declareAll, List.foldl_cons, ← declareAll, followed.eq_kept]
        exact .present (List.Subset.trans foundBy_subset_applyLeaf
          conflicts_prefix_declareAll.subset)
      · rw [find?_applyLeaf_of_settled settled' same] at followed
        rw [Entries.find?, if_neg same]
        exact followed

/-! ## Both documents -/

def keptBy (policy : ScopedPolicy) (declared : Leaves) (field : FieldPath)
    (current : Option MergedField) : Option MergedField :=
  if policy.mode = .replace ∧ covers declared field = true then none else current

theorem declaration_applyRules (field : FieldPath) (ascending : Entries.Ascending leaves)
    (settled : (settings.applyRules policy leaves state).Settled) :
    Declaration settings policy false field (state.fields.find? field)
      (keptBy policy leaves field (state.fields.find? field))
      (settings.applyRules policy leaves state).conflicts (Entries.find? field leaves)
      ((settings.applyRules policy leaves state).fields.find? field) := by
  by_cases replacing : policy.mode = .replace
  · rw [applyRules_of_replace replacing] at settled ⊢
    have settled' : (settings.replaced policy leaves state).Settled :=
      settled.of_subset (List.subset_append_left _ _)
    rw [replaced, applyDeclared_eq_declareAll] at settled'
    have followed := declaration_declareAll field ascending settled'
    rw [find?_or_displacedBy, ← applyDeclared_eq_declareAll, ← replaced] at followed
    have kept : (state.fields.filter fun field _ => !covers leaves field).find? field
        = keptBy policy leaves field (state.fields.find? field) := by
      rw [SortedMap.find?_filter, keptBy]
      cases covers leaves field <;> cases state.fields.find? field <;> simp [replacing]
    rw [kept] at followed
    exact followed.mono (List.subset_append_left _ _)
  · rw [applyRules_of_not_replace replacing, applyDeclared_eq_declareAll] at settled ⊢
    have followed := declaration_declareAll field ascending settled
    have kept : keptBy policy leaves field (state.fields.find? field) = state.fields.find? field :=
      if_neg fun both => replacing both.1
    rw [kept]
    change Declaration settings policy false field ((state.fields.find? field).or none) _ _ _ _ at followed
    rwa [Option.or_none] at followed

/-- What the rules and then the overrides of a policy make of a field. -/
theorem declaration_applyPolicy (field : FieldPath) (known : policy.WellFormed) {final : MergeState}
    (applied : settings.applyPolicy policy state = .ok final) (settled : final.Settled) :
    ∃ declared overridden middle, policy.declared settings.registry = .ok declared ∧
      policy.overridden settings.registry = .ok overridden ∧
      middle = settings.applyRules policy declared state ∧
      middle.conflicts ⊆ final.conflicts ∧
      Declaration settings policy false field (state.fields.find? field)
        (keptBy policy declared field (state.fields.find? field)) middle.conflicts
        (Entries.find? field declared) (middle.fields.find? field) ∧
      Declaration settings policy true field (middle.fields.find? field)
        (middle.fields.find? field) final.conflicts (Entries.find? field overridden)
        (final.fields.find? field) := by
  obtain ⟨declared, overridden, rules, overrides, rfl⟩ := applyPolicy_eq_ok applied
  have grows := (@conflicts_prefix_applyOverridden settings policy overridden
    (settings.applyRules policy declared state)).subset
  refine ⟨declared, overridden, _, rules, overrides, rfl, grows, ?_, ?_⟩
  · exact declaration_applyRules field (ScopedPolicy.ascending_declared known rules)
      (settled.of_subset grows)
  · rw [applyOverridden_eq_declareAll] at settled ⊢
    have followed := declaration_declareAll field
      (ScopedPolicy.ascending_overridden known overrides) settled
    rwa [SortedMap.find?_empty, Option.or_none] at followed

/-- What a policy that does not replace and has no overrides makes of a registered field. -/
theorem declaration_of_additive {keys : List String} (reachable : settings.registry.Reachable keys)
    (known : policy.WellFormed) (additive : policy.mode ≠ .replace)
    (plain : policy.overrides = none) {final : MergeState}
    (applied : settings.applyPolicy policy state = .ok final) (settled : final.Settled) :
    ∃ declared, policy.declared settings.registry = .ok declared ∧
      Declaration settings policy false (.ofKeys keys) (state.fields.find? (.ofKeys keys))
        (state.fields.find? (.ofKeys keys)) final.conflicts (policy.declaredAt? false (.ofKeys keys))
        (final.fields.find? (.ofKeys keys)) := by
  obtain ⟨declared, overridden, middle, rules, overrides, _, grows, byRules, byOverrides⟩ :=
    declaration_applyPolicy (.ofKeys keys) known applied settled
  rw [ScopedPolicy.find?_overridden known reachable overrides, ScopedPolicy.declaredAt?, if_pos rfl,
    plain] at byOverrides
  rw [ScopedPolicy.find?_declared known reachable rules, keptBy,
    if_neg fun both => additive both.1] at byRules
  rw [byOverrides.eq_kept]
  exact ⟨declared, rules, byRules.mono grows⟩

end InheritanceSettings

/-! ## Computations that succeed -/

def FieldRegistry.Suits (registry : FieldRegistry) (field : FieldPath) (value : Json) : Prop :=
  ∀ directive, registry.directive? field = some directive → directive.kind.accepts value = true

theorem ScopedPolicy.suits_of_declares {policy : ScopedPolicy} {registry : FieldRegistry}
    {field : FieldPath} {value : Json} (declares : policy.Declares registry field value) :
    registry.Suits field value := by
  obtain ⟨_, _, leaves, _, _, checked, listed⟩ := declares.cut
  exact accepts_of_checkKinds checked _ listed

theorem FieldRegistry.combines_suits (registry : FieldRegistry) :
    InheritanceSettings.Combines registry.Suits := by
  intro field inherited declared combined suits suits' result directive found
  exact ValueKind.accepts_of_combined (suits directive found) (suits' directive found) result

theorem MergeState.floatFree_of_document {registry : FieldRegistry} {state : MergeState}
    (sound : SoundFields registry.Placed state.fields) (free : state.document.floatFree = true)
    {field : FieldPath} {merged : MergedField} (found : state.fields.find? field = some merged) :
    merged.value.floatFree = true := by
  obtain ⟨members, shape, cut, _⟩ := cut_document sound
  rw [shape] at free
  exact Leaves.holds_of_ofMembers Json.hereditary_floatFree cut free (field, merged.value)
    (mem_leaves_iff.mpr ⟨merged, found, rfl⟩)

namespace InheritanceSettings

/-- The order and the final state of a computation that succeeds, and what its outcome shows of
them. -/
structure Run (settings : InheritanceSettings) (chain : List Scope) (policies : List ScopedPolicy)
    (outcome : EffectiveOutcome) (ordered : List ScopedPolicy) (final : MergeState) : Prop where
  placed : ScopedPolicy.applicationOrder chain policies = .ok ordered
  applied : settings.applyAll ordered {} = .ok final
  settled : final.Settled
  fits : ∀ field merged, final.fields.find? field = some merged →
    settings.registry.Fits field merged.value
  values : outcome.policy.values = final.document
  provenance : outcome.policy.provenance = final.provenance
  conflicts : outcome.conflicts = final.conflicts

variable {settings : InheritanceSettings} {target : ScopeId} {chain : List Scope}
  {policies ordered : List ScopedPolicy} {outcome : EffectiveOutcome} {final : MergeState}

theorem run_of_compute (computed : settings.compute target chain policies = .ok outcome) :
    ∃ ordered final, settings.Run chain policies outcome ordered final := by
  obtain ⟨final, merged, settled, values, provenance, conflicts⟩ := compute_eq_ok computed
  obtain ⟨_, ordered, placed, applied⟩ := mergeChain_eq_ok merged
  have suitable : SoundFields settings.registry.Suits final.fields :=
    sound_applyAll settings.registry.combines_suits
      (fun _ _ _ _ => ScopedPolicy.suits_of_declares) sound_empty applied
  have free := floatFree_of_compute computed
  rw [values] at free
  refine ⟨ordered, final, placed, applied, MergeState.incompatible?_eq_none_iff.mp settled, ?_, values,
    provenance, conflicts⟩
  intro field merged found
  exact ⟨MergeState.floatFree_of_document (sound_applyAll_placed applied) free found,
    suitable.holds field merged found⟩

/-- Where the policies of one computation are applied first in another one, the second run goes on
from where the first one ended. -/
theorem runs_of_compute {target' : ScopeId} {chain' : List Scope}
    {whole front back : List ScopedPolicy} {earlier later : EffectiveOutcome}
    (placed : ScopedPolicy.applicationOrder chain policies = .ok front)
    (placed' : ScopedPolicy.applicationOrder chain' whole = .ok (front ++ back))
    (computed : settings.compute target chain policies = .ok earlier)
    (computed' : settings.compute target' chain' whole = .ok later) :
    ∃ middle final, settings.Run chain policies earlier front middle ∧
      settings.Run chain' whole later (front ++ back) final ∧
      settings.applyAll back middle = .ok final := by
  obtain ⟨_, middle, run⟩ := run_of_compute computed
  obtain ⟨_, final, run'⟩ := run_of_compute computed'
  cases run.placed.symm.trans placed
  cases run'.placed.symm.trans placed'
  obtain ⟨_, begun, rest⟩ := applyAll_append_eq_ok run'.applied
  cases run.applied.symm.trans begun
  exact ⟨middle, final, run, run', rest⟩

namespace Run

variable (run : settings.Run chain policies outcome ordered final)

include run

theorem perm : ordered.Perm policies := (ScopedPolicy.applicationOrder_eq_ok run.placed).1

theorem mem_iff {policy : ScopedPolicy} : policy ∈ ordered ↔ policy ∈ policies := run.perm.mem_iff

theorem shows : outcome.Shows final :=
  EffectiveOutcome.shows_of_eq (sound_applyAll_placed run.applied) run.values run.provenance
    run.conflicts

theorem find?_provenance (field : FieldPath) :
    outcome.policy.provenance.find? field = (final.fields.find? field).map MergedField.source := by
  rw [run.provenance, MergeState.provenance, SortedMap.find?_map]

theorem value? {keys : List String} (reachable : settings.registry.Reachable keys) :
    outcome.policy.value? (.ofKeys keys)
      = (final.fields.find? (.ofKeys keys)).map MergedField.value := by
  rw [EffectivePolicy.value?, run.values]
  exact MergeState.lookup?_document (sound_applyAll_placed run.applied) reachable

end Run

end InheritanceSettings

end Governance
