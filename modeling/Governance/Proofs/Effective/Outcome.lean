import Governance.Proofs.Canonical.Equivalence
import Governance.Proofs.Effective.Document
import Governance.Proofs.Effective.Fields

/-!
# Outcomes of a merge

When a merge has an outcome, and what the values of the outcome are: the document of the merged
fields, whose leaves are these fields.
-/

set_option autoImplicit false

namespace Governance

namespace MergeState

def leaves (state : MergeState) : Leaves :=
  state.fields.entries.map fun entry => (entry.1, entry.2.value)

theorem document_eq (state : MergeState) : state.document = Leaves.document state.leaves := by
  rw [document, Leaves.document, leaves, List.foldl_map]

theorem leaves_fields (state : MergeState) : state.leaves.map Prod.fst = state.fields.keys := by
  rw [leaves, List.map_map]
  rfl

theorem keys_provenance (state : MergeState) : state.provenance.keys = state.fields.keys := by
  rw [provenance, SortedMap.keys, SortedMap.map, List.map_map]
  rfl

theorem mem_leaves_iff {state : MergeState} {leaf : FieldPath × Json} :
    leaf ∈ state.leaves ↔ ∃ merged, state.fields.find? leaf.1 = some merged ∧ merged.value = leaf.2 := by
  simp only [leaves, List.mem_map, SortedMap.find?_eq_some_iff, Prod.exists]
  constructor
  · intro listed
    obtain ⟨field, merged, listed, rfl⟩ := listed
    exact ⟨merged, listed, rfl⟩
  · intro found
    obtain ⟨merged, listed, same⟩ := found
    exact ⟨leaf.1, merged, listed, Prod.ext rfl same⟩

theorem ascending_leaves (state : MergeState) : Entries.Ascending state.leaves :=
  List.pairwise_map.mpr state.fields.ascending

theorem separate_leaves {registry : FieldRegistry} {state : MergeState}
    (sound : SoundFields registry.Placed state.fields) :
    Leaves.Separate registry state.leaves := by
  constructor
  · intro leaf listed
    obtain ⟨merged, found, same⟩ := mem_leaves_iff.mp listed
    exact same ▸ sound.holds leaf.1 merged found
  · refine state.ascending_leaves.imp_of_mem ?_
    intro leaf other listed listed' less
    obtain ⟨merged, found, _⟩ := mem_leaves_iff.mp listed
    obtain ⟨merged', found', _⟩ := mem_leaves_iff.mp listed'
    refine sound.apart leaf.1 other.1 merged merged' found found' fun same => ?_
    exact KeyOrder.irrefl _ (same ▸ less)

theorem cut_document {registry : FieldRegistry} {state : MergeState}
    (sound : SoundFields registry.Placed state.fields) :
    ∃ members, state.document = .obj members ∧
      Leaves.ofMembers registry true .root members = .ok state.leaves ∧
      ∀ leaf ∈ state.leaves, leaf.1.lookup? state.document = some leaf.2 := by
  obtain ⟨members, shape, spine, spec⟩ := Leaves.document_spec (separate_leaves sound)
  obtain ⟨leaves, cut, listed, ascending⟩ := Leaves.ofMembers_isCut spine.ascending spine.plain
    fun member present => Leaves.ofValue_isCut (spine.inner member present)
  have reached : ∀ leaf ∈ state.leaves, ∃ names, leaf.1 = .ofKeys names ∧
      registry.LeafOf [] members names leaf.2 := by
    intro leaf present
    obtain ⟨name, _, names, field, _⟩ := (separate_leaves sound).placed leaf present
    have present' : (FieldPath.ofKeys ([name] ++ names), leaf.2) ∈ state.leaves := field ▸ present
    exact ⟨[name] ++ names, field, (spec _ _).mpr present'⟩
  have same : leaves = state.leaves := by
    refine Entries.eq_of_mem_iff ascending state.ascending_leaves fun leaf => ?_
    rw [listed]
    constructor
    · intro found
      obtain ⟨names, field, inside⟩ := found
      have present := (spec _ _).mp inside
      rw [List.nil_append] at field
      rwa [← field] at present
    · exact reached leaf
  refine ⟨members, state.document_eq.trans shape, ?_, fun leaf present => ?_⟩
  · rw [← same, ← FieldPath.ofKeys_nil]
    exact cut
  · obtain ⟨names, field, inside⟩ := reached leaf present
    rw [state.document_eq, shape, field]
    exact FieldRegistry.follow?_of_leafOf inside

theorem holds_document {holds : Json → Prop} (hereditary : Json.Hereditary holds)
    {state : MergeState}
    (held : ∀ field merged, state.fields.find? field = some merged → holds merged.value) :
    holds state.document := by
  rw [document_eq]
  refine Leaves.holds_document hereditary fun leaf listed => ?_
  obtain ⟨merged, found, same⟩ := mem_leaves_iff.mp listed
  exact same ▸ held leaf.1 merged found

theorem floatFree_document {registry : FieldRegistry} {state : MergeState}
    (sound : SoundFields registry.Fits state.fields) : state.document.floatFree = true :=
  holds_document Json.hereditary_floatFree fun field merged found => (sound.holds field merged found).1

end MergeState

structure EffectiveOutcome.Shows (outcome : EffectiveOutcome) (state : MergeState) : Prop where
  listed : ∀ field, field ∈ outcome.policy.provenance.keys ↔
    (state.fields.find? field).isSome = true
  value : ∀ field merged, state.fields.find? field = some merged →
    outcome.policy.value? field = some merged.value
  conflicts : outcome.conflicts = state.conflicts

theorem EffectiveOutcome.shows_of_eq {registry : FieldRegistry} {outcome : EffectiveOutcome}
    {state : MergeState} (sound : SoundFields registry.Placed state.fields)
    (values : outcome.policy.values = state.document)
    (provenance : outcome.policy.provenance = state.provenance)
    (conflicts : outcome.conflicts = state.conflicts) : outcome.Shows state := by
  refine ⟨fun field => ?_, fun field merged found => ?_, conflicts⟩
  · rw [provenance, MergeState.keys_provenance, SortedMap.mem_keys_iff]
  · obtain ⟨_, _, _, reached⟩ := MergeState.cut_document sound
    rw [EffectivePolicy.value?, values]
    exact reached (field, merged.value) (MergeState.mem_leaves_iff.mpr ⟨merged, found, rfl⟩)

namespace InheritanceSettings

variable {settings : InheritanceSettings} {target : ScopeId} {chain : List Scope}
  {policies : List ScopedPolicy}

theorem mergeChain_eq_ok {state : MergeState}
    (merged : settings.mergeChain target chain policies = .ok state) :
    Scope.checkChain target chain = .ok () ∧ ∃ ordered,
      ScopedPolicy.applicationOrder chain policies = .ok ordered ∧
      settings.applyAll ordered {} = .ok state := by
  unfold mergeChain at merged
  cases checked : Scope.checkChain target chain with
  | error problem => simp [checked, bind, Except.bind] at merged
  | ok =>
      cases placed : ScopedPolicy.applicationOrder chain policies with
      | error problem => simp [checked, placed, bind, Except.bind] at merged
      | ok ordered =>
          simp only [checked, placed, bind, Except.bind] at merged
          exact ⟨rfl, ordered, rfl, merged⟩

theorem outcome_eq_ok {state : MergeState} {outcome : EffectiveOutcome}
    (finished : settings.outcome target state = .ok outcome) :
    state.incompatible? = none ∧ ∃ contentHash,
      ContentDigest.ofDocument settings.registry state.document = .ok contentHash ∧
      outcome = ⟨⟨target, state.document, state.provenance, contentHash, 1⟩, state.conflicts⟩ := by
  rw [InheritanceSettings.outcome] at finished
  cases settled : state.incompatible? with
  | some first => simp [settled] at finished
  | none =>
      cases digest : ContentDigest.ofDocument settings.registry state.document with
      | error problem => simp [settled, digest] at finished
      | ok contentHash =>
          simp only [settled, digest, Except.ok.injEq] at finished
          exact ⟨rfl, contentHash, rfl, finished.symm⟩

theorem finished_of_compute {outcome : EffectiveOutcome}
    (computed : settings.compute target chain policies = .ok outcome) :
    ∃ state, settings.mergeChain target chain policies = .ok state ∧
      settings.outcome target state = .ok outcome := by
  rw [compute] at computed
  cases merged : settings.mergeChain target chain policies with
  | error problem => simp [merged] at computed
  | ok state =>
      rw [merged] at computed
      exact ⟨state, rfl, computed⟩

theorem compute_eq_ok {outcome : EffectiveOutcome}
    (computed : settings.compute target chain policies = .ok outcome) :
    ∃ state, settings.mergeChain target chain policies = .ok state ∧
      state.incompatible? = none ∧ outcome.policy.values = state.document ∧
      outcome.policy.provenance = state.provenance ∧ outcome.conflicts = state.conflicts := by
  obtain ⟨state, merged, finished⟩ := finished_of_compute computed
  obtain ⟨settled, _, _, rfl⟩ := outcome_eq_ok finished
  exact ⟨state, merged, settled, rfl, rfl, rfl⟩

theorem digest_of_compute {outcome : EffectiveOutcome}
    (computed : settings.compute target chain policies = .ok outcome) :
    ContentDigest.ofDocument settings.registry outcome.policy.values
      = .ok outcome.policy.contentHash := by
  obtain ⟨state, _, finished⟩ := finished_of_compute computed
  obtain ⟨_, contentHash, digest, rfl⟩ := outcome_eq_ok finished
  exact digest

theorem floatFree_of_digest {registry : FieldRegistry} {document : Json} {digest : ContentDigest}
    (written : ContentDigest.ofDocument registry document = .ok digest) : document.floatFree = true := by
  rw [ContentDigest.ofDocument] at written
  cases text : Canonical.documentText registry document with
  | error problem => simp [text, Except.map] at written
  | ok line => exact Canonical.floatFree_of_textAt text

theorem floatFree_of_compute {outcome : EffectiveOutcome}
    (computed : settings.compute target chain policies = .ok outcome) :
    outcome.policy.values.floatFree = true :=
  floatFree_of_digest (digest_of_compute computed)

theorem outcome_of_floatFree {state : MergeState} (settled : state.incompatible? = none)
    (free : state.document.floatFree = true) :
    ∃ outcome, settings.outcome target state = .ok outcome ∧
      outcome.policy.values = state.document ∧ outcome.policy.provenance = state.provenance ∧
      outcome.conflicts = state.conflicts := by
  have digest : ContentDigest.ofDocument settings.registry state.document = .ok
      (.ofText (Canonical.text (Canonical.arranged settings.registry FieldPath.root.keys
        state.document))) := by
    rw [ContentDigest.ofDocument, Canonical.documentText, Canonical.textAt_eq free]
    rfl
  rw [InheritanceSettings.outcome, settled]
  simp only [digest]
  exact ⟨_, rfl, rfl, rfl, rfl⟩

/-- A chain whose policies can be applied without such a conflict has an outcome. -/
theorem compute_of_applyAll {ordered : List ScopedPolicy} {state : MergeState}
    (checked : Scope.checkChain target chain = .ok ())
    (placed : ScopedPolicy.applicationOrder chain policies = .ok ordered)
    (applied : settings.applyAll ordered {} = .ok state) (settled : state.incompatible? = none)
    (free : state.document.floatFree = true) :
    ∃ outcome, settings.compute target chain policies = .ok outcome ∧
      outcome.policy.values = state.document ∧ outcome.policy.provenance = state.provenance ∧
      outcome.conflicts = state.conflicts := by
  have merged : settings.mergeChain target chain policies = .ok state := by
    simp only [mergeChain, checked, placed, bind, Except.bind, applied]
  rw [compute, merged]
  exact outcome_of_floatFree settled free

/-- A merge collects fields that can be declared, of which none lies in another one. -/
theorem sound_applyAll_placed {ordered : List ScopedPolicy} {state : MergeState}
    (applied : settings.applyAll ordered {} = .ok state) :
    SoundFields settings.registry.Placed state.fields := by
  have combines : Combines settings.registry.Placed := fun _ _ _ _ =>
    FieldRegistry.placed_of_combined
  exact sound_applyAll combines (fun _ _ _ _ => ScopedPolicy.placed_of_declares) sound_empty applied

/-- A merge of policies without floats collects values without floats and of the right kinds. -/
theorem sound_applyAll_fits {ordered : List ScopedPolicy} {state : MergeState}
    (free : ∀ policy ∈ ordered, policy.FloatFree)
    (applied : settings.applyAll ordered {} = .ok state) :
    SoundFields settings.registry.Fits state.fields := by
  have combines : Combines settings.registry.Fits := fun _ _ _ _ => FieldRegistry.fits_of_combined
  refine sound_applyAll combines (fun policy listed _ _ => ?_) sound_empty applied
  exact ScopedPolicy.fits_of_declares (free policy listed)

end InheritanceSettings

end Governance
