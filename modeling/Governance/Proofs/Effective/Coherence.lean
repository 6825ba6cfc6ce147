import Governance.Proofs.Effective.Outcome

/-!
# Values and sources of an effective policy

The values of an effective policy and the map of their sources are built apart from each other, and
a source is looked up by yet another search. They all speak of the same fields.
-/

set_option autoImplicit false

namespace Governance

namespace EffectivePolicy

/-! ## Looking up sources -/

/-- The search for a source tries the beginnings of a path from the longest one down. -/
theorem sourceUpTo?_cases (policy : EffectivePolicy) (field : FieldPath) (count : Nat) :
    (∃ length, 0 < length ∧ length ≤ count ∧
        (policy.provenance.find? (field.take length)).isSome = true ∧
        policy.sourceUpTo? field count = policy.provenance.find? (field.take length)) ∨
      policy.sourceUpTo? field count = none ∧
        ∀ length, 0 < length → length ≤ count →
          policy.provenance.find? (field.take length) = none := by
  induction count with
  | zero =>
      refine .inr ⟨rfl, fun length positive small => ?_⟩
      omega
  | succ count ih =>
      rw [sourceUpTo?]
      cases found : policy.provenance.find? (field.take (count + 1)) with
      | some source =>
          exact .inl ⟨count + 1, by omega, by omega, by rw [found]; rfl, found.symm⟩
      | none =>
          rcases ih with ⟨length, positive, small, present, same⟩ | ⟨absent, others⟩
          · exact .inl ⟨length, positive, by omega, present, same⟩
          · refine .inr ⟨absent, fun length positive small => ?_⟩
            by_cases last : length = count + 1
            · exact last ▸ found
            · exact others length positive (by omega)

/-- The values of a policy and the sources on record describe the same fields. No field lies in
another one, the leaves of the values are the fields on record, each where looking it up finds it,
and a path has a source exactly if it lies in a field on record, which is then the only one. -/
structure Coherent (registry : FieldRegistry) (policy : EffectivePolicy) : Prop where
  apart : ∀ field ∈ policy.provenance.keys, ∀ other ∈ policy.provenance.keys,
    other.startsWith field = true → other = field
  leaves : ∃ members leaves, policy.values = .obj members ∧
    Leaves.ofMembers registry true .root members = .ok leaves ∧
    leaves.map Prod.fst = policy.provenance.keys ∧
    ∀ leaf ∈ leaves, policy.value? leaf.1 = some leaf.2
  explained : ∀ path, (policy.explain path).isSome = true ↔
    ∃ field ∈ policy.provenance.keys, path.startsWith field = true
  source : ∀ path, ∀ field ∈ policy.provenance.keys, path.startsWith field = true →
    policy.explain path = policy.provenance.find? field ∧
      ∀ other ∈ policy.provenance.keys, path.startsWith other = true → other = field

variable {policy : EffectivePolicy}

theorem eq_of_startsWith
    (apart : ∀ field ∈ policy.provenance.keys, ∀ other ∈ policy.provenance.keys,
      other.startsWith field = true → other = field)
    {path field other : FieldPath} (listed : field ∈ policy.provenance.keys)
    (listed' : other ∈ policy.provenance.keys) (begins : path.startsWith field = true)
    (begins' : path.startsWith other = true) : other = field := by
  rcases FieldPath.startsWith_or_startsWith begins begins' with longer | shorter
  · exact (apart other listed' field listed longer).symm
  · exact apart field listed other listed' shorter

theorem explain_eq_find?
    (apart : ∀ field ∈ policy.provenance.keys, ∀ other ∈ policy.provenance.keys,
      other.startsWith field = true → other = field)
    (proper : FieldPath.root ∉ policy.provenance.keys) {path field : FieldPath}
    (listed : field ∈ policy.provenance.keys) (begins : path.startsWith field = true) :
    policy.explain path = policy.provenance.find? field := by
  have shape := FieldPath.take_of_startsWith begins
  have short : field.segments.length ≤ path.segments.length :=
    (FieldPath.startsWith_iff.mp begins).length_le
  have positive : 0 < field.segments.length := by
    refine List.length_pos_iff.mpr fun empty => proper ?_
    obtain ⟨segments⟩ := field
    cases empty
    exact listed
  have present := SortedMap.mem_keys_iff.mp listed
  rw [explain]
  rcases sourceUpTo?_cases policy path path.segments.length with
    ⟨length, _, _, found, same⟩ | ⟨_, absent⟩
  · have listed' := SortedMap.mem_keys_iff.mpr found
    rw [same, eq_of_startsWith apart listed listed' begins (FieldPath.startsWith_take _ _)]
  · rw [← shape, absent _ positive short] at present
    cases present

theorem explain_isSome_iff
    (apart : ∀ field ∈ policy.provenance.keys, ∀ other ∈ policy.provenance.keys,
      other.startsWith field = true → other = field)
    (proper : FieldPath.root ∉ policy.provenance.keys) (path : FieldPath) :
    (policy.explain path).isSome = true ↔
      ∃ field ∈ policy.provenance.keys, path.startsWith field = true := by
  constructor
  · intro explained
    rw [explain] at explained
    rcases sourceUpTo?_cases policy path path.segments.length with
      ⟨length, _, _, found, _⟩ | ⟨absent, _⟩
    · exact ⟨_, SortedMap.mem_keys_iff.mpr found, FieldPath.startsWith_take _ _⟩
    · rw [absent] at explained
      cases explained
  · intro covered
    obtain ⟨field, listed, begins⟩ := covered
    rw [explain_eq_find? apart proper listed begins]
    exact SortedMap.mem_keys_iff.mp listed

end EffectivePolicy

namespace MergeState

variable {registry : FieldRegistry} {state : MergeState}

theorem exists_of_mem_provenance {field : FieldPath} (listed : field ∈ state.provenance.keys) :
    ∃ merged, state.fields.find? field = some merged := by
  rw [keys_provenance] at listed
  exact Option.isSome_iff_exists.mp (SortedMap.mem_keys_iff.mp listed)

theorem apart_provenance (sound : SoundFields registry.Placed state.fields) :
    ∀ field ∈ state.provenance.keys, ∀ other ∈ state.provenance.keys,
      other.startsWith field = true → other = field := by
  intro field listed other listed' begins
  obtain ⟨merged, present⟩ := exists_of_mem_provenance listed
  obtain ⟨merged', present'⟩ := exists_of_mem_provenance listed'
  by_contra different
  have beside := sound.apart field other merged merged' present present' (Ne.symm different)
  rw [InheritanceSettings.overlaps, begins, Bool.true_or] at beside
  cases beside

theorem root_not_mem_provenance (sound : SoundFields registry.Placed state.fields) :
    FieldPath.root ∉ state.provenance.keys := by
  intro listed
  obtain ⟨merged, present⟩ := exists_of_mem_provenance listed
  obtain ⟨name, _, names, field, _⟩ := sound.holds _ merged present
  cases field

theorem coherent (sound : SoundFields registry.Placed state.fields) {policy : EffectivePolicy}
    (values : policy.values = state.document) (provenance : policy.provenance = state.provenance) :
    policy.Coherent registry := by
  obtain ⟨members, shape, cut, found⟩ := cut_document sound
  have apart := apart_provenance sound
  have proper := root_not_mem_provenance sound
  rw [← provenance] at apart proper
  refine ⟨apart, ⟨members, state.leaves, values.trans shape, cut, ?_, fun leaf listed => ?_⟩,
    EffectivePolicy.explain_isSome_iff apart proper, fun path field listed begins => ⟨?_, ?_⟩⟩
  · rw [leaves_fields, provenance, keys_provenance]
  · rw [EffectivePolicy.value?, values]
    exact found leaf listed
  · exact EffectivePolicy.explain_eq_find? apart proper listed begins
  · exact fun other listed' begins' =>
      EffectivePolicy.eq_of_startsWith apart listed listed' begins begins'

theorem insert_succeeds (sound : SoundFields registry.Placed state.fields)
    {before after : Leaves} {leaf : FieldPath × Json}
    (split : state.leaves = before ++ leaf :: after) :
    (leaf.1.insert (Leaves.document before) leaf.2).2 = true := by
  have listed : leaf ∈ state.leaves := by
    rw [split]
    exact List.mem_append_right _ List.mem_cons_self
  exact FieldRegistry.insert_succeeds_of_placed ((separate_leaves sound).placed leaf listed) _ _

end MergeState

namespace InheritanceSettings

/-- The values and the sources of a computed policy describe the same fields, and every write into
the document of its values succeeded. -/
theorem compute_coherent (settings : InheritanceSettings) (target : ScopeId) (chain : List Scope)
    (policies : List ScopedPolicy) (outcome : EffectiveOutcome)
    (computed : settings.compute target chain policies = .ok outcome) :
    outcome.policy.Coherent settings.registry ∧
      ∃ state, settings.mergeChain target chain policies = .ok state ∧
        outcome.policy.values = Leaves.document state.leaves ∧
        state.leaves.map Prod.fst = outcome.policy.provenance.keys ∧
        ∀ before leaf after, state.leaves = before ++ leaf :: after →
          (leaf.1.insert (Leaves.document before) leaf.2).2 = true := by
  obtain ⟨state, merged, _, values, provenance, _⟩ := compute_eq_ok computed
  obtain ⟨_, ordered, _, applied⟩ := mergeChain_eq_ok merged
  have sound := sound_applyAll_placed applied
  refine ⟨MergeState.coherent sound values provenance, state, merged,
    values.trans state.document_eq, ?_, fun before leaf after split =>
      MergeState.insert_succeeds sound split⟩
  rw [MergeState.leaves_fields, provenance, MergeState.keys_provenance]

/-! ### A company and a brand below it -/

def companyScope : Scope :=
  { id := ⟨"company", by decide⟩, type := .enterprise, parent := none, location := "" }

def brandScope : Scope :=
  { id := ⟨"brand", by decide⟩, type := .brand, parent := some companyScope.id, location := "" }

def brandChain : List Scope := [companyScope, brandScope]

theorem applicationOrder_brandChain {base change : ScopedPolicy}
    (above : base.scope = companyScope.id) (below : change.scope = brandScope.id) :
    ScopedPolicy.applicationOrder brandChain [base, change] = .ok [base, change] := by
  have placed : ScopedPolicy.placeAll brandChain [base, change] = .ok [(0, base), (1, change)] := by
    simp only [ScopedPolicy.placeAll, above, below]
    rfl
  rw [ScopedPolicy.applicationOrder, placed, Except.map,
    List.mergeSort_of_pairwise (by simp [ScopedPolicy.mayPrecede])]
  rfl

theorem applicationOrder_companyScope {policy : ScopedPolicy}
    (placed : policy.scope = companyScope.id) :
    ScopedPolicy.applicationOrder [companyScope] [policy] = .ok [policy] := by
  have found : ScopedPolicy.placeAll [companyScope] [policy] = .ok [(0, policy)] := by
    simp [ScopedPolicy.placeAll, placed, Except.map]
  rw [ScopedPolicy.applicationOrder, found, Except.map, List.mergeSort_singleton]
  rfl

theorem compute_brandChain {base change : ScopedPolicy} {state : MergeState}
    (above : base.scope = companyScope.id) (below : change.scope = brandScope.id)
    (applied : InheritanceSettings.applyAll {} [base, change] {} = .ok state)
    (settled : state.incompatible? = none) (free : state.document.floatFree = true) :
    ∃ outcome, compute {} brandScope.id brandChain [base, change] = .ok outcome ∧
      outcome.policy.values = state.document ∧ outcome.policy.provenance = state.provenance ∧
      outcome.conflicts = state.conflicts :=
  compute_of_applyAll (by decide) (applicationOrder_brandChain above below) applied settled free

def companyApprovals : ScopedPolicy :=
  .ofRules ⟨"base", by decide⟩ companyScope.id .merge (.obj [("min_approvals", .int 2)])

def fewerApprovals : ScopedPolicy :=
  .ofRules ⟨"relax", by decide⟩ brandScope.id .merge (.obj [("min_approvals", .int 1)])

def brandApprovals : ScopedPolicy :=
  .ofRules ⟨"raise", by decide⟩ brandScope.id .merge (.obj [("min_approvals", .int 3)])

def approvalPolicies : List ScopedPolicy := [companyApprovals, fewerApprovals]

def thresholdPolicies : List ScopedPolicy :=
  [{ companyApprovals with
      mode := .replace
      rules := .obj [("limits", .obj [("daily", .int 5)]), ("min_approvals", .int 1)] },
    { brandApprovals with rules := .obj [("min_approvals", .int 2), ("region", .obj [])] }]

def companyBlocks : ScopedPolicy :=
  { companyApprovals with
    rules := .obj [("blocked_actions", .arr [.str "export", .str "export"])] }

def brandBlocks : ScopedPolicy :=
  { brandApprovals with
    id := ⟨"once", by decide⟩
    rules := .obj [("blocked_actions", .arr [.str "export"])] }

theorem applicationOrder_thresholdPolicies :
    ScopedPolicy.applicationOrder brandChain thresholdPolicies = .ok thresholdPolicies :=
  applicationOrder_brandChain rfl rfl

theorem compute_thresholdPolicies : ∃ outcome,
    compute {} brandScope.id brandChain thresholdPolicies = .ok outcome := by
  obtain ⟨state, applied, settled, free⟩ : ∃ state,
      InheritanceSettings.applyAll {} thresholdPolicies {} = .ok state ∧
        state.incompatible? = none ∧ state.document.floatFree = true :=
    ⟨_, rfl, by decide, by decide⟩
  obtain ⟨outcome, computed, _⟩ := compute_brandChain rfl rfl applied settled free
  exact ⟨outcome, computed⟩

theorem compute_coherent_thresholdPolicies : ∃ outcome,
    compute {} brandScope.id brandChain thresholdPolicies = .ok outcome ∧
      outcome.policy.Coherent .standard := by
  obtain ⟨outcome, computed⟩ := compute_thresholdPolicies
  exact ⟨outcome, computed, (compute_coherent {} _ _ _ outcome computed).1⟩

end InheritanceSettings

end Governance
