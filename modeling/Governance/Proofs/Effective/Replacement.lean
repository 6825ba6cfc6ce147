import Governance.Proofs.Effective.Change
import Governance.Proofs.Effective.Frame
import Governance.Proofs.Effective.Rebuild

/-!
# Policies that replace

A replacing policy without overrides that is applied last sets every top level key of its rules to
what the rules hold there, whatever stood under the key, and leaves the other keys alone. The
document is flattened into fields and built up again on the way, and comes out as if the members of
the rules had been put into it one by one.
-/

set_option autoImplicit false

namespace Governance

/-! ## The rules of a replacing policy -/

theorem ScopedPolicy.declared_of_replace {policy : ScopedPolicy} {registry : FieldRegistry}
    {leaves : Leaves} (replacing : policy.mode = .replace)
    (rules : policy.declared registry = .ok leaves) :
    ∃ declared, policy.rules = .obj declared ∧
      Leaves.ofMembers registry true .root declared = .ok leaves := by
  rw [ScopedPolicy.declared] at rules
  obtain ⟨declared, _, shape, _⟩ := leaves_eq_ok rules
  rw [shape] at rules
  have cut := (leaves_obj_eq_ok rules).1
  rw [replacing] at cut
  exact ⟨declared, shape, cut⟩

namespace Leaves

variable {registry : FieldRegistry} {declared : List (String × Json)} {leaves : Leaves}

theorem mem_iff_leafOf (known : (Json.obj declared).WellFormed)
    (cut : ofMembers registry true .root declared = .ok leaves) {names : List String}
    {value : Json} :
    (.ofKeys names, value) ∈ leaves ↔ registry.LeafOf [] declared names value := by
  rw [(ofMembers_spec known cut).2]
  constructor
  · intro given
    obtain ⟨_, names', same, reached⟩ := given
    rwa [FieldPath.ofKeys_injective same]
  · intro reached
    exact ⟨rfl, names, rfl, reached⟩

end Leaves

namespace InheritanceSettings

variable {settings : InheritanceSettings} {policy : ScopedPolicy} {registry : FieldRegistry}
  {declared : List (String × Json)} {leaves : Leaves} {state final : MergeState}

/-- Rules in which every empty object counts have a field under each of their keys. -/
theorem covers_iff_isUnder (known : (Json.obj declared).WellFormed)
    (cut : Leaves.ofMembers registry true .root declared = .ok leaves) {field : FieldPath} :
    covers leaves field = true ↔ field.IsUnder declared := by
  constructor
  · exact isUnder_of_covers cut
  · intro under
    obtain ⟨key, inner, first, found⟩ := under
    have spine := Leaves.spineOf_of_ofMembers known cut
    obtain ⟨rest, leaf, reached⟩ :=
      (FieldRegistry.exists_find?_iff_leafOf spine).mp ⟨inner, found⟩
    exact covers_iff.mpr ⟨_, (Leaves.mem_iff_leafOf known cut).mpr reached, key, first, rfl⟩

theorem applyPolicy_of_rules (alone : policy.overrides = none)
    (applied : settings.applyPolicy policy state = .ok final) :
    ∃ leaves, policy.declared settings.registry = .ok leaves ∧
      final = settings.applyRules policy leaves state := by
  obtain ⟨leaves, overridden, rules, overrides, rfl⟩ := applyPolicy_eq_ok applied
  rw [ScopedPolicy.overridden, alone] at overrides
  cases overrides
  exact ⟨leaves, rules, rfl⟩

/-! ## Fields under the keys of the rules, and others -/

theorem resultOf_of_replace (replacing : policy.mode = .replace) {isOverride : Bool}
    {field : FieldPath} {value : Json} {inherited : Option MergedField} :
    settings.resultOf policy isOverride field value inherited = value := by
  cases inherited with
  | none => rfl
  | some inherited =>
      rw [resultOf, replacing, ite_self]
      rfl

theorem find?_of_covered (replacing : policy.mode = .replace) (ascending : Entries.Ascending leaves)
    (settled : (settings.applyRules policy leaves state).Settled) {field : FieldPath}
    (covered : covers leaves field = true) :
    (settings.applyRules policy leaves state).fields.find? field =
      (Entries.find? field leaves).map fun value => ⟨value, policy.source false⟩ := by
  have followed := declaration_applyRules field ascending settled
  cases rule : Entries.find? field leaves with
  | none =>
      rw [rule] at followed
      rw [followed.eq_kept, keptBy, if_pos ⟨replacing, covered⟩]
      rfl
  | some value =>
      rw [rule] at followed
      rw [followed.eq_declared, resultOf_of_replace replacing]
      rfl

theorem find?_of_not_covered (cut : Leaves.ofMembers registry true .root declared = .ok leaves)
    (settled : (settings.applyRules policy leaves state).Settled) {field : FieldPath}
    (uncovered : covers leaves field = false) :
    (settings.applyRules policy leaves state).fields.find? field = state.fields.find? field := by
  refine find?_applyRules_of_undeclared (fun leaf listed same => ?_) (fun _ => uncovered) settled
  obtain ⟨key, _, first, _⟩ := Leaves.isUnder_of_ofMembers cut leaf listed
  have covered : covers leaves field = true := by
    rw [← same]
    exact covers_iff.mpr ⟨leaf, listed, key, first, first⟩
  rw [uncovered] at covered
  cases covered

/-! ## The document -/

/-- The document after a replacing policy is the one before with the members of the rules put into
it. -/
theorem document_of_replace (known : (Json.obj declared).WellFormed)
    (replacing : policy.mode = .replace)
    (cut : Leaves.ofMembers settings.registry true .root declared = .ok leaves)
    (settled : (settings.applyRules policy leaves state).Settled)
    (sound : SoundFields settings.registry.Placed state.fields)
    (sound' : SoundFields settings.registry.Placed
      (settings.applyRules policy leaves state).fields) :
    ∃ members, state.document = .obj members ∧
      (settings.applyRules policy leaves state).document
        = .obj (Entries.putAll declared members) := by
  obtain ⟨members, shape, spine, spec⟩ := Leaves.document_spec (MergeState.separate_leaves sound)
  obtain ⟨others, shape', spine', spec'⟩ :=
    Leaves.document_spec (MergeState.separate_leaves sound')
  have rules_spine := Leaves.spineOf_of_ofMembers known cut
  refine ⟨members, state.document_eq.trans shape, ?_⟩
  rw [MergeState.document_eq, shape']
  -- documents with the same leaves are equal, and the leaves are compared key by key
  refine congrArg Json.obj (FieldRegistry.eq_of_leafOf_iff spine'
    (FieldRegistry.spineOf_putAll rules_spine.plain rules_spine.inner spine) fun names value => ?_)
  cases names with
  | nil =>
      constructor
      · exact fun reached => absurd reached FieldRegistry.not_leafOf_nil
      · exact fun reached => absurd reached FieldRegistry.not_leafOf_nil
  | cons name rest =>
      rw [FieldRegistry.leafOf_putAll_iff rules_spine.ascending, spec', spec,
        MergeState.mem_leaves_iff, MergeState.mem_leaves_iff]
      have covered := @covers_iff_isUnder settings.registry declared leaves known cut
        (.ofKeys (name :: rest))
      rw [FieldPath.isUnder_ofKeys_cons] at covered
      cases found : Entries.find? name declared with
      | some inner =>
          rw [found] at covered
          rw [find?_of_covered replacing (Leaves.ofMembers_spec known cut).1 settled
            (covered.mpr rfl), ← Leaves.mem_iff_leafOf known cut,
            ← Entries.find?_eq_some_iff (Leaves.ofMembers_spec known cut).1]
          simp
      | none =>
          rw [found] at covered
          have uncovered : covers leaves (.ofKeys (name :: rest)) = false := by
            rw [Bool.eq_false_iff]
            intro present
            cases covered.mp present
          rw [find?_of_not_covered cut settled uncovered, FieldRegistry.leafOf_cons_iff, found]
          simp

/-! ## The sources -/

theorem source_iff_of_isUnder (known : (Json.obj declared).WellFormed)
    (replacing : policy.mode = .replace)
    (cut : Leaves.ofMembers registry true .root declared = .ok leaves)
    (settled : (settings.applyRules policy leaves state).Settled) {field : FieldPath}
    (under : field.IsUnder declared) {source : FieldProvenance} :
    ((settings.applyRules policy leaves state).fields.find? field).map MergedField.source
        = some source ↔
      source = policy.source false ∧ ∃ names value, field = .ofKeys names ∧
        registry.LeafOf [] declared names value := by
  obtain ⟨ascending, spec⟩ := Leaves.ofMembers_spec known cut
  rw [find?_of_covered replacing ascending settled ((covers_iff_isUnder known cut).mpr under),
    Option.map_map, Option.map_eq_some_iff]
  constructor
  · intro given
    obtain ⟨value, found, same⟩ := given
    obtain ⟨_, names, named, reached⟩ := (spec _).mp (Entries.mem_of_find? found)
    exact ⟨same.symm, names, value, named, reached⟩
  · intro given
    obtain ⟨rfl, names, value, rfl, reached⟩ := given
    have listed := (Leaves.mem_iff_leafOf known cut).mpr reached
    exact ⟨value, Entries.find?_of_mem ascending listed, rfl⟩

/-- A replacing policy without overrides that is applied last sets the keys of its rules and leaves
all others alone, among the values as among the sources. -/
theorem compute_replaces (settings : InheritanceSettings) (target : ScopeId) (chain : List Scope)
    (policies whole ordered : List ScopedPolicy) (last : ScopedPolicy)
    (earlier later : EffectiveOutcome) (known : last.rules.WellFormed)
    (replacing : last.mode = .replace) (alone : last.overrides = none)
    (placed : ScopedPolicy.applicationOrder chain policies = .ok ordered)
    (placed' : ScopedPolicy.applicationOrder chain whole = .ok (ordered ++ [last]))
    (computed : settings.compute target chain policies = .ok earlier)
    (computed' : settings.compute target chain whole = .ok later) :
    ∃ declared members, last.rules = .obj declared ∧ earlier.policy.values = .obj members ∧
      later.policy.values = .obj (Entries.putAll declared members) ∧
      ∀ field : FieldPath,
        (field.IsUnder declared → ∀ source, later.policy.provenance.find? field = some source ↔
          source = last.source false ∧ ∃ names value, field = .ofKeys names ∧
            settings.registry.LeafOf [] declared names value) ∧
        (¬ field.IsUnder declared →
          later.policy.provenance.find? field = earlier.policy.provenance.find? field) := by
  obtain ⟨middle, final, run, run', rest⟩ := runs_of_compute placed placed' computed computed'
  obtain ⟨_, applied, ended⟩ := applyAll_cons_eq_ok rest
  cases ended
  obtain ⟨leaves, rules, rfl⟩ := applyPolicy_of_rules alone applied
  obtain ⟨declared, shape, cut⟩ := ScopedPolicy.declared_of_replace replacing rules
  rw [shape] at known
  obtain ⟨members, document, document'⟩ := document_of_replace known replacing cut run'.settled
    (sound_applyAll_placed run.applied) (sound_applyAll_placed run'.applied)
  refine ⟨declared, members, shape, run.values.trans document, run'.values.trans document',
    fun field => ⟨fun under source => ?_, fun beside => ?_⟩⟩
  · rw [run'.find?_provenance]
    exact source_iff_of_isUnder known replacing cut run'.settled under
  · have uncovered : covers leaves field = false :=
      Bool.eq_false_iff.mpr fun covered => beside ((covers_iff_isUnder known cut).mp covered)
    rw [run'.find?_provenance, run.find?_provenance,
      find?_of_not_covered cut run'.settled uncovered]

/-! ### Limits of a brand in place of those of its company -/

def companyLimits : ScopedPolicy :=
  { companyApprovals with
    rules := .obj [("limits", .obj [("daily", .int 5)]), ("min_approvals", .int 2)] }

def brandLimits : ScopedPolicy :=
  { brandApprovals with
    id := ⟨"weekly", by decide⟩
    mode := .replace
    rules := .obj [("limits", .obj [("weekly", .obj [])])] }

theorem compute_replaces_brandLimits : ∃ earlier later members,
    compute {} brandScope.id brandChain [companyLimits] = .ok earlier ∧
      compute {} brandScope.id brandChain [companyLimits, brandLimits] = .ok later ∧
      earlier.policy.values = .obj members ∧
      later.policy.values
        = .obj (Entries.put "limits" (.obj [("weekly", .obj [])]) members) ∧
      later.policy.provenance.find? (.ofKeys ["limits", "weekly"])
        = some (brandLimits.source false) ∧
      later.policy.provenance.find? (.ofKeys ["limits", "daily"]) = none ∧
      later.policy.provenance.find? (.ofKeys ["min_approvals"])
        = earlier.policy.provenance.find? (.ofKeys ["min_approvals"]) := by
  obtain ⟨earlier, later, computed, computed', _, _⟩ :=
    @values_brandChain companyLimits brandLimits _ _ rfl rfl rfl rfl (by decide) (by decide)
      (by decide) (by decide)
  obtain ⟨declared, members, rules, values, values', sources⟩ :=
    compute_replaces {} brandScope.id brandChain [companyLimits]
      [companyLimits, brandLimits] [companyLimits] brandLimits earlier later (by decide) rfl rfl
      (@applicationOrder_take_one companyLimits brandLimits rfl rfl)
      (applicationOrder_brandChain rfl rfl) computed computed'
  cases rules
  have weekly : FieldRegistry.standard.LeafOf [] [("limits", .obj [("weekly", .obj [])])]
      ["limits", "weekly"] (.obj []) :=
    ⟨"limits", _, ["weekly"], rfl, rfl, .under rfl rfl (.here fun _ => .inl rfl)⟩
  refine ⟨earlier, later, members, computed, computed', values, values', ?_, ?_, ?_⟩
  · exact ((sources _).1 (FieldPath.isUnder_ofKeys_cons.mpr rfl) _).mpr ⟨rfl, _, _, rfl, weekly⟩
  · refine Option.eq_none_iff_forall_ne_some.mpr fun source found => ?_
    obtain ⟨_, names, value, same, reached⟩ :=
      ((sources _).1 (FieldPath.isUnder_ofKeys_cons.mpr rfl) source).mp found
    cases FieldPath.ofKeys_injective same
    exact absurd (FieldRegistry.follow?_of_leafOf reached) (by simp [FieldPath.follow?, Entries.find?])
  · refine (sources _).2 fun under => ?_
    cases FieldPath.isUnder_ofKeys_cons.mp under

end InheritanceSettings

end Governance
