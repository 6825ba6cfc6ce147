import Governance.Proofs.Effective.Parties

/-!
# Dropped fields

A replacing policy drops the inherited fields that lie under a key of its rules and that the rules
do not declare again. Each of them is reported once, save those that imposed nothing. The report is
made before the overrides are applied: a field that the rules drop and the overrides declare is
reported although it is still there.
-/

set_option autoImplicit false

namespace Governance

/-! ## Reported drops -/

namespace PolicyConflict

def isDrop (conflict : PolicyConflict) : Bool :=
  conflict.classification == .looser && conflict.childValue.isNull

def droppedFields (conflicts : List PolicyConflict) : List FieldPath :=
  (conflicts.filter isDrop).map PolicyConflict.field

theorem isDrop_iff {conflict : PolicyConflict} :
    conflict.isDrop = true ↔ conflict.classification = .looser ∧ conflict.childValue = .null := by
  rw [isDrop, Bool.and_eq_true, beq_iff_eq]
  refine and_congr_right fun _ => ?_
  cases conflict.childValue <;> simp [Json.isNull]

end PolicyConflict

open PolicyConflict (isDrop droppedFields)

def Leaves.Drops (declared : Leaves) (field : FieldPath) : Prop :=
  InheritanceSettings.covers declared field = true ∧ ∀ leaf ∈ declared, leaf.1 ≠ field

/-- Whether a policy drops a field with its rules and declares it with its overrides. -/
def ScopedPolicy.Reinstates (policy : ScopedPolicy) (registry : FieldRegistry) (field : FieldPath) :
    Prop :=
  ∃ declared overridden, policy.declared registry = .ok declared ∧
    policy.overridden registry = .ok overridden ∧ declared.Drops field ∧
    ∃ leaf ∈ overridden, leaf.1 = field

/-- Whether a policy has a field with a value that imposes something. -/
def EffectivePolicy.Imposes (policy : EffectivePolicy) (registry : FieldRegistry)
    (field : FieldPath) : Prop :=
  field ∈ policy.provenance.keys ∧
    ∃ value, policy.value? field = some value ∧ ¬ registry.ImposesNothing field value

namespace InheritanceSettings

variable {settings : InheritanceSettings} {policy : ScopedPolicy} {isOverride : Bool}
  {displaced : SortedMap FieldPath MergedField} {leaves declared : Leaves} {field : FieldPath}
  {state final : MergeState}

theorem difference_null_ne_looser {inherited : Json} :
    settings.difference field inherited .null ≠ some .looser := by
  intro looser
  rw [difference] at looser
  split at looser
  · cases looser
  · cases found : settings.registry.directive? field with
    | none =>
        rw [found] at looser
        cases inherited <;> simp [ConflictClassification.classify, Json.sameShape, Json.same] at looser
    | some directive =>
        have refused : directive.kind.accepts .null = false := by cases directive.kind <;> rfl
        simp [found, ConflictClassification.classify, refused] at looser

/-! ## What a policy adds to the conflicts -/

/-- Whether a policy adds conflicts of its own to those before, with the given drops among them. -/
def Adds (policy : ScopedPolicy) (drops before after : List PolicyConflict) : Prop :=
  ∃ added, after = before ++ added ∧ (∀ conflict ∈ added, conflict.child = policy.key) ∧
    added.filter isDrop = drops

namespace Adds

variable {drops drops' before between after : List PolicyConflict}

theorem refl : Adds policy [] before before :=
  ⟨[], (List.append_nil _).symm, List.forall_mem_nil _, rfl⟩

theorem trans (first : Adds policy drops before between) (second : Adds policy drops' between after) :
    Adds policy (drops ++ drops') before after := by
  obtain ⟨added, rfl, own, rfl⟩ := first
  obtain ⟨added', rfl, own', rfl⟩ := second
  exact ⟨added ++ added', List.append_assoc _ _ _, List.forall_mem_append.mpr ⟨own, own'⟩,
    List.filter_append _ _⟩

end Adds

theorem adds_applyLeaf {leaf : FieldPath × Json} {inherited : Option MergedField} :
    Adds policy [] state.conflicts
      (settings.applyLeaf policy isOverride leaf.1 leaf.2 inherited state).conflicts := by
  refine ⟨_, by rw [conflicts_applyLeaf, List.append_assoc], ?_, ?_⟩
  · intro conflict recorded
    rcases List.mem_append.mp recorded with cleared | found
    · obtain ⟨_, _, _, _, _, rfl⟩ := mem_clearedBy_iff.mp cleared
      rfl
    · obtain ⟨_, _, _, _, rfl⟩ := mem_foundBy_iff.mp found
      rfl
  · refine List.filter_eq_nil_iff.mpr fun conflict recorded drop => ?_
    obtain ⟨looser, null⟩ := PolicyConflict.isDrop_iff.mp drop
    rcases List.mem_append.mp recorded with cleared | found
    · obtain ⟨_, _, _, _, _, rfl⟩ := mem_clearedBy_iff.mp cleared
      cases looser
    · obtain ⟨merged, classification, _, difference, rfl⟩ := mem_foundBy_iff.mp found
      have same : classification = .looser := looser
      have compared : settings.comparedOf policy isOverride leaf.1 leaf.2 merged = .null := null
      rw [same, compared] at difference
      exact difference_null_ne_looser difference

theorem adds_declareAll :
    Adds policy [] state.conflicts
      (settings.declareAll policy isOverride displaced leaves state).conflicts := by
  induction leaves generalizing state with
  | nil => exact .refl
  | cons leaf rest ih =>
      rw [declareAll_cons]
      exact adds_applyLeaf.trans ih

theorem adds_dropped {before : List PolicyConflict} :
    Adds policy (settings.dropped policy displaced declared) before
      (before ++ settings.dropped policy displaced declared) := by
  refine ⟨_, rfl, fun conflict recorded => ?_, List.filter_eq_self.mpr fun conflict recorded => ?_⟩
  · obtain ⟨_, _, rfl⟩ := List.mem_map.mp recorded
    rfl
  · obtain ⟨_, _, rfl⟩ := List.mem_map.mp recorded
    rfl

theorem adds_applyRules_of_replace (replacing : policy.mode = .replace) :
    Adds policy (settings.dropped policy (displacedBy declared state) declared) state.conflicts
      (settings.applyRules policy declared state).conflicts := by
  have byRules : Adds policy [] state.conflicts
      (settings.replaced policy declared state).conflicts := by
    rw [replaced, applyDeclared_eq_declareAll]
    exact @adds_declareAll settings policy false (displacedBy declared state) declared
      { state with fields := state.fields.filter fun field _ => !covers declared field }
  rw [applyRules_of_replace replacing]
  exact byRules.trans adds_dropped

theorem adds_applyRules : ∃ drops,
    Adds policy drops state.conflicts (settings.applyRules policy declared state).conflicts := by
  by_cases replacing : policy.mode = .replace
  · exact ⟨_, adds_applyRules_of_replace replacing⟩
  · rw [applyRules_of_not_replace replacing, applyDeclared_eq_declareAll]
    exact ⟨_, adds_declareAll⟩

theorem adds_applyOverridden :
    Adds policy [] state.conflicts (settings.applyOverridden policy leaves state).conflicts := by
  rw [applyOverridden_eq_declareAll]
  exact adds_declareAll

/-- Every conflict of a run names one of its policies as the child. -/
theorem child_of_applyAll {ordered : List ScopedPolicy} {conflict : PolicyConflict}
    (applied : settings.applyAll ordered state = .ok final) (recorded : conflict ∈ final.conflicts) :
    conflict ∈ state.conflicts ∨ ∃ policy ∈ ordered, conflict.child = policy.key := by
  induction ordered generalizing state with
  | nil =>
      cases applied
      exact .inl recorded
  | cons policy rest ih =>
      obtain ⟨middle, first, later⟩ := applyAll_cons_eq_ok applied
      rcases ih later with old | ⟨other, listed, named⟩
      · obtain ⟨declared, overridden, _, _, rfl⟩ := applyPolicy_eq_ok first
        obtain ⟨drops, byRules⟩ := @adds_applyRules settings policy declared state
        obtain ⟨added, grown, own, _⟩ := byRules.trans (@adds_applyOverridden settings policy
          overridden (settings.applyRules policy declared state))
        rw [grown] at old
        rcases List.mem_append.mp old with older | new
        · exact .inl older
        · exact .inr ⟨policy, List.mem_cons_self, own conflict new⟩
      · exact .inr ⟨other, List.mem_cons_of_mem _ listed, named⟩

/-! ## The fields that are dropped -/

/-- The fields that rules drop are reported once each, unless they imposed nothing. -/
theorem nodup_fields_dropped :
    ((settings.dropped policy displaced declared).map PolicyConflict.field).Nodup := by
  rw [dropped, List.map_map]
  exact (Entries.nodup_keys displaced.ascending).sublist (List.filter_sublist.map _)

theorem mem_fields_dropped_iff :
    field ∈ (settings.dropped policy (displacedBy declared state) declared).map
        PolicyConflict.field ↔
      ∃ merged, state.fields.find? field = some merged ∧ declared.Drops field ∧
        ¬ settings.registry.ImposesNothing field merged.value := by
  constructor
  · intro reported
    obtain ⟨conflict, recorded, rfl⟩ := List.mem_map.mp reported
    obtain ⟨⟨path, merged⟩, lost, rfl⟩ := List.mem_map.mp recorded
    obtain ⟨listed, drops⟩ := List.mem_filter.mp lost
    rw [← SortedMap.find?_eq_some_iff, displacedBy, SortedMap.find?_filter,
      Option.filter_eq_some_iff] at listed
    obtain ⟨undeclared, loosens⟩ := Bool.and_eq_true_iff.mp drops
    refine ⟨merged, listed.1, ⟨listed.2, ?_⟩, ?_⟩
    · exact fun leaf listed => of_decide_eq_true (List.all_eq_true.mp undeclared leaf listed)
    · rw [← FieldRegistry.losingLoosens_eq_false_iff, Bool.not_eq_false]
      exact loosens
  · intro given
    obtain ⟨merged, found, ⟨covered, undeclared⟩, imposes⟩ := given
    have displaced : (displacedBy declared state).find? field = some merged := by
      rw [displacedBy, SortedMap.find?_filter, found, Option.filter_some, if_pos covered]
    rw [← FieldRegistry.losingLoosens_eq_false_iff, Bool.not_eq_false] at imposes
    exact List.mem_map.mpr ⟨_, mem_dropped displaced undeclared imposes, rfl⟩

/-- A field that is inherited is lost exactly if the rules of a replacing policy drop it and its
overrides do not declare it. -/
theorem find?_applyPolicy_eq_none_iff {overridden : Leaves} {merged : MergedField}
    (known : policy.WellFormed) (replacing : policy.mode = .replace)
    (rules : policy.declared settings.registry = .ok declared)
    (overrides : policy.overridden settings.registry = .ok overridden)
    (applied : settings.applyPolicy policy state = .ok final) (settled : final.Settled)
    (inherited : state.fields.find? field = some merged) :
    final.fields.find? field = none ↔
      declared.Drops field ∧ ∀ leaf ∈ overridden, leaf.1 ≠ field := by
  obtain ⟨declared', overridden', middle, rules', overrides', _, _, byRules, byOverrides⟩ :=
    declaration_applyPolicy field known applied settled
  cases rules.symm.trans rules'
  cases overrides.symm.trans overrides'
  rw [Leaves.Drops, ← Entries.find?_eq_none_iff, ← Entries.find?_eq_none_iff]
  cases override : Entries.find? field overridden with
  | some value =>
      rw [override] at byOverrides
      rw [byOverrides.eq_declared]
      simp
  | none =>
      rw [override] at byOverrides
      rw [byOverrides.eq_kept]
      cases rule : Entries.find? field declared with
      | some value =>
          rw [rule] at byRules
          rw [byRules.eq_declared]
          simp
      | none =>
          rw [rule] at byRules
          rw [byRules.eq_kept, keptBy, inherited]
          simp [replacing]

/-- The rules of a replacing policy drop what is lost, and what its overrides bring back. -/
theorem drops_iff {overridden : Leaves} {merged : MergedField} (known : policy.WellFormed)
    (replacing : policy.mode = .replace) (rules : policy.declared settings.registry = .ok declared)
    (overrides : policy.overridden settings.registry = .ok overridden)
    (applied : settings.applyPolicy policy state = .ok final) (settled : final.Settled)
    (inherited : state.fields.find? field = some merged) :
    declared.Drops field ↔
      final.fields.find? field = none ∨ policy.Reinstates settings.registry field := by
  have lost := find?_applyPolicy_eq_none_iff known replacing rules overrides applied settled inherited
  constructor
  · intro drops
    by_cases declares : ∃ leaf ∈ overridden, leaf.1 = field
    · exact .inr ⟨declared, overridden, rules, overrides, drops, declares⟩
    · exact .inl (lost.mpr ⟨drops, fun leaf listed same => declares ⟨leaf, listed, same⟩⟩)
  · rintro (gone | ⟨declared', _, rules', _, drops, _⟩)
    · exact (lost.mp gone).1
    · cases rules.symm.trans rules'
      exact drops

theorem find?_ne_none_of_reinstates {merged : MergedField} (known : policy.WellFormed)
    (replacing : policy.mode = .replace)
    (applied : settings.applyPolicy policy state = .ok final) (settled : final.Settled)
    (inherited : state.fields.find? field = some merged)
    (reinstates : policy.Reinstates settings.registry field) : final.fields.find? field ≠ none := by
  obtain ⟨declared, overridden, rules, overrides, _, leaf, listed, same⟩ := reinstates
  intro gone
  have lost := find?_applyPolicy_eq_none_iff known replacing rules overrides applied settled inherited
  exact (lost.mp gone).2 leaf listed same

/-- A replacing policy reports each inherited field that imposed something and that its rules drop,
and nothing else, as dropped. -/
theorem reports_applyPolicy (known : policy.WellFormed) (replacing : policy.mode = .replace)
    (applied : settings.applyPolicy policy state = .ok final) (settled : final.Settled) :
    ∃ added, final.conflicts = state.conflicts ++ added ∧
      (∀ conflict ∈ added, conflict.child = policy.key) ∧ (droppedFields added).Nodup ∧
      ∀ field, field ∈ droppedFields added ↔
        ∃ merged, state.fields.find? field = some merged ∧
          ¬ settings.registry.ImposesNothing field merged.value ∧
          (final.fields.find? field = none ∨ policy.Reinstates settings.registry field) := by
  obtain ⟨declared, overridden, rules, overrides, ended⟩ := applyPolicy_eq_ok applied
  have byRules := @adds_applyRules_of_replace settings policy declared state replacing
  have byOverrides := @adds_applyOverridden settings policy overridden
    (settings.applyRules policy declared state)
  obtain ⟨added, grown, own, drops⟩ := byRules.trans byOverrides
  rw [← ended] at grown
  rw [List.append_nil] at drops
  refine ⟨added, grown, own, ?_, fun field => ?_⟩
  · rw [droppedFields, drops]
    exact nodup_fields_dropped
  · rw [droppedFields, drops, mem_fields_dropped_iff]
    refine exists_congr fun merged => and_congr_right fun inherited => ?_
    rw [drops_iff known replacing rules overrides applied settled inherited, and_comm]

/-! ## Outcomes -/

variable {chain : List Scope} {policies ordered : List ScopedPolicy} {outcome : EffectiveOutcome}

theorem Run.exists_child (run : settings.Run chain policies outcome ordered final) :
    ∀ conflict ∈ outcome.conflicts, ∃ policy ∈ policies, conflict.child = policy.key := by
  intro conflict recorded
  rw [run.conflicts] at recorded
  rcases child_of_applyAll run.applied recorded with none | ⟨policy, listed, named⟩
  · cases none
  · exact ⟨policy, run.mem_iff.mp listed, named⟩

/-- The conflicts that a policy adds can be told from those before by their child. -/
theorem filter_child_eq {before added : List PolicyConflict}
    (others : ∀ conflict ∈ before, conflict.child ≠ policy.key)
    (own : ∀ conflict ∈ added, conflict.child = policy.key) :
    (before ++ added).filter (fun conflict => conflict.child = policy.key) = added := by
  have none : before.filter (fun conflict => conflict.child = policy.key) = [] :=
    List.filter_eq_nil_iff.mpr fun conflict recorded same =>
      others conflict recorded (of_decide_eq_true same)
  have all : added.filter (fun conflict => conflict.child = policy.key) = added :=
    List.filter_eq_self.mpr fun conflict recorded => decide_eq_true (own conflict recorded)
  rw [List.filter_append, none, all, List.nil_append]

theorem Run.imposes_iff (run : settings.Run chain policies outcome ordered final) :
    outcome.policy.Imposes settings.registry field ↔
      ∃ merged, final.fields.find? field = some merged ∧
        ¬ settings.registry.ImposesNothing field merged.value := by
  constructor
  · intro given
    obtain ⟨listed, value, shown, imposes⟩ := given
    obtain ⟨merged, found⟩ := Option.isSome_iff_exists.mp ((run.shows.listed field).mp listed)
    cases shown.symm.trans (run.shows.value field merged found)
    exact ⟨merged, found, imposes⟩
  · intro given
    obtain ⟨merged, found, imposes⟩ := given
    exact ⟨(run.shows.listed field).mpr (Option.isSome_of_mem found), merged.value,
      run.shows.value field merged found, imposes⟩

/-- The policy that is applied last, if it replaces, reports as dropped each field that imposed
something before it and that is gone after it or that its overrides bring back. The reports are those
of the fields that are gone exactly if its overrides bring back no such field. -/
theorem compute_reports_drops (settings : InheritanceSettings) (target : ScopeId)
    (chain : List Scope) (policies whole ordered : List ScopedPolicy) (last : ScopedPolicy)
    (earlier later : EffectiveOutcome) (known : last.WellFormed) (replacing : last.mode = .replace)
    (placed : ScopedPolicy.applicationOrder chain policies = .ok ordered)
    (placed' : ScopedPolicy.applicationOrder chain whole = .ok (ordered ++ [last]))
    (computed : settings.compute target chain policies = .ok earlier)
    (computed' : settings.compute target chain whole = .ok later) :
    ∃ added, later.conflicts = earlier.conflicts ++ added ∧
      (∀ conflict ∈ added, conflict.child = last.key) ∧
      ((∀ policy ∈ policies, policy.key ≠ last.key) →
        later.conflicts.filter (fun conflict => conflict.child = last.key) = added) ∧
      (droppedFields added).Nodup ∧
      (∀ field, field ∈ droppedFields added ↔ earlier.policy.Imposes settings.registry field ∧
        (field ∉ later.policy.provenance.keys ∨ last.Reinstates settings.registry field)) ∧
      ((∀ field, field ∈ droppedFields added ↔ earlier.policy.Imposes settings.registry field ∧
          field ∉ later.policy.provenance.keys) ↔
        ∀ field, earlier.policy.Imposes settings.registry field →
          ¬ last.Reinstates settings.registry field) := by
  obtain ⟨middle, final, run, run', rest⟩ := runs_of_compute placed placed' computed computed'
  obtain ⟨_, applied, ended⟩ := applyAll_cons_eq_ok rest
  cases ended
  have listed_iff : ∀ field, field ∈ later.policy.provenance.keys ↔ final.fields.find? field ≠ none :=
    fun field => (run'.shows.listed field).trans Option.isSome_iff_ne_none
  obtain ⟨added, grown, own, once, reported⟩ :=
    reports_applyPolicy known replacing applied run'.settled
  have reported' : ∀ field, field ∈ droppedFields added ↔
      earlier.policy.Imposes settings.registry field ∧
        (field ∉ later.policy.provenance.keys ∨ last.Reinstates settings.registry field) := by
    intro field
    rw [reported, run.imposes_iff, listed_iff, not_not]
    exact ⟨fun ⟨merged, found, imposes, lost⟩ => ⟨⟨merged, found, imposes⟩, lost⟩,
      fun ⟨⟨merged, found, imposes⟩, lost⟩ => ⟨merged, found, imposes, lost⟩⟩
  have split : later.conflicts = earlier.conflicts ++ added := by
    rw [run'.conflicts, run.conflicts, grown]
  refine ⟨added, split, own, fun unique => ?_, once, reported', fun strict field => ?_, ?_⟩
  · have others : ∀ conflict ∈ earlier.conflicts, conflict.child ≠ last.key := by
      intro conflict recorded same
      obtain ⟨policy, listed, named⟩ := run.exists_child conflict recorded
      exact unique policy listed (named.symm.trans same)
    rw [split]
    exact filter_child_eq others own
  · intro imposes reinstates
    obtain ⟨merged, inherited, _⟩ := run.imposes_iff.mp imposes
    have gone := ((strict field).mp ((reported' field).mpr ⟨imposes, .inr reinstates⟩)).2
    rw [listed_iff, not_not] at gone
    exact find?_ne_none_of_reinstates known replacing applied run'.settled inherited reinstates gone
  · intro never field
    rw [reported']
    exact and_congr_right fun imposes => or_iff_left (never field imposes)

/-! ### A review that a brand drops, and one that it brings back -/

def companyReview : ScopedPolicy :=
  { companyApprovals with
    rules := .obj [("controls", .obj [("hitl", .obj [("required", .bool true)])])] }

def brandAudit : ScopedPolicy :=
  { brandApprovals with
    id := ⟨"require", by decide⟩
    mode := .replace
    rules := .obj [("controls", .obj [("audit_trail_required", .bool true)])] }

def brandReview : ScopedPolicy :=
  { brandAudit with
    overrides := some (.obj [("controls", .obj [("hitl", .obj [("required", .bool true)])])]) }

theorem wellFormed_brandReview : brandReview.WellFormed := by
  refine ⟨by decide, fun overrides given => ?_⟩
  cases given
  decide

theorem imposes_companyReview :
    ¬ FieldRegistry.standard.ImposesNothing (.ofKeys ["controls", "hitl", "required"])
      (.bool true) := by
  rw [← FieldRegistry.losingLoosens_eq_false_iff]
  decide

theorem compute_reports_drops_brandAudit : ∃ earlier later added,
    compute {} brandScope.id brandChain [companyReview] = .ok earlier ∧
      compute {} brandScope.id brandChain [companyReview, brandAudit] = .ok later ∧
      later.conflicts = earlier.conflicts ++ added ∧
      .ofKeys ["controls", "hitl", "required"] ∈ droppedFields added := by
  obtain ⟨earlier, later, computed, computed', shows, shows'⟩ :=
    @values_brandChain companyReview brandAudit _ _ rfl rfl rfl rfl (by decide) (by decide)
      (by decide) (by decide)
  obtain ⟨added, split, _, _, _, reported, _⟩ :=
    compute_reports_drops {} brandScope.id brandChain [companyReview]
      [companyReview, brandAudit] [companyReview] brandAudit earlier later
      (ScopedPolicy.wellFormed_ofRules (by decide)) rfl
      (@applicationOrder_take_one companyReview brandAudit rfl rfl)
      (applicationOrder_brandChain rfl rfl) computed computed'
  have imposes : earlier.policy.Imposes .standard (.ofKeys ["controls", "hitl", "required"]) :=
    ⟨(shows.listed _).mpr (by decide), .bool true,
      shows.value _ ⟨.bool true, companyReview.source false⟩ (by decide), imposes_companyReview⟩
  have gone : .ofKeys ["controls", "hitl", "required"] ∉ later.policy.provenance.keys :=
    mt (shows'.listed _).mp (by decide)
  exact ⟨earlier, later, added, computed, computed', split, (reported _).mpr ⟨imposes, .inl gone⟩⟩

/-- A field can be reported as dropped although it is there, with its source. -/
theorem reinstated_field_reported : ¬ ∀ (target : ScopeId) (chain : List Scope)
    (policies whole ordered : List ScopedPolicy) (last : ScopedPolicy)
    (earlier later : EffectiveOutcome), last.WellFormed → last.mode = .replace →
    ScopedPolicy.applicationOrder chain policies = .ok ordered →
    ScopedPolicy.applicationOrder chain whole = .ok (ordered ++ [last]) →
    compute {} target chain policies = .ok earlier → compute {} target chain whole = .ok later →
    ∀ field,
      (∃ conflict ∈ later.conflicts, conflict.child = last.key ∧ conflict.isDrop = true ∧
        conflict.field = field) ↔
      earlier.policy.Imposes .standard field ∧ field ∉ later.policy.provenance.keys := by
  intro bound
  obtain ⟨earlier, later, computed, computed', _, shows'⟩ :=
    @values_brandChain companyReview brandReview _ _ rfl rfl rfl rfl (by decide) (by decide)
      (by decide) (by decide)
  have exact_drops := bound _ _ [companyReview] [companyReview, brandReview] [companyReview]
    brandReview earlier later wellFormed_brandReview rfl
    (@applicationOrder_take_one companyReview brandReview rfl rfl)
    (applicationOrder_brandChain rfl rfl) computed computed'
    (.ofKeys ["controls", "hitl", "required"])
  rw [shows'.conflicts] at exact_drops
  exact (exact_drops.mp (by decide)).2 ((shows'.listed _).mpr (by decide))

end InheritanceSettings

end Governance
