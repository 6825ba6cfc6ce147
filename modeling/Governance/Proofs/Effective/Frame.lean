import Governance.Proofs.Effective.Step

/-!
# Fields that are left alone

A policy leaves a field alone if none of its documents declares it and its rules do not replace what
stands under the first key of the field. In a run that ends without an incompatible conflict such a
field keeps its value and its source, because a declared field that overlaps with it would have left
such a conflict.
-/

set_option autoImplicit false

namespace Governance

/-- Whether a field stands at a member of an object or below one. -/
def FieldPath.IsUnder (members : List (String × Json)) (field : FieldPath) : Prop :=
  ∃ key inner, field.topLevelKey? = some key ∧ Entries.find? key members = some inner

theorem FieldPath.isUnder_ofKeys_cons {members : List (String × Json)} {name : String}
    {rest : List String} :
    (ofKeys (name :: rest)).IsUnder members ↔ (Entries.find? name members).isSome = true := by
  rw [Option.isSome_iff_exists]
  constructor
  · intro under
    obtain ⟨key, inner, first, found⟩ := under
    cases first
    exact ⟨inner, found⟩
  · intro present
    obtain ⟨inner, found⟩ := present
    exact ⟨name, inner, rfl, found⟩

/-- Whether a policy neither declares a field nor replaces what stands under its first key. -/
structure ScopedPolicy.LeavesAlone (policy : ScopedPolicy) (registry : FieldRegistry)
    (field : FieldPath) : Prop where
  undeclared : ∀ value, ¬ policy.Declares registry field value
  kept : policy.mode = .replace → ∀ members, policy.rules = .obj members → ¬ field.IsUnder members

theorem Leaves.isUnder_of_ofMembers {registry : FieldRegistry} {keepEmpty : Bool}
    {members : List (String × Json)} {leaves : Leaves}
    (cut : ofMembers registry keepEmpty .root members = .ok leaves) :
    ∀ leaf ∈ leaves, leaf.1.IsUnder members := by
  intro leaf listed
  obtain ⟨member, present, _, within⟩ := within_of_ofMembers cut leaf listed
  obtain ⟨names, field, _⟩ := walkedTo_of_within within
  rw [field, List.singleton_append, FieldPath.isUnder_ofKeys_cons]
  cases found : Entries.find? member.1 members with
  | some inner => rfl
  | none => exact absurd rfl (Entries.find?_eq_none_iff.mp found member present)

namespace InheritanceSettings

theorem covers_iff {leaves : Leaves} {field : FieldPath} :
    covers leaves field = true ↔ ∃ leaf ∈ leaves, ∃ key,
      field.topLevelKey? = some key ∧ leaf.1.topLevelKey? = some key := by
  rw [covers]
  cases field.topLevelKey? with
  | none => simp
  | some key => simp

theorem isUnder_of_covers {registry : FieldRegistry} {keepEmpty : Bool}
    {members : List (String × Json)} {leaves : Leaves} {field : FieldPath}
    (cut : Leaves.ofMembers registry keepEmpty .root members = .ok leaves)
    (covered : covers leaves field = true) : field.IsUnder members := by
  obtain ⟨leaf, listed, key, first, first'⟩ := covers_iff.mp covered
  obtain ⟨key', inner, same, found⟩ := Leaves.isUnder_of_ofMembers cut leaf listed
  rw [first'] at same
  cases same
  exact ⟨key, inner, first, found⟩

variable {settings : InheritanceSettings} {policy : ScopedPolicy} {field : FieldPath}
  {leaves : Leaves} {state final : MergeState}

theorem find?_declareAll_of_undeclared {isOverride : Bool}
    {displaced : SortedMap FieldPath MergedField} (undeclared : ∀ leaf ∈ leaves, leaf.1 ≠ field)
    (settled : (settings.declareAll policy isOverride displaced leaves state).Settled) :
    (settings.declareAll policy isOverride displaced leaves state).fields.find? field
      = state.fields.find? field := by
  induction leaves generalizing state with
  | nil => rfl
  | cons leaf rest ih =>
      obtain ⟨different, undeclared⟩ := List.forall_mem_cons.mp undeclared
      have settled' := settled.of_subset
        (@conflicts_prefix_declareAll settings policy isOverride displaced rest _).subset
      exact (ih undeclared settled).trans (find?_applyLeaf_of_settled settled' different)

theorem find?_applyRules_of_undeclared (undeclared : ∀ leaf ∈ leaves, leaf.1 ≠ field)
    (uncovered : policy.mode = .replace → covers leaves field = false)
    (settled : (settings.applyRules policy leaves state).Settled) :
    (settings.applyRules policy leaves state).fields.find? field = state.fields.find? field := by
  by_cases replacing : policy.mode = .replace
  · rw [applyRules_of_replace replacing] at settled ⊢
    have settled' : (settings.replaced policy leaves state).Settled :=
      settled.of_subset (List.subset_append_left _ _)
    rw [replaced, applyDeclared_eq_declareAll] at settled' ⊢
    -- only what stands under a key of the rules is displaced
    rw [find?_declareAll_of_undeclared undeclared settled', SortedMap.find?_filter,
      uncovered replacing]
    cases state.fields.find? field with
    | none => rfl
    | some merged => rfl
  · rw [applyRules_of_not_replace replacing, applyDeclared_eq_declareAll] at settled ⊢
    exact find?_declareAll_of_undeclared undeclared settled

theorem find?_applyPolicy_of_leavesAlone (alone : policy.LeavesAlone settings.registry field)
    (settled : final.Settled) (applied : settings.applyPolicy policy state = .ok final) :
    final.fields.find? field = state.fields.find? field := by
  obtain ⟨declared, overridden, rules, overrides, rfl⟩ := applyPolicy_eq_ok applied
  have settled' := settled.of_subset (@conflicts_prefix_applyOverridden settings policy overridden
    (settings.applyRules policy declared state)).subset
  have byOverrides : ∀ leaf ∈ overridden, leaf.1 ≠ field := by
    intro leaf listed same
    exact alone.undeclared leaf.2 (.inr ⟨overridden, overrides, same ▸ listed⟩)
  have byRules : ∀ leaf ∈ declared, leaf.1 ≠ field := by
    intro leaf listed same
    exact alone.undeclared leaf.2 (.inl ⟨declared, rules, same ▸ listed⟩)
  rw [applyOverridden_eq_declareAll] at settled ⊢
  rw [find?_declareAll_of_undeclared byOverrides settled]
  refine find?_applyRules_of_undeclared byRules (fun replacing => ?_) settled'
  obtain ⟨members, _, shape, cut, _⟩ := ScopedPolicy.leaves_eq_ok rules
  rw [Bool.eq_false_iff]
  exact fun covered => alone.kept replacing members shape (isUnder_of_covers cut covered)

/-- A field that all further policies leave alone keeps its value and its source. -/
theorem find?_applyAll_of_leavesAlone {rest : List ScopedPolicy}
    (alone : ∀ policy ∈ rest, policy.LeavesAlone settings.registry field)
    (settled : final.Settled) (applied : settings.applyAll rest state = .ok final) :
    final.fields.find? field = state.fields.find? field := by
  induction rest generalizing state with
  | nil =>
      cases applied
      rfl
  | cons policy rest ih =>
      obtain ⟨middle, first, later⟩ := applyAll_cons_eq_ok applied
      have settled' := settled.of_subset (conflicts_prefix_applyAll later).subset
      rw [ih (fun other listed => alone other (List.mem_cons_of_mem _ listed)) later]
      exact find?_applyPolicy_of_leavesAlone (alone policy List.mem_cons_self) settled' first

end InheritanceSettings

end Governance
