import Governance.Proofs.Effective.Step
import Governance.Proofs.Json.Reading

/-!
# What values owe to the policies

The values of an effective policy, and the values that conflicts show, come from the documents of
the policies: they are values that documents have if these are, and they are nested no deeper.
-/

set_option autoImplicit false

namespace Governance

/-! ## Nesting -/

namespace Json

theorem nesting_member_lt {members : List (String × Json)} {member : String × Json}
    (listed : member ∈ members) : member.2.nesting < (obj members).nesting := by
  obtain ⟨inner, whole, within⟩ := nesting_obj_le_iff.mp (Nat.le_refl (obj members).nesting)
  have bounded := within member listed
  omega

theorem nesting_combined {inherited declared combined : Json} {depth : Nat}
    (shallow : inherited.nesting ≤ depth) (shallow' : declared.nesting ≤ depth)
    (result : Combined inherited declared combined) : combined.nesting ≤ depth := by
  cases result with
  | declared => exact shallow'
  | inherited => exact shallow
  | either => exact Nat.zero_le depth
  | elements same same' within =>
      subst same same'
      obtain ⟨inner, rfl, old⟩ := nesting_arr_le_iff.mp shallow
      obtain ⟨_, bound, new⟩ := nesting_arr_le_iff.mp shallow'
      cases bound
      refine nesting_arr_le_iff.mpr ⟨inner, rfl, fun item listed => ?_⟩
      exact (within item listed).elim (old item) (new item)

theorem nesting_write {segments : List Segment} {document value : Json} {depth : Nat}
    (shallow : document.nesting ≤ depth) (fits : segments.length + value.nesting ≤ depth) :
    (FieldPath.write segments document value).1.nesting ≤ depth := by
  induction segments generalizing document depth with
  | nil => exact (Nat.le_add_left _ _).trans fits
  | cons segment rest ih =>
      rw [List.length_cons] at fits
      -- what stands below the segment may be nested by one less
      obtain ⟨inner, rfl⟩ : ∃ inner, depth = inner + 1 := ⟨depth - 1, by omega⟩
      have fits' : rest.length + value.nesting ≤ inner := by omega
      cases segment with
      | key name =>
          have members_shallow : ∀ member ∈ FieldPath.membersOf document,
              member.2.nesting ≤ inner := by
            cases document with
            | obj members =>
                intro member listed
                have below : member.2.nesting < (obj members).nesting := nesting_member_lt listed
                omega
            | null | bool | int | float | str | arr => exact List.forall_mem_nil _
          have old_shallow : ((Entries.find? name (FieldPath.membersOf document)).getD
              .null).nesting ≤ inner :=
            @getD_find?_null (fun value => value.nesting ≤ inner) _ (Nat.zero_le inner)
              members_shallow name
          rw [FieldPath.write, nesting_obj_le_iff]
          exact ⟨inner, rfl, Entries.forall_mem_put (ih old_shallow fits') members_shallow⟩
      | index position =>
          cases document with
          | arr items =>
              rw [FieldPath.write]
              cases found : items[position.toNat]? with
              | none => exact shallow
              | some item =>
                  obtain ⟨_, bound, items_shallow⟩ := nesting_arr_le_iff.mp shallow
                  cases bound
                  refine nesting_arr_le_iff.mpr ⟨inner, rfl, fun other listed => ?_⟩
                  rcases List.mem_or_eq_of_mem_set listed with old | new
                  · exact items_shallow other old
                  · exact new ▸ ih (items_shallow item (List.mem_of_getElem? found)) fits'
          | null | bool | int | float | str | obj => exact shallow

end Json

namespace Leaves

variable {registry : FieldRegistry}

theorem nesting_of_within {keys : List String} {value leaf : Json} {field : FieldPath}
    (within : registry.Within keys value field leaf) :
    field.segments.length + leaf.nesting ≤ keys.length + value.nesting := by
  induction within with
  | here => simp [FieldPath.ofKeys]
  | under _ present _ _ ih =>
      have below := Json.nesting_member_lt present
      rw [List.length_append, List.length_singleton] at ih
      omega

theorem nesting_of_ofMembers {keepEmpty : Bool} {members : List (String × Json)} {leaves : Leaves}
    (cut : ofMembers registry keepEmpty .root members = .ok leaves) :
    ∀ leaf ∈ leaves, leaf.1.segments.length + leaf.2.nesting ≤ (Json.obj members).nesting := by
  intro leaf listed
  obtain ⟨member, present, _, within⟩ := within_of_ofMembers cut leaf listed
  have inside := nesting_of_within within
  have below := Json.nesting_member_lt present
  rw [List.length_singleton] at inside
  omega

theorem nesting_document {leaves : Leaves} {depth : Nat} (positive : 0 < depth)
    (fits : ∀ leaf ∈ leaves, leaf.1.segments.length + leaf.2.nesting ≤ depth) :
    (document leaves).nesting ≤ depth := by
  induction leaves using List.reverseRecOn with
  | nil => exact positive
  | append_singleton leaves leaf ih =>
      rw [document_append]
      exact Json.nesting_write (ih fun other listed => fits other (List.mem_append_left _ listed))
        (fits leaf (List.mem_append_right _ List.mem_cons_self))

end Leaves

def ScopedPolicy.Shallow (depth : Nat) (policy : ScopedPolicy) : Prop :=
  policy.rules.nesting ≤ depth ∧
    ∀ overrides, policy.overrides = some overrides → overrides.nesting ≤ depth

theorem ScopedPolicy.shallow_ofRules {depth : Nat} {id : PolicyId} {scope : ScopeId}
    {mode : InheritanceMode} {rules : Json} (shallow : rules.nesting ≤ depth) :
    (ofRules id scope mode rules).Shallow depth := by
  refine ⟨shallow, fun overrides found => ?_⟩
  cases found

theorem ScopedPolicy.nesting_of_declares {policy : ScopedPolicy} {registry : FieldRegistry}
    {depth : Nat} (shallow : policy.Shallow depth) {field : FieldPath} {value : Json}
    (declares : policy.Declares registry field value) :
    field.segments.length + value.nesting ≤ depth := by
  obtain ⟨members, _, leaves, document, cut, _, listed⟩ := declares.cut
  refine (Leaves.nesting_of_ofMembers cut (field, value) listed).trans ?_
  rcases document with shape | shape
  · exact shape ▸ shallow.1
  · exact shallow.2 _ shape

theorem FieldRegistry.positive_of_placed {registry : FieldRegistry} {field : FieldPath} {value : Json}
    (placed : registry.Placed field value) : 0 < field.segments.length := by
  obtain ⟨name, _, names, rfl, _⟩ := placed
  simp [FieldPath.ofKeys]

/-! ## What conflicts show -/

/-- Whether both values of a conflict have a property. -/
def PolicyConflict.Between (holds : Json → Prop) (conflict : PolicyConflict) : Prop :=
  holds conflict.parentValue ∧ holds conflict.childValue

structure MergeState.Holds (holds : Json → Prop) (state : MergeState) : Prop where
  fields : SoundFields (fun _ => holds) state.fields
  conflicts : ∀ conflict ∈ state.conflicts, conflict.Between holds

namespace InheritanceSettings

variable {settings : InheritanceSettings} {policy : ScopedPolicy} {holds : Json → Prop}
  {isOverride : Bool} {leaves : Leaves} {state : MergeState}

theorem holds_comparedOf (combines : Combines fun _ => holds) {field : FieldPath} {declared : Json}
    {inherited : MergedField} (given : holds declared) (held : holds inherited.value) :
    holds (settings.comparedOf policy isOverride field declared inherited) := by
  rw [comparedOf]
  split
  · refine property_resultOf combines given fun merged same => ?_
    cases same
    exact held
  · exact given

theorem holds_applyLeaf (combines : Combines fun _ => holds) {field : FieldPath} {declared : Json}
    {inherited : Option MergedField} (given : holds declared)
    (inheritedHeld : ∀ merged, inherited = some merged → holds merged.value)
    (held : state.Holds holds) :
    (settings.applyLeaf policy isOverride field declared inherited state).Holds holds := by
  refine ⟨sound_applyLeaf held.fields (property_resultOf combines given inheritedHeld),
    fun conflict listed => ?_⟩
  rw [conflicts_applyLeaf] at listed
  rcases List.mem_append.mp listed with before | found
  · rcases List.mem_append.mp before with old | cleared
    · exact held.conflicts conflict old
    · obtain ⟨entry, present, rfl⟩ := List.mem_map.mp cleared
      have kept := (List.mem_filter.mp (List.mem_filter.mp present).1).1
      exact ⟨held.fields.holds entry.1 entry.2 (SortedMap.find?_eq_some_iff.mpr kept), given⟩
  · cases inherited with
    | none => cases found
    | some inherited =>
        rw [foundBy] at found
        split at found
        · cases found
        · cases List.mem_singleton.mp found
          have held' := inheritedHeld inherited rfl
          exact ⟨held', holds_comparedOf combines given held'⟩

theorem holds_declareAll (combines : Combines fun _ => holds)
    {displaced : SortedMap FieldPath MergedField} (given : ∀ leaf ∈ leaves, holds leaf.2)
    (displacedHeld : SoundFields (fun _ => holds) displaced) (held : state.Holds holds) :
    (settings.declareAll policy isOverride displaced leaves state).Holds holds := by
  induction leaves generalizing state with
  | nil => exact held
  | cons leaf rest ih =>
      obtain ⟨first, given⟩ := List.forall_mem_cons.mp given
      refine ih given (holds_applyLeaf combines first (fun merged inherited => ?_) held)
      rcases Option.or_eq_some_iff.mp inherited with found | ⟨_, found⟩
      · exact held.fields.holds leaf.1 merged found
      · exact displacedHeld.holds leaf.1 merged found

theorem holds_applyRules (combines : Combines fun _ => holds) (null : holds .null)
    (given : ∀ leaf ∈ leaves, holds leaf.2) (held : state.Holds holds) :
    (settings.applyRules policy leaves state).Holds holds := by
  by_cases replacing : policy.mode = .replace
  · have displacedHeld : SoundFields (fun _ => holds) (displacedBy leaves state) :=
      held.fields.filter _
    have applied : (settings.replaced policy leaves state).Holds holds := by
      have kept := held.fields.filter fun field _ => !covers leaves field
      rw [replaced, applyDeclared_eq_declareAll]
      exact holds_declareAll combines given displacedHeld ⟨kept, held.conflicts⟩
    rw [applyRules_of_replace replacing]
    refine ⟨applied.fields, fun conflict listed => ?_⟩
    rcases List.mem_append.mp listed with old | dropped
    · exact applied.conflicts conflict old
    · obtain ⟨entry, present, rfl⟩ := List.mem_map.mp dropped
      -- a dropped field is shown with the value that was displaced and `null`
      have lost := (List.mem_filter.mp present).1
      exact ⟨displacedHeld.holds entry.1 entry.2 (SortedMap.find?_eq_some_iff.mpr lost), null⟩
  · rw [applyRules_of_not_replace replacing, applyDeclared_eq_declareAll]
    exact holds_declareAll combines given sound_empty held

/-- One policy keeps a property that its documents have. -/
theorem holds_applyPolicy (combines : Combines fun _ => holds) (null : holds .null)
    {final : MergeState}
    (given : ∀ field value, policy.Declares settings.registry field value → holds value)
    (held : state.Holds holds) (applied : settings.applyPolicy policy state = .ok final) :
    final.Holds holds := by
  obtain ⟨declared, overridden, rules, overrides, rfl⟩ := applyPolicy_eq_ok applied
  rw [applyOverridden_eq_declareAll]
  refine holds_declareAll combines (fun leaf listed => ?_) sound_empty
    (holds_applyRules combines null (fun leaf listed => ?_) held)
  · exact given leaf.1 leaf.2 (.inr ⟨overridden, overrides, listed⟩)
  · exact given leaf.1 leaf.2 (.inl ⟨declared, rules, listed⟩)

theorem holds_applyAll (combines : Combines fun _ => holds) (null : holds .null)
    {policies : List ScopedPolicy} {final : MergeState}
    (given : ∀ policy ∈ policies, ∀ field value,
      policy.Declares settings.registry field value → holds value)
    (held : state.Holds holds) (applied : settings.applyAll policies state = .ok final) :
    final.Holds holds := by
  induction policies generalizing state with
  | nil =>
      cases applied
      exact held
  | cons policy rest ih =>
      obtain ⟨middle, first, later⟩ := applyAll_cons_eq_ok applied
      obtain ⟨given_first, given⟩ := List.forall_mem_cons.mp given
      exact ih given (holds_applyPolicy combines null given_first held first) later

/-! ## Outcomes -/

variable {target : ScopeId} {chain : List Scope} {policies : List ScopedPolicy}
  {outcome : EffectiveOutcome}

theorem wellFormed_of_compute (known : ∀ policy ∈ policies, policy.WellFormed)
    (computed : settings.compute target chain policies = .ok outcome) :
    outcome.policy.values.WellFormed ∧
      ∀ conflict ∈ outcome.conflicts, conflict.Between Json.WellFormed := by
  obtain ⟨ordered, final, run⟩ := run_of_compute computed
  have held : final.Holds Json.WellFormed := by
    refine holds_applyAll (fun _ _ _ _ => Json.hereditary_wellFormed.combined)
      Json.hereditary_wellFormed.null (fun policy listed field value declares => ?_)
      ⟨sound_empty, List.forall_mem_nil _⟩ run.applied
    have known := known policy ((ScopedPolicy.applicationOrder_eq_ok run.placed).1.mem_iff.mp listed)
    exact ScopedPolicy.holds_of_declares Json.hereditary_wellFormed known.1 known.2 declares
  rw [run.values, run.conflicts]
  exact ⟨MergeState.holds_document Json.hereditary_wellFormed held.fields.holds, held.conflicts⟩

/-- Nothing is nested deeper than in the policies, and what conflicts show is nested less deep,
because it stood under a key at least. -/
theorem nesting_of_compute {depth : Nat} (positive : 0 < depth)
    (shallow : ∀ policy ∈ policies, policy.Shallow depth)
    (computed : settings.compute target chain policies = .ok outcome) :
    outcome.policy.values.nesting ≤ depth ∧
      ∀ conflict ∈ outcome.conflicts, conflict.Between fun value => value.nesting < depth := by
  obtain ⟨ordered, final, run⟩ := run_of_compute computed
  have shallow : ∀ policy ∈ ordered, policy.Shallow depth := fun policy listed =>
    shallow policy ((ScopedPolicy.applicationOrder_eq_ok run.placed).1.mem_iff.mp listed)
  have fits : SoundFields (fun field value => field.segments.length + value.nesting ≤ depth)
      final.fields := by
    refine sound_applyAll (fun field inherited declared combined fits fits' result => ?_)
      (fun policy listed _ _ => ScopedPolicy.nesting_of_declares (shallow policy listed))
      sound_empty run.applied
    have bounded := @Json.nesting_combined _ _ _ (depth - field.segments.length)
      (by omega) (by omega) result
    omega
  -- a conflict shows values of one field at another one, so the length of the path is no use here
  have held : final.Holds fun value => value.nesting < depth := by
    refine holds_applyAll (fun field inherited declared combined fits fits' result => ?_) positive
      (fun policy listed field value declares => ?_) ⟨sound_empty, List.forall_mem_nil _⟩ run.applied
    · have bounded := @Json.nesting_combined _ _ _ (depth - 1) (by omega) (by omega) result
      omega
    · have bounded := ScopedPolicy.nesting_of_declares (shallow policy listed) declares
      have proper := FieldRegistry.positive_of_placed (ScopedPolicy.placed_of_declares declares)
      omega
  rw [run.values, run.conflicts, MergeState.document_eq]
  refine ⟨Leaves.nesting_document positive fun leaf listed => ?_, held.conflicts⟩
  obtain ⟨merged, found, same⟩ := MergeState.mem_leaves_iff.mp listed
  exact same ▸ fits.holds leaf.1 merged found

end InheritanceSettings

end Governance
