import Governance.Proofs.Effective.Outcome

/-!
# What a policy declares

The leaves of a document whose keys ascend, whether empty objects are kept or not: each field is
listed once, and a registered field that the walk leads to is listed with the value that looking it
up in the document finds. The same holds of the document of merged fields.
-/

set_option autoImplicit false

namespace Governance

namespace FieldRegistry

variable {registry : FieldRegistry} {keys : List String}

/-! ## Fields that the walk leads to -/

/-- Whether a field is registered and the walk from the root leads to it. -/
structure Reachable (registry : FieldRegistry) (keys : List String) : Prop where
  proper : keys ≠ []
  walkable : registry.Walkable [] keys
  registered : (registry.directiveForKeys? keys).isSome = true

instance decidableWalkable (registry : FieldRegistry) :
    (keys names : List String) → Decidable (registry.Walkable keys names)
  | _, [] => isTrue trivial
  | keys, name :: rest =>
    have := decidableWalkable registry (keys ++ [name]) rest
    inferInstanceAs (Decidable (_ ∧ _ ∧ _))

/-- The walk leads to every field of the standard registry. -/
theorem standard_reachable {directive : FieldDirective}
    (found : standard.directiveForKeys? keys = some directive) : standard.Reachable keys := by
  have walkable : ∀ entry ∈ standard.directives.entries,
      entry.1 ≠ [] ∧ standard.Walkable [] entry.1 := by decide
  obtain ⟨proper, walkable⟩ := walkable _ (Entries.mem_of_find? found)
  exact ⟨proper, walkable, by rw [found]; rfl⟩

theorem leafAt_iff_follow? {names : List String} {value leaf : Json}
    (walkable : registry.Walkable keys names)
    (registered : (registry.directiveForKeys? (keys ++ names)).isSome = true) :
    registry.LeafAt keys value names leaf ↔
      FieldPath.follow? (names.map .key) value = some leaf := by
  refine ⟨follow?_of_leafAt, fun found => ?_⟩
  induction names generalizing keys value with
  | nil =>
      cases found
      rw [List.append_nil] at registered
      exact .here fun _ => .inr registered
  | cons name rest ih =>
      obtain ⟨unregistered, _, walkable⟩ := walkable
      cases value with
      | null | bool | int | float | str | arr => cases found
      | obj members =>
          obtain ⟨inner, present, found⟩ := Option.bind_eq_some_iff.mp found
          rw [List.append_cons] at registered
          exact .under unregistered present (ih walkable registered found)

theorem leafOf_iff_lookup? {members : List (String × Json)} {leaf : Json}
    (reachable : registry.Reachable keys) :
    registry.LeafOf [] members keys leaf ↔
      (FieldPath.ofKeys keys).lookup? (.obj members) = some leaf := by
  obtain ⟨proper, walkable, registered⟩ := reachable
  cases keys with
  | nil => exact absurd rfl proper
  | cons name rest =>
      obtain ⟨_, _, walkable⟩ := walkable
      rw [leafOf_cons_iff, FieldPath.lookup?, FieldPath.ofKeys, List.map_cons, FieldPath.follow?,
        Option.bind_eq_some_iff]
      exact exists_congr fun inner => and_congr_right fun _ => leafAt_iff_follow? walkable registered

end FieldRegistry

namespace Leaves

open FieldRegistry

variable {registry : FieldRegistry} {keepEmpty : Bool}

/-! ## Empty objects -/

/-- Whether a leaf is listed. Empty objects are listed if they are kept or registered. -/
def isListed (registry : FieldRegistry) (keepEmpty : Bool) (leaf : FieldPath × Json) : Bool :=
  keepEmpty || leaf.2 != .obj [] || (registry.directive? leaf.1).isSome

theorem isListed_of_registered {leaf : FieldPath × Json}
    (registered : (registry.directive? leaf.1).isSome = true) :
    isListed registry keepEmpty leaf = true := by
  rw [isListed, registered, Bool.or_true]

theorem isListed_of_nonempty {leaf : FieldPath × Json} (nonempty : leaf.2 ≠ .obj []) :
    isListed registry keepEmpty leaf = true := by
  rw [isListed, bne_iff_ne.mpr nonempty, Bool.or_true, Bool.true_or]

theorem ofMembers_eq_filter {path : FieldPath} {members : List (String × Json)}
    (each : ∀ member ∈ members, ∀ path, ofValue registry keepEmpty path member.2 =
      (ofValue registry true path member.2).map (List.filter (isListed registry keepEmpty))) :
    ofMembers registry keepEmpty path members =
      (ofMembers registry true path members).map (List.filter (isListed registry keepEmpty)) := by
  induction members with
  | nil => rfl
  | cons member rest ih =>
      rw [ofMembers, ofMembers, each member List.mem_cons_self,
        ih fun later present => each later (List.mem_cons_of_mem _ present)]
      cases FieldPath.isPlainKey member.1 with
      | false => rfl
      | true =>
          cases ofValue registry true (path.child member.1) member.2 with
          | error problem => rfl
          | ok front =>
              cases ofMembers registry true path rest with
              | error problem => rfl
              | ok back => simp [Except.map]

/-- Without empty objects the leaves are those with them, less the empty objects. -/
theorem ofValue_eq_filter (path : FieldPath) (value : Json) :
    ofValue registry keepEmpty path value =
      (ofValue registry true path value).map (List.filter (isListed registry keepEmpty)) := by
  have alone : ∀ {leaf : FieldPath × Json}, isListed registry keepEmpty leaf = true →
      (Except.ok [leaf] : Except ValidationError Leaves) =
        (Except.ok [leaf]).map (List.filter (isListed registry keepEmpty)) := by
    intro leaf listed
    simp [Except.map, listed]
  induction value using Json.induct generalizing path with
  | null | bool | int | float | str | arr => exact alone (isListed_of_nonempty (by simp))
  | obj members ih =>
      rw [ofValue, ofValue]
      cases registered : (registry.directive? path).isSome with
      | true => exact alone (isListed_of_registered registered)
      | false =>
          simp only [Bool.false_eq_true, if_false]
          cases members with
          | cons member rest => exact ofMembers_eq_filter ih
          | nil => cases keepEmpty <;> simp [Except.map, isListed, registered]

/-! ## Cutting a document of a policy -/

theorem cut_of_ofMembers {path : FieldPath} {members : List (String × Json)} {leaves : Leaves}
    (cut : ofMembers registry keepEmpty path members = .ok leaves) :
    ∀ member ∈ members, FieldPath.isPlainKey member.1 = true ∧
      ∃ inner, ofValue registry keepEmpty (path.child member.1) member.2 = .ok inner := by
  induction members generalizing leaves with
  | nil => exact List.forall_mem_nil _
  | cons member rest ih =>
      obtain ⟨plain, front, back, first, later, _⟩ := ofMembers_cons_eq_ok cut
      exact List.forall_mem_cons.mpr ⟨⟨plain, front, first⟩, ih later⟩

theorem spine_of_ofValue {keys : List String} {value : Json} {leaves : Leaves}
    (known : value.WellFormed)
    (cut : ofValue registry keepEmpty (.ofKeys keys) value = .ok leaves) :
    registry.Spine keys value := by
  induction value using Json.induct generalizing keys leaves with
  | null | bool | int | float | str | arr => exact .leaf (endsAt_of_not_object rfl)
  | obj members ih =>
      rw [ofValue, FieldRegistry.directive?_ofKeys] at cut
      split at cut
      · rename_i registered
        exact .leaf fun _ => .inr registered
      · split at cut
        · rename_i empty
          exact .leaf fun _ => .inl (by rw [List.isEmpty_iff.mp empty])
        · obtain ⟨ascending, known⟩ := Json.wellFormed_obj.mp known
          have each := cut_of_ofMembers cut
          refine .object ascending (fun member present => (each member present).1)
            fun member present => ?_
          obtain ⟨_, inner, cut⟩ := each member present
          rw [FieldPath.child_ofKeys] at cut
          exact ih member present (known member present) cut

theorem spineOf_of_ofMembers {members : List (String × Json)} {leaves : Leaves}
    (known : (Json.obj members).WellFormed)
    (cut : ofMembers registry keepEmpty .root members = .ok leaves) : registry.SpineOf [] members := by
  obtain ⟨ascending, known⟩ := Json.wellFormed_obj.mp known
  have each := cut_of_ofMembers cut
  refine ⟨ascending, fun member present => (each member present).1, fun member present => ?_⟩
  obtain ⟨_, inner, cut⟩ := each member present
  exact spine_of_ofValue (known member present) cut

/-- A document whose keys ascend is cut into its leaves, in the order of their paths. -/
theorem ofMembers_spec {members : List (String × Json)} {leaves : Leaves}
    (known : (Json.obj members).WellFormed)
    (cut : ofMembers registry keepEmpty .root members = .ok leaves) :
    Entries.Ascending leaves ∧ ∀ leaf, leaf ∈ leaves ↔
      isListed registry keepEmpty leaf = true ∧
        ∃ names, leaf.1 = .ofKeys names ∧ registry.LeafOf [] members names leaf.2 := by
  have spine := spineOf_of_ofMembers known cut
  obtain ⟨all, cutAll, spec, allAscending⟩ := ofMembers_isCut spine.ascending spine.plain
    fun member present => ofValue_isCut (spine.inner member present)
  rw [ofMembers_eq_filter fun member _ path => ofValue_eq_filter path member.2, ← FieldPath.ofKeys_nil,
    cutAll, Except.map, Except.ok.injEq] at cut
  subst cut
  refine ⟨List.Pairwise.sublist List.filter_sublist allAscending, fun leaf => ?_⟩
  rw [List.mem_filter, spec, and_comm]
  rfl

/-- A registered field is declared exactly if the document has a value there. -/
theorem find?_ofMembers {keys : List String} {members : List (String × Json)} {leaves : Leaves}
    (known : (Json.obj members).WellFormed) (reachable : registry.Reachable keys)
    (cut : ofMembers registry keepEmpty .root members = .ok leaves) :
    Entries.find? (.ofKeys keys) leaves = (FieldPath.ofKeys keys).lookup? (.obj members) := by
  obtain ⟨ascending, spec⟩ := ofMembers_spec known cut
  refine Option.ext fun value => ?_
  have listed : isListed registry keepEmpty (.ofKeys keys, value) = true := by
    refine isListed_of_registered ?_
    rw [FieldRegistry.directive?_ofKeys]
    exact reachable.registered
  rw [Entries.find?_eq_some_iff ascending, spec, ← leafOf_iff_lookup? reachable]
  constructor
  · intro given
    obtain ⟨_, names, same, inside⟩ := given
    rwa [FieldPath.ofKeys_injective same]
  · exact fun inside => ⟨listed, keys, rfl, inside⟩

end Leaves

namespace ScopedPolicy

variable {policy : ScopedPolicy} {registry : FieldRegistry} {keys : List String} {leaves : Leaves}

def WellFormed (policy : ScopedPolicy) : Prop :=
  policy.rules.WellFormed ∧
    ∀ overrides, policy.overrides = some overrides → overrides.WellFormed

theorem wellFormed_ofRules {id : PolicyId} {scope : ScopeId} {mode : InheritanceMode} {rules : Json}
    (known : rules.WellFormed) : (ofRules id scope mode rules).WellFormed := by
  refine ⟨known, fun overrides found => ?_⟩
  cases found

def declaredAt? (policy : ScopedPolicy) (isOverride : Bool) (field : FieldPath) : Option Json :=
  if isOverride then policy.overrides.bind field.lookup? else field.lookup? policy.rules

/-! ## The fields of both documents -/

theorem ascending_declared (known : policy.WellFormed)
    (declared : policy.declared registry = .ok leaves) : Entries.Ascending leaves := by
  obtain ⟨members, keepEmpty, shape, cut, _⟩ := leaves_eq_ok declared
  exact (Leaves.ofMembers_spec (shape ▸ known.1) cut).1

theorem find?_declared (known : policy.WellFormed) (reachable : registry.Reachable keys)
    (declared : policy.declared registry = .ok leaves) :
    Entries.find? (.ofKeys keys) leaves = policy.declaredAt? false (.ofKeys keys) := by
  obtain ⟨members, keepEmpty, shape, cut, _⟩ := leaves_eq_ok declared
  rw [Leaves.find?_ofMembers (shape ▸ known.1) reachable cut, ← shape]
  rfl

theorem declares_of_declaredAt? {value : Json} (known : policy.WellFormed)
    (reachable : registry.Reachable keys) (declared : policy.declared registry = .ok leaves)
    (given : policy.declaredAt? false (.ofKeys keys) = some value) :
    policy.Declares registry (.ofKeys keys) value := by
  rw [← find?_declared known reachable declared] at given
  exact .inl ⟨leaves, declared, Entries.mem_of_find? given⟩

theorem overridden_cases (overridden : policy.overridden registry = .ok leaves) :
    (policy.overrides = none ∧ leaves = []) ∨
      ∃ members keepEmpty, policy.overrides = some (.obj members) ∧
        Leaves.ofMembers registry keepEmpty .root members = .ok leaves := by
  rw [ScopedPolicy.overridden] at overridden
  cases given : policy.overrides with
  | none =>
      rw [given] at overridden
      cases overridden
      exact .inl ⟨rfl, rfl⟩
  | some document =>
      rw [given] at overridden
      obtain ⟨members, keepEmpty, rfl, cut, _⟩ := leaves_eq_ok overridden
      exact .inr ⟨members, keepEmpty, rfl, cut⟩

theorem ascending_overridden (known : policy.WellFormed)
    (overridden : policy.overridden registry = .ok leaves) : Entries.Ascending leaves := by
  rcases overridden_cases overridden with ⟨_, rfl⟩ | ⟨members, keepEmpty, shape, cut⟩
  · exact List.Pairwise.nil
  · exact (Leaves.ofMembers_spec (known.2 _ shape) cut).1

theorem find?_overridden (known : policy.WellFormed) (reachable : registry.Reachable keys)
    (overridden : policy.overridden registry = .ok leaves) :
    Entries.find? (.ofKeys keys) leaves = policy.declaredAt? true (.ofKeys keys) := by
  rw [declaredAt?, if_pos rfl]
  rcases overridden_cases overridden with ⟨absent, rfl⟩ | ⟨members, keepEmpty, shape, cut⟩
  · rw [absent]
    rfl
  · rw [Leaves.find?_ofMembers (known.2 _ shape) reachable cut, shape]
    rfl

end ScopedPolicy

/-! ## The values of an outcome -/

/-- A registered field has a value in the merged document exactly if it was merged. -/
theorem MergeState.lookup?_document {registry : FieldRegistry} {state : MergeState}
    (sound : SoundFields registry.Placed state.fields) {keys : List String}
    (reachable : registry.Reachable keys) :
    (FieldPath.ofKeys keys).lookup? state.document =
      (state.fields.find? (.ofKeys keys)).map MergedField.value := by
  obtain ⟨members, shape, _, spec⟩ := Leaves.document_spec (separate_leaves sound)
  rw [← document_eq] at shape
  refine Option.ext fun value => ?_
  rw [shape, ← FieldRegistry.leafOf_iff_lookup? reachable, spec, mem_leaves_iff, Option.map_eq_some_iff]

end Governance
