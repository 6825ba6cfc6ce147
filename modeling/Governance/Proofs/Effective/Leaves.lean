import Governance.Effective.Leaves
import Governance.FieldPath.Access
import Governance.Proofs.FieldPath.Keys
import Governance.Proofs.Json.Induction

/-!
# The leaves of a document

Where the walk that cuts a document into leaves ends, stated without the walk: a leaf is reached by
keys through objects that are not registered, and is itself no object unless it is registered or
has no members. Cutting a document whose keys ascend lists exactly its leaves, in the order of
their paths.
-/

set_option autoImplicit false

namespace Governance

namespace FieldRegistry

theorem directive?_ofKeys {registry : FieldRegistry} {keys : List String} :
    registry.directive? (.ofKeys keys) = registry.directiveForKeys? keys := by
  rw [directive?, FieldPath.keys_ofKeys]

variable (registry : FieldRegistry)

def EndsAt (keys : List String) (value : Json) : Prop :=
  value.isObject = true → value = .obj [] ∨ (registry.directiveForKeys? keys).isSome = true

/-- Whether the walk goes on from a sequence of keys along further ones: none of the places on the
way is registered, and the further keys are plain. -/
def Walkable (keys : List String) : List String → Prop
  | [] => True
  | name :: rest =>
    registry.directiveForKeys? keys = none ∧ FieldPath.isPlainKey name = true
      ∧ Walkable (keys ++ [name]) rest

def WalkedTo (keys : List String) (field : FieldPath) (value : Json) : Prop :=
  ∃ names, field = .ofKeys (keys ++ names) ∧ registry.Walkable keys names ∧
    registry.EndsAt (keys ++ names) value

/-- Whether a field with a value lies in a value that stands at a sequence of keys, where the walk
finds it. -/
inductive Within : List String → Json → FieldPath → Json → Prop where
  | here {keys : List String} {value : Json} :
      registry.EndsAt keys value → Within keys value (.ofKeys keys) value
  | under {keys : List String} {members : List (String × Json)} {member : String × Json}
      {field : FieldPath} {leaf : Json} :
      registry.directiveForKeys? keys = none → member ∈ members →
      FieldPath.isPlainKey member.1 = true → Within (keys ++ [member.1]) member.2 field leaf →
      Within keys (.obj members) field leaf

def Placed (field : FieldPath) (value : Json) : Prop :=
  ∃ name, FieldPath.isPlainKey name = true ∧ registry.WalkedTo [name] field value

inductive LeafAt : List String → Json → List String → Json → Prop where
  | here {keys : List String} {value : Json} :
      registry.EndsAt keys value → LeafAt keys value [] value
  | under {keys : List String} {members : List (String × Json)} {name : String} {inner : Json}
      {names : List String} {leaf : Json} :
      registry.directiveForKeys? keys = none → Entries.find? name members = some inner →
      LeafAt (keys ++ [name]) inner names leaf → LeafAt keys (.obj members) (name :: names) leaf

def LeafOf (keys : List String) (members : List (String × Json)) (names : List String)
    (leaf : Json) : Prop :=
  ∃ name inner rest, names = name :: rest ∧ Entries.find? name members = some inner ∧
    registry.LeafAt (keys ++ [name]) inner rest leaf

/-- A value whose objects, as far as the walk goes, have ascending and plain keys. -/
inductive Spine : List String → Json → Prop where
  | leaf {keys : List String} {value : Json} : registry.EndsAt keys value → Spine keys value
  | object {keys : List String} {members : List (String × Json)} :
      Entries.Ascending members →
      (∀ member ∈ members, FieldPath.isPlainKey member.1 = true) →
      (∀ member ∈ members, Spine (keys ++ [member.1]) member.2) → Spine keys (.obj members)

variable {registry}

/-! ## Where walks end -/

theorem endsAt_of_not_object {keys : List String} {value : Json} (flat : value.isObject = false) :
    registry.EndsAt keys value := by
  intro object
  rw [flat] at object
  cases object

theorem entered_of_not_endsAt {keys : List String} {members : List (String × Json)}
    (further : ¬ registry.EndsAt keys (.obj members)) :
    registry.directiveForKeys? keys = none ∧ members ≠ [] := by
  constructor
  · cases found : registry.directiveForKeys? keys with
    | none => rfl
    | some directive => exact absurd (fun _ => .inr (by rw [found]; rfl)) further
  · intro equal
    subst equal
    exact further fun _ => .inl rfl

theorem leafAt_iff_of_endsAt {keys : List String} {value : Json} (ends : registry.EndsAt keys value)
    {names : List String} {leaf : Json} :
    registry.LeafAt keys value names leaf ↔ names = [] ∧ value = leaf := by
  constructor
  · intro reached
    cases reached with
    | here => exact ⟨rfl, rfl⟩
    | @under _ members name inner names leaf unregistered found _ =>
        rcases ends rfl with empty | registered
        · cases empty
          cases found
        · rw [unregistered] at registered
          cases registered
  · intro given
    obtain ⟨rfl, rfl⟩ := given
    exact .here ends

theorem leafAt_obj_iff {keys : List String} {members : List (String × Json)}
    (unregistered : registry.directiveForKeys? keys = none) (nonempty : members ≠ [])
    {names : List String} {leaf : Json} :
    registry.LeafAt keys (.obj members) names leaf ↔ registry.LeafOf keys members names leaf := by
  constructor
  · intro reached
    cases reached with
    | here ends =>
        rcases ends rfl with empty | registered
        · cases empty
          exact absurd rfl nonempty
        · rw [unregistered] at registered
          cases registered
    | @under _ _ name inner rest _ _ found inside => exact ⟨name, inner, rest, rfl, found, inside⟩
  · intro given
    obtain ⟨name, inner, rest, rfl, found, inside⟩ := given
    exact .under unregistered found inside

theorem follow?_of_leafAt {keys names : List String} {value leaf : Json}
    (reached : registry.LeafAt keys value names leaf) :
    FieldPath.follow? (names.map .key) value = some leaf := by
  induction reached with
  | here => rfl
  | under _ found _ ih => rw [List.map_cons, FieldPath.follow?, found, Option.bind_some, ih]

theorem follow?_of_leafOf {keys names : List String} {members : List (String × Json)} {leaf : Json}
    (reached : registry.LeafOf keys members names leaf) :
    FieldPath.follow? (names.map .key) (.obj members) = some leaf := by
  obtain ⟨name, inner, rest, rfl, found, inside⟩ := reached
  rw [List.map_cons, FieldPath.follow?, found, Option.bind_some, follow?_of_leafAt inside]

end FieldRegistry

namespace Leaves

open FieldRegistry

variable {registry : FieldRegistry}

/-! ## Cutting any document -/

theorem ofValue_of_endsAt {keys : List String} {value : Json} (ends : registry.EndsAt keys value) :
    ofValue registry true (.ofKeys keys) value = .ok [(.ofKeys keys, value)] := by
  cases value with
  | null | bool | int | float | str | arr => rfl
  | obj members =>
      rw [ofValue, FieldRegistry.directive?_ofKeys]
      rcases ends rfl with empty | registered
      · cases empty
        cases (registry.directiveForKeys? keys).isSome <;> rfl
      · rw [if_pos registered]

theorem ofMembers_cons_eq_ok {keepEmpty : Bool} {path : FieldPath} {member : String × Json}
    {rest : List (String × Json)} {leaves : Leaves}
    (cut : ofMembers registry keepEmpty path (member :: rest) = .ok leaves) :
    FieldPath.isPlainKey member.1 = true ∧ ∃ front back,
      ofValue registry keepEmpty (path.child member.1) member.2 = .ok front ∧
      ofMembers registry keepEmpty path rest = .ok back ∧ leaves = front ++ back := by
  rw [ofMembers] at cut
  cases plain : FieldPath.isPlainKey member.1 with
  | false => simp [plain] at cut
  | true =>
      simp only [plain, Bool.not_true, Bool.false_eq_true, if_false] at cut
      cases first : ofValue registry keepEmpty (path.child member.1) member.2 with
      | error problem => simp [first] at cut
      | ok front =>
          cases later : ofMembers registry keepEmpty path rest with
          | error problem => simp [first, later, Except.map] at cut
          | ok back =>
              simp only [first, later, Except.map, Except.ok.injEq] at cut
              exact ⟨rfl, front, back, rfl, rfl, cut.symm⟩

theorem ofMembers_within {keepEmpty : Bool} {keys : List String}
    {members : List (String × Json)} {leaves : Leaves}
    (each : ∀ member ∈ members, ∀ keys leaves,
      ofValue registry keepEmpty (.ofKeys keys) member.2 = .ok leaves →
        ∀ leaf ∈ leaves, registry.Within keys member.2 leaf.1 leaf.2)
    (cut : ofMembers registry keepEmpty (.ofKeys keys) members = .ok leaves) :
    ∀ leaf ∈ leaves, ∃ member ∈ members, FieldPath.isPlainKey member.1 = true ∧
      registry.Within (keys ++ [member.1]) member.2 leaf.1 leaf.2 := by
  induction members generalizing leaves with
  | nil =>
      cases cut
      exact fun _ listed => nomatch listed
  | cons member rest ih =>
      obtain ⟨plain, front, back, first, later, rfl⟩ := ofMembers_cons_eq_ok cut
      rw [FieldPath.child_ofKeys] at first
      intro leaf listed
      rcases List.mem_append.mp listed with inFront | inBack
      · exact ⟨member, List.mem_cons_self, plain,
          each member List.mem_cons_self _ _ first leaf inFront⟩
      · obtain ⟨other, present, plain, within⟩ := ih
          (fun later present => each later (List.mem_cons_of_mem _ present)) later leaf inBack
        exact ⟨other, List.mem_cons_of_mem _ present, plain, within⟩

theorem ofValue_within {keepEmpty : Bool} {keys : List String} {value : Json} {leaves : Leaves}
    (cut : ofValue registry keepEmpty (.ofKeys keys) value = .ok leaves) :
    ∀ leaf ∈ leaves, registry.Within keys value leaf.1 leaf.2 := by
  have alone : ∀ {keys : List String} {value : Json}, registry.EndsAt keys value →
      ∀ leaf ∈ [(FieldPath.ofKeys keys, value)], registry.Within keys value leaf.1 leaf.2 := by
    intro keys value ends leaf listed
    cases List.mem_singleton.mp listed
    exact .here ends
  induction value using Json.induct generalizing keys leaves with
  | null | bool | int | float | str | arr =>
      cases cut
      exact alone (endsAt_of_not_object rfl)
  | obj members ih =>
      rw [ofValue, FieldRegistry.directive?_ofKeys] at cut
      cases found : registry.directiveForKeys? keys with
      | some directive =>
          simp only [found, Option.isSome_some, if_true, Except.ok.injEq] at cut
          subst cut
          exact alone fun _ => .inr (by rw [found]; rfl)
      | none =>
          simp only [found, Option.isSome_none, Bool.false_eq_true, if_false] at cut
          split at cut
          · rename_i empty
            have ends : registry.EndsAt keys (.obj members) := fun _ =>
              .inl (by rw [List.isEmpty_iff.mp empty])
            cases keepEmpty
            · cases cut
              exact fun _ listed => nomatch listed
            · cases cut
              exact alone ends
          · intro leaf listed
            obtain ⟨member, present, plain, within⟩ :=
              ofMembers_within (fun member present _ _ => ih member present) cut leaf listed
            exact .under found present plain within

theorem within_of_ofMembers {keepEmpty : Bool} {members : List (String × Json)} {leaves : Leaves}
    (cut : ofMembers registry keepEmpty .root members = .ok leaves) :
    ∀ leaf ∈ leaves, ∃ member ∈ members, FieldPath.isPlainKey member.1 = true ∧
      registry.Within [member.1] member.2 leaf.1 leaf.2 := by
  rw [← FieldPath.ofKeys_nil] at cut
  exact ofMembers_within (fun _ _ _ _ => ofValue_within) cut

theorem walkedTo_of_within {keys : List String} {value leaf : Json} {field : FieldPath}
    (within : registry.Within keys value field leaf) : registry.WalkedTo keys field leaf := by
  induction within with
  | here ends => exact ⟨[], by rw [List.append_nil], trivial, by rwa [List.append_nil]⟩
  | @under keys members member field leaf unregistered _ plain _ ih =>
      obtain ⟨names, shape, walkable, ends⟩ := ih
      rw [List.append_assoc] at shape ends
      exact ⟨member.1 :: names, shape, ⟨unregistered, plain, walkable⟩, ends⟩

theorem holds_of_within {holds : Json → Prop} (hereditary : Json.Hereditary holds)
    {keys : List String} {value leaf : Json} {field : FieldPath}
    (within : registry.Within keys value field leaf) (held : holds value) : holds leaf := by
  induction within with
  | here => exact held
  | under _ present _ _ ih => exact ih (hereditary.member held _ present)

theorem placed_of_ofMembers {keepEmpty : Bool} {members : List (String × Json)} {leaves : Leaves}
    (cut : ofMembers registry keepEmpty .root members = .ok leaves) :
    ∀ leaf ∈ leaves, registry.Placed leaf.1 leaf.2 := by
  intro leaf listed
  obtain ⟨member, _, plain, within⟩ := within_of_ofMembers cut leaf listed
  exact ⟨member.1, plain, walkedTo_of_within within⟩

theorem holds_of_ofMembers {holds : Json → Prop} (hereditary : Json.Hereditary holds)
    {keepEmpty : Bool} {members : List (String × Json)} {leaves : Leaves}
    (cut : ofMembers registry keepEmpty .root members = .ok leaves) (held : holds (.obj members)) :
    ∀ leaf ∈ leaves, holds leaf.2 := by
  intro leaf listed
  obtain ⟨member, present, _, within⟩ := within_of_ofMembers cut leaf listed
  exact holds_of_within hereditary within (hereditary.member held member present)

/-! ## Cutting a document whose keys ascend -/

def IsCut (registry : FieldRegistry) (keys : List String) (value : Json) (leaves : Leaves) : Prop :=
  (∀ leaf, leaf ∈ leaves ↔
    ∃ names, leaf.1 = .ofKeys (keys ++ names) ∧ registry.LeafAt keys value names leaf.2) ∧
  Entries.Ascending leaves

theorem isCut_of_endsAt {keys : List String} {value : Json} (ends : registry.EndsAt keys value) :
    IsCut registry keys value [(.ofKeys keys, value)] := by
  refine ⟨fun leaf => ?_, List.pairwise_singleton _ _⟩
  simp only [leafAt_iff_of_endsAt ends, List.mem_singleton]
  constructor
  · intro equal
    subst equal
    exact ⟨[], by rw [List.append_nil], rfl, rfl⟩
  · intro given
    obtain ⟨_, shape, rfl, same⟩ := given
    rw [List.append_nil] at shape
    exact Prod.ext shape same.symm

theorem ofMembers_of_cuts {keys : List String} {members : List (String × Json)}
    (ascending : Entries.Ascending members)
    (plain : ∀ member ∈ members, FieldPath.isPlainKey member.1 = true)
    (each : ∀ member ∈ members, ∃ leaves,
      ofValue registry true (.ofKeys (keys ++ [member.1])) member.2 = .ok leaves ∧
        IsCut registry (keys ++ [member.1]) member.2 leaves) :
    ∃ leaves, ofMembers registry true (.ofKeys keys) members = .ok leaves ∧
      (∀ leaf, leaf ∈ leaves ↔ ∃ member ∈ members, ∃ names,
        leaf.1 = .ofKeys (keys ++ member.1 :: names) ∧
          registry.LeafAt (keys ++ [member.1]) member.2 names leaf.2) ∧
      Entries.Ascending leaves := by
  induction members with
  | nil => exact ⟨[], rfl, fun leaf => by simp, List.Pairwise.nil⟩
  | cons member rest ih =>
      obtain ⟨below, ascending_rest⟩ := List.pairwise_cons.mp ascending
      obtain ⟨front, cut, frontSpec, frontAscending⟩ := each member List.mem_cons_self
      obtain ⟨back, cut', backSpec, backAscending⟩ := ih ascending_rest
        (fun later present => plain later (List.mem_cons_of_mem _ present))
        (fun later present => each later (List.mem_cons_of_mem _ present))
      refine ⟨front ++ back, ?_, fun leaf => ?_, ?_⟩
      · rw [ofMembers, FieldPath.child_ofKeys, plain member List.mem_cons_self, cut, cut']
        rfl
      · rw [List.mem_append, frontSpec, backSpec]
        simp only [List.append_assoc, List.singleton_append, List.mem_cons, exists_eq_or_imp]
      · refine List.pairwise_append.mpr ⟨frontAscending, backAscending, ?_⟩
        intro leaf inFront other inBack
        obtain ⟨names, shape, _⟩ := (frontSpec leaf).mp inFront
        obtain ⟨later, present, others, shape', _⟩ := (backSpec other).mp inBack
        rw [shape, shape', List.append_assoc, List.singleton_append]
        exact FieldPath.ofKeys_lt_ofKeys keys (below later present) names others

theorem leafOf_iff_mem {keys : List String} {members : List (String × Json)} {names : List String}
    {leaf : Json} (ascending : Entries.Ascending members) :
    registry.LeafOf keys members names leaf ↔
      ∃ member ∈ members, ∃ rest, names = member.1 :: rest ∧
        registry.LeafAt (keys ++ [member.1]) member.2 rest leaf := by
  constructor
  · intro given
    obtain ⟨name, inner, rest, rfl, found, inside⟩ := given
    exact ⟨_, Entries.mem_of_find? found, rest, rfl, inside⟩
  · intro given
    obtain ⟨⟨name, inner⟩, present, rest, rfl, inside⟩ := given
    exact ⟨name, inner, rest, rfl, (Entries.find?_eq_some_iff ascending).mpr present, inside⟩

theorem ofMembers_isCut {keys : List String} {members : List (String × Json)}
    (ascending : Entries.Ascending members)
    (plain : ∀ member ∈ members, FieldPath.isPlainKey member.1 = true)
    (each : ∀ member ∈ members, ∃ leaves,
      ofValue registry true (.ofKeys (keys ++ [member.1])) member.2 = .ok leaves ∧
        IsCut registry (keys ++ [member.1]) member.2 leaves) :
    ∃ leaves, ofMembers registry true (.ofKeys keys) members = .ok leaves ∧
      (∀ leaf, leaf ∈ leaves ↔ ∃ names, leaf.1 = .ofKeys (keys ++ names) ∧
        registry.LeafOf keys members names leaf.2) ∧
      Entries.Ascending leaves := by
  obtain ⟨leaves, cut, spec, leavesAscending⟩ := ofMembers_of_cuts ascending plain each
  refine ⟨leaves, cut, fun leaf => ?_, leavesAscending⟩
  rw [spec]
  simp only [leafOf_iff_mem ascending]
  constructor
  · intro given
    obtain ⟨member, present, rest, shape, inside⟩ := given
    exact ⟨member.1 :: rest, shape, member, present, rest, rfl, inside⟩
  · intro given
    obtain ⟨_, shape, member, present, rest, rfl, inside⟩ := given
    exact ⟨member, present, rest, shape, inside⟩

theorem ofValue_isCut {keys : List String} {value : Json} (spine : registry.Spine keys value) :
    ∃ leaves, ofValue registry true (.ofKeys keys) value = .ok leaves ∧
      IsCut registry keys value leaves := by
  induction spine with
  | leaf ends => exact ⟨_, ofValue_of_endsAt ends, isCut_of_endsAt ends⟩
  | @object keys members ascending plain _ ih =>
      by_cases ends : registry.EndsAt keys (.obj members)
      · exact ⟨_, ofValue_of_endsAt ends, isCut_of_endsAt ends⟩
      · obtain ⟨unregistered, nonempty⟩ := entered_of_not_endsAt ends
        obtain ⟨leaves, cut, spec, leavesAscending⟩ := ofMembers_isCut ascending plain ih
        refine ⟨leaves, ?_, fun leaf => ?_, leavesAscending⟩
        · rw [ofValue, FieldRegistry.directive?_ofKeys, unregistered]
          simpa [nonempty] using cut
        · simp only [spec, leafAt_obj_iff unregistered nonempty]

end Leaves

end Governance
