import Governance.Proofs.Effective.Flaws
import Governance.Proofs.Effective.Parties
import Governance.Proofs.Effective.Rebuild

/-!
# Documents put together again

Cutting a document into leaves and writing the leaves into an empty document undo each other. No
leaf lies in another one, so every write succeeds in whatever order the leaves come, and the order
does not show in the result. Where empty objects are not kept, the objects in which nothing is
declared get lost on the way, and nothing else does.
-/

set_option autoImplicit false

namespace Governance

namespace FieldRegistry

variable (registry : FieldRegistry)

/-! ## Pruning -/

mutual

/-- A value at a sequence of keys without the objects outside arrays that are empty or become
empty; nothing if it is one of them itself. A registered field is kept with whatever it holds. -/
def prunedValue (keys : List String) : Json → Option Json
  | .obj members =>
    if (registry.directiveForKeys? keys).isSome then some (.obj members)
    else match prunedMembers keys members with
      | [] => none
      | left => some (.obj left)
  | value => some value
  termination_by structural value => value

def prunedMembers (keys : List String) : List (String × Json) → List (String × Json)
  | [] => []
  | (name, value) :: rest =>
    match prunedValue (keys ++ [name]) value with
    | none => prunedMembers keys rest
    | some kept => (name, kept) :: prunedMembers keys rest
  termination_by structural members => members

end

def retained (keepEmpty : Bool) (members : List (String × Json)) : List (String × Json) :=
  if keepEmpty then members else registry.prunedMembers [] members

variable {registry} {keys : List String} {members : List (String × Json)} {value kept : Json}

theorem prunedMembers_eq_filterMap :
    registry.prunedMembers keys members = members.filterMap fun member =>
      (registry.prunedValue (keys ++ [member.1]) member.2).map (Prod.mk member.1) := by
  induction members with
  | nil => rfl
  | cons member rest ih =>
      rw [prunedMembers, List.filterMap_cons, ih]
      cases registry.prunedValue (keys ++ [member.1]) member.2 <;> rfl

theorem mem_prunedMembers_iff {name : String} :
    (name, kept) ∈ registry.prunedMembers keys members ↔
      ∃ value, (name, value) ∈ members ∧
        registry.prunedValue (keys ++ [name]) value = some kept := by
  rw [prunedMembers_eq_filterMap, List.mem_filterMap]
  constructor
  · intro given
    obtain ⟨⟨_, value⟩, listed, found⟩ := given
    obtain ⟨_, stays, same⟩ := Option.map_eq_some_iff.mp found
    cases same
    exact ⟨value, listed, stays⟩
  · intro given
    obtain ⟨value, listed, stays⟩ := given
    exact ⟨(name, value), listed, Option.map_eq_some_iff.mpr ⟨kept, stays, rfl⟩⟩

theorem prunedValue_obj_eq_some (stays : registry.prunedValue keys (.obj members) = some kept) :
    ((registry.directiveForKeys? keys).isSome = true ∧ kept = .obj members) ∨
      (registry.directiveForKeys? keys = none ∧ registry.prunedMembers keys members ≠ [] ∧
        kept = .obj (registry.prunedMembers keys members)) := by
  rw [prunedValue] at stays
  split at stays
  · rename_i registered
    cases stays
    exact .inl ⟨registered, rfl⟩
  · rename_i unregistered
    split at stays
    · cases stays
    · rename_i nonempty
      cases stays
      exact .inr ⟨Option.not_isSome_iff_eq_none.mp unregistered, nonempty, rfl⟩

theorem prunedValue_obj_eq_none (gone : registry.prunedValue keys (.obj members) = none) :
    registry.directiveForKeys? keys = none ∧ registry.prunedMembers keys members = [] := by
  rw [prunedValue] at gone
  split at gone
  · cases gone
  · rename_i unregistered
    split at gone
    · rename_i nothing
      exact ⟨Option.not_isSome_iff_eq_none.mp unregistered, nothing⟩
    · cases gone

/-! ## What pruning leaves -/

theorem wellFormed_prunedMembers
    (each : ∀ member ∈ members, ∀ keys kept, member.2.WellFormed →
      registry.prunedValue keys member.2 = some kept → kept.WellFormed)
    (known : (Json.obj members).WellFormed) :
    (Json.obj (registry.prunedMembers keys members)).WellFormed := by
  obtain ⟨ascending, inner⟩ := Json.wellFormed_obj.mp known
  refine Json.wellFormed_obj.mpr ⟨?_, fun (name, kept) listed => ?_⟩
  · rw [prunedMembers_eq_filterMap]
    refine List.Pairwise.filterMap _ ?_ ascending
    intro member other less entry stays entry' stays'
    obtain ⟨_, _, rfl⟩ := Option.map_eq_some_iff.mp stays
    obtain ⟨_, _, rfl⟩ := Option.map_eq_some_iff.mp stays'
    exact less
  · obtain ⟨value, listed, stays⟩ := mem_prunedMembers_iff.mp listed
    exact each _ listed _ _ (inner _ listed) stays

theorem wellFormed_prunedValue (known : value.WellFormed)
    (stays : registry.prunedValue keys value = some kept) : kept.WellFormed := by
  induction value using Json.induct generalizing keys kept with
  | null | bool | int | float | str | arr =>
      cases stays
      exact known
  | obj members ih =>
      rcases prunedValue_obj_eq_some stays with ⟨_, rfl⟩ | ⟨_, _, rfl⟩
      · exact known
      · exact wellFormed_prunedMembers (fun member listed _ _ => ih member listed) known

theorem wellFormed_retained {keepEmpty : Bool} (known : (Json.obj members).WellFormed) :
    (Json.obj (registry.retained keepEmpty members)).WellFormed := by
  cases keepEmpty with
  | true => exact known
  | false => exact wellFormed_prunedMembers (fun _ _ _ _ => wellFormed_prunedValue) known

theorem registered_of_follow?_prunedMembers {name : String} {rest : List String}
    (each : ∀ member ∈ members, ∀ kept,
      registry.prunedValue (keys ++ [member.1]) member.2 = some kept →
        FieldPath.follow? (rest.map .key) kept = some (.obj []) →
          ∃ start, start <+: rest ∧
            (registry.directiveForKeys? (keys ++ [member.1] ++ start)).isSome = true)
    (empty : FieldPath.follow? ((name :: rest).map .key)
      (.obj (registry.prunedMembers keys members)) = some (.obj [])) :
    ∃ start, start <+: rest ∧
      (registry.directiveForKeys? (keys ++ name :: start)).isSome = true := by
  obtain ⟨kept, found, empty⟩ := Option.bind_eq_some_iff.mp empty
  obtain ⟨value, listed, stays⟩ := mem_prunedMembers_iff.mp (Entries.mem_of_find? found)
  obtain ⟨start, begins, registered⟩ := each _ listed kept stays empty
  rw [List.append_assoc] at registered
  exact ⟨start, begins, registered⟩

theorem registered_of_follow?_prunedValue {names : List String}
    (stays : registry.prunedValue keys value = some kept)
    (empty : FieldPath.follow? (names.map .key) kept = some (.obj [])) :
    ∃ start, start <+: names ∧ (registry.directiveForKeys? (keys ++ start)).isSome = true := by
  induction value using Json.induct generalizing keys kept names with
  | null | bool | int | float | str | arr =>
      cases stays
      cases names <;> cases empty
  | obj members ih =>
      rcases prunedValue_obj_eq_some stays with ⟨registered, _⟩ | ⟨_, nonempty, rfl⟩
      · exact ⟨[], List.nil_prefix, by rwa [List.append_nil]⟩
      · cases names with
        | nil => exact absurd (Json.obj.inj (Option.some.inj empty)) nonempty
        | cons name rest =>
            obtain ⟨start, begins, registered⟩ := registered_of_follow?_prunedMembers
              (fun member listed _ => ih member listed) empty
            exact ⟨name :: start, List.cons_prefix_cons.mpr ⟨rfl, begins⟩, registered⟩

theorem registered_of_lookup?_pruned {names : List String} (proper : names ≠ [])
    (empty : (FieldPath.ofKeys names).lookup? (.obj (registry.prunedMembers [] members))
      = some (.obj [])) :
    ∃ start, start ≠ [] ∧ start <+: names ∧ (registry.directiveForKeys? start).isSome = true := by
  cases names with
  | nil => exact absurd rfl proper
  | cons name rest =>
      obtain ⟨start, begins, registered⟩ := registered_of_follow?_prunedMembers
        (fun _ _ _ => registered_of_follow?_prunedValue) empty
      exact ⟨name :: start, List.cons_ne_nil _ _, List.cons_prefix_cons.mpr ⟨rfl, begins⟩,
        registered⟩

end FieldRegistry

namespace Leaves

open FieldRegistry

variable {registry : FieldRegistry} {keys : List String} {members : List (String × Json)}
  {leaves order : Leaves}

/-! ## Cutting what pruning leaves -/

theorem ofMembers_pruned
    (each : ∀ member ∈ members, ∀ keys leaves,
      ofValue registry false (.ofKeys keys) member.2 = .ok leaves →
        (registry.prunedValue keys member.2 = none → leaves = []) ∧
          ∀ kept, registry.prunedValue keys member.2 = some kept →
            ofValue registry true (.ofKeys keys) kept = .ok leaves)
    (cut : ofMembers registry false (.ofKeys keys) members = .ok leaves) :
    ofMembers registry true (.ofKeys keys) (registry.prunedMembers keys members) = .ok leaves := by
  induction members generalizing leaves with
  | nil => exact cut
  | cons member rest ih =>
      obtain ⟨plain, front, back, first, later, rfl⟩ := ofMembers_cons_eq_ok cut
      rw [FieldPath.child_ofKeys] at first
      obtain ⟨whenGone, whenKept⟩ := each member List.mem_cons_self _ _ first
      have later := ih (fun other listed => each other (List.mem_cons_of_mem _ listed)) later
      rw [prunedMembers]
      cases pruned : registry.prunedValue (keys ++ [member.1]) member.2 with
      | none =>
          rw [whenGone pruned]
          exact later
      | some kept =>
          simp only [ofMembers, plain, FieldPath.child_ofKeys, whenKept kept pruned, later]
          rfl

theorem ofValue_obj_of_unregistered (unregistered : registry.directiveForKeys? keys = none) :
    ofValue registry false (.ofKeys keys) (.obj members) =
      ofMembers registry false (.ofKeys keys) members := by
  rw [ofValue, FieldRegistry.directive?_ofKeys, unregistered]
  cases members <;> rfl

/-- To leave out empty objects is to cut what pruning leaves. -/
theorem ofValue_pruned {value : Json}
    (cut : ofValue registry false (.ofKeys keys) value = .ok leaves) :
    (registry.prunedValue keys value = none → leaves = []) ∧
      ∀ kept, registry.prunedValue keys value = some kept →
        ofValue registry true (.ofKeys keys) kept = .ok leaves := by
  induction value using Json.induct generalizing keys leaves with
  | null | bool | int | float | str | arr =>
      refine ⟨fun gone => (nomatch gone), fun kept stays => ?_⟩
      cases stays
      exact cut
  | obj members ih =>
      constructor
      · intro gone
        obtain ⟨unregistered, nothing⟩ := prunedValue_obj_eq_none gone
        rw [ofValue_obj_of_unregistered unregistered] at cut
        have cut := ofMembers_pruned (fun member listed _ _ => ih member listed) cut
        rw [nothing] at cut
        cases cut
        rfl
      · intro kept stays
        rcases prunedValue_obj_eq_some stays with ⟨registered, rfl⟩ | ⟨unregistered, nonempty, rfl⟩
        · rwa [ofValue_of_registered registered] at cut ⊢
        · rw [ofValue_obj_of_unregistered unregistered] at cut
          have cut := ofMembers_pruned (fun member listed _ _ => ih member listed) cut
          rw [ofValue, FieldRegistry.directive?_ofKeys, unregistered]
          simpa [nonempty] using cut

theorem ofMembers_retained {keepEmpty : Bool}
    (cut : ofMembers registry keepEmpty .root members = .ok leaves) :
    ofMembers registry true .root (registry.retained keepEmpty members) = .ok leaves := by
  cases keepEmpty with
  | true => exact cut
  | false =>
      rw [← FieldPath.ofKeys_nil] at cut ⊢
      exact ofMembers_pruned (fun _ _ _ _ => ofValue_pruned) cut

/-- What is left of a document is cut into the leaves of the document. -/
theorem ofMembers_retained_eq {keepEmpty : Bool} (known : (Json.obj members).WellFormed)
    (cut : ofMembers registry keepEmpty .root members = .ok leaves) :
    ofMembers registry keepEmpty .root (registry.retained keepEmpty members) = .ok leaves := by
  rw [ofMembers_eq_filter fun member _ path => ofValue_eq_filter path member.2,
    ofMembers_retained cut, Except.map, List.filter_eq_self.mpr]
  exact fun leaf listed => (((ofMembers_spec known cut).2 leaf).mp listed).1

/-! ## Writing the leaves back -/

theorem Separate.perm (separate : Separate registry leaves) (perm : order.Perm leaves) :
    Separate registry order := by
  refine ⟨fun leaf listed => separate.placed leaf (perm.mem_iff.mp listed), ?_⟩
  refine (perm.pairwise_iff ?_).mpr separate.apart
  intro leaf other apart
  rwa [InheritanceSettings.overlaps_comm]

/-- The leaves of a document make it up again, in whatever order they are written. -/
theorem document_of_perm (known : (Json.obj members).WellFormed)
    (cut : ofMembers registry true .root members = .ok leaves) (perm : order.Perm leaves) :
    document order = .obj members := by
  have separate := (separate_of_ofMembers known cut).perm perm
  obtain ⟨written, shape, spine, reached⟩ := document_spec separate
  obtain ⟨_, listed⟩ := ofMembers_spec known cut
  rw [shape]
  -- both documents have the listed leaves, and the leaves determine a document
  refine congrArg Json.obj (eq_of_leafOf_iff spine (spineOf_of_ofMembers known cut) ?_)
  intro names leaf
  rw [reached, perm.mem_iff, listed]
  constructor
  · intro given
    obtain ⟨_, names', same, inside⟩ := given
    rwa [FieldPath.ofKeys_injective same]
  · exact fun inside => ⟨rfl, names, rfl, inside⟩

theorem Separate.beside (separate : Separate registry leaves) :
    leaves.Pairwise fun leaf other => leaf.1 ≠ other.1 ∧
      leaf.1.startsWith other.1 = false ∧ other.1.startsWith leaf.1 = false := by
  refine separate.apart.imp ?_
  intro leaf other apart
  obtain ⟨notBelow, notAbove⟩ := Bool.or_eq_false_iff.mp apart
  exact ⟨InheritanceSettings.ne_of_overlaps apart, notAbove, notBelow⟩

/-- The leaves of a document differ, and none of them lies in another one. In whatever order they
are written into an empty document, every write succeeds, and they make up the same document, which
is cut into them again. It is the original if empty objects are kept, and otherwise what pruning
leaves of it: an object outside arrays is empty there only if it belongs to a registered field. -/
theorem ofMembers_reassembles (registry : FieldRegistry) (keepEmpty : Bool)
    {members : List (String × Json)} {leaves : Leaves} (known : (Json.obj members).WellFormed)
    (cut : ofMembers registry keepEmpty .root members = .ok leaves) :
    leaves.Pairwise (fun leaf other => leaf.1 ≠ other.1 ∧
      leaf.1.startsWith other.1 = false ∧ other.1.startsWith leaf.1 = false) ∧
    (∀ order : Leaves, order.Perm leaves →
      (∀ before leaf after, order = before ++ leaf :: after →
        (leaf.1.insert (document before) leaf.2).2 = true) ∧
      document order = .obj (registry.retained keepEmpty members)) ∧
    ofMembers registry keepEmpty .root (registry.retained keepEmpty members) = .ok leaves ∧
    (keepEmpty = false → ∀ names, names ≠ [] →
      (FieldPath.ofKeys names).lookup? (.obj (registry.retained keepEmpty members))
        = some (.obj []) →
      ∃ start, start ≠ [] ∧ start <+: names ∧
        (registry.directiveForKeys? start).isSome = true) := by
  have separate := separate_of_ofMembers known cut
  refine ⟨separate.beside, fun order perm => ⟨?_, ?_⟩, ofMembers_retained_eq known cut, ?_⟩
  · intro before leaf after split
    have listed : leaf ∈ leaves := by
      rw [← perm.mem_iff, split]
      exact List.mem_append_right _ List.mem_cons_self
    exact insert_succeeds_of_placed (separate.placed leaf listed) _ _
  · exact document_of_perm (wellFormed_retained known) (ofMembers_retained cut) perm
  · intro dropped names proper empty
    subst dropped
    exact registered_of_lookup?_pruned proper empty

/-! ### A draft with empty objects -/

def draft : List (String × Json) :=
  [("controls", .obj [("hitl", .obj [("notes", .obj []), ("required", .bool true)])]),
    ("limits", .obj [("daily", .obj [])]),
    ("min_approvals", .obj []),
    ("steps", .arr [.obj []])]

def draftLeaves : Leaves :=
  [(.ofKeys ["controls", "hitl", "required"], .bool true), (.ofKeys ["min_approvals"], .obj []),
    (.ofKeys ["steps"], .arr [.obj []])]

theorem ofMembers_reassembles_draft :
    (Json.obj draft).WellFormed ∧ ofMembers .standard false .root draft = .ok draftLeaves ∧
      document draftLeaves.reverse = .obj
        [("controls", .obj [("hitl", .obj [("required", .bool true)])]),
          ("min_approvals", .obj []), ("steps", .arr [.obj []])] := by
  have known : (Json.obj draft).WellFormed := by decide
  have cut : ofMembers .standard false .root draft = .ok draftLeaves := rfl
  obtain ⟨_, writes, _⟩ := ofMembers_reassembles .standard false known cut
  obtain ⟨_, whole⟩ := writes _ draftLeaves.reverse_perm
  exact ⟨known, cut, whole.trans (by decide)⟩

end Leaves

end Governance
