import Governance.Effective.Compute
import Governance.Proofs.Effective.Leaves

/-!
# The document of some fields

Writing fields into an empty document, one after another. As long as no field lies in another one,
every write succeeds and leaves the earlier fields alone, so the leaves of the finished document
are the fields that were written.
-/

set_option autoImplicit false

namespace Governance

namespace FieldRegistry

variable {registry : FieldRegistry} {keys : List String}

/-! ## Putting a member -/

theorem leafOf_nil {names : List String} {leaf : Json} : ¬ registry.LeafOf keys [] names leaf := by
  intro given
  obtain ⟨name, inner, rest, _, found, _⟩ := given
  cases found

theorem leafOf_cons_iff {members : List (String × Json)} {name : String} {rest : List String}
    {leaf : Json} :
    registry.LeafOf keys members (name :: rest) leaf ↔
      ∃ inner, Entries.find? name members = some inner ∧
        registry.LeafAt (keys ++ [name]) inner rest leaf := by
  constructor
  · intro given
    obtain ⟨_, inner, _, same, found, inside⟩ := given
    cases same
    exact ⟨inner, found, inside⟩
  · intro given
    obtain ⟨inner, found, inside⟩ := given
    exact ⟨name, inner, rest, rfl, found, inside⟩

theorem not_leafOf_nil {members : List (String × Json)} {leaf : Json} :
    ¬ registry.LeafOf keys members [] leaf := by
  intro given
  obtain ⟨_, _, _, same, _⟩ := given
  cases same

theorem leafOf_put_iff {members : List (String × Json)} {name : String} {inner : Json}
    {added : List String → Json → Prop}
    (change : ∀ rest leaf, registry.LeafAt (keys ++ [name]) inner rest leaf ↔
      added rest leaf ∨ registry.LeafOf keys members (name :: rest) leaf)
    {names : List String} {leaf : Json} :
    registry.LeafOf keys (Entries.put name inner members) names leaf ↔
      (∃ rest, names = name :: rest ∧ added rest leaf) ∨ registry.LeafOf keys members names leaf := by
  cases names with
  | nil => simp [not_leafOf_nil]
  | cons first rest =>
      rw [leafOf_cons_iff]
      by_cases same : name = first
      · subst same
        have found : ∀ value, Entries.find? name (Entries.put name inner members) = some value ↔
            inner = value := by
          intro value
          rw [Entries.find?_put, if_pos rfl, Option.some.injEq]
        simp only [found, exists_eq_left', change, List.cons.injEq, true_and]
      · have kept : Entries.find? first (Entries.put name inner members)
            = Entries.find? first members := by
          rw [Entries.find?_put, if_neg same]
        simp only [kept, List.cons.injEq, Ne.symm same, false_and, exists_const, false_or]
        exact leafOf_cons_iff.symm

/-! ## Writing a field -/

theorem write_succeeds (names : List String) (document value : Json) :
    (FieldPath.write (names.map .key) document value).2 = true := by
  induction names generalizing document with
  | nil => rfl
  | cons name rest ih => exact ih _

theorem insert_succeeds_of_placed {field : FieldPath} {declared : Json}
    (placed : registry.Placed field declared) (document value : Json) :
    (field.insert document value).2 = true := by
  obtain ⟨name, _, names, rfl, _⟩ := placed
  exact write_succeeds _ _ _

theorem leafAt_write_iff {rest : List String} {old : Option Json} {value : Json}
    (walkable : registry.Walkable keys rest) (ends : registry.EndsAt (keys ++ rest) value)
    (apart : ∀ inner, old = some inner → ∀ names leaf, registry.LeafAt keys inner names leaf →
      ¬ names <+: rest ∧ ¬ rest <+: names)
    {names : List String} {leaf : Json} :
    registry.LeafAt keys (FieldPath.write (rest.map .key) (old.getD .null) value).1 names leaf ↔
      (names = rest ∧ leaf = value) ∨
        ∃ inner, old = some inner ∧ registry.LeafAt keys inner names leaf := by
  induction rest generalizing keys old names leaf with
  | nil =>
      rw [List.append_nil] at ends
      rw [List.map_nil, FieldPath.write, leafAt_iff_of_endsAt ends, eq_comm (a := leaf)]
      refine (or_iff_left ?_).symm
      intro given
      obtain ⟨inner, present, reached⟩ := given
      exact (apart inner present names leaf reached).2 List.nil_prefix
  | cons name rest ih =>
      obtain ⟨unregistered, _, walkable⟩ := walkable
      -- what is there is entered, because a leaf here would lie above the field
      have entered : ∀ names leaf,
          (∃ inner, old = some inner ∧ registry.LeafAt keys inner names leaf) ↔
            registry.LeafOf keys (FieldPath.membersOf (old.getD .null)) names leaf := by
        intro names leaf
        cases old with
        | none => simp [FieldPath.membersOf, leafOf_nil]
        | some inner =>
            have open_end : ¬ registry.EndsAt keys inner := fun ends =>
              (apart inner rfl [] inner (.here ends)).1 List.nil_prefix
            cases inner with
            | null | bool | int | float | str | arr =>
                exact absurd (endsAt_of_not_object rfl) open_end
            | obj members =>
                have nonempty : members ≠ [] := by
                  intro equal
                  subst equal
                  exact open_end fun _ => .inl rfl
                simp [FieldPath.membersOf, leafAt_obj_iff unregistered nonempty]
      rw [List.map_cons, FieldPath.write, leafAt_obj_iff unregistered Entries.put_ne_nil,
        @leafOf_put_iff _ _ _ _ _ (fun names leaf => names = rest ∧ leaf = value), entered]
      · refine or_congr_left ⟨?_, ?_⟩
        · intro given
          obtain ⟨_, rfl, rfl, same⟩ := given
          exact ⟨rfl, same⟩
        · intro given
          obtain ⟨rfl, same⟩ := given
          exact ⟨rest, rfl, rfl, same⟩
      · intro names leaf
        rw [leafOf_cons_iff]
        refine @ih _ (Entries.find? name _) walkable (by rwa [List.append_assoc]) ?_ names leaf
        intro inner found names leaf reached
        have below := (entered (name :: names) leaf).mpr (leafOf_cons_iff.mpr ⟨inner, found, reached⟩)
        obtain ⟨outer, present, reached⟩ := below
        have parted := apart outer present _ leaf reached
        simpa only [List.cons_prefix_cons, true_and] using parted

structure SpineOf (registry : FieldRegistry) (keys : List String) (members : List (String × Json)) :
    Prop where
  ascending : Entries.Ascending members
  plain : ∀ member ∈ members, FieldPath.isPlainKey member.1 = true
  inner : ∀ member ∈ members, registry.Spine (keys ++ [member.1]) member.2

theorem spineOf_nil : registry.SpineOf keys [] :=
  ⟨List.Pairwise.nil, List.forall_mem_nil _, List.forall_mem_nil _⟩

theorem spineOf_put {members : List (String × Json)} (spine : registry.SpineOf keys members)
    {name : String} {inner : Json} (plain : FieldPath.isPlainKey name = true)
    (spine' : registry.Spine (keys ++ [name]) inner) :
    registry.SpineOf keys (Entries.put name inner members) :=
  ⟨Entries.put_ascending spine.ascending, Entries.forall_mem_put plain spine.plain,
    Entries.forall_mem_put spine' spine.inner⟩

theorem spineOf_membersOf {old : Option Json} (unregistered : registry.directiveForKeys? keys = none)
    (spine : ∀ inner, old = some inner → registry.Spine keys inner) :
    registry.SpineOf keys (FieldPath.membersOf (old.getD .null)) := by
  cases old with
  | none => exact spineOf_nil
  | some inner =>
      cases spine inner rfl with
      | object ascending plain below => exact ⟨ascending, plain, below⟩
      | leaf ends =>
          cases inner with
          | null | bool | int | float | str | arr => exact spineOf_nil
          | obj members =>
              rcases ends rfl with empty | registered
              · cases empty
                exact spineOf_nil
              · rw [unregistered] at registered
                cases registered

theorem spine_write {rest : List String} {old : Option Json} {value : Json}
    (walkable : registry.Walkable keys rest) (ends : registry.EndsAt (keys ++ rest) value)
    (spine : ∀ inner, old = some inner → registry.Spine keys inner) :
    registry.Spine keys (FieldPath.write (rest.map .key) (old.getD .null) value).1 := by
  induction rest generalizing keys old with
  | nil =>
      rw [List.append_nil] at ends
      exact .leaf ends
  | cons name rest ih =>
      obtain ⟨unregistered, plain, walkable⟩ := walkable
      have outer := spineOf_membersOf unregistered spine
      rw [List.map_cons, FieldPath.write]
      have put := spineOf_put outer plain (ih walkable (by rwa [List.append_assoc])
        fun inner found => outer.inner _ (Entries.mem_of_find? found))
      exact .object put.ascending put.plain put.inner

end FieldRegistry

/-! ## Writing all fields -/

namespace Leaves

open FieldRegistry

variable {registry : FieldRegistry}

def document (leaves : Leaves) : Json :=
  leaves.foldl (fun document leaf => (leaf.1.insert document leaf.2).1) (.obj [])

structure Separate (registry : FieldRegistry) (leaves : Leaves) : Prop where
  placed : ∀ leaf ∈ leaves, registry.Placed leaf.1 leaf.2
  apart : leaves.Pairwise fun leaf other => InheritanceSettings.overlaps leaf.1 other.1 = false

theorem document_append (leaves : Leaves) (leaf : FieldPath × Json) :
    document (leaves ++ [leaf]) = (leaf.1.insert (document leaves) leaf.2).1 := by
  rw [document, document, List.foldl_append]
  rfl

/-- The document of separate fields has these fields as its leaves. -/
theorem document_spec {leaves : Leaves} (separate : Separate registry leaves) :
    ∃ members, document leaves = .obj members ∧ registry.SpineOf [] members ∧
      ∀ names value, registry.LeafOf [] members names value ↔ (.ofKeys names, value) ∈ leaves := by
  induction leaves using List.reverseRecOn with
  | nil => exact ⟨[], rfl, spineOf_nil, fun names value => by simp [leafOf_nil]⟩
  | append_singleton leaves leaf ih =>
      obtain ⟨placed, apart⟩ := separate
      obtain ⟨apart, -, parted⟩ := List.pairwise_append.mp apart
      obtain ⟨members, shape, spine, spec⟩ :=
        ih ⟨fun other listed => placed other (List.mem_append_left _ listed), apart⟩
      obtain ⟨name, plain, rest, field, walkable, ends⟩ :=
        placed leaf (List.mem_append_right _ List.mem_cons_self)
      obtain ⟨path, value⟩ := leaf
      simp only at field ends
      subst field
      -- the earlier fields lie beside the new one
      have beside : ∀ names other, registry.LeafOf [] members names other →
          ¬ names <+: name :: rest ∧ ¬ name :: rest <+: names := by
        intro names other reached
        have noOverlap := parted _ ((spec names other).mp reached) _ List.mem_cons_self
        simp only [InheritanceSettings.overlaps, Bool.or_eq_false_iff, List.singleton_append] at noOverlap
        rw [← Bool.not_eq_true, ← Bool.not_eq_true, FieldPath.startsWith_ofKeys_iff,
          FieldPath.startsWith_ofKeys_iff] at noOverlap
        exact noOverlap
      have written := @leafAt_write_iff registry [name] rest (Entries.find? name members) value
        walkable ends fun inner found names other reached => by
          have parted := beside _ other (leafOf_cons_iff.mpr ⟨inner, found, reached⟩)
          simpa only [List.cons_prefix_cons, true_and] using parted
      refine ⟨Entries.put name _ members, ?_, spineOf_put spine plain (spine_write walkable ends
        fun inner found => spine.inner _ (Entries.mem_of_find? found)), fun names other => ?_⟩
      · rw [document_append, shape]
        rfl
      · rw [@leafOf_put_iff _ _ _ _ _ (fun names other => names = rest ∧ other = value), spec,
          List.mem_append, List.mem_singleton, or_comm]
        · refine or_congr_right ⟨?_, fun same => ?_⟩
          · intro given
            obtain ⟨_, rfl, rfl, rfl⟩ := given
            rfl
          · obtain ⟨sameField, rfl⟩ := Prod.ext_iff.mp same
            exact ⟨rest, FieldPath.ofKeys_injective sameField, rfl, rfl⟩
        · intro names other
          rw [leafOf_cons_iff]
          exact written

/-! ## Properties of the document -/

/-- Writing a value into a document keeps what both of them inherit. -/
theorem holds_write {holds : Json → Prop} (hereditary : Json.Hereditary holds)
    {segments : List Segment} {document value : Json} (held : holds document)
    (held' : holds value) : holds (FieldPath.write segments document value).1 := by
  induction segments generalizing document with
  | nil => exact held'
  | cons segment rest ih =>
      cases segment with
      | key name =>
          have outer : holds (.obj (FieldPath.membersOf document)) := by
            cases document with
            | obj members => exact held
            | null | bool | int | float | str | arr => exact hereditary.empty
          have old := Json.getD_find?_null hereditary.null (hereditary.member outer) name
          exact hereditary.put outer (ih old)
      | index position =>
          cases document with
          | arr items =>
              rw [FieldPath.write]
              cases found : items[position.toNat]? with
              | none => exact held
              | some item =>
                  refine hereditary.items.mpr fun other listed => ?_
                  rcases List.mem_or_eq_of_mem_set listed with old | new
                  · exact hereditary.items.mp held other old
                  · exact new ▸ ih (hereditary.items.mp held item (List.mem_of_getElem? found))
          | null | bool | int | float | str | obj => exact held

theorem holds_document {holds : Json → Prop} (hereditary : Json.Hereditary holds)
    {leaves : Leaves} (held : ∀ leaf ∈ leaves, holds leaf.2) : holds (document leaves) := by
  induction leaves using List.reverseRecOn with
  | nil => exact hereditary.empty
  | append_singleton leaves leaf ih =>
      rw [document_append]
      exact holds_write hereditary (ih fun other listed => held other (List.mem_append_left _ listed))
        (held leaf (List.mem_append_right _ List.mem_cons_self))

end Leaves

end Governance
