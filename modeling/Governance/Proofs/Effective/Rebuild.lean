import Governance.Proofs.Effective.Document

/-!
# Documents with the same leaves

A document is determined by its leaves, as far as the walk goes. Below every member there is a leaf,
because an object without members is one itself, so not even an empty object gets lost. Putting the
members of one object into another one puts their leaves, and leaves the other members alone.
-/

set_option autoImplicit false

namespace Governance.FieldRegistry

variable {registry : FieldRegistry} {keys : List String} {members others : List (String × Json)}

/-! ## Leaves below members -/

theorem exists_leafAt {value : Json} (spine : registry.Spine keys value) :
    ∃ names leaf, registry.LeafAt keys value names leaf := by
  induction spine with
  | leaf ends => exact ⟨[], _, .here ends⟩
  | @object keys members ascending _ _ ih =>
      by_cases ends : registry.EndsAt keys (.obj members)
      · exact ⟨[], _, .here ends⟩
      · obtain ⟨unregistered, nonempty⟩ := entered_of_not_endsAt ends
        obtain ⟨member, present⟩ := List.exists_mem_of_ne_nil members nonempty
        obtain ⟨names, leaf, reached⟩ := ih member present
        exact ⟨member.1 :: names, leaf,
          .under unregistered ((Entries.find?_eq_some_iff ascending).mpr present) reached⟩

theorem exists_find?_iff_leafOf (spine : registry.SpineOf keys members) {name : String} :
    (∃ inner, Entries.find? name members = some inner) ↔
      ∃ rest leaf, registry.LeafOf keys members (name :: rest) leaf := by
  constructor
  · intro found
    obtain ⟨inner, found⟩ := found
    obtain ⟨rest, leaf, reached⟩ := exists_leafAt (spine.inner _ (Entries.mem_of_find? found))
    exact ⟨rest, leaf, leafOf_cons_iff.mpr ⟨inner, found, reached⟩⟩
  · intro reached
    obtain ⟨rest, leaf, reached⟩ := reached
    obtain ⟨inner, found, _⟩ := leafOf_cons_iff.mp reached
    exact ⟨inner, found⟩

/-! ## One document for given leaves -/

theorem members_eq_of_leafOf_iff (spine : registry.SpineOf keys members)
    (spine' : registry.SpineOf keys others)
    (each : ∀ member ∈ members, ∀ other, registry.Spine (keys ++ [member.1]) other →
      (∀ names leaf, registry.LeafAt (keys ++ [member.1]) member.2 names leaf ↔
        registry.LeafAt (keys ++ [member.1]) other names leaf) → member.2 = other)
    (same : ∀ names leaf, registry.LeafOf keys members names leaf ↔
      registry.LeafOf keys others names leaf) : members = others := by
  have present : ∀ name, (∃ inner, Entries.find? name members = some inner) ↔
      ∃ inner, Entries.find? name others = some inner := by
    intro name
    simp only [exists_find?_iff_leafOf spine, exists_find?_iff_leafOf spine', same]
  refine Entries.eq_of_find?_eq spine.ascending spine'.ascending fun name => ?_
  cases found : Entries.find? name members with
  | none =>
      cases found' : Entries.find? name others with
      | none => rfl
      | some inner' =>
          obtain ⟨inner, found''⟩ := (present name).mpr ⟨inner', found'⟩
          rw [found] at found''
          cases found''
  | some inner =>
      obtain ⟨inner', found'⟩ := (present name).mp ⟨inner, found⟩
      rw [found']
      refine congrArg some (each _ (Entries.mem_of_find? found) inner'
        (spine'.inner _ (Entries.mem_of_find? found')) fun names leaf => ?_)
      have below := same (name :: names) leaf
      rw [leafOf_cons_iff, leafOf_cons_iff, found, found'] at below
      simpa only [Option.some.injEq, exists_eq_left'] using below

theorem eq_of_endsAt {value other : Json} (ends : registry.EndsAt keys value)
    (same : ∀ names leaf, registry.LeafAt keys value names leaf ↔
      registry.LeafAt keys other names leaf) : value = other := by
  have reached := (same [] value).mp (.here ends)
  cases reached
  rfl

theorem eq_of_leafAt_iff {value other : Json} (spine : registry.Spine keys value)
    (spine' : registry.Spine keys other)
    (same : ∀ names leaf, registry.LeafAt keys value names leaf ↔
      registry.LeafAt keys other names leaf) : value = other := by
  induction spine generalizing other with
  | leaf ends => exact eq_of_endsAt ends same
  | @object keys members ascending plain inner ih =>
      have same' := fun names leaf => (same names leaf).symm
      by_cases ends : registry.EndsAt keys (.obj members)
      · exact eq_of_endsAt ends same
      · cases spine' with
        | leaf ends' => exact (eq_of_endsAt ends' same').symm
        | @object _ others ascending' plain' inner' =>
            by_cases ends' : registry.EndsAt keys (.obj others)
            · exact (eq_of_endsAt ends' same').symm
            · -- the walk enters both objects, so their leaves are those of their members
              obtain ⟨unregistered, nonempty⟩ := entered_of_not_endsAt ends
              obtain ⟨_, nonempty'⟩ := entered_of_not_endsAt ends'
              simp only [leafAt_obj_iff unregistered nonempty,
                leafAt_obj_iff unregistered nonempty'] at same
              exact congrArg Json.obj (members_eq_of_leafOf_iff ⟨ascending, plain, inner⟩
                ⟨ascending', plain', inner'⟩ (fun member present _ => ih member present) same)

theorem eq_of_leafOf_iff (spine : registry.SpineOf keys members)
    (spine' : registry.SpineOf keys others)
    (same : ∀ names leaf, registry.LeafOf keys members names leaf ↔
      registry.LeafOf keys others names leaf) : members = others :=
  members_eq_of_leafOf_iff spine spine'
    (fun member present _ => eq_of_leafAt_iff (spine.inner member present)) same

/-! ## Putting all members of an object -/

theorem spineOf_putAll (plain : ∀ member ∈ members, FieldPath.isPlainKey member.1 = true)
    (inner : ∀ member ∈ members, registry.Spine (keys ++ [member.1]) member.2)
    (spine : registry.SpineOf keys others) :
    registry.SpineOf keys (Entries.putAll members others) := by
  induction members generalizing others with
  | nil => exact spine
  | cons member rest ih =>
      refine ih (fun later present => plain later (List.mem_cons_of_mem _ present))
        (fun later present => inner later (List.mem_cons_of_mem _ present)) ?_
      exact spineOf_put spine (plain member List.mem_cons_self) (inner member List.mem_cons_self)

theorem leafOf_putAll_iff (ascending : Entries.Ascending members) {name : String}
    {rest : List String} {leaf : Json} :
    registry.LeafOf keys (Entries.putAll members others) (name :: rest) leaf ↔
      registry.LeafOf keys members (name :: rest) leaf ∨
        Entries.find? name members = none ∧ registry.LeafOf keys others (name :: rest) leaf := by
  simp only [leafOf_cons_iff, Entries.find?_putAll name ascending]
  cases found : Entries.find? name members with
  | none => simp
  | some inner => simp

end Governance.FieldRegistry
