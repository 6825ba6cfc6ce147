import Governance.Proofs.Canonical.Equivalence
import Governance.Proofs.Canonical.Listing
import Governance.Proofs.Canonical.Reading
import Governance.Proofs.Json.QuotedOrder

/-!
# The order of members in canonical text

Canonical text lists the members of every object in the order of their quoted keys. That is the
order of the keys themselves exactly if no two keys of one object cross. Where keys cross, the text
departs from the order in which the normal form has them.
-/

set_option autoImplicit false

namespace Governance

/-- Whether some object in a value has its members under a list of keys, in that order. -/
inductive Json.HasKeys : Json → List String → Prop where
  | here {members : List (String × Json)} : HasKeys (.obj members) (members.map Prod.fst)
  | item {items : List Json} {item : Json} {keys : List String} :
      item ∈ items → HasKeys item keys → HasKeys (.arr items) keys
  | member {members : List (String × Json)} {member : String × Json} {keys : List String} :
      member ∈ members → HasKeys member.2 keys → HasKeys (.obj members) keys

namespace Json

theorem hasKeys_arr_iff {items : List Json} {keys : List String} :
    (arr items).HasKeys keys ↔ ∃ item ∈ items, item.HasKeys keys := by
  constructor
  · intro listed
    cases listed with
    | item present inside => exact ⟨_, present, inside⟩
  · intro listed
    obtain ⟨_, present, inside⟩ := listed
    exact .item present inside

theorem hasKeys_obj_iff {members : List (String × Json)} {keys : List String} :
    (obj members).HasKeys keys ↔
      keys = members.map Prod.fst ∨ ∃ member ∈ members, member.2.HasKeys keys := by
  constructor
  · intro listed
    cases listed with
    | here => exact .inl rfl
    | member present inside => exact .inr ⟨_, present, inside⟩
  · intro listed
    rcases listed with rfl | ⟨_, present, inside⟩
    · exact .here
    · exact .member present inside

theorem HasKeys.ascending {value : Json} {keys : List String} (listed : value.HasKeys keys)
    (known : value.WellFormed) : keys.Pairwise (· < ·) := by
  induction listed with
  | here => exact List.pairwise_map.mpr (wellFormed_obj.mp known).1
  | item present _ ih => exact ih (wellFormed_arr.mp known _ present)
  | member present _ ih => exact ih ((wellFormed_obj.mp known).2 _ present)

end Json

namespace Canonical

variable {registry : FieldRegistry}

theorem hasKeys_arranged_iff {path : List String} {value : Json} {keys : List String} :
    (arranged registry path value).HasKeys keys ↔ value.HasKeys keys := by
  induction value using Json.induct generalizing path with
  | null | bool | int | float | str => rfl
  | arr items ih =>
      have same : ∀ list : List Json, list.Perm (arrangedItems registry path items) →
          ((Json.arr list).HasKeys keys ↔ (Json.arr items).HasKeys keys) := by
        intro list perm
        simp only [Json.hasKeys_arr_iff, perm.mem_iff, arrangedItems_eq_map, List.mem_map,
          exists_exists_and_eq_and]
        exact exists_congr fun item => and_congr_right fun present => ih item present
      rw [arranged]
      split
      · exact same _ (sortByText_perm _)
      · exact same _ (List.Perm.refl _)
  | obj members ih =>
      simp only [arranged, arrangedMembers_eq_map, Json.hasKeys_obj_iff, List.map_map,
        List.mem_map, exists_exists_and_eq_and]
      refine or_congr Iff.rfl (exists_congr fun member => and_congr_right fun present => ?_)
      exact ih member present

def writtenKeys (keys : List String) : List String :=
  keys.mergeSort fun a b => decide (Json.quoted a ≤ Json.quoted b)

theorem map_fst_writtenMembers (members : List (String × Json)) :
    (writtenMembers members).map Prod.fst = writtenKeys (members.map Prod.fst) := by
  refine List.map_mergeSort ?_
  intro a _ b _
  rfl

theorem hasKeys_listed_iff {value : Json} {keys : List String} :
    (listed value).HasKeys keys ↔ ∃ given, value.HasKeys given ∧ keys = writtenKeys given := by
  induction value using Json.induct with
  | null | bool | int | float | str =>
      constructor
      · intro inside
        cases inside
      · intro inside
        obtain ⟨_, inside, _⟩ := inside
        cases inside
  | arr items ih =>
      simp only [listed, listedItems_eq_map, Json.hasKeys_arr_iff, List.mem_map,
        exists_exists_and_eq_and]
      constructor
      · intro inside
        obtain ⟨item, present, inside⟩ := inside
        obtain ⟨given, inside, same⟩ := (ih item present).mp inside
        exact ⟨given, ⟨item, present, inside⟩, same⟩
      · intro inside
        obtain ⟨given, ⟨item, present, inside⟩, same⟩ := inside
        exact ⟨item, present, (ih item present).mpr ⟨given, inside, same⟩⟩
  | obj members ih =>
      simp only [listed_obj, Json.hasKeys_obj_iff, List.map_map, List.mem_map,
        exists_exists_and_eq_and, (writtenMembers_perm members).mem_iff]
      constructor
      · intro inside
        rcases inside with same | ⟨member, present, inside⟩
        · exact ⟨_, .inl rfl, same.trans (map_fst_writtenMembers members)⟩
        · obtain ⟨given, inside, same⟩ := (ih member present).mp inside
          exact ⟨given, .inr ⟨member, present, inside⟩, same⟩
      · intro inside
        obtain ⟨given, rfl | ⟨member, present, inside⟩, same⟩ := inside
        · exact .inl (same.trans (map_fst_writtenMembers members).symm)
        · exact .inr ⟨member, present, (ih member present).mpr ⟨given, inside, same⟩⟩

/-! ## One object -/

theorem pairwise_writtenKeys {keys : List String} (ascending : keys.Pairwise (· < ·)) :
    (writtenKeys keys).Pairwise fun a b => Json.quoted a < Json.quoted b := by
  have distinct : (writtenKeys keys).Nodup := by
    refine (List.mergeSort_perm _ _).nodup_iff.mpr (ascending.imp ?_)
    intro a b less same
    exact String.lt_irrefl b (same ▸ less)
  have ordered : (writtenKeys keys).Pairwise fun a b => Json.quoted a ≤ Json.quoted b := by
    refine (List.pairwise_mergeSort ?_ ?_ keys).imp of_decide_eq_true
    · intro a b c first second
      exact decide_eq_true (String.le_trans (of_decide_eq_true first) (of_decide_eq_true second))
    · intro a b
      simpa using String.le_total (Json.quoted a) (Json.quoted b)
  refine (distinct.and ordered).imp fun both => ?_
  obtain ⟨different, notGreater⟩ := both
  refine String.not_le.mp fun turned => different ?_
  exact Json.quoted_injective (String.le_antisymm notGreater turned)

/-- Keys are written in their own order exactly if no two of them cross. -/
theorem ascending_writtenKeys_iff {keys : List String} (ascending : keys.Pairwise (· < ·)) :
    (writtenKeys keys).Pairwise (· < ·) ↔
      keys.Pairwise fun a b => ¬ Json.Crosses a.toList b.toList := by
  have uncrossed : ∀ a b : String, a < b →
      (Json.quoted a ≤ Json.quoted b ↔ ¬ Json.Crosses a.toList b.toList) := by
    intro a b less
    rw [← Json.quoted_lt_quoted_iff less, String.not_lt]
  constructor
  · intro ascending'
    have same : writtenKeys keys = keys := by
      refine List.Perm.eq_of_pairwise ?_ ascending' ascending (List.mergeSort_perm _ _)
      intro a b _ _ less greater
      exact absurd (String.lt_trans less greater) (String.lt_irrefl a)
    have ordered := pairwise_writtenKeys ascending
    rw [same] at ordered
    refine (ascending.and ordered).imp fun both => ?_
    exact (uncrossed _ _ both.1).mp (String.not_lt.mp (String.lt_asymm both.2))
  · intro apart
    have ordered : keys.Pairwise fun a b => decide (Json.quoted a ≤ Json.quoted b) = true :=
      (ascending.and apart).imp fun both => decide_eq_true ((uncrossed _ _ both.1).mpr both.2)
    rw [writtenKeys, List.mergeSort_of_pairwise ordered]
    exact ascending

/-! ## Whole texts -/

/-- The canonical text of a value without floats is the compact text of one listing of its normal
form, and of no other value. There the keys of every object ascend as they are quoted; they ascend
by themselves exactly if no two keys of one object cross. -/
theorem textAt_memberOrder (registry : FieldRegistry) (path : FieldPath) (value : Json)
    (known : value.WellFormed) (free : value.floatFree = true) :
    ∃ written listing, textAt registry path value = .ok written ∧
      valueAt registry path value = .ok listing.normalized ∧
      written = listing.compact ∧
      (∀ other : Json, other.legible = true → written = other.compact → other = listing) ∧
      (∀ keys, listing.HasKeys keys → keys.Pairwise fun a b => Json.quoted a < Json.quoted b) ∧
      ((∀ keys, listing.HasKeys keys → keys.Pairwise (· < ·)) ↔
        ∀ keys, value.HasKeys keys →
          keys.Pairwise fun a b => ¬ Json.Crosses a.toList b.toList) := by
  have known' := @wellFormed_arranged registry path.keys value known
  have legible := legible_listed (Json.legible_of_wellFormed known' (floatFree_arranged registry free))
  have keys_iff : ∀ keys, (listed (arranged registry path.keys value)).HasKeys keys ↔
      ∃ given, value.HasKeys given ∧ keys = writtenKeys given := by
    intro keys
    simp only [hasKeys_listed_iff, hasKeys_arranged_iff]
  refine ⟨_, listed (arranged registry path.keys value), textAt_eq free, ?_, text_eq_compact _, ?_,
    ?_, ?_⟩
  · rw [normalized_listed known']
    exact normalize_eq_arranged registry free
  · intro other readable same
    exact Json.compact_injective readable legible (same.symm.trans (text_eq_compact _))
  · intro keys inside
    obtain ⟨given, inside', rfl⟩ := (keys_iff keys).mp inside
    exact pairwise_writtenKeys (inside'.ascending known)
  · constructor
    · intro each keys inside
      exact (ascending_writtenKeys_iff (inside.ascending known)).mp
        (each _ ((keys_iff _).mpr ⟨keys, inside, rfl⟩))
    · intro each keys inside
      obtain ⟨given, inside', rfl⟩ := (keys_iff keys).mp inside
      exact (ascending_writtenKeys_iff (inside'.ascending known)).mpr (each given inside')

/-- Two keys of which one goes on from the other with a blank. -/
def crossingKeys : Json := .obj [("a", .int 1), ("a b", .int 2)]

theorem crosses_blank : Json.Crosses "a".toList "a b".toList :=
  .behind (.shorter (.inl rfl))

theorem textAt_memberOrder_crossingKeys : ∃ (written : String) (listing : Json),
    textAt .standard .root crossingKeys = .ok written ∧ written = listing.compact ∧
      ¬ ∀ keys, listing.HasKeys keys → keys.Pairwise (· < ·) := by
  obtain ⟨written, listing, done, _, same, _, _, order⟩ :=
    textAt_memberOrder .standard .root crossingKeys (by decide) (by decide)
  refine ⟨written, listing, done, same, fun each => ?_⟩
  have apart := order.mp each ["a", "a b"] .here
  exact List.rel_of_pairwise_cons apart (List.mem_singleton_self _) crosses_blank

theorem listed_crossingKeys : listed crossingKeys = .obj [("a b", .int 2), ("a", .int 1)] := by
  have turned : Json.quoted "a b" < Json.quoted "a" :=
    (Json.quoted_lt_quoted_iff (by decide)).mpr crosses_blank
  simp [crossingKeys, listed_obj, writtenMembers, List.mergeSort, turned, listed]

/-- Keys that cross are not in order in the text, nor where the text is read. -/
theorem keys_not_ascending_in_text : ∃ listing : Json,
    textAt .standard .root crossingKeys = .ok "\x7b\"a b\":2,\"a\":1\x7d" ∧
      Json.parse? .any "\x7b\"a b\":2,\"a\":1\x7d" = some listing ∧
      listing.HasKeys ["a b", "a"] ∧ ¬ ["a b", "a"].Pairwise (· < ·) := by
  have written : (listed crossingKeys).compact = "\x7b\"a b\":2,\"a\":1\x7d" := by
    rw [listed_crossingKeys]
    rfl
  have arrangedSame : arranged .standard FieldPath.root.keys crossingKeys = crossingKeys := rfl
  refine ⟨listed crossingKeys, ?_, ?_, ?_, by decide⟩
  · rw [textAt_eq rfl, arrangedSame, text_eq_compact, written]
  · rw [← written]
    exact Json.parse?_of_spells (List.append_nil _).symm
      (Json.spells_compact (legible_listed (by decide))) Json.blank_nil
      (nesting_listed_iff.mpr (by decide))
  · rw [listed_crossingKeys]
    exact .here

end Canonical

end Governance
