import Governance.Proofs.Canonical.Settled
import Governance.Proofs.FieldPath.Access

/-!
# Parts of a normal form

A path leads through the normal form of a document as it leads through the document, as long as it
takes no position in a set. What it leads to is the part of the document, normalized at the path. So
a single field may be normalized and compared at its path with no regard to the rest.
-/

set_option autoImplicit false

namespace Governance

/-! ## Paths that do not depend on the order of a set -/

namespace FieldRegistry

/-- Whether no position among segments that lead on from a sequence of keys is one in a set. -/
def KeepsPlacesFrom (registry : FieldRegistry) (keys : List String) (segments : List Segment) :
    Prop :=
  ∀ before position after, segments = before ++ .index position :: after →
    registry.isOrderless (keys ++ (FieldPath.mk before).keys) = false

variable {registry : FieldRegistry} {keys : List String} {segment : Segment} {rest : List Segment}

theorem keepsPlacesFrom_cons_iff :
    registry.KeepsPlacesFrom keys (segment :: rest) ↔
      (segment.key? = none → registry.isOrderless keys = false) ∧
        registry.KeepsPlacesFrom (keys ++ (FieldPath.mk [segment]).keys) rest := by
  have onwards (before : List Segment) : keys ++ (FieldPath.mk (segment :: before)).keys =
      keys ++ (FieldPath.mk [segment]).keys ++ (FieldPath.mk before).keys := by
    rw [FieldPath.keys_cons, List.append_assoc]
  constructor
  · intro keeps
    refine ⟨fun noKey => ?_, fun before position after split => ?_⟩
    · cases segment with
      | key name => cases noKey
      | index position =>
          have here := keeps [] position rest rfl
          rwa [FieldPath.keys, List.filterMap_nil, List.append_nil] at here
    · rw [← onwards]
      exact keeps (segment :: before) position after (congrArg (segment :: ·) split)
  · intro each before position after split
    cases before with
    | nil =>
        cases split
        rw [FieldPath.keys, List.filterMap_nil, List.append_nil]
        exact each.1 rfl
    | cons first before =>
        cases split
        rw [onwards]
        exact each.2 before position after rfl

instance decidableKeepsPlacesFrom (registry : FieldRegistry) :
    (keys : List String) → (segments : List Segment) →
      Decidable (registry.KeepsPlacesFrom keys segments)
  | _, [] => isTrue fun _ _ _ split => by simp at split
  | keys, segment :: rest =>
      have := decidableKeepsPlacesFrom registry (keys ++ (FieldPath.mk [segment]).keys) rest
      decidable_of_iff' _ keepsPlacesFrom_cons_iff

def KeepsPlaces (registry : FieldRegistry) (path : FieldPath) : Prop :=
  registry.KeepsPlacesFrom [] path.segments

instance (registry : FieldRegistry) (path : FieldPath) : Decidable (registry.KeepsPlaces path) :=
  inferInstanceAs (Decidable (registry.KeepsPlacesFrom [] path.segments))

end FieldRegistry

namespace Canonical

variable {registry : FieldRegistry} {keys : List String}

theorem find?_arrangedMembers (name : String) (members : List (String × Json)) :
    Entries.find? name (arrangedMembers registry keys members) =
      (Entries.find? name members).map (arranged registry (keys ++ [name])) := by
  induction members with
  | nil => rfl
  | cons member rest ih =>
      obtain ⟨key, value⟩ := member
      by_cases named : key = name
      · subst named
        simp [arrangedMembers, Entries.find?]
      · simp [arrangedMembers, Entries.find?, named, ih]

theorem step?_arranged {segment : Segment} {value : Json}
    (ordered : segment.key? = none → registry.isOrderless keys = false) :
    FieldPath.step? segment (arranged registry keys value) =
      (FieldPath.step? segment value).map
        (arranged registry (keys ++ (FieldPath.mk [segment]).keys)) := by
  cases segment with
  | key name =>
      cases value with
      | obj members => exact find?_arrangedMembers name members
      | null | bool | int | float | str | arr => rfl
  | index position =>
      cases value with
      | arr items =>
          rw [arranged, ordered rfl, if_neg Bool.false_ne_true, arrangedItems_eq_map]
          change (items.map (arranged registry keys))[position.toNat]? =
            items[position.toNat]?.map (arranged registry (keys ++ []))
          rw [List.getElem?_map, List.append_nil]
      | null | bool | int | float | str | obj => rfl

theorem follow?_arranged {segments : List Segment} {value : Json}
    (keeps : registry.KeepsPlacesFrom keys segments) :
    FieldPath.follow? segments (arranged registry keys value) =
      (FieldPath.follow? segments value).map
        (arranged registry (keys ++ (FieldPath.mk segments).keys)) := by
  induction segments generalizing keys value with
  | nil =>
      rw [FieldPath.keys, List.filterMap_nil, List.append_nil]
      rfl
  | cons segment rest ih =>
      obtain ⟨ordered, later⟩ := FieldRegistry.keepsPlacesFrom_cons_iff.mp keeps
      rw [FieldPath.follow?_cons, FieldPath.follow?_cons, step?_arranged ordered]
      cases FieldPath.step? segment value with
      | none => rfl
      | some inner =>
          rw [Option.map_some, Option.bind_some, Option.bind_some, ih later, List.append_assoc,
            ← FieldPath.keys_cons]

theorem lookup?_arranged {path : FieldPath} {document : Json} (keeps : registry.KeepsPlaces path) :
    path.lookup? (arranged registry [] document) =
      (path.lookup? document).map (arranged registry path.keys) :=
  @follow?_arranged registry [] path.segments document keeps

/-- A document without floats has a normal form, and a path that takes no position in a set leads
nowhere in it or to the normal form of what it leads to in the document. -/
theorem valueAt_part (registry : FieldRegistry) (document : Json)
    (free : document.floatFree = true) :
    ∃ whole, valueAt registry .root document = .ok whole ∧
      ∀ path, registry.KeepsPlaces path →
        (∀ value, path.lookup? document = some value →
          ∃ part, valueAt registry path value = .ok part ∧ path.lookup? whole = some part) ∧
        (path.lookup? document = none → path.lookup? whole = none) := by
  refine ⟨arranged registry [] document, normalize_eq_arranged registry free, ?_⟩
  intro path keeps
  rw [lookup?_arranged keeps]
  refine ⟨fun value found => ?_, fun missing => ?_⟩
  · have partFree : value.floatFree = true := Json.hereditary_floatFree.follow? free found
    refine ⟨arranged registry path.keys value, normalize_eq_arranged registry partFree, ?_⟩
    rw [found, Option.map_some]
  · rw [missing, Option.map_none]

/-! ### Tags of review stages -/

def tagRegistry : FieldRegistry :=
  FieldRegistry.empty.register (.ofKeys ["stages", "tags"]) (.set .stringArray .moreIsStricter)

def taggedStages (first second : List Json) : Json :=
  .obj [("stages", .arr [.obj [("tags", .arr first)], .obj [("tags", .arr second)]])]

theorem valueAt_part_secondTags :
    ∃ whole, valueAt tagRegistry .root (taggedStages [.str "z", .str "a"] [.str "m", .str "b"])
        = .ok whole ∧
      (((FieldPath.ofKeys ["stages"]).index 1).child "tags").lookup? whole
        = some (.arr [.str "b", .str "m"]) := by
  obtain ⟨whole, done, parts⟩ := valueAt_part tagRegistry
    (taggedStages [.str "z", .str "a"] [.str "m", .str "b"]) (by decide)
  obtain ⟨leads, _⟩ := parts (((FieldPath.ofKeys ["stages"]).index 1).child "tags") (by decide)
  obtain ⟨part, normal, reached⟩ := leads (.arr [.str "m", .str "b"]) (by decide)
  have sorted : sortByText [.str "m", .str "b"] = [.str "b", .str "m"] :=
    (eq_sortByText (by decide) (by decide) (by decide) (by decide)).symm
  rw [valueAt, normalize_eq_arranged _ (by decide), arranged, if_pos (by decide),
    arrangedItems_eq_map] at normal
  cases normal
  exact ⟨whole, done, reached.trans (congrArg (some ∘ Json.arr) sorted)⟩

end Canonical

end Governance
