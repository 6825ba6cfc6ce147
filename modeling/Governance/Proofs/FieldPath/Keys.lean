import Governance.FieldPath.Basic
import Mathlib.Data.List.Infix

/-!
# Paths of keys

Beginnings of paths, and the paths that consist of keys alone, which are those of the fields of a
policy.
-/

set_option autoImplicit false

namespace Governance.FieldPath

/-! ## Beginnings -/

theorem startsWith_iff {path start : FieldPath} :
    path.startsWith start = true ↔ start.segments <+: path.segments := by
  rw [startsWith, List.isPrefixOf_iff_prefix]

theorem startsWith_or_startsWith {path start other : FieldPath}
    (first : path.startsWith start = true) (second : path.startsWith other = true) :
    start.startsWith other = true ∨ other.startsWith start = true := by
  rw [startsWith_iff] at *
  rcases List.prefix_or_prefix_of_prefix first second with shorter | longer
  · exact .inr (startsWith_iff.mpr shorter)
  · exact .inl longer

theorem take_of_startsWith {path start : FieldPath} (begins : path.startsWith start = true) :
    path.take start.segments.length = start := by
  obtain ⟨segments⟩ := start
  exact congrArg mk (List.prefix_iff_eq_take.mp (startsWith_iff.mp begins)).symm

theorem startsWith_take (path : FieldPath) (count : Nat) :
    path.startsWith (path.take count) = true :=
  startsWith_iff.mpr (List.take_prefix _ _)

/-! ## Keys -/

theorem keys_cons (segment : Segment) (rest : List Segment) :
    (mk (segment :: rest)).keys = (mk [segment]).keys ++ (mk rest).keys :=
  @List.filterMap_append _ _ [segment] rest Segment.key?

@[simp] theorem keys_ofKeys (keys : List String) : (ofKeys keys).keys = keys := by
  rw [FieldPath.keys, ofKeys, List.filterMap_map]
  exact List.filterMap_some

theorem ofKeys_injective {keys others : List String} (same : ofKeys keys = ofKeys others) :
    keys = others := by
  rw [← keys_ofKeys keys, same, keys_ofKeys]

@[simp] theorem child_ofKeys (keys : List String) (name : String) :
    (ofKeys keys).child name = ofKeys (keys ++ [name]) := by
  simp [child, ofKeys]

theorem ofKeys_nil : ofKeys [] = root := rfl

theorem startsWith_ofKeys_iff {keys start : List String} :
    (ofKeys keys).startsWith (ofKeys start) = true ↔ start <+: keys := by
  rw [startsWith_iff]
  constructor
  · intro begins
    have begins' : (ofKeys start).keys <+: (ofKeys keys).keys := begins.filterMap Segment.key?
    rwa [keys_ofKeys, keys_ofKeys] at begins'
  · exact fun begins => begins.map _

theorem ofKeys_lt_ofKeys (keys : List String) {name other : String} (less : name < other)
    (names others : List String) : ofKeys (keys ++ name :: names) < ofKeys (keys ++ other :: others) := by
  change List.Lex (· < ·) ((keys ++ name :: names).map Segment.key)
    ((keys ++ other :: others).map Segment.key)
  rw [List.map_append, List.map_append]
  induction keys with
  | nil => exact .rel less
  | cons key keys ih => exact .cons ih

end Governance.FieldPath
