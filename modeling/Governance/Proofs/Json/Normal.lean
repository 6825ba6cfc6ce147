import Governance.Proofs.Json.Induction
import Governance.Wire.Decode

/-!
# Members in the order of their keys

Putting the members of a value in order: of members with one key the last one is found, members
with different keys all stay, and the value of a document is not changed.
-/

set_option autoImplicit false

namespace Governance.Json

theorem find?_normalizedMembers_cons (name key : String) (value : Json)
    (rest : List (String × Json)) :
    (normalizedMembers ((name, value) :: rest)).find? key =
      ((normalizedMembers rest).find? key).or (if name = key then some value.normalized else none) := by
  rw [normalizedMembers]
  split
  · rename_i repeated
    by_cases same : name = key
    · subst same
      obtain ⟨later, found⟩ := Option.isSome_iff_exists.mp repeated
      rw [found, Option.some_or]
    · rw [if_neg same, Option.or_none]
  · rename_i fresh
    rw [SortedMap.find?_insert]
    by_cases same : name = key
    · subst same
      rw [Bool.not_eq_true, SortedMap.contains, Option.isSome_eq_false_iff, Option.isNone_iff_eq_none]
        at fresh
      rw [if_pos rfl, if_pos rfl, fresh, Option.none_or]
    · rw [if_neg same, if_neg same, Option.or_none]

theorem mem_keys_normalizedMembers {key : String} {members : List (String × Json)} :
    key ∈ (normalizedMembers members).entries.map Prod.fst ↔ key ∈ members.map Prod.fst := by
  refine SortedMap.mem_keys_iff.trans ?_
  induction members with
  | nil => simp [normalizedMembers]
  | cons member rest ih =>
      obtain ⟨name, value⟩ := member
      rw [find?_normalizedMembers_cons, Option.isSome_or, Bool.or_eq_true, ih, List.map_cons,
        List.mem_cons, or_comm]
      by_cases same : name = key
      · simp [same]
      · simp [same, Ne.symm same]

/-- Of members with one key the last one is found. -/
theorem find?_normalizedMembers_append (key : String) (front back : List (String × Json)) :
    (normalizedMembers (front ++ back)).find? key =
      ((normalizedMembers back).find? key).or ((normalizedMembers front).find? key) := by
  induction front with
  | nil => exact (Option.or_none).symm
  | cons member front ih =>
      obtain ⟨name, value⟩ := member
      rw [List.cons_append, find?_normalizedMembers_cons, find?_normalizedMembers_cons, ih,
        Option.or_assoc]

theorem find?_normalizedMembers_present (name key : String) (value : Option Json) :
    (normalizedMembers (Wire.present name value)).find? key =
      if name = key then value.map normalized else none := by
  cases value with
  | none => exact (ite_self none).symm
  | some value => exact (find?_normalizedMembers_cons name key value []).trans (Option.none_or)

theorem find?_normalizedMembers {members : List (String × Json)}
    (distinct : (members.map Prod.fst).Nodup) (key : String) :
    (normalizedMembers members).find? key = (Entries.find? key members).map normalized := by
  induction members with
  | nil => rfl
  | cons member rest ih =>
      obtain ⟨name, value⟩ := member
      obtain ⟨fresh, distinct⟩ := List.nodup_cons.mp distinct
      rw [find?_normalizedMembers_cons, ih distinct, Entries.find?]
      by_cases same : name = key
      · subst same
        have none : Entries.find? name rest = none :=
          Entries.find?_eq_none_iff.mpr fun other listed equal =>
            fresh (List.mem_map.mpr ⟨other, listed, equal⟩)
        rw [none, if_pos rfl, if_pos rfl, Option.map_none, Option.none_or, Option.map_some]
      · rw [if_neg same, if_neg same, Option.or_none]

theorem find?_normalizedMembers_iff {members : List (String × Json)}
    (distinct : (members.map Prod.fst).Nodup) {key : String} {value : Json} :
    (normalizedMembers members).find? key = some value ↔
      (key, value) ∈ members.map fun member => (member.1, member.2.normalized) := by
  rw [find?_normalizedMembers distinct, Option.map_eq_some_iff, List.mem_map]
  constructor
  · intro given
    obtain ⟨written, found, rfl⟩ := given
    exact ⟨(key, written), Entries.mem_of_find? found, rfl⟩
  · intro given
    obtain ⟨member, listed, same⟩ := given
    obtain ⟨rfl, rfl⟩ := Prod.ext_iff.mp same
    exact ⟨member.2, Entries.find?_of_nodup distinct listed, rfl⟩

/-- Members that are read in any order are put back into the order of their keys. -/
theorem normalizedMembers_eq {found members : List (String × Json)}
    (ascending : Entries.Ascending members)
    (perm : (found.map fun member => (member.1, member.2.normalized)).Perm members) :
    (normalizedMembers found).entries = members := by
  have distinct : (found.map Prod.fst).Nodup := by
    have sameKeys : (found.map Prod.fst).Perm (members.map Prod.fst) := by
      have keys := perm.map Prod.fst
      rwa [List.map_map] at keys
    exact sameKeys.nodup_iff.mpr (Entries.nodup_keys ascending)
  refine Entries.eq_of_mem_iff (normalizedMembers found).ascending ascending fun (key, value) => ?_
  rw [← SortedMap.find?_eq_some_iff, find?_normalizedMembers_iff distinct, perm.mem_iff]

theorem normalizedItems_eq_map (items : List Json) :
    normalizedItems items = items.map normalized := by
  induction items with
  | nil => rfl
  | cons item rest ih => rw [normalizedItems, ih, List.map_cons]

theorem normalized_of_wellFormed {value : Json} (known : value.WellFormed) :
    value.normalized = value := by
  induction value using induct with
  | null | bool | int | float | str => rfl
  | arr items ih =>
      rw [normalized, normalizedItems_eq_map]
      refine congrArg arr ((List.map_congr_left fun item listed => ?_).trans (List.map_id _))
      exact ih item listed (wellFormed_arr.mp known item listed)
  | obj members ih =>
      obtain ⟨ascending, values⟩ := wellFormed_obj.mp known
      have same : members.map (fun member => (member.1, member.2.normalized)) = members := by
        refine (List.map_congr_left fun member listed => ?_).trans (List.map_id _)
        exact Prod.ext rfl (ih member listed (values member listed))
      rw [normalized, normalizedMembers_eq ascending (List.Perm.of_eq same)]

theorem exists_of_find?_normalizedMembers {members : List (String × Json)} {key : String}
    {value : Json} (found : (normalizedMembers members).find? key = some value) :
    ∃ member ∈ members, value = member.2.normalized := by
  induction members with
  | nil => cases found
  | cons member rest ih =>
      obtain ⟨name, written⟩ := member
      rw [find?_normalizedMembers_cons] at found
      rcases Option.or_eq_some_iff.mp found with later | ⟨_, here⟩
      · obtain ⟨other, listed, same⟩ := ih later
        exact ⟨other, List.mem_cons_of_mem _ listed, same⟩
      · split at here
        · cases here
          exact ⟨(name, written), List.mem_cons_self, rfl⟩
        · cases here

theorem normalized_normalized (value : Json) : value.normalized.normalized = value.normalized := by
  induction value using induct with
  | null | bool | int | float | str => rfl
  | arr items ih =>
      simp only [normalized, normalizedItems_eq_map, List.map_map, arr.injEq]
      exact List.map_congr_left ih
  | obj members ih =>
      have ascending := (normalizedMembers members).ascending
      have same : (normalizedMembers members).entries.map
          (fun member => (member.1, member.2.normalized)) = (normalizedMembers members).entries := by
        refine (List.map_congr_left fun member listed => ?_).trans (List.map_id _)
        obtain ⟨written, listed, same⟩ :=
          exists_of_find?_normalizedMembers (SortedMap.find?_eq_some_iff.mpr listed)
        have fixed : member.2.normalized = member.2 := by
          rw [same]
          exact ih written listed
        exact Prod.ext rfl fixed
      rw [normalized, normalized, normalizedMembers_eq ascending (List.Perm.of_eq same)]

def IsOrdered (value : Json) : Prop := value.normalized = value

theorem isOrdered_normalized (value : Json) : value.normalized.IsOrdered :=
  normalized_normalized value

theorem normalized_eq_null_iff {value : Json} : value.normalized = .null ↔ value = .null := by
  cases value <;> simp [normalized]

theorem map_normalized_text (text : Option String) :
    (text.map Json.str).map normalized = text.map .str := by
  cases text <;> rfl

theorem normalized_texts (texts : List String) :
    (arr (texts.map .str)).normalized = arr (texts.map .str) := by
  refine normalized_of_wellFormed (wellFormed_arr.mpr fun item listed => ?_)
  obtain ⟨text, _, rfl⟩ := List.mem_map.mp listed
  rfl

end Governance.Json
