import Governance.SortedMap

/-!
# Look-ups in maps

What every operation on a map does to the look-ups, and that a map is determined by its look-ups.
The lemmas on entry lists come first, because the members of an object are such a list.
-/

set_option autoImplicit false

namespace Governance

variable {κ ν : Type}

namespace Entries

theorem mem_of_find? [DecidableEq κ] {key : κ} {value : ν} {entries : List (κ × ν)}
    (found : find? key entries = some value) : (key, value) ∈ entries := by
  induction entries with
  | nil => cases found
  | cons entry rest ih =>
      simp only [find?] at found
      split at found
      · rename_i same
        cases found
        exact same ▸ List.mem_cons_self
      · exact List.mem_cons_of_mem _ (ih found)

theorem find?_eq_none_iff [DecidableEq κ] {key : κ} {entries : List (κ × ν)} :
    find? key entries = none ↔ ∀ entry ∈ entries, entry.1 ≠ key := by
  induction entries with
  | nil => simp [find?]
  | cons entry rest ih =>
      simp only [find?, List.mem_cons, forall_eq_or_imp]
      split
      · rename_i same
        simp [same]
      · rename_i different
        simp only [ih, ne_eq, different, not_false_eq_true, true_and]

theorem ascending_keys [KeyOrder κ] {entries : List (κ × ν)} (ascending : Ascending entries) :
    (entries.map Prod.fst).Pairwise (· < ·) :=
  List.pairwise_map.mpr ascending

theorem nodup_keys [order : KeyOrder κ] {entries : List (κ × ν)} (ascending : Ascending entries) :
    (entries.map Prod.fst).Nodup := by
  refine (ascending_keys ascending).imp ?_
  intro key other less same
  exact order.irrefl other (same ▸ less)

theorem find?_of_nodup [DecidableEq κ] {entry : κ × ν} {entries : List (κ × ν)}
    (distinct : (entries.map Prod.fst).Nodup) (listed : entry ∈ entries) :
    find? entry.1 entries = some entry.2 := by
  induction entries with
  | nil => cases listed
  | cons first rest ih =>
      obtain ⟨fresh, distinct⟩ := List.nodup_cons.mp distinct
      rcases List.mem_cons.mp listed with rfl | later
      · simp [find?]
      · have different : first.1 ≠ entry.1 := fun same =>
          fresh (List.mem_map.mpr ⟨entry, later, same.symm⟩)
        rw [find?, if_neg different]
        exact ih distinct later

theorem find?_of_mem [KeyOrder κ] [DecidableEq κ] {key : κ} {value : ν}
    {entries : List (κ × ν)} (ascending : Ascending entries) (member : (key, value) ∈ entries) :
    find? key entries = some value :=
  find?_of_nodup (nodup_keys ascending) member

theorem find?_eq_some_iff [KeyOrder κ] [DecidableEq κ] {key : κ} {value : ν}
    {entries : List (κ × ν)} (ascending : Ascending entries) :
    find? key entries = some value ↔ (key, value) ∈ entries :=
  ⟨mem_of_find?, find?_of_mem ascending⟩

theorem find?_put [order : KeyOrder κ] [DecidableEq κ] [DecidableLT κ] (key other : κ)
    (value : ν) (entries : List (κ × ν)) :
    find? other (put key value entries) = if key = other then some value else find? other entries := by
  induction entries with
  | nil => simp [put, find?]
  | cons entry rest ih =>
      obtain ⟨candidate, old⟩ := entry
      simp only [put]
      split
      · simp [find?]
      · split
        · rename_i greater
          simp only [find?, ih]
          by_cases same : candidate = other
          · have different : key ≠ other := by
              intro equal
              subst equal
              exact order.irrefl key (same ▸ greater)
            simp [same, different]
          · simp [same]
        · rename_i notLess notGreater
          have same : key = candidate := order.total notLess notGreater
          subst same
          by_cases same : key = other <;> simp [find?, same]

theorem forall_mem_put [LT κ] [DecidableLT κ] {property : κ × ν → Prop} {key : κ} {value : ν}
    {entries : List (κ × ν)} (given : property (key, value))
    (each : ∀ entry ∈ entries, property entry) : ∀ entry ∈ put key value entries, property entry := by
  intro entry listed
  rcases mem_put listed with rfl | old
  · exact given
  · exact each entry old

theorem put_ne_nil [LT κ] [DecidableLT κ] {key : κ} {value : ν} {entries : List (κ × ν)} :
    put key value entries ≠ [] := by
  cases entries with
  | nil => exact List.cons_ne_nil _ _
  | cons entry rest =>
      rw [put]
      split
      · exact List.cons_ne_nil _ _
      · split
        · exact List.cons_ne_nil _ _
        · exact List.cons_ne_nil _ _

def putAll [LT κ] [DecidableLT κ] (entries others : List (κ × ν)) : List (κ × ν) :=
  entries.foldl (fun others entry => put entry.1 entry.2 others) others

theorem find?_putAll [order : KeyOrder κ] [DecidableEq κ] [DecidableLT κ] (key : κ)
    {entries others : List (κ × ν)} (ascending : Ascending entries) :
    find? key (putAll entries others) = (find? key entries).or (find? key others) := by
  induction entries generalizing others with
  | nil => rfl
  | cons entry rest ih =>
      obtain ⟨above, ascending⟩ := List.pairwise_cons.mp ascending
      rw [putAll, List.foldl_cons, ← putAll, ih ascending, find?_put, find?]
      by_cases same : entry.1 = key
      · have once : find? key rest = none := by
          refine find?_eq_none_iff.mpr fun later listed equal => ?_
          have less := above later listed
          rw [equal, same] at less
          exact order.irrefl key less
        rw [once, if_pos same, if_pos same]
        rfl
      · rw [if_neg same, if_neg same]

theorem find?_filter [order : KeyOrder κ] [DecidableEq κ] (key : κ) (keep : κ × ν → Bool)
    {entries : List (κ × ν)} (ascending : Ascending entries) :
    find? key (entries.filter keep)
      = (find? key entries).filter fun value => keep (key, value) := by
  have kept : Ascending (entries.filter keep) :=
    List.Pairwise.sublist List.filter_sublist ascending
  refine Option.ext fun value => ?_
  rw [find?_eq_some_iff kept, List.mem_filter, Option.filter_eq_some_iff,
    find?_eq_some_iff ascending]

theorem find?_map {μ : Type} [DecidableEq κ] (key : κ) (change : ν → μ)
    (entries : List (κ × ν)) :
    find? key (entries.map fun entry => (entry.1, change entry.2))
      = (find? key entries).map change := by
  induction entries with
  | nil => rfl
  | cons entry rest ih =>
      simp only [List.map_cons, find?, ih]
      split <;> rfl

theorem eq_of_mem_iff [order : KeyOrder κ] {entries others : List (κ × ν)}
    (ascending : Ascending entries) (ascending' : Ascending others)
    (same : ∀ entry, entry ∈ entries ↔ entry ∈ others) : entries = others := by
  have distinct : ∀ {list : List (κ × ν)}, Ascending list → list.Nodup := by
    intro list ordered
    refine List.Pairwise.imp ?_ ordered
    intro entry _ less equal
    subst equal
    exact order.irrefl _ less
  refine List.Perm.eq_of_pairwise (fun _ _ _ _ less greater =>
    absurd (order.trans less greater) (order.irrefl _)) ascending ascending' ?_
  exact (List.perm_ext_iff_of_nodup (distinct ascending) (distinct ascending')).mpr
    fun entry => same entry

theorem eq_of_find?_eq [KeyOrder κ] [DecidableEq κ] {entries others : List (κ × ν)}
    (ascending : Ascending entries) (ascending' : Ascending others)
    (same : ∀ key, find? key entries = find? key others) : entries = others := by
  refine eq_of_mem_iff ascending ascending' fun (key, value) => ?_
  rw [← find?_eq_some_iff ascending, ← find?_eq_some_iff ascending', same]

theorem put_of_find? [KeyOrder κ] [DecidableEq κ] [DecidableLT κ] {key : κ} {value : ν}
    {entries : List (κ × ν)} (ascending : Ascending entries)
    (found : find? key entries = some value) : put key value entries = entries := by
  apply eq_of_find?_eq (put_ascending ascending) ascending
  intro other
  rw [find?_put]
  split
  · rename_i same
    rw [← same, found]
  · rfl

end Entries

namespace SortedMap

variable [KeyOrder κ]

@[ext] theorem ext_entries {map other : SortedMap κ ν} (same : map.entries = other.entries) :
    map = other := by
  cases map
  cases other
  cases same
  rfl

section Lookup

variable [DecidableEq κ]

theorem find?_eq_some_iff {map : SortedMap κ ν} {key : κ} {value : ν} :
    map.find? key = some value ↔ (key, value) ∈ map.entries :=
  Entries.find?_eq_some_iff map.ascending

theorem mem_keys_iff {map : SortedMap κ ν} {key : κ} :
    key ∈ map.keys ↔ (map.find? key).isSome = true := by
  simp [keys, Option.isSome_iff_exists, find?_eq_some_iff]

theorem mem_values_iff {map : SortedMap κ ν} {value : ν} :
    value ∈ map.values ↔ ∃ key, map.find? key = some value := by
  simp [values, find?_eq_some_iff]

@[simp] theorem find?_empty (key : κ) : (∅ : SortedMap κ ν).find? key = none := rfl

@[simp] theorem find?_insert [DecidableLT κ] (map : SortedMap κ ν) (key other : κ) (value : ν) :
    (map.insert key value).find? other = if key = other then some value else map.find? other :=
  Entries.find?_put key other value map.entries

@[simp] theorem find?_filter (map : SortedMap κ ν) (keep : κ → ν → Bool) (key : κ) :
    (map.filter keep).find? key = (map.find? key).filter (keep key) :=
  Entries.find?_filter key (fun entry => keep entry.1 entry.2) map.ascending

@[simp] theorem find?_erase (map : SortedMap κ ν) (key other : κ) :
    (map.erase key).find? other = if key = other then none else map.find? other := by
  refine (find?_filter map (fun candidate _ => decide (candidate ≠ key)) other).trans ?_
  by_cases same : key = other
  · cases map.find? other <;> simp [same, Option.filter]
  · cases map.find? other <;> simp [same, Option.filter, Ne.symm same]

@[simp] theorem find?_map {μ : Type} (map : SortedMap κ ν) (change : ν → μ) (key : κ) :
    (map.map change).find? key = (map.find? key).map change :=
  Entries.find?_map key change map.entries

/-- A map is determined by its look-ups. -/
theorem ext_find? {map other : SortedMap κ ν} (same : ∀ key, map.find? key = other.find? key) :
    map = other :=
  ext_entries (Entries.eq_of_find?_eq map.ascending other.ascending same)

/-- Maps that agree where a test passes list the same values that pass it. -/
theorem filter_values_eq {map other : SortedMap κ ν} {keep : ν → Bool}
    (same : ∀ key, (map.find? key).filter keep = (other.find? key).filter keep) :
    map.values.filter keep = other.values.filter keep := by
  have kept : map.filter (fun _ => keep) = other.filter (fun _ => keep) := ext_find? fun key => by
    rw [find?_filter, find?_filter, same]
  have listed : ∀ any : SortedMap κ ν,
      any.values.filter keep = (any.filter fun _ => keep).values := fun any => by
    rw [values, values, List.filter_map]
    rfl
  rw [listed, listed, kept]

end Lookup

end SortedMap

end Governance
