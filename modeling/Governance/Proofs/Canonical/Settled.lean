import Governance.Proofs.Canonical.Reading
import Governance.Proofs.Json.Places

/-!
# What normalizing does

Normalizing fails at the first float. Otherwise it puts the elements of sets in the order of their
texts, at all depths, and leaves everything else in place. A normal form is not changed again.
-/

set_option autoImplicit false

namespace Governance.Canonical

variable {registry : FieldRegistry} {keys : List String}

/-! ## Failures -/

/-- What is refused in a list comes after a part that is not. -/
theorem mapM_eq_error {α β ε : Type} {step : α → Except ε β} {list : List α} {problem : ε}
    (failed : list.mapM step = .error problem) :
    ∃ front item back, list = front ++ item :: back ∧
      (∀ earlier ∈ front, ∃ result, step earlier = .ok result) ∧ step item = .error problem := by
  induction list with
  | nil => cases failed
  | cons item rest ih =>
      rw [List.mapM_cons] at failed
      cases first : step item with
      | error other =>
          rw [first] at failed
          cases failed
          exact ⟨[], item, rest, rfl, List.forall_mem_nil _, first⟩
      | ok result =>
          rw [first] at failed
          cases later : rest.mapM step with
          | ok results =>
              rw [later] at failed
              cases failed
          | error other =>
              rw [later] at failed
              cases failed
              obtain ⟨front, found, back, rfl, passed, refused⟩ := ih later
              exact ⟨item :: front, found, back, rfl,
                List.forall_mem_cons.mpr ⟨⟨result, first⟩, passed⟩, refused⟩

theorem normalizeItems_eq_mapM (items : List Json) :
    normalizeItems registry keys items = items.mapM (normalize registry keys) := by
  induction items with
  | nil => rfl
  | cons item rest ih =>
      rw [normalizeItems, List.mapM_cons, ← ih]
      cases normalize registry keys item with
      | error problem => rfl
      | ok normal => cases normalizeItems registry keys rest <;> rfl

theorem normalizeMembers_eq_mapM (members : List (String × Json)) :
    normalizeMembers registry keys members = members.mapM fun member =>
      (normalize registry (keys ++ [member.1]) member.2).map fun normal => (member.1, normal) := by
  induction members with
  | nil => rfl
  | cons member rest ih =>
      rw [normalizeMembers, List.mapM_cons, ← ih]
      cases normalize registry (keys ++ [member.1]) member.2 with
      | error problem => rfl
      | ok normal => cases normalizeMembers registry keys rest <;> rfl

theorem normalizeItems_eq_error {items : List Json} {problem : CanonicalizationError}
    (failed : normalizeItems registry keys items = .error problem) :
    ∃ front item back, items = front ++ item :: back ∧
      (∀ earlier ∈ front, earlier.floatFree = true) ∧
      normalize registry keys item = .error problem := by
  rw [normalizeItems_eq_mapM] at failed
  obtain ⟨front, item, back, split, passed, refused⟩ := mapM_eq_error failed
  refine ⟨front, item, back, split, fun earlier listed => ?_, refused⟩
  obtain ⟨normal, done⟩ := passed earlier listed
  exact floatFree_of_normalize registry done

theorem normalizeMembers_eq_error {members : List (String × Json)}
    {problem : CanonicalizationError}
    (failed : normalizeMembers registry keys members = .error problem) :
    ∃ front key value back, members = front ++ (key, value) :: back ∧
      (∀ earlier ∈ front, earlier.2.floatFree = true) ∧
      normalize registry (keys ++ [key]) value = .error problem := by
  rw [normalizeMembers_eq_mapM] at failed
  obtain ⟨front, member, back, split, passed, refused⟩ := mapM_eq_error failed
  refine ⟨front, member.1, member.2, back, split, fun earlier listed => ?_, ?_⟩
  · obtain ⟨written, done⟩ := passed earlier listed
    cases inner : normalize registry (keys ++ [earlier.1]) earlier.2 with
    | ok normal => exact floatFree_of_normalize registry inner
    | error other =>
        rw [inner] at done
        cases done
  · cases inner : normalize registry (keys ++ [member.1]) member.2 with
    | ok normal =>
        rw [inner] at refused
        cases refused
    | error other =>
        rw [inner] at refused
        cases refused
        rfl

theorem firstFloat_of_normalize {value : Json} {number : Binary64} (known : value.WellFormed)
    (failed : normalize registry keys value = .error (.floatRejected number)) :
    value.FirstFloat number := by
  induction value using Json.induct generalizing keys with
  | null | bool | int | str => cases failed
  | float =>
      cases failed
      exact Json.firstFloat_float _
  | arr items ih =>
      rw [normalize] at failed
      cases inner : normalizeItems registry keys items with
      | ok others =>
          rw [inner] at failed
          cases failed
      | error problem =>
          rw [inner] at failed
          cases failed
          obtain ⟨front, item, back, rfl, clean, refused⟩ := normalizeItems_eq_error inner
          have listed : item ∈ front ++ item :: back :=
            List.mem_append_right _ List.mem_cons_self
          exact .arr clean (ih item listed (Json.wellFormed_arr.mp known item listed) refused)
  | obj members ih =>
      rw [normalize] at failed
      cases inner : normalizeMembers registry keys members with
      | ok others =>
          rw [inner] at failed
          cases failed
      | error problem =>
          rw [inner] at failed
          cases failed
          obtain ⟨front, key, value, back, rfl, clean, refused⟩ := normalizeMembers_eq_error inner
          obtain ⟨ascending, values⟩ := Json.wellFormed_obj.mp known
          have listed : (key, value) ∈ front ++ (key, value) :: back :=
            List.mem_append_right _ List.mem_cons_self
          exact .obj ascending clean (ih _ listed (values _ listed) refused)

theorem exists_normalize_eq_error {value : Json} {place : List Json.Step} {number : Binary64}
    (here : value.At place (.float number)) :
    ∃ refused, normalize registry keys value = .error (.floatRejected refused) := by
  cases result : normalize registry keys value with
  | ok normal => cases here.floatFree (floatFree_of_normalize registry result)
  | error problem =>
      cases problem with
      | floatRejected refused => exact ⟨refused, rfl⟩

theorem normalize_eq_error_iff {value : Json} {number : Binary64} (known : value.WellFormed) :
    normalize registry keys value = .error (.floatRejected number) ↔ value.FirstFloat number := by
  refine ⟨firstFloat_of_normalize known, fun first => ?_⟩
  have ⟨place, here, _⟩ := first
  obtain ⟨refused, failed⟩ := @exists_normalize_eq_error registry keys value place number here
  rw [failed, (firstFloat_of_normalize known failed).unique first]

/-! ## Results -/

/-- What a value at a sequence of keys is turned into. Scalars stay, objects keep their keys, and
the elements of an array that is no set stay in place. The elements of a set are turned one by one
and put in the order of their texts. -/
inductive Settles (registry : FieldRegistry) : List String → Json → Json → Prop where
  | scalar {keys : List String} {value : Json} : value.isScalar = true →
      (∀ number, value ≠ .float number) → Settles registry keys value value
  | object {keys : List String} {members settled : List (String × Json)} :
      members.map Prod.fst = settled.map Prod.fst →
      (∀ pair ∈ members.zip settled,
        Settles registry (keys ++ [pair.1.1]) pair.1.2 pair.2.2) →
      Settles registry keys (.obj members) (.obj settled)
  | sequence {keys : List String} {items settled : List Json} :
      registry.isOrderless keys = false → items.length = settled.length →
      (∀ pair ∈ items.zip settled, Settles registry keys pair.1 pair.2) →
      Settles registry keys (.arr items) (.arr settled)
  | set {keys : List String} {items settled ordered : List Json} :
      registry.isOrderless keys = true → items.length = settled.length →
      (∀ pair ∈ items.zip settled, Settles registry keys pair.1 pair.2) →
      ordered.Perm settled → ordered.Pairwise (fun a b => text a ≤ text b) →
      Settles registry keys (.arr items) (.arr ordered)

theorem eq_map_iff_zip {α β : Type} {f : α → β} {items : List α} {others : List β} :
    others = items.map f ↔
      items.length = others.length ∧ ∀ pair ∈ items.zip others, pair.2 = f pair.1 := by
  induction items generalizing others with
  | nil => cases others <;> simp
  | cons item items ih =>
      cases others with
      | nil => simp
      | cons other others =>
          simp only [List.map_cons, List.cons.injEq, ih, List.length_cons, List.zip_cons_cons,
            List.mem_cons, forall_eq_or_imp, Nat.add_right_cancel_iff]
          exact and_left_comm

theorem text_injective {value other : Json} (known : value.WellFormed)
    (known' : other.WellFormed) (free : value.floatFree = true) (free' : other.floatFree = true)
    (same : text value = text other) : value = other := by
  rw [text_eq_compact, text_eq_compact] at same
  have listing := Json.compact_injective
    (legible_listed (Json.legible_of_wellFormed known free))
    (legible_listed (Json.legible_of_wellFormed known' free')) same
  rw [← normalized_listed known, listing, normalized_listed known']

theorem eq_sortByText {items ordered : List Json} (known : ∀ item ∈ items, item.WellFormed)
    (free : ∀ item ∈ items, item.floatFree = true) (perm : ordered.Perm items)
    (sorted : ordered.Pairwise fun a b => text a ≤ text b) : ordered = sortByText items := by
  refine List.Perm.eq_of_pairwise ?_ sorted (pairwise_sortByText items)
    (perm.trans (sortByText_perm items).symm)
  intro a b listed listed' less more
  have given := perm.mem_iff.mp listed
  have given' := (sortByText_perm items).mem_iff.mp listed'
  exact text_injective (known a given) (known b given') (free a given) (free b given')
    (String.le_antisymm less more)

theorem settles_arranged {value : Json} (free : value.floatFree = true) :
    Settles registry keys value (arranged registry keys value) := by
  induction value using Json.induct generalizing keys with
  | null | bool | int | str => exact .scalar rfl (by simp)
  | float => cases free
  | arr items ih =>
      obtain ⟨lengths, pairs⟩ := eq_map_iff_zip.mp (arrangedItems_eq_map registry keys items)
      have each : ∀ pair ∈ items.zip (arrangedItems registry keys items),
          Settles registry keys pair.1 pair.2 := by
        intro pair listed
        have present := (List.of_mem_zip listed).1
        exact pairs pair listed ▸ ih pair.1 present (Json.floatFree_arr.mp free pair.1 present)
      rw [arranged]
      split
      · rename_i orderless
        exact .set orderless lengths each (sortByText_perm _) (pairwise_sortByText _)
      · rename_i ordered
        exact .sequence (by simpa using ordered) lengths each
  | obj members ih =>
      obtain ⟨_, pairs⟩ := eq_map_iff_zip.mp (arrangedMembers_eq_map registry keys members)
      rw [arranged]
      refine .object ?_ fun pair listed => ?_
      · rw [arrangedMembers_eq_map, List.map_map]
        rfl
      · have present := (List.of_mem_zip listed).1
        rw [pairs pair listed]
        exact ih pair.1 present (Json.floatFree_obj.mp free pair.1 present)

theorem forall_mem_of_zip {α β : Type} {items : List α} {others : List β} {holds : α → Prop}
    (lengths : items.length = others.length) (each : ∀ pair ∈ items.zip others, holds pair.1) :
    ∀ item ∈ items, holds item := by
  rw [← List.map_fst_zip (Nat.le_of_eq lengths)]
  exact List.forall_mem_map.mpr each

/-- What a value is turned into is determined. -/
theorem Settles.eq_arranged {value normal : Json} (settles : Settles registry keys value normal)
    (known : value.WellFormed) :
    value.floatFree = true ∧ normal = arranged registry keys value := by
  induction settles with
  | @scalar keys value atom noFloat =>
      cases value with
      | null | bool | int | str => exact ⟨rfl, rfl⟩
      | float number => exact absurd rfl (noFloat number)
      | arr | obj => cases atom
  | @object keys members settled sameKeys _ ih =>
      have lengths : members.length = settled.length := by
        simpa using congrArg List.length sameKeys
      have each := fun pair listed => ih pair listed
        ((Json.wellFormed_obj.mp known).2 pair.1 (List.of_mem_zip listed).1)
      refine ⟨Json.floatFree_obj.mpr (forall_mem_of_zip lengths fun pair listed =>
        (each pair listed).1), ?_⟩
      rw [arranged, arrangedMembers_eq_map]
      refine congrArg Json.obj (eq_map_iff_zip.mpr ⟨lengths, fun pair listed => ?_⟩)
      exact Prod.ext ((map_eq_map_iff_zip.mp sameKeys).2 pair listed).symm (each pair listed).2
  | @sequence keys items settled ordered lengths _ ih =>
      have each := fun pair listed => ih pair listed
        (Json.wellFormed_arr.mp known pair.1 (List.of_mem_zip listed).1)
      refine ⟨Json.floatFree_arr.mpr (forall_mem_of_zip lengths fun pair listed =>
        (each pair listed).1), ?_⟩
      rw [arranged, arrangedItems_eq_map, ordered, if_neg Bool.false_ne_true]
      exact congrArg Json.arr (eq_map_iff_zip.mpr ⟨lengths, fun pair listed =>
        (each pair listed).2⟩)
  | @set keys items settled ordered orderless lengths _ perm sorted ih =>
      have each := fun pair listed => ih pair listed
        (Json.wellFormed_arr.mp known pair.1 (List.of_mem_zip listed).1)
      have free : (Json.arr items).floatFree = true := Json.floatFree_arr.mpr
        (forall_mem_of_zip lengths fun pair listed => (each pair listed).1)
      have mapped : settled = items.map (arranged registry keys) :=
        eq_map_iff_zip.mpr ⟨lengths, fun pair listed => (each pair listed).2⟩
      refine ⟨free, ?_⟩
      rw [arranged, arrangedItems_eq_map, ← mapped, orderless, if_pos rfl]
      -- texts tell the elements apart, so there is one order by them
      refine congrArg Json.arr (eq_sortByText ?_ ?_ perm sorted)
      · intro item listed
        obtain ⟨given, present, rfl⟩ := List.mem_map.mp (mapped ▸ listed)
        exact wellFormed_arranged (Json.wellFormed_arr.mp known given present)
      · intro item listed
        obtain ⟨given, present, rfl⟩ := List.mem_map.mp (mapped ▸ listed)
        exact floatFree_arranged registry (Json.floatFree_arr.mp free given present)

theorem normalize_eq_ok_iff {value normal : Json} (known : value.WellFormed) :
    normalize registry keys value = .ok normal ↔ Settles registry keys value normal := by
  constructor
  · intro done
    have free := floatFree_of_normalize registry done
    rw [normalize_eq_arranged registry free] at done
    exact Except.ok.inj done ▸ settles_arranged free
  · intro settles
    obtain ⟨free, rfl⟩ := settles.eq_arranged known
    exact normalize_eq_arranged registry free

theorem normalize_normal {value normal : Json}
    (done : normalize registry keys value = .ok normal) :
    normalize registry keys normal = .ok normal := by
  have free := floatFree_of_normalize registry done
  rw [normalize_eq_arranged registry free] at done
  cases done
  rw [normalize_eq_arranged registry (floatFree_arranged registry free), arranged_arranged]

/-- A value has no normal form exactly if it has a float anywhere, and the first one is reported.
Otherwise only the elements of sets are moved, and they are moved once. -/
theorem valueAt_settles (registry : FieldRegistry) (path : FieldPath) (value : Json)
    (known : value.WellFormed) :
    ((∃ problem, valueAt registry path value = .error problem) ↔
      ∃ place number, value.At place (.float number)) ∧
    (∀ number, valueAt registry path value = .error (.floatRejected number) ↔
      value.FirstFloat number) ∧
    (∀ normal, valueAt registry path value = .ok normal ↔
      Settles registry path.keys value normal) ∧
    ∀ normal, valueAt registry path value = .ok normal →
      valueAt registry path normal = .ok normal := by
  refine ⟨⟨fun ⟨problem, failed⟩ => ?_, fun ⟨place, number, here⟩ => ?_⟩,
    fun number => normalize_eq_error_iff known, fun normal => normalize_eq_ok_iff known,
    fun normal => normalize_normal⟩
  · cases problem with
    | floatRejected number =>
        obtain ⟨place, here, _⟩ := firstFloat_of_normalize known failed
        exact ⟨place, number, here⟩
  · obtain ⟨refused, failed⟩ := exists_normalize_eq_error here
    exact ⟨_, failed⟩

def nestedSet : Json :=
  .obj [("blocked_actions", .arr [.str "b", .arr [.str "d", .str "c"], .str "a", .str "a"]),
    ("notes", .arr [.str "b", .str "a"])]

def orderedSet : Json :=
  .obj [("blocked_actions", .arr [.str "a", .str "a", .str "b", .arr [.str "c", .str "d"]]),
    ("notes", .arr [.str "b", .str "a"])]

theorem valueAt_settles_nestedSet :
    valueAt .standard .root nestedSet = .ok orderedSet ∧
      Settles .standard [] nestedSet orderedSet ∧
      valueAt .standard .root orderedSet = .ok orderedSet := by
  obtain ⟨_, _, settles, stays⟩ := valueAt_settles .standard .root nestedSet (by decide)
  have inner : sortByText [.str "d", .str "c"] = [.str "c", .str "d"] :=
    (eq_sortByText (by decide) (by decide) (by decide) (by decide)).symm
  have outer : sortByText [.str "b", .arr [.str "c", .str "d"], .str "a", .str "a"]
      = [.str "a", .str "a", .str "b", .arr [.str "c", .str "d"]] :=
    (eq_sortByText (by decide) (by decide) (by decide) (by decide)).symm
  have orderless : FieldRegistry.standard.isOrderless ["blocked_actions"] = true := by decide
  have ordered : FieldRegistry.standard.isOrderless ["notes"] = false := by decide
  have done : valueAt .standard .root nestedSet = .ok orderedSet := by
    rw [valueAt, normalize_eq_arranged _ (by decide)]
    simp only [nestedSet, arranged, arrangedMembers, arrangedItems, FieldPath.keys, FieldPath.root,
      List.filterMap_nil, List.nil_append, orderless, ordered, inner, outer, if_true,
      Bool.false_eq_true, if_false]
    rfl
  exact ⟨done, (settles orderedSet).mp done, stays orderedSet done⟩

end Governance.Canonical
