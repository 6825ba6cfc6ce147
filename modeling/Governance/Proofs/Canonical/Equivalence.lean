import Governance.Proofs.Canonical.Arranged
import Governance.Proofs.SortedMap.Lookup

/-!
# What canonical text keeps apart

The values that a registry declares to be the same at a sequence of keys, stated without any text
or sorting. Canonical texts are the same exactly for these values: every other difference shows.
-/

set_option autoImplicit false

namespace Governance

def Json.isScalar : Json → Bool
  | .arr _ => false
  | .obj _ => false
  | _ => true

namespace Canonical

/-- Values that are the same at a sequence of keys. Scalars are the same when they are equal,
objects when they have the same keys and the same values one key further, and arrays when their
elements are the same place by place; the elements of a set may be paired in any order. -/
inductive Equivalent (registry : FieldRegistry) : List String → Json → Json → Prop where
  | scalar {keys : List String} {value : Json} :
      value.isScalar = true → Equivalent registry keys value value
  | object {keys : List String} {members others : List (String × Json)} :
      (∀ key, (Entries.find? key members).isSome = (Entries.find? key others).isSome) →
      (∀ key value other, Entries.find? key members = some value →
        Entries.find? key others = some other → Equivalent registry (keys ++ [key]) value other) →
      Equivalent registry keys (.obj members) (.obj others)
  | set {keys : List String} {items others paired : List Json} :
      registry.isOrderless keys = true → paired.Perm others → items.length = paired.length →
      (∀ pair ∈ items.zip paired, Equivalent registry keys pair.1 pair.2) →
      Equivalent registry keys (.arr items) (.arr others)
  | sequence {keys : List String} {items others : List Json} :
      registry.isOrderless keys = false → items.length = others.length →
      (∀ pair ∈ items.zip others, Equivalent registry keys pair.1 pair.2) →
      Equivalent registry keys (.arr items) (.arr others)

variable {registry : FieldRegistry} {keys : List String}

/-! ## Arrays -/

theorem map_eq_map_iff_zip {α β : Type} {f : α → β} {items others : List α} :
    items.map f = others.map f ↔
      items.length = others.length ∧ ∀ pair ∈ items.zip others, f pair.1 = f pair.2 := by
  induction items generalizing others with
  | nil => cases others <;> simp
  | cons item items ih =>
      cases others with
      | nil => simp
      | cons other others =>
          simp only [List.map_cons, List.cons.injEq, ih, List.length_cons, List.zip_cons_cons,
            List.mem_cons, forall_eq_or_imp, Nat.add_right_cancel_iff]
          exact and_left_comm

theorem text_arranged_arr_eq_iff {items others : List Json}
    (free : (Json.arr items).floatFree = true) (free' : (Json.arr others).floatFree = true) :
    text (arranged registry keys (.arr items)) = text (arranged registry keys (.arr others)) ↔
      if registry.isOrderless keys = true then
        (items.map fun item => text (arranged registry keys item)).Perm
          (others.map fun item => text (arranged registry keys item))
      else items.map (fun item => text (arranged registry keys item))
        = others.map fun item => text (arranged registry keys item) := by
  have first := @floatFree_arranged registry keys _ free
  have second := @floatFree_arranged registry keys _ free'
  rw [arranged, Json.floatFree_arr] at first second
  rw [arranged, arranged, text_arr_eq_iff first second, arrangedItems_eq_map,
    arrangedItems_eq_map]
  split
  · rw [map_text_sortByText, map_text_sortByText, mergeSort_eq_iff_perm, List.map_map,
      List.map_map]
    rfl
  · rw [List.map_map, List.map_map]
    rfl

/-- Arrays are told apart by text exactly if they differ, given that this holds of the elements. -/
theorem text_arranged_arr_iff {items others : List Json}
    (free : (Json.arr items).floatFree = true) (free' : (Json.arr others).floatFree = true)
    (agree : ∀ item ∈ items, ∀ other ∈ others,
      (text (arranged registry keys item) = text (arranged registry keys other) ↔
        Equivalent registry keys item other)) :
    text (arranged registry keys (.arr items)) = text (arranged registry keys (.arr others)) ↔
      Equivalent registry keys (.arr items) (.arr others) := by
  rw [text_arranged_arr_eq_iff free free']
  split
  · rename_i orderless
    constructor
    · intro perm
      have factored := List.eq_map_comp_perm fun item => text (arranged registry keys item)
      obtain ⟨paired, same, samePerm⟩ := (congrFun (congrFun factored _) others).mpr perm
      obtain ⟨lengths, pairs⟩ := map_eq_map_iff_zip.mp same
      refine .set orderless samePerm lengths fun pair member => ?_
      obtain ⟨left, right⟩ := List.of_mem_zip member
      exact (agree pair.1 left pair.2 (samePerm.mem_iff.mp right)).mp (pairs pair member)
    · intro equivalent
      cases equivalent with
      | scalar atom => cases atom
      | @set _ _ _ paired _ samePerm lengths pairs =>
          have same := (map_eq_map_iff_zip (f := fun item => text (arranged registry keys item))).mpr
            ⟨lengths, fun pair member => by
              obtain ⟨left, right⟩ := List.of_mem_zip member
              exact (agree pair.1 left pair.2 (samePerm.mem_iff.mp right)).mpr (pairs pair member)⟩
          rw [same]
          exact samePerm.map _
      | sequence ordered => rw [orderless] at ordered; cases ordered
  · rename_i ordered
    rw [map_eq_map_iff_zip]
    constructor
    · intro given
      obtain ⟨lengths, pairs⟩ := given
      refine .sequence (by simpa using ordered) lengths fun pair member => ?_
      obtain ⟨left, right⟩ := List.of_mem_zip member
      exact (agree pair.1 left pair.2 right).mp (pairs pair member)
    · intro equivalent
      cases equivalent with
      | scalar atom => cases atom
      | set orderless => exact absurd orderless ordered
      | sequence _ lengths pairs =>
          refine ⟨lengths, fun pair member => ?_⟩
          obtain ⟨left, right⟩ := List.of_mem_zip member
          exact (agree pair.1 left pair.2 right).mpr (pairs pair member)

/-! ## Objects -/

theorem memberTexts_arranged (members : List (String × Json)) :
    memberTexts (arrangedMembers registry keys members)
      = members.map fun member =>
        (Json.quoted member.1, text (arranged registry (keys ++ [member.1]) member.2)) := by
  rw [memberTexts_eq_map, arrangedMembers_eq_map, List.map_map]
  rfl

/-- A member of one object stands under the same key, with the same text, in every object with the
same members as they are written. -/
theorem find?_of_memberTexts_perm {members others : List (String × Json)}
    (ascending' : Entries.Ascending others)
    (perm : (memberTexts (arrangedMembers registry keys members)).Perm
      (memberTexts (arrangedMembers registry keys others)))
    {key : String} {value : Json} (found : Entries.find? key members = some value) :
    ∃ other, Entries.find? key others = some other ∧
      text (arranged registry (keys ++ [key]) value)
        = text (arranged registry (keys ++ [key]) other) := by
  rw [memberTexts_arranged, memberTexts_arranged] at perm
  have written := List.mem_map_of_mem
    (f := fun member : String × Json =>
      (Json.quoted member.1, text (arranged registry (keys ++ [member.1]) member.2)))
    (Entries.mem_of_find? found)
  obtain ⟨⟨key', other⟩, present, same⟩ := List.mem_map.mp (perm.mem_iff.mp written)
  obtain ⟨sameQuoted, sameText⟩ := Prod.ext_iff.mp same
  have sameKey := Json.quoted_injective sameQuoted
  subst sameKey
  exact ⟨other, Entries.find?_of_mem ascending' present, sameText.symm⟩

theorem keys_eq_of_isSome_eq {members others : List (String × Json)}
    (ascending : Entries.Ascending members) (ascending' : Entries.Ascending others)
    (same : ∀ key, (Entries.find? key members).isSome = (Entries.find? key others).isSome) :
    members.map Prod.fst = others.map Prod.fst := by
  have present : ∀ (list : List (String × Json)) (key : String),
      key ∈ list.map Prod.fst ↔ (Entries.find? key list).isSome = true := by
    intro list key
    rw [← Option.ne_none_iff_isSome, ne_eq, Entries.find?_eq_none_iff]
    simp
  have ordered := Entries.ascending_keys ascending
  have ordered' := Entries.ascending_keys ascending'
  refine List.Perm.eq_of_pairwise (fun _ _ _ _ less greater =>
    absurd (String.lt_trans less greater) (String.lt_irrefl _)) ordered ordered' ?_
  rw [List.perm_ext_iff_of_nodup (Entries.nodup_keys ascending) (Entries.nodup_keys ascending')]
  intro key
  rw [present, present, same]

/-- Objects are told apart by text exactly if they differ, given that this holds of the values of
their members. -/
theorem text_arranged_obj_iff {members others : List (String × Json)}
    (known : (Json.obj members).WellFormed) (known' : (Json.obj others).WellFormed)
    (free : (Json.obj members).floatFree = true) (free' : (Json.obj others).floatFree = true)
    (agree : ∀ member ∈ members, ∀ other ∈ others, ∀ keys : List String,
      (text (arranged registry keys member.2) = text (arranged registry keys other.2) ↔
        Equivalent registry keys member.2 other.2)) :
    text (arranged registry keys (.obj members)) = text (arranged registry keys (.obj others)) ↔
      Equivalent registry keys (.obj members) (.obj others) := by
  have ascending := (Json.wellFormed_obj.mp known).1
  have ascending' := (Json.wellFormed_obj.mp known').1
  have first := @floatFree_arranged registry keys _ free
  have second := @floatFree_arranged registry keys _ free'
  rw [arranged, Json.floatFree_obj] at first second
  rw [arranged, arranged]
  constructor
  · intro same
    have perm := memberTexts_perm_of_text_eq first second same
    refine .object (fun key => ?_) fun key value other found found' => ?_
    · cases found : Entries.find? key members with
      | some value =>
          obtain ⟨other, found', _⟩ := find?_of_memberTexts_perm ascending' perm found
          rw [found']
          rfl
      | none =>
          cases found' : Entries.find? key others with
          | none => rfl
          | some other =>
              obtain ⟨value, present, _⟩ := find?_of_memberTexts_perm ascending perm.symm found'
              rw [found] at present
              cases present
    · obtain ⟨other', present, sameText⟩ := find?_of_memberTexts_perm ascending' perm found
      obtain rfl : other' = other := Option.some.inj (present.symm.trans found')
      exact (agree _ (Entries.mem_of_find? found) _ (Entries.mem_of_find? found') _).mp sameText
  · intro equivalent
    cases equivalent with
    | scalar atom => cases atom
    | object sameKeys values =>
        have listed := keys_eq_of_isSome_eq ascending ascending' sameKeys
        have sameTexts : memberTexts (arrangedMembers registry keys members)
            = memberTexts (arrangedMembers registry keys others) := by
          obtain ⟨lengths, pairs⟩ := map_eq_map_iff_zip.mp listed
          rw [memberTexts_arranged, memberTexts_arranged, map_eq_map_iff_zip]
          refine ⟨lengths, fun pair member => ?_⟩
          obtain ⟨⟨key, value⟩, key', other⟩ := pair
          obtain ⟨left, right⟩ := List.of_mem_zip member
          obtain rfl : key = key' := pairs _ member
          have equivalent := values key value other (Entries.find?_of_mem ascending left)
            (Entries.find?_of_mem ascending' right)
          exact Prod.ext rfl ((agree _ left _ right _).mpr equivalent)
        rw [text, text, sameTexts]

/-! ## Values -/

theorem kind_eq_of_equivalent {value other : Json} (equivalent : Equivalent registry keys value other) :
    kind value = kind other := by
  cases equivalent <;> rfl

theorem kind_eq_of_text_arranged_eq {value other : Json} (free : value.floatFree = true)
    (free' : other.floatFree = true)
    (same : text (arranged registry keys value) = text (arranged registry keys other)) :
    kind value = kind other := by
  have agree := kind_eq_of_text_eq (floatFree_arranged registry free)
    (floatFree_arranged registry free') same
  have unmoved : ∀ value : Json, kind (arranged registry keys value) = kind value := by
    intro value
    cases value <;> rfl
  rwa [unmoved, unmoved] at agree

theorem text_arranged_scalar_iff {value other : Json} (atom : value.isScalar = true)
    (free : value.floatFree = true) (free' : other.floatFree = true) :
    text (arranged registry keys value) = text (arranged registry keys other) ↔
      Equivalent registry keys value other := by
  constructor
  · intro same
    have agree := kind_eq_of_text_arranged_eq free free' same
    have equal : value = other := by
      cases value <;> cases other <;> simp [kind] at agree
      · rfl
      · exact congrArg _ (text_bool_injective same)
      · exact congrArg _ (text_int_injective same)
      · cases free
      · exact congrArg _ (Json.quoted_injective same)
      · cases atom
      · cases atom
    exact equal ▸ .scalar atom
  · intro equivalent
    cases equivalent with
    | scalar => rfl
    | object | set | sequence => cases atom

/-- Arranged values have the same text exactly if they are the same to the registry. -/
theorem text_arranged_eq_iff {value other : Json} (known : value.WellFormed)
    (known' : other.WellFormed) (free : value.floatFree = true) (free' : other.floatFree = true) :
    text (arranged registry keys value) = text (arranged registry keys other) ↔
      Equivalent registry keys value other := by
  induction value using Json.induct generalizing keys other with
  | null | bool | int | str => exact text_arranged_scalar_iff rfl free free'
  | float => cases free
  | arr items ih =>
      by_cases agree : kind (.arr items) = kind other
      · cases other <;> simp [kind] at agree
        exact text_arranged_arr_iff free free' fun item present other present' =>
          ih item present (Json.wellFormed_arr.mp known item present)
            (Json.wellFormed_arr.mp known' other present')
            (Json.floatFree_arr.mp free item present) (Json.floatFree_arr.mp free' other present')
      · exact iff_of_false (fun same => agree (kind_eq_of_text_arranged_eq free free' same))
          fun equivalent => agree (kind_eq_of_equivalent equivalent)
  | obj members ih =>
      by_cases agree : kind (.obj members) = kind other
      · cases other <;> simp [kind] at agree
        exact text_arranged_obj_iff known known' free free' fun member present other present' _ =>
          ih member present ((Json.wellFormed_obj.mp known).2 member present)
            ((Json.wellFormed_obj.mp known').2 other present')
            (Json.floatFree_obj.mp free member present) (Json.floatFree_obj.mp free' other present')
      · exact iff_of_false (fun same => agree (kind_eq_of_text_arranged_eq free free' same))
          fun equivalent => agree (kind_eq_of_equivalent equivalent)

/-- Without floats a value has a canonical text, that of the arranged value. -/
theorem textAt_eq {path : FieldPath} {value : Json} (free : value.floatFree = true) :
    textAt registry path value = .ok (text (arranged registry path.keys value)) := by
  rw [textAt, valueAt, normalize_eq_arranged registry free]
  rfl

theorem floatFree_of_textAt {path : FieldPath} {value : Json} {written : String}
    (done : textAt registry path value = .ok written) : value.floatFree = true := by
  rw [textAt, valueAt] at done
  cases inner : normalize registry path.keys value with
  | error problem => simp [inner, Except.map] at done
  | ok normal => exact floatFree_of_normalize registry inner

theorem Equivalent.refl {value : Json} (known : value.WellFormed) (free : value.floatFree = true) :
    Equivalent registry keys value value :=
  (text_arranged_eq_iff known known free free).mp rfl

theorem Equivalent.singleton {name : String} {value other : Json}
    (equivalent : Equivalent registry (keys ++ [name]) value other) :
    Equivalent registry keys (.obj [(name, value)]) (.obj [(name, other)]) := by
  refine .object (fun key => ?_) fun key inner inner' found found' => ?_
  · by_cases named : name = key <;> simp [Entries.find?, named]
  · by_cases named : name = key
    · subst named
      simp only [Entries.find?, if_true, Option.some.injEq] at found found'
      exact found ▸ found' ▸ equivalent
    · simp [Entries.find?, named] at found

theorem members_eq_of_find? {members others : List (String × Json)}
    (known : (Json.obj members).WellFormed) (known' : (Json.obj others).WellFormed)
    (sameKeys : ∀ key, (Entries.find? key members).isSome = (Entries.find? key others).isSome)
    (sameValues : ∀ key value other, Entries.find? key members = some value →
      Entries.find? key others = some other → value = other) : members = others := by
  refine Entries.eq_of_find?_eq (Json.wellFormed_obj.mp known).1 (Json.wellFormed_obj.mp known').1
    fun key => ?_
  have sameKey := sameKeys key
  cases found : Entries.find? key members with
  | none =>
      rw [found] at sameKey
      exact (Option.isNone_iff_eq_none.mp (by simpa using sameKey.symm)).symm
  | some value =>
      rw [found] at sameKey
      obtain ⟨other, found'⟩ := Option.isSome_iff_exists.mp sameKey.symm
      rw [found', sameValues key value other found found']

/-- Where no set lies at a sequence of keys or below, only equal values are the same. -/
theorem eq_of_equivalent {value other : Json} (equivalent : Equivalent registry keys value other)
    (ordered : ∀ more, registry.isOrderless (keys ++ more) = false)
    (known : value.WellFormed) (known' : other.WellFormed) : value = other := by
  induction equivalent with
  | scalar _ => rfl
  | @object keys members others sameKeys _ ih =>
      refine congrArg _ (members_eq_of_find? known known' sameKeys ?_)
      intro key value other found found'
      refine ih key value other found found' (fun more => ?_)
        ((Json.wellFormed_obj.mp known).2 _ (Entries.mem_of_find? found))
        ((Json.wellFormed_obj.mp known').2 _ (Entries.mem_of_find? found'))
      rw [List.append_assoc]
      exact ordered _
  | @set keys _ _ _ orderless =>
      have notOrderless := ordered []
      rw [List.append_nil, orderless] at notOrderless
      cases notOrderless
  | @sequence keys items others _ sameLength _ ih =>
      have pairs : ∀ pair ∈ items.zip others, pair.1 = pair.2 := fun pair listed =>
        ih pair listed ordered (Json.wellFormed_arr.mp known _ (List.of_mem_zip listed).1)
          (Json.wellFormed_arr.mp known' _ (List.of_mem_zip listed).2)
      have same := (@map_eq_map_iff_zip _ _ id items others).mpr ⟨sameLength, pairs⟩
      rw [List.map_id, List.map_id] at same
      rw [same]

theorem Equivalent.member? {value other : Json} (equivalent : Equivalent registry keys value other)
    (key : String) :
    (value.member? key = none ∧ other.member? key = none) ∨
      ∃ inner inner', value.member? key = some inner ∧ other.member? key = some inner' ∧
        Equivalent registry (keys ++ [key]) inner inner' := by
  cases equivalent with
  | scalar atom =>
      cases value with
      | null | bool | int | float | str => exact .inl ⟨rfl, rfl⟩
      | arr | obj => cases atom
  | object sameKeys sameValues =>
      rename_i members others
      have sameKey := sameKeys key
      rw [Json.member?, Json.member?]
      cases found : Entries.find? key members with
      | none =>
          rw [found] at sameKey
          exact .inl ⟨rfl, Option.isNone_iff_eq_none.mp (by simpa using sameKey.symm)⟩
      | some inner =>
          rw [found] at sameKey
          obtain ⟨inner', found'⟩ := Option.isSome_iff_exists.mp sameKey.symm
          exact .inr ⟨inner, inner', rfl, found', sameValues key inner inner' found found'⟩
  | set | sequence => exact .inl ⟨rfl, rfl⟩

/-- Values without floats have canonical texts, and the bytes of these are the same exactly if the
values are the same to the registry. -/
theorem bytes_eq_iff_equivalent (registry : FieldRegistry) (path : FieldPath) (value other : Json)
    (known : value.WellFormed) (known' : other.WellFormed) (free : value.floatFree = true)
    (free' : other.floatFree = true) :
    ∃ written written', textAt registry path value = .ok written ∧
      textAt registry path other = .ok written' ∧
      (written.toUTF8 = written'.toUTF8 ↔ Equivalent registry path.keys value other) := by
  refine ⟨_, _, textAt_eq free, textAt_eq free', ?_⟩
  rw [← text_arranged_eq_iff known known' free free']
  exact String.toByteArray_inj

theorem bytes_of_reordered_set :
    ∃ written written',
      textAt .standard .root (.obj [("blocked_actions", .arr [.str "b", .str "a"])]) = .ok written ∧
      textAt .standard .root (.obj [("blocked_actions", .arr [.str "a", .str "b"])]) = .ok written' ∧
      (written.toUTF8 = written'.toUTF8 ↔
        Equivalent .standard []
          (.obj [("blocked_actions", .arr [.str "b", .str "a"])])
          (.obj [("blocked_actions", .arr [.str "a", .str "b"])])) :=
  bytes_eq_iff_equivalent .standard .root _ _ (by decide) (by decide) rfl rfl

end Canonical

end Governance
