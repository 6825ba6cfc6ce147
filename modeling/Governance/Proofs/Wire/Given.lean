import Governance.Proofs.Wire.Record

/-!
# What is given for a field

A field is read from the one value that is given for it, by name or by place, wherever that value
stands. A record that has been read is taken apart into its fields, and is read again from values
that can be read for each of them.
-/

set_option autoImplicit false

namespace Governance.Wire

variable {σ α β : Type}

/-! ## Values of a field -/

def valuesUnder (name : String) (members : List (String × σ)) : List σ :=
  (members.filter fun member => member.1 = name).map Prod.snd

@[simp] theorem valuesUnder_nil (name : String) :
    valuesUnder name ([] : List (String × σ)) = [] := rfl

@[simp] theorem valuesUnder_cons (name : String) (member : String × σ) (rest : List (String × σ)) :
    valuesUnder name (member :: rest) =
      if member.1 = name then member.2 :: valuesUnder name rest else valuesUnder name rest := by
  rw [valuesUnder, List.filter_cons]
  by_cases same : member.1 = name
  · simp [same, valuesUnder]
  · simp [same, valuesUnder]

@[simp] theorem valuesUnder_append (name : String) (front back : List (String × σ)) :
    valuesUnder name (front ++ back) = valuesUnder name front ++ valuesUnder name back := by
  rw [valuesUnder, List.filter_append, List.map_append, valuesUnder, valuesUnder]

@[simp] theorem valuesUnder_present (name key : String) (value : Option Json) :
    valuesUnder name (present key value) = if key = name then value.toList else [] := by
  cases value with
  | none => exact (ite_self []).symm
  | some value => exact valuesUnder_cons name (key, value) []

theorem valuesUnder_map {τ : Type} (name : String) (change : σ → τ) (members : List (String × σ)) :
    valuesUnder name (members.map fun member => (member.1, change member.2)) =
      (valuesUnder name members).map change := by
  induction members with
  | nil => rfl
  | cons member rest ih =>
      rw [List.map_cons, valuesUnder_cons, valuesUnder_cons, ih]
      split <;> rfl

theorem valuesUnder_filter (name left : String) (members : List (String × σ)) :
    valuesUnder name (members.filter fun member => member.1 ≠ left) =
      if name = left then [] else valuesUnder name members := by
  induction members with
  | nil => exact (ite_self []).symm
  | cons member rest ih =>
      rw [List.filter_cons]
      by_cases out : member.1 = left
      · rw [if_neg (by simpa using out), ih, valuesUnder_cons]
        by_cases same : name = left
        · rw [if_pos same, if_pos same]
        · rw [if_neg same, if_neg same, if_neg fun equal => same (equal.symm.trans out)]
      · rw [if_pos (by simpa using out), valuesUnder_cons, valuesUnder_cons, ih]
        by_cases same : name = left
        · rw [if_pos same, if_pos same, if_neg fun equal => out (equal.trans same)]
        · rw [if_neg same, if_neg same]

theorem map_valuesOf (name : String) (place : Nat) (members : List (String × σ)) :
    (valuesOf name place members).map Prod.snd = valuesUnder name members := by
  induction members generalizing place with
  | nil => rfl
  | cons member rest ih =>
      rw [valuesOf, valuesUnder_cons]
      by_cases same : member.1 = name
      · rw [if_pos same, if_pos same, List.map_cons, ih]
      · rw [if_neg same, if_neg same, ih]

theorem valuesUnder_of_nodup {members : List (String × σ)} (distinct : (members.map Prod.fst).Nodup)
    (name : String) : valuesUnder name members = (Entries.find? name members).toList := by
  rw [← map_valuesOf name 0]
  cases found : Entries.find? name members with
  | none => rw [valuesOf_eq_nil (Entries.find?_eq_none_iff.mp found)]; rfl
  | some value =>
      obtain ⟨first, given⟩ := valuesOf_eq_singleton distinct found 0
      rw [given]
      rfl

namespace Given

def valuesAt (place : Nat) (name : String) : Given σ → List σ
  | .byName members => valuesUnder name members
  | .byPlace items => items[place]?.toList

@[simp] theorem valuesAt_byName (place : Nat) (name : String) (members : List (String × σ)) :
    (byName members).valuesAt place name = valuesUnder name members := rfl

def values : Given σ → List σ
  | .byName members => members.map Prod.snd
  | .byPlace items => items

def map {τ : Type} (change : σ → τ) : Given σ → Given τ
  | .byName members => .byName (members.map fun member => (member.1, change member.2))
  | .byPlace items => .byPlace (items.map change)

theorem values_map {τ : Type} (change : σ → τ) (given : Given σ) :
    (given.map change).values = given.values.map change := by
  cases given with
  | byName members => simp [map, values]
  | byPlace items => rfl

theorem mem_values {place : Nat} {name : String} {given : Given σ} {value : σ}
    (listed : value ∈ given.valuesAt place name) : value ∈ given.values := by
  cases given with
  | byName members =>
      obtain ⟨member, present, rfl⟩ := List.mem_map.mp listed
      exact List.mem_map_of_mem (List.mem_filter.mp present).1
  | byPlace items => exact List.mem_of_getElem? (Option.mem_toList.mp listed)

/-- A field is read from the one value that is given for it, or is absent and has a default. -/
theorem fieldOr_eq_ok_iff {absent : Option α} {place : Nat} {name : String} {read : σ → Decoded α}
    {given : Given σ} {value : α} :
    (given.fieldOr absent place name read).result = .ok value ↔
      (given.valuesAt place name = [] ∧ absent = some value) ∨
        ∃ found, given.valuesAt place name = [found] ∧ read found = .ok value := by
  cases given with
  | byPlace items =>
      simp only [fieldOr, valuesAt]
      cases items[place]? with
      | none => cases absent <;> simp
      | some found =>
          cases result : read found <;> simp [Except.mapError, result]
  | byName members =>
      simp only [fieldOr, valuesAt, ← map_valuesOf name 0 members]
      cases valuesOf name 0 members with
      | nil => cases absent <;> simp
      | cons first repeated =>
          obtain ⟨position, found⟩ := first
          cases result : read found with
          | error refusal => simp [result]
          | ok read => cases repeated <;> simp [result]

end Given

theorem optional_of_ne_null (read : Json → Decoded α) {found : Json} (proper : found ≠ .null) :
    optional read found = (read found).map some := by
  rw [optional]
  exact proper

namespace Given

theorem holds_of_fieldOr {holds : α → Prop} {absent : Option α} {place : Nat} {name : String}
    {read : σ → Decoded α} {given : Given σ} {value : α}
    (done : (given.fieldOr absent place name read).result = .ok value)
    (default : ∀ value, absent = some value → holds value)
    (each : ∀ found ∈ given.values, ∀ value, read found = .ok value → holds value) :
    holds value := by
  rcases fieldOr_eq_ok_iff.mp done with ⟨_, same⟩ | ⟨found, only, reads⟩
  · exact default value same
  · exact each found (mem_values (only ▸ List.mem_singleton_self found)) value reads

theorem fieldOr_of_valuesAt {absent : Option α} {place : Nat} {name : String} {read : σ → Decoded α}
    {given : Given σ} {found : σ} {value : α} (only : given.valuesAt place name = [found])
    (reads : read found = .ok value) :
    (given.fieldOr absent place name read).result = .ok value :=
  fieldOr_eq_ok_iff.mpr (.inr ⟨found, only, reads⟩)

/-- A field that is left out when it has no value is read if its value is not written as `null`. -/
theorem optionalField_of_valuesAt {place : Nat} {name : String} {read : Json → Decoded α}
    {given : Given Json} {value : Option α} (write : α → Json)
    (found : given.valuesAt place name = (value.map write).toList)
    (reads : ∀ x, value = some x → write x ≠ .null ∧ read (write x) = .ok x) :
    (given.optionalField place name read).result = .ok value := by
  cases value with
  | none => exact fieldOr_eq_ok_iff.mpr (.inl ⟨found, rfl⟩)
  | some x =>
      obtain ⟨proper, known⟩ := reads x rfl
      refine fieldOr_of_valuesAt found ?_
      rw [optional_of_ne_null read proper, known]
      rfl

end Given

/-! ## The tag of a record -/

theorem splitTag_byName_iff {tag : String} {members : List (String × σ)} {found : σ}
    {rest : Given σ} :
    splitTag tag (.byName members) = .ok (found, rest) ↔
      valuesUnder tag members = [found] ∧
        rest = .byName (members.filter fun member => member.1 ≠ tag) := by
  rw [splitTag, ← map_valuesOf tag 0 members]
  cases valuesOf tag 0 members with
  | nil => simp
  | cons first repeated =>
      cases repeated with
      | nil => simp [eq_comm]
      | cons second others => simp

theorem mem_values_of_splitTag {tag : String} {given rest : Given σ} {found value : σ}
    (split : splitTag tag given = .ok (found, rest)) (listed : value ∈ rest.values) :
    value ∈ given.values := by
  cases given with
  | byName members =>
      obtain ⟨_, rfl⟩ := splitTag_byName_iff.mp split
      obtain ⟨member, present, rfl⟩ := List.mem_map.mp listed
      exact List.mem_map_of_mem (List.mem_filter.mp present).1
  | byPlace items =>
      cases items with
      | nil => cases split
      | cons first others =>
          cases split
          exact List.mem_cons_of_mem _ listed

/-! ## Inverting readers -/

theorem isOrdered_of_value {found result : Json} (done : value found = .ok result) :
    result.IsOrdered := by
  cases done
  exact found.isOrdered_normalized

theorem fieldPath_eq_ok {found : Json} {path : FieldPath} (done : fieldPath found = .ok path) :
    ∃ text, FieldPath.parse text = .ok path := by
  rw [fieldPath] at done
  cases named : text found with
  | error refusal => simp [named] at done
  | ok written =>
      cases read : FieldPath.parse written with
      | error problem => simp [named, read, Except.mapError] at done
      | ok other =>
          simp only [named, read, Except.mapError, Except.ok.injEq] at done
          exact ⟨written, done ▸ read⟩

theorem result_map_eq_ok {f : α → β} {fields : Fields α} {value : β}
    (read : (f <$> fields).result = .ok value) : ∃ x, fields.result = .ok x ∧ f x = value := by
  change fields.result.map f = .ok value at read
  cases result : fields.result with
  | error fault => simp [result, Except.map] at read
  | ok x =>
      simp only [result, Except.map, Except.ok.injEq] at read
      exact ⟨x, rfl, read⟩

theorem result_seq_eq_ok {first : Fields (α → β)} {second : Fields α} {value : β}
    (read : (first <*> second).result = .ok value) :
    ∃ f x, first.result = .ok f ∧ second.result = .ok x ∧ f x = value := by
  change (first.combine second).result = .ok value at read
  rw [Fields.combine] at read
  cases left : first.result with
  | error fault => cases right : second.result <;> simp [left, right] at read
  | ok f =>
      cases right : second.result with
      | error fault => simp [left, right] at read
      | ok x =>
          simp only [left, right, Except.ok.injEq] at read
          exact ⟨f, x, rfl, rfl, read⟩

theorem result_map {f : α → β} {fields : Fields α} {x : α} (read : fields.result = .ok x) :
    (f <$> fields).result = .ok (f x) := by
  change fields.result.map f = _
  rw [read]
  rfl

theorem result_seq {first : Fields (α → β)} {second : Fields α} {f : α → β} {x : α}
    (left : first.result = .ok f) (right : second.result = .ok x) :
    (first <*> second).result = .ok (f x) := by
  change (first.combine second).result = _
  rw [Fields.combine, left, right]

theorem readFields_eq_ok {record : RecordName} {surplus : String} {read : Given σ → Fields α}
    {given : Given σ} {value : α} (done : readFields record surplus read given = .ok value) :
    (read given).result = .ok value ∧ given.length ≤ record.count := by
  rw [readFields] at done
  cases result : (read given).result with
  | error fault => simp [result] at done
  | ok x =>
      simp only [result] at done
      split at done
      · cases done
      · rename_i fits
        cases done
        exact ⟨rfl, Nat.le_of_not_lt fits⟩

theorem readFields_of_result {record : RecordName} {surplus : String} {read : Given σ → Fields α}
    {given : Given σ} {value : α} (result : (read given).result = .ok value)
    (fits : given.length ≤ record.count) : readFields record surplus read given = .ok value := by
  simp only [readFields, result, if_neg (Nat.not_lt.mpr fits)]

theorem record_eq_ok {name : String} {count : Nat} {read : Given Json → Fields α} {found : Json}
    {value : α} (done : record name count read found = .ok value) :
    ∃ given : Given Json, (read given).result = .ok value := by
  cases found with
  | obj members => exact ⟨.byName members, (readFields_eq_ok done).1⟩
  | arr items => exact ⟨.byPlace items, (readFields_eq_ok done).1⟩
  | null | bool | int | float | str => cases done

theorem record_of_result {name : String} {count : Nat} {read : Given Json → Fields α}
    {members : List (String × Json)} {value : α}
    (result : (read (.byName members)).result = .ok value) :
    record name count read (.obj members) = .ok value :=
  readFields_of_result result (Nat.zero_le count)

/-! ## Containers -/

theorem optional_eq_ok {read : Json → Decoded α} {found : Json} {value : α}
    (done : optional read found = .ok (some value)) : found ≠ .null ∧ read found = .ok value := by
  have proper : found ≠ .null := by
    rintro rfl
    cases done
  refine ⟨proper, ?_⟩
  rw [optional_of_ne_null read proper] at done
  cases result : read found with
  | error refusal => simp [result, Except.map] at done
  | ok x => simpa [result, Except.map] using done

theorem items_eq_ok {read : Json → Decoded α} {found : List Json} {values : List α}
    (done : items read found = .ok values) :
    List.Forall₂ (fun item value => read item = .ok value) found values := by
  induction found generalizing values with
  | nil =>
      cases done
      exact .nil
  | cons item rest ih =>
      rw [items] at done
      cases first : read item with
      | error refusal => simp [first] at done
      | ok value =>
          cases later : items read rest with
          | error refusal => simp [first, later, Except.map] at done
          | ok others =>
              simp only [first, later, Except.map, Except.ok.injEq] at done
              subst done
              exact .cons first (ih later)

theorem exists_of_items_eq_ok {read : Json → Decoded α} {found : List Json} {values : List α}
    (done : items read found = .ok values) {value : α} (listed : value ∈ values) :
    ∃ item ∈ found, read item = .ok value := by
  have paired := items_eq_ok done
  clear done
  induction paired with
  | nil => cases listed
  | @cons item first rest values result _ ih =>
      rcases List.mem_cons.mp listed with rfl | later
      · exact ⟨item, List.mem_cons_self, result⟩
      · obtain ⟨other, present, result⟩ := ih later
        exact ⟨other, List.mem_cons_of_mem _ present, result⟩

theorem exists_of_list_eq_ok {read : Json → Decoded α} {found : Json} {values : List α}
    (done : list read found = .ok values) {value : α} (listed : value ∈ values) :
    ∃ item, read item = .ok value := by
  cases found with
  | arr items =>
      obtain ⟨item, _, result⟩ := exists_of_items_eq_ok done listed
      exact ⟨item, result⟩
  | null | bool | int | float | str | obj => cases done

theorem items_of_forall₂ {read : Json → Decoded α} {found : List Json} {values : List α}
    (each : List.Forall₂ (fun item value => read item = .ok value) found values) :
    items read found = .ok values := by
  induction each with
  | nil => rfl
  | cons first _ ih => simp only [items, first, ih, Except.map]

end Governance.Wire
