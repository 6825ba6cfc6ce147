import Governance.Proofs.Condition.Fields
import Governance.Proofs.FieldPath.Reread
import Governance.Proofs.Wire.Unordered

/-!
# Records of conditions

The conditions that can be read from a record are those whose paths can be read from a text and
whose operands are in order. Each of them is read again from its own record.
-/

set_option autoImplicit false

namespace Governance

namespace Operator

theorem ofName_name (operator : Operator) : ofName (Wire.Named.name operator) = operator := by
  cases operator <;> decide

theorem unordered_ofMember : Wire.Unordered ofMember := by
  refine Wire.unordered_nameWith (Wire.unordered_of_scalar fun found nothing done => ?_) _
  match found with
  | .null | .obj [] => rfl

end Operator

namespace Condition

/-- Whether a condition can be read from a record: the texts of its paths read as the paths, and its
operands are in order. -/
inductive Legible : Condition → Prop where
  | leaf {field : FieldPath} {operator : Operator} {value : Json} :
      field.Legible → value.IsOrdered → Legible (.leaf field operator value)
  | all {children : List Condition} :
      (∀ child ∈ children, Legible child) → Legible (.all children)
  | any {children : List Condition} :
      (∀ child ∈ children, Legible child) → Legible (.any children)

/-! ## Elements and members -/

def withChildren (found : Json) : WithChildren := (found, readChildren found)

theorem readItems_eq_map (items : List Json) : readItems items = items.map withChildren := by
  induction items with
  | nil => rfl
  | cons item rest ih => rw [readItems, ih, List.map_cons, withChildren]

theorem readMembers_eq_map (members : List (String × Json)) :
    readMembers members = members.map fun member => (member.1, withChildren member.2) := by
  induction members with
  | nil => rfl
  | cons member rest ih => rw [readMembers, ih, List.map_cons, withChildren]

theorem readEach_eq_items (items : List Json) :
    readEach items = Wire.items (read childTag) items := by
  induction items with
  | nil => rfl
  | cons item rest ih =>
      rw [readEach, Wire.items, ih]
      cases read childTag item <;> rfl

theorem childrenToJson_eq_map (children : List Condition) :
    childrenToJson children = children.map toJson := by
  induction children with
  | nil => rfl
  | cons child rest ih => rw [childrenToJson, ih, List.map_cons]

theorem read_obj (tag : Json → Wire.Decoded Form) (members : List (String × Json)) :
    read tag (.obj members) = ofTagged tag ((Wire.Given.byName members).map withChildren) := by
  rw [read, readMembers_eq_map, Wire.Given.map]

theorem read_arr (tag : Json → Wire.Decoded Form) (items : List Json) :
    read tag (.arr items) = ofTagged tag ((Wire.Given.byPlace items).map withChildren) := by
  rw [read, readItems_eq_map, Wire.Given.map]

theorem ofTagged_eq_ok {tag : Json → Wire.Decoded Form} {given : Wire.Given WithChildren}
    {condition : Condition} (done : ofTagged tag given = .ok condition) :
    ∃ found rest form, Wire.splitTag "type" given = .ok (found, rest) ∧ tag found.1 = .ok form ∧
      ofFields form rest = .ok condition := by
  rw [ofTagged] at done
  cases split : Wire.splitTag "type" given with
  | error refusal => simp [split] at done
  | ok parts =>
      obtain ⟨found, rest⟩ := parts
      cases named : tag found.1 with
      | error refusal => simp [split, named] at done
      | ok form =>
          simp only [split, named] at done
          exact ⟨found, rest, form, rfl, named, done⟩

theorem ofTagged_of_ofFields {tag : Json → Wire.Decoded Form} {given : Wire.Given WithChildren}
    {found : WithChildren} {rest : Wire.Given WithChildren} {form : Form} {condition : Condition}
    (split : Wire.splitTag "type" given = .ok (found, rest)) (named : tag found.1 = .ok form)
    (fields : ofFields form rest = .ok condition) : ofTagged tag given = .ok condition := by
  simp only [ofTagged, split, named, fields]

/-! ## What can be read -/

theorem legible_of_ofFields {form : Form} {given : Wire.Given WithChildren} {condition : Condition}
    (done : ofFields form given = .ok condition)
    (below : ∀ found ∈ given.values, ∀ children, found.2 = .ok children →
      ∀ child ∈ children, child.Legible) : condition.Legible := by
  cases form with
  | leaf =>
      rw [ofFields, Wire.taggedFields] at done
      obtain ⟨_, value, compared, written, rfl⟩ :=
        Wire.result_seq_eq_ok (Wire.readFields_eq_ok done).1
      obtain ⟨_, operator, started, _, rfl⟩ := Wire.result_seq_eq_ok compared
      obtain ⟨field, named, rfl⟩ := Wire.result_map_eq_ok started
      have legible : field.Legible := by
        refine Wire.Given.holds_of_fieldOr named nofun fun _ _ path done => ?_
        obtain ⟨text, parsed⟩ := Wire.fieldPath_eq_ok done
        exact FieldPath.legible_of_parse parsed
      have ordered : value.IsOrdered :=
        Wire.Given.holds_of_fieldOr written (by rintro _ ⟨⟩; rfl) fun _ _ _ done =>
          Wire.isOrdered_of_value done
      exact .leaf legible ordered
  | all =>
      rw [ofFields, Wire.taggedFields] at done
      obtain ⟨children, read, rfl⟩ := Wire.result_map_eq_ok (Wire.readFields_eq_ok done).1
      exact .all (Wire.Given.holds_of_fieldOr read (by rintro _ ⟨⟩; exact nofun) below)
  | any =>
      rw [ofFields, Wire.taggedFields] at done
      obtain ⟨children, read, rfl⟩ := Wire.result_map_eq_ok (Wire.readFields_eq_ok done).1
      exact .any (Wire.Given.holds_of_fieldOr read (by rintro _ ⟨⟩; exact nofun) below)

theorem legible_of_ofTagged {tag : Json → Wire.Decoded Form} {given : Wire.Given Json}
    {condition : Condition} (done : ofTagged tag (given.map withChildren) = .ok condition)
    (below : ∀ found ∈ given.values, ∀ children, readChildren found = .ok children →
      ∀ child ∈ children, child.Legible) : condition.Legible := by
  obtain ⟨found, rest, form, split, _, fields⟩ := ofTagged_eq_ok done
  refine legible_of_ofFields fields fun found listed => ?_
  have beside := Wire.mem_values_of_splitTag split listed
  rw [Wire.Given.values_map] at beside
  obtain ⟨source, present, rfl⟩ := List.mem_map.mp beside
  exact below source present

/-- What is read as a condition, and what is read as children, is legible. -/
theorem legible_of_read_and_readChildren (found : Json) :
    (∀ tag condition, read tag found = .ok condition → condition.Legible) ∧
      ∀ children, readChildren found = .ok children → ∀ child ∈ children, child.Legible := by
  -- an array is read both as a condition and as children, so the two go together
  induction found using Json.induct with
  | null | bool | int | float | str =>
      constructor <;> intros <;> contradiction
  | arr items ih =>
      refine ⟨fun tag condition done => ?_, fun children done child listed => ?_⟩
      · rw [read_arr] at done
        exact legible_of_ofTagged done fun found listed => (ih found listed).2
      · rw [readChildren, readEach_eq_items] at done
        obtain ⟨item, listed, result⟩ := Wire.exists_of_items_eq_ok done listed
        exact (ih item listed).1 childTag child result
  | obj members ih =>
      refine ⟨fun tag condition done => ?_, fun _ done => by cases done⟩
      rw [read_obj] at done
      refine legible_of_ofTagged done fun found listed => ?_
      obtain ⟨member, present, rfl⟩ := List.mem_map.mp listed
      exact (ih member present).2

/-! ## Writing -/

def ReadsNames (tag : Json → Wire.Decoded Form) : Prop :=
  ∀ name, tag (.str name) = Wire.variant name

theorem readsNames_rootTag : ReadsNames rootTag := fun _ => rfl

theorem readsNames_childTag : ReadsNames childTag := fun _ => rfl

theorem readChildren_childrenToJson {children : List Condition}
    (each : ∀ child ∈ children, read childTag child.toJson = .ok child) :
    readChildren (.arr (childrenToJson children)) = .ok children := by
  rw [readChildren, readEach_eq_items, childrenToJson_eq_map]
  exact Wire.items_of_forall₂ (List.forall₂_map_left_iff.mpr (List.forall₂_same.mpr each))

theorem read_composite {tag : Json → Wire.Decoded Form} (names : ReadsNames tag) {name label : String}
    {form : Form} {composite : List Condition → Condition} {children : List Condition}
    (named : Wire.variant name = .ok form)
    (fields : ∀ given, ofFields form given = Wire.taggedFields label 1 (fun given =>
      composite <$> given.fieldOr (some []) 0 "children" Prod.snd) given)
    (each : ∀ child ∈ children, read childTag child.toJson = .ok child) :
    read tag (.obj [("type", .str name), ("children", .arr (childrenToJson children))])
      = .ok (composite children) := by
  rw [read_obj]
  refine ofTagged_of_ofFields (Wire.splitTag_byName_iff.mpr ⟨rfl, rfl⟩) ((names name).trans named) ?_
  rw [fields, Wire.taggedFields]
  refine Wire.readFields_of_result (Wire.result_map ?_) (Nat.zero_le 1)
  exact Wire.Given.fieldOr_of_valuesAt rfl (readChildren_childrenToJson each)

theorem read_toJson {tag : Json → Wire.Decoded Form} (names : ReadsNames tag)
    {condition : Condition} (legible : condition.Legible) :
    read tag condition.toJson = .ok condition := by
  induction condition using induct generalizing tag with
  | leaf field operator value =>
      cases legible with
      | leaf path ordered =>
          have fieldRead : Wire.fieldPath (.str field.display) = .ok field := by
            simp [Wire.fieldPath, Wire.text, FieldPath.parse_display path, Except.mapError]
          have operatorRead : Operator.ofMember (.str (Wire.Named.name operator)) = .ok operator :=
            congrArg Except.ok operator.ofName_name
          have valueRead : Wire.value value = .ok value := congrArg Except.ok ordered
          rw [toJson, read_obj]
          refine ofTagged_of_ofFields (Wire.splitTag_byName_iff.mpr ⟨rfl, rfl⟩) (names "leaf") ?_
          rw [ofFields, Wire.taggedFields]
          refine Wire.readFields_of_result
            (Wire.result_seq (Wire.result_seq (Wire.result_map ?_) ?_) ?_) (Nat.zero_le 3)
          · exact Wire.Given.fieldOr_of_valuesAt rfl fieldRead
          · exact Wire.Given.fieldOr_of_valuesAt rfl operatorRead
          · exact Wire.Given.fieldOr_of_valuesAt rfl valueRead
  | all children ih =>
      cases legible with
      | all below =>
          rw [toJson]
          exact read_composite names rfl (fun _ => rfl) fun child listed =>
            ih child listed readsNames_childTag (below child listed)
  | any children ih =>
      cases legible with
      | any below =>
          rw [toJson]
          exact read_composite names rfl (fun _ => rfl) fun child listed =>
            ih child listed readsNames_childTag (below child listed)

theorem legible_of_ofJson {found : Json} {condition : Condition}
    (done : ofJson found = .ok condition) : condition.Legible :=
  (legible_of_read_and_readChildren found).1 rootTag condition done

theorem ofJson_toJson_of_legible {condition : Condition} (legible : condition.Legible) :
    ofJson condition.toJson = .ok condition :=
  read_toJson readsNames_rootTag legible

/-! ## Reading in any order -/

def PutInOrder (found found' : WithChildren) : Prop :=
  found'.1 = found.1.normalized ∧ ∀ children, found.2 = .ok children → found'.2 = .ok children

theorem respects_of_unordered {α : Type} {read : Json → Wire.Decoded α}
    (unordered : Wire.Unordered read) (absent : Option α) (place : Nat) (name : String) :
    Wire.Respects PutInOrder
      (Wire.Given.fieldOr absent place name fun found : WithChildren => read found.1) := by
  refine .fieldOr fun found found' value order result => ?_
  rw [order.1]
  exact unordered found.1 value result

theorem respects_children :
    Wire.Respects PutInOrder (Wire.Given.fieldOr (some []) 0 "children" Prod.snd) :=
  .fieldOr fun _ _ children order result => order.2 children result

theorem ofFields_of_follows {form : Form} {given given' : Wire.Given WithChildren}
    {condition : Condition} (follows : given.Follows PutInOrder given')
    (done : ofFields form given = .ok condition) : ofFields form given' = .ok condition := by
  cases form with
  | leaf =>
      refine Wire.Respects.readFields (.seq (.seq (.map ?_ leaf) ?_) ?_) follows done
      · exact respects_of_unordered Wire.unordered_fieldPath none 0 "field"
      · exact respects_of_unordered Operator.unordered_ofMember none 1 "operator"
      · exact respects_of_unordered Wire.unordered_value (some .null) 2 "value"
  | all => exact Wire.Respects.readFields (respects_children.map all) follows done
  | any => exact Wire.Respects.readFields (respects_children.map any) follows done

theorem ofTagged_of_follows {tag : Json → Wire.Decoded Form} (unordered : Wire.Unordered tag)
    {given given' : Wire.Given WithChildren} {condition : Condition}
    (follows : given.Follows PutInOrder given') (done : ofTagged tag given = .ok condition) :
    ofTagged tag given' = .ok condition := by
  obtain ⟨found, rest, form, split, named, fields⟩ := ofTagged_eq_ok done
  obtain ⟨found', rest', split', order, beside⟩ := follows.splitTag split
  refine ofTagged_of_ofFields split' ?_ (ofFields_of_follows beside fields)
  rw [order.1]
  exact unordered found.1 form named

theorem unordered_rootTag : Wire.Unordered rootTag :=
  Wire.unordered_of_scalar fun found _ done => by cases found <;> first | rfl | cases done

theorem unordered_childTag : Wire.Unordered childTag :=
  Wire.unordered_of_scalar fun found _ done => by cases found <;> first | rfl | cases done

/-- A condition, and children, are read the same from a value that is put in order. -/
theorem unordered_read_and_readChildren (found : Json) :
    (∀ tag, Wire.Unordered tag → ∀ condition, read tag found = .ok condition →
      read tag found.normalized = .ok condition) ∧
      ∀ children, readChildren found = .ok children →
        readChildren found.normalized = .ok children := by
  -- an array is read both as a condition and as children, so the two go together
  induction found using Json.induct with
  | null | bool | int | float | str =>
      constructor <;> intros <;> contradiction
  | arr items ih =>
      refine ⟨fun tag unordered condition done => ?_, fun children done => ?_⟩
      · rw [read_arr] at done
        rw [Json.normalized, Json.normalizedItems_eq_map, read_arr]
        refine ofTagged_of_follows unordered ((Wire.follows_normalizedItems items).map ?_) done
        rintro found listed _ rfl
        exact ⟨rfl, (ih found listed).2⟩
      · rw [readChildren, readEach_eq_items] at done
        rw [Json.normalized, Json.normalizedItems_eq_map, readChildren, readEach_eq_items]
        exact Wire.items_normalized
          (fun item listed => (ih item listed).1 childTag unordered_childTag) done
  | obj members ih =>
      refine ⟨fun tag unordered condition done => ?_, fun _ done => by cases done⟩
      rw [read_obj] at done
      rw [Json.normalized, read_obj]
      refine ofTagged_of_follows unordered ((Wire.follows_normalizedMembers members).map ?_) done
      rintro found listed _ rfl
      obtain ⟨member, present, rfl⟩ := List.mem_map.mp listed
      exact ⟨rfl, (ih member present).2⟩

theorem unordered_ofJson : Wire.Unordered ofJson :=
  fun found => (unordered_read_and_readChildren found).1 rootTag unordered_rootTag

end Condition

end Governance
