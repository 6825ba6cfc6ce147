import Governance.Evidence.Basic
import Governance.Proofs.Wire.Given

/-!
# Reading in any order

What is read from a record does not depend on the order of its members. A value may therefore be put
in order, at all levels, before it is read.
-/

set_option autoImplicit false

namespace Governance.Wire

variable {σ α β : Type}

theorem find?_normalizedMembers_eq (name : String) (members : List (String × Json)) :
    (Json.normalizedMembers members).find? name =
      (valuesUnder name members).getLast?.map Json.normalized := by
  induction members with
  | nil => rfl
  | cons member rest ih =>
      obtain ⟨key, value⟩ := member
      rw [Json.find?_normalizedMembers_cons, ih, valuesUnder_cons]
      by_cases same : key = name
      · rw [if_pos same, if_pos same, List.getLast?_cons]
        cases (valuesUnder name rest).getLast? <;> rfl
      · rw [if_neg same, if_neg same, Option.or_none]

/-! ## Values that follow others -/

/-- Given values that are followed by others, each by one that it is related to. -/
inductive Given.Follows (related : σ → σ → Prop) : Given σ → Given σ → Prop where
  | byName {members members' : List (String × σ)} :
      (∀ name, valuesUnder name members = [] → valuesUnder name members' = []) →
      (∀ name found, valuesUnder name members = [found] →
        ∃ found', valuesUnder name members' = [found'] ∧ related found found') →
      Follows related (.byName members) (.byName members')
  | byPlace {items items' : List σ} :
      List.Forall₂ related items items' → Follows related (.byPlace items) (.byPlace items')

namespace Given.Follows

variable {related : σ → σ → Prop} {given given' : Given σ}

theorem length_eq (follows : given.Follows related given') : given'.length = given.length := by
  cases follows with
  | byName => rfl
  | byPlace each => exact each.length_eq.symm

theorem valuesAt_byPlace {items items' : List σ} (each : List.Forall₂ related items items')
    (place : Nat) (name : String) : List.Forall₂ related
      ((Given.byPlace items).valuesAt place name) ((Given.byPlace items').valuesAt place name) := by
  induction each generalizing place with
  | nil => exact .nil
  | cons pair _ ih =>
      cases place with
      | zero => exact .cons pair .nil
      | succ place => exact ih place

theorem fieldOr {absent : Option α} {place : Nat} {name : String} {read : σ → Decoded α} {value : α}
    (follows : given.Follows related given')
    (reads : ∀ found found' value, related found found' → read found = .ok value →
      read found' = .ok value)
    (done : (given.fieldOr absent place name read).result = .ok value) :
    (given'.fieldOr absent place name read).result = .ok value := by
  rw [Given.fieldOr_eq_ok_iff] at done ⊢
  cases follows with
  | byName none one =>
      rcases done with ⟨nothing, default⟩ | ⟨found, only, result⟩
      · exact .inl ⟨none name nothing, default⟩
      · obtain ⟨found', only', pair⟩ := one name found only
        exact .inr ⟨found', only', reads found found' value pair result⟩
  | byPlace each =>
      have values := valuesAt_byPlace each place name
      rcases done with ⟨nothing, default⟩ | ⟨found, only, result⟩
      · rw [nothing] at values
        exact .inl ⟨List.forall₂_nil_left_iff.mp values, default⟩
      · rw [only] at values
        obtain ⟨found', rest, pair, none, both⟩ := List.forall₂_cons_left_iff.mp values
        rw [List.forall₂_nil_left_iff.mp none] at both
        exact .inr ⟨found', both, reads found found' value pair result⟩

theorem map {τ : Type} {related' : τ → τ → Prop} {change : σ → τ}
    (follows : given.Follows related given')
    (changes : ∀ found ∈ given.values, ∀ found', related found found' →
      related' (change found) (change found')) :
    (given.map change).Follows related' (given'.map change) := by
  cases follows with
  | @byName members members' none one =>
      refine .byName (fun name nothing => ?_) fun name found only => ?_
      · rw [valuesUnder_map, List.map_eq_nil_iff] at nothing ⊢
        exact none name nothing
      · rw [valuesUnder_map, List.map_eq_singleton_iff] at only
        obtain ⟨source, only, rfl⟩ := only
        obtain ⟨source', only', pair⟩ := one name source only
        have listed : source ∈ (Given.byName members).valuesAt 0 name := by
          rw [Given.valuesAt, only]
          exact List.mem_singleton_self source
        refine ⟨change source', ?_, changes source (Given.mem_values listed) source' pair⟩
        rw [valuesUnder_map, only', List.map_singleton]
  | @byPlace items items' each =>
      have listed : List.Forall₂ (fun found found' => found ∈ items ∧ related found found')
          items items' :=
        (List.forall₂_and_left items items').mpr ⟨fun _ listed => listed, each⟩
      exact .byPlace (List.forall₂_map_left_iff.mpr (List.forall₂_map_right_iff.mpr
        (listed.imp fun found found' both => changes found both.1 found' both.2)))

theorem splitTag {tag : String} {found : σ} {rest : Given σ}
    (follows : given.Follows related given')
    (split : splitTag tag given = .ok (found, rest)) :
    ∃ found' rest', Wire.splitTag tag given' = .ok (found', rest') ∧ related found found' ∧
      rest.Follows related rest' := by
  cases follows with
  | @byName members members' none one =>
      obtain ⟨only, rfl⟩ := splitTag_byName_iff.mp split
      obtain ⟨found', only', pair⟩ := one tag found only
      refine ⟨found', _, splitTag_byName_iff.mpr ⟨only', rfl⟩, pair, .byName ?_ ?_⟩
      · intro name
        rw [valuesUnder_filter, valuesUnder_filter]
        by_cases same : name = tag
        · simp only [if_pos same, implies_true]
        · simpa only [if_neg same] using none name
      · intro name value
        rw [valuesUnder_filter, valuesUnder_filter]
        by_cases same : name = tag
        · simp only [if_pos same, reduceCtorEq, false_implies, List.nil_eq]
        · simpa only [if_neg same] using one name value
  | byPlace each =>
      cases each with
      | nil => cases split
      | cons pair others =>
          cases split
          exact ⟨_, _, rfl, pair, .byPlace others⟩

end Given.Follows

def Respects (related : σ → σ → Prop) (read : Given σ → Fields α) : Prop :=
  ∀ given given' value, given.Follows related given' → (read given).result = .ok value →
    (read given').result = .ok value

namespace Respects

variable {related : σ → σ → Prop}

theorem fieldOr {absent : Option α} {place : Nat} {name : String} {read : σ → Decoded α}
    (reads : ∀ found found' value, related found found' → read found = .ok value →
      read found' = .ok value) :
    Respects related (Given.fieldOr absent place name read) :=
  fun _ _ _ follows => follows.fieldOr reads

theorem map {read : Given σ → Fields α} (respects : Respects related read) (f : α → β) :
    Respects related fun given => f <$> read given := by
  intro given given' value follows done
  obtain ⟨x, result, rfl⟩ := result_map_eq_ok done
  exact result_map (respects given given' x follows result)

theorem seq {first : Given σ → Fields (α → β)} {second : Given σ → Fields α}
    (left : Respects related first) (right : Respects related second) :
    Respects related fun given => first given <*> second given := by
  intro given given' value follows done
  obtain ⟨f, x, result, result', rfl⟩ := result_seq_eq_ok done
  exact result_seq (left given given' f follows result) (right given given' x follows result')

theorem readFields {record : RecordName} {surplus : String} {read : Given σ → Fields α}
    (respects : Respects related read) {given given' : Given σ} {value : α}
    (follows : given.Follows related given')
    (done : readFields record surplus read given = .ok value) :
    Wire.readFields record surplus read given' = .ok value := by
  obtain ⟨result, fits⟩ := readFields_eq_ok done
  exact readFields_of_result (respects given given' value follows result) (follows.length_eq ▸ fits)

end Respects

/-! ## Readers -/

/-- A reader that reads the same from a value that is put in order. -/
def Unordered (read : Json → Decoded α) : Prop :=
  ∀ found value, read found = .ok value → read found.normalized = .ok value

theorem unordered_of_scalar {read : Json → Decoded α}
    (scalar : ∀ found value, read found = .ok value → found.normalized = found) :
    Unordered read := by
  intro found value done
  rw [scalar found value done]
  exact done

theorem unordered_value : Unordered Wire.value := by
  intro found value done
  cases done
  exact congrArg Except.ok found.normalized_normalized

theorem unordered_text : Unordered text :=
  unordered_of_scalar fun found _ done => by cases found <;> first | rfl | cases done

theorem unordered_flag : Unordered flag :=
  unordered_of_scalar fun found _ done => by cases found <;> first | rfl | cases done

theorem unordered_int64 : Unordered int64 :=
  unordered_of_scalar fun found _ done => by cases found <;> first | rfl | cases done

theorem unordered_identifier (kind : IdentifierKind) : Unordered (identifier kind) :=
  unordered_of_scalar fun found _ done => by cases found <;> first | rfl | cases done

theorem unordered_fieldPath : Unordered fieldPath :=
  unordered_of_scalar fun found _ done => by cases found <;> first | rfl | cases done

theorem unordered_digest : Unordered digest :=
  unordered_of_scalar fun found _ done => by cases found <;> first | rfl | cases done

theorem unordered_bundleId : Unordered BundleId.ofJson :=
  unordered_of_scalar fun found _ done => by cases found <;> first | rfl | cases done

theorem unordered_unit : Unordered unit :=
  unordered_of_scalar fun found _ done => by cases found <;> first | rfl | cases done

theorem normalized_single (name : String) (found : Json) :
    (Json.obj [(name, found)]).normalized = .obj [(name, found.normalized)] := rfl

theorem unordered_nameWith {content : Json → Decoded Unit} (unordered : Unordered content)
    (read : String → Decoded α) : Unordered (nameWith content read) := by
  intro found value done
  match found with
  | .str name => exact done
  | .obj [(name, found)] =>
      rw [normalized_single]
      rw [nameWith] at done ⊢
      cases known : read name with
      | error refusal => simp [known] at done
      | ok result =>
          cases inside : content found with
          | error refusal => simp [known, inside, Except.map] at done
          | ok nothing =>
              simp only [known, inside, unordered found nothing inside] at done ⊢
              exact done

theorem unordered_named [Named α] : Unordered (named (α := α)) :=
  unordered_nameWith unordered_unit _

theorem unordered_optional {read : Json → Decoded α} (unordered : Unordered read) :
    Unordered (optional read) := by
  intro found value done
  by_cases null : found = .null
  · subst null
    exact done
  · rw [optional_of_ne_null read null] at done
    rw [optional_of_ne_null read fun same => null (Json.normalized_eq_null_iff.mp same)]
    cases result : read found with
    | error refusal => simp [result, Except.map] at done
    | ok x => rwa [unordered found x result, ← result]

theorem items_normalized {read : Json → Decoded α} {found : List Json} {values : List α}
    (each : ∀ item ∈ found, ∀ value, read item = .ok value → read item.normalized = .ok value)
    (done : items read found = .ok values) :
    items read (found.map Json.normalized) = .ok values := by
  have listed : List.Forall₂ (fun item value => item ∈ found ∧ read item = .ok value)
      found values :=
    (List.forall₂_and_left found values).mpr ⟨fun _ listed => listed, items_eq_ok done⟩
  exact items_of_forall₂ (List.forall₂_map_left_iff.mpr
    (listed.imp fun item value both => each item both.1 value both.2))

theorem unordered_list {read : Json → Decoded α} (unordered : Unordered read) :
    Unordered (list read) := by
  intro found value done
  cases found with
  | arr found =>
      rw [Json.normalized, Json.normalizedItems_eq_map]
      exact items_normalized (fun item _ => unordered item) done
  | null | bool | int | float | str | obj => cases done

/-- The members of a value in order follow its members. -/
theorem follows_normalizedMembers (members : List (String × Json)) :
    (Given.byName members).Follows (fun found found' => found' = found.normalized)
      (.byName (Json.normalizedMembers members).entries) := by
  have under : ∀ name, valuesUnder name (Json.normalizedMembers members).entries =
      ((valuesUnder name members).getLast?.map Json.normalized).toList := by
    intro name
    rw [← find?_normalizedMembers_eq]
    exact valuesUnder_of_nodup (Entries.nodup_keys (Json.normalizedMembers members).ascending) name
  refine .byName (fun name nothing => ?_) fun name found only => ⟨found.normalized, ?_, rfl⟩
  · rw [under, nothing]
    rfl
  · rw [under, only]
    rfl

theorem follows_normalizedItems (items : List Json) :
    (Given.byPlace items).Follows (fun found found' => found' = found.normalized)
      (.byPlace (items.map Json.normalized)) :=
  .byPlace (List.forall₂_map_right_iff.mpr (List.forall₂_same.mpr fun _ _ => rfl))

theorem unordered_record {name : String} {count : Nat} {read : Given Json → Fields α}
    (respects : Respects (fun found found' => found' = found.normalized) read) :
    Unordered (record name count read) := by
  intro found value done
  cases found with
  | obj members => exact respects.readFields (follows_normalizedMembers members) done
  | arr items =>
      rw [Json.normalized, Json.normalizedItems_eq_map]
      exact respects.readFields (follows_normalizedItems items) done
  | null | bool | int | float | str => cases done

theorem Unordered.fieldOr {read : Json → Decoded α} (unordered : Unordered read) (absent : Option α)
    (place : Nat) (name : String) :
    Respects (fun found found' => found' = found.normalized)
      (Given.fieldOr absent place name read) :=
  .fieldOr fun found _ value same result => same ▸ unordered found value result

end Governance.Wire
