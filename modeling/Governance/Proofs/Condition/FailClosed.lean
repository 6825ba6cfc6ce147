import Governance.Proofs.Condition.Fields
import Governance.Proofs.Json.Equality
import Mathlib.Logic.Relation

/-!
# Conditions fail closed

A condition is a monotone combination of comparisons, and a comparison asks for a value that is
there. Taking values out of a document, or spoiling comparisons with an operator or an operand that
cannot be used, may turn a condition that holds into one that does not, but never the other way
round, not even where a comparison asks for a difference.
-/

set_option autoImplicit false

namespace Governance

/-! ## Documents that lose values -/

inductive FieldPath.KeptOrLost (field : FieldPath) (document later : Json) : Prop where
  | kept {value value' : Json} : field.lookup? document = some value →
      field.lookup? later = some value' → value'.same value = true → KeptOrLost field document later
  | missing : field.lookup? later = none → KeptOrLost field document later
  | null : field.lookup? later = some .null → KeptOrLost field document later

theorem FieldPath.present?_eq_some_iff {field : FieldPath} {document value : Json} :
    field.present? document = some value ↔ field.lookup? document = some value ∧ value ≠ .null := by
  rw [FieldPath.present?]
  split
  · rename_i null
    rw [null]
    constructor
    · exact fun found => nomatch found
    · exact fun both => absurd (Option.some.inj both.1).symm both.2
  · rename_i other
    refine ⟨fun found => ⟨found, fun null => other ?_⟩, fun both => both.1⟩
    rw [found, null]

theorem FieldPath.KeptOrLost.present? {field : FieldPath} {document later value' : Json}
    (fades : field.KeptOrLost document later) (found : field.present? later = some value') :
    ∃ value, field.present? document = some value ∧ value'.same value = true := by
  obtain ⟨reached, filled⟩ := present?_eq_some_iff.mp found
  cases fades with
  | @kept value _ before after equal =>
      cases after.symm.trans reached
      refine ⟨value, present?_eq_some_iff.mpr ⟨before, fun null => filled ?_⟩, equal⟩
      exact Json.eq_of_same (null ▸ equal) rfl
  | missing absent => cases absent.symm.trans reached
  | null absent => exact absurd (Option.some.inj (reached.symm.trans absent)) filled

namespace Operator

/-! ## Comparisons -/

theorem holds_of_same {operator : Operator} {actual actual' expected : Json}
    (equal : actual'.same actual = true) (holds : operator.holds actual' expected = true) :
    operator.holds actual expected = true := by
  have compared := Json.same_congr equal
  have version : version? actual' = version? actual := by
    rw [version?, version?, Json.text?_of_same equal]
  have listed : actual'.memberOf = actual.memberOf := by
    funext items
    exact congrArg items.any (funext compared)
  rw [← holds]
  cases operator with
  | equals | notEquals => simp only [Operator.holds, compared]
  | memberOf | notMemberOf => simp only [Operator.holds, listed]
  | versionLessThan | versionGreaterThan => simp only [Operator.holds, precedence?, version]
  | versionSatisfiesRange => simp only [Operator.holds, version]
  | unsupported => rfl

/-- An operator with an operand that cannot be used: one that is not supported, a test for membership
in something other than an array, or a test of versions against something that is no version, or no
requirement. -/
inductive Unusable : Operator → Json → Prop where
  | unsupported {operand : Json} : Unusable .unsupported operand
  | memberOf {operand : Json} : operand.isArray = false → Unusable .memberOf operand
  | notMemberOf {operand : Json} : operand.isArray = false → Unusable .notMemberOf operand
  | versionLessThan {operand : Json} : version? operand = none → Unusable .versionLessThan operand
  | versionGreaterThan {operand : Json} : version? operand = none →
      Unusable .versionGreaterThan operand
  | versionSatisfiesRange {operand : Json} : requirement? operand = none →
      Unusable .versionSatisfiesRange operand

theorem Unusable.holds_eq_false {operator : Operator} {operand : Json}
    (unusable : Unusable operator operand) (actual : Json) : operator.holds actual operand = false := by
  cases unusable with
  | unsupported => rfl
  | memberOf other | notMemberOf other =>
      rw [Json.isArray, Option.isSome_eq_false_iff, Option.isNone_iff_eq_none] at other
      simp only [holds, other, Option.any_none]
  | versionLessThan unread | versionGreaterThan unread =>
      have incomparable : precedence? actual operand = none := by
        simp [precedence?, unread]
      simp only [holds, incomparable, reduceCtorEq, beq_eq_false_iff_ne, ne_eq, not_false_eq_true]
  | versionSatisfiesRange unread =>
      rw [holds, unread]
      cases version? actual <;> rfl

end Operator

namespace Condition

/-! ## Conditions -/

theorem evaluate_all_iff {document : Json} {children : List Condition} :
    (all children).evaluate document = true ↔
      ∀ child ∈ children, child.evaluate document = true := by
  rw [evaluate, evaluateAll_eq_all, List.all_eq_true]

theorem evaluate_any_iff {document : Json} {children : List Condition} :
    (any children).evaluate document = true ↔
      ∃ child ∈ children, child.evaluate document = true := by
  rw [evaluate, evaluateAny_eq_any, List.any_eq_true]

theorem evaluate_leaf_iff {document value : Json} {field : FieldPath} {operator : Operator} :
    (leaf field operator value).evaluate document = true ↔
      ∃ actual, field.present? document = some actual ∧ operator.holds actual value = true := by
  rw [evaluate]
  cases field.present? document <;> simp

/-- A condition that holds on the later document held before. -/
theorem evaluate_of_keptOrLost {condition : Condition} {document later : Json}
    (fades : ∀ field, condition.Compares field → field.KeptOrLost document later)
    (holds : condition.evaluate later = true) : condition.evaluate document = true := by
  induction condition using induct with
  | leaf field operator value =>
      rw [evaluate_leaf_iff] at holds ⊢
      obtain ⟨actual', found', holds⟩ := holds
      obtain ⟨actual, found, equal⟩ := (fades field .leaf).present? found'
      exact ⟨actual, found, Operator.holds_of_same equal holds⟩
  | all children ih =>
      rw [evaluate_all_iff] at holds ⊢
      intro child listed
      exact ih child listed (fun field compared => fades field (.all listed compared))
        (holds child listed)
  | any children ih =>
      rw [evaluate_any_iff] at holds ⊢
      obtain ⟨child, listed, holds⟩ := holds
      exact ⟨child, listed,
        ih child listed (fun field compared => fades field (.any listed compared)) holds⟩

/-- Whether one comparison of a condition has been replaced by one that cannot be used. -/
inductive Spoils : Condition → Condition → Prop where
  | leaf {field field' : FieldPath} {operator operator' : Operator} {value value' : Json} :
      operator'.Unusable value' → Spoils (.leaf field operator value) (.leaf field' operator' value')
  | all {front back : List Condition} {child child' : Condition} : Spoils child child' →
      Spoils (.all (front ++ child :: back)) (.all (front ++ child' :: back))
  | any {front back : List Condition} {child child' : Condition} : Spoils child child' →
      Spoils (.any (front ++ child :: back)) (.any (front ++ child' :: back))

/-- A condition that holds with a spoiled comparison holds with the sound one. -/
theorem Spoils.evaluate {condition spoiled : Condition} (spoils : Spoils condition spoiled)
    {document : Json} (holds : spoiled.evaluate document = true) :
    condition.evaluate document = true := by
  induction spoils with
  | leaf unusable =>
      obtain ⟨actual, _, holds⟩ := evaluate_leaf_iff.mp holds
      rw [unusable.holds_eq_false] at holds
      cases holds
  | all _ ih =>
      rw [evaluate_all_iff, List.forall_mem_append, List.forall_mem_cons] at holds ⊢
      exact ⟨holds.1, ih holds.2.1, holds.2.2⟩
  | @any front back child _ _ ih =>
      rw [evaluate_any_iff] at holds ⊢
      obtain ⟨other, listed, holds⟩ := holds
      rcases List.mem_append.mp listed with before | after
      · exact ⟨other, List.mem_append_left _ before, holds⟩
      · rcases List.mem_cons.mp after with rfl | behind
        · exact ⟨child, List.mem_append_right _ List.mem_cons_self, ih holds⟩
        · exact ⟨other, List.mem_append_right _ (List.mem_cons_of_mem _ behind), holds⟩

/-- A condition that holds on a document in which compared fields have been lost holds on the whole
document, and one that holds after some of its comparisons have been spoiled holds as it was. -/
theorem evaluate_failsClosed (condition : Condition) :
    (∀ document later : Json,
      (∀ field, condition.Compares field → field.KeptOrLost document later) →
        condition.evaluate later = true → condition.evaluate document = true) ∧
    ∀ spoiled : Condition, Relation.ReflTransGen Spoils condition spoiled →
      ∀ document : Json, condition.evaluate document = false → spoiled.evaluate document = false := by
  refine ⟨fun document later => evaluate_of_keptOrLost, fun spoiled spoils document fails => ?_⟩
  induction spoils with
  | refl => exact fails
  | tail _ last ih =>
      rw [Bool.eq_false_iff] at ih ⊢
      exact fun holds => ih (last.evaluate holds)

/-! ### A condition on a channel or a region -/

def useIn (channel : Json) (region : String) : Json :=
  .obj [("channel", channel), ("region", .str region)]

def elsewhere (operator : Operator) (operand : Json) : Condition :=
  .any [.leaf (.ofKeys ["channel"]) .notEquals (.str "print"),
    .leaf (.ofKeys ["region"]) operator operand]

theorem evaluate_failsClosed_elsewhere :
    (elsewhere .memberOf (.arr [.str "eu"])).evaluate (useIn .null "eu") = true ∧
      (elsewhere .memberOf (.arr [.str "eu"])).evaluate (useIn (.str "web") "eu") = true ∧
      (elsewhere .memberOf (.arr [.str "eu"])).evaluate (useIn .null "us") = false ∧
      (elsewhere .notMemberOf (.str "eu")).evaluate (useIn .null "us") = false := by
  obtain ⟨onDocuments, onSpoiled⟩ := evaluate_failsClosed (elsewhere .memberOf (.arr [.str "eu"]))
  refine ⟨by decide, onDocuments (useIn (.str "web") "eu") (useIn .null "eu") ?_ (by decide),
    by decide, onSpoiled _ ?_ (useIn .null "us") (by decide)⟩
  · intro field compared
    cases compared with
    | any listed compared =>
        rcases List.mem_cons.mp listed with rfl | listed
        · cases compared
          exact .null (by decide)
        · rw [List.mem_singleton.mp listed] at compared
          cases compared
          exact @FieldPath.KeptOrLost.kept _ _ _ (.str "eu") (.str "eu") rfl rfl (Json.same_self _)
  · exact .single (@Spoils.any [.leaf (.ofKeys ["channel"]) .notEquals (.str "print")] [] _ _
      (.leaf (.notMemberOf rfl)))

end Condition

end Governance
