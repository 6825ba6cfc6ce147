import Governance.FieldPath.Basic
import Governance.Json.Basic
import Governance.Wire.Named

/-!
# Conditions

The condition of a decision rule is a tree of comparisons on the fields of an event, joined by
conjunctions and disjunctions.
-/

set_option autoImplicit false

namespace Governance

/-- How a field is compared with a value. `unsupported` stands for every operator that is not
known; such a comparison never holds. -/
inductive Operator where
  | equals
  | notEquals
  | memberOf
  | notMemberOf
  | versionLessThan
  | versionGreaterThan
  | versionSatisfiesRange
  | unsupported
  deriving DecidableEq, Repr

namespace Operator

instance : Wire.Named Operator where
  all := [.equals, .notEquals, .memberOf, .notMemberOf, .versionLessThan, .versionGreaterThan,
    .versionSatisfiesRange, .unsupported]
  name
    | .equals => "equals"
    | .notEquals => "not_equals"
    | .memberOf => "in"
    | .notMemberOf => "not_in"
    | .versionLessThan => "version_less_than"
    | .versionGreaterThan => "version_greater_than"
    | .versionSatisfiesRange => "version_satisfies_range"
    | .unsupported => "unsupported"

def isVersion : Operator → Bool
  | .versionLessThan => true
  | .versionGreaterThan => true
  | .versionSatisfiesRange => true
  | _ => false

end Operator

inductive Condition where
  | leaf (field : FieldPath) (operator : Operator) (value : Json)
  | all (children : List Condition)
  | any (children : List Condition)
  deriving Inhabited

namespace Condition

def always : Condition := .all []

mutual

/-- The depth of a condition; comparisons and empty combinations have depth one. -/
def depth : Condition → Nat
  | .leaf _ _ _ => 1
  | .all children => 1 + greatestDepth children
  | .any children => 1 + greatestDepth children
  termination_by structural condition => condition

def greatestDepth : List Condition → Nat
  | [] => 0
  | child :: rest => max (depth child) (greatestDepth rest)
  termination_by structural children => children

end

/-! ## Decidable equality -/

mutual

def decEq : (left right : Condition) → Decidable (left = right)
  | .leaf f o v, .leaf g p w =>
      if equal : f = g ∧ o = p ∧ v = w then
        isTrue (by obtain ⟨rfl, rfl, rfl⟩ := equal; rfl)
      else isFalse (fun e => equal (by cases e; exact ⟨rfl, rfl, rfl⟩))
  | .all a, .all b =>
      match decEqChildren a b with
      | isTrue equal => isTrue (by rw [equal])
      | isFalse different => isFalse (fun e => different (by cases e; rfl))
  | .any a, .any b =>
      match decEqChildren a b with
      | isTrue equal => isTrue (by rw [equal])
      | isFalse different => isFalse (fun e => different (by cases e; rfl))
  | .leaf _ _ _, .all _ | .leaf _ _ _, .any _ | .all _, .leaf _ _ _ | .all _, .any _
  | .any _, .leaf _ _ _ | .any _, .all _ => isFalse (fun equal => nomatch equal)
  termination_by structural left => left

def decEqChildren : (left right : List Condition) → Decidable (left = right)
  | [], [] => isTrue rfl
  | [], _ :: _ => isFalse (fun equal => nomatch equal)
  | _ :: _, [] => isFalse (fun equal => nomatch equal)
  | a :: as, b :: bs =>
      match decEq a b, decEqChildren as bs with
      | isTrue head, isTrue tail => isTrue (by rw [head, tail])
      | isFalse different, _ => isFalse (fun e => different (by cases e; rfl))
      | _, isFalse different => isFalse (fun e => different (by cases e; rfl))
  termination_by structural left => left

end

instance : DecidableEq Condition := decEq

end Condition

end Governance
