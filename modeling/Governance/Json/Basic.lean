import Governance.Number.Binary64
import Governance.SortedMap

/-!
# JSON values

Documents are plain data. Integers and floats are different kinds of number, and equality never
crosses the two kinds: `1` is not `1.0`. Members are kept as a list. The value of a document has
them in ascending key order without repetition (`WellFormed`); text that has just been read may
still repeat a key, and `normalized` then keeps the last value.
-/

set_option autoImplicit false

namespace Governance

/-- A JSON value, or a JSON text with its members as written. -/
inductive Json where
  | null
  | bool (value : Bool)
  | int (value : Int)
  | float (value : Binary64)
  | str (value : String)
  | arr (items : List Json)
  | obj (members : List (String × Json))
  deriving Inhabited

namespace Json

/-! ## Decidable equality -/

mutual

def decEq : (left right : Json) → Decidable (left = right)
  | .null, right => by
      cases right <;> first | exact isTrue rfl | exact isFalse (fun same => nomatch same)
  | .bool a, right => by
      cases right with
      | bool b =>
          exact if same : a = b then isTrue (by rw [same])
            else isFalse (fun e => same (by cases e; rfl))
      | _ => exact isFalse (fun same => nomatch same)
  | .int a, right => by
      cases right with
      | int b =>
          exact if same : a = b then isTrue (by rw [same])
            else isFalse (fun e => same (by cases e; rfl))
      | _ => exact isFalse (fun same => nomatch same)
  | .float a, right => by
      cases right with
      | float b =>
          exact if same : a = b then isTrue (by rw [same])
            else isFalse (fun e => same (by cases e; rfl))
      | _ => exact isFalse (fun same => nomatch same)
  | .str a, right => by
      cases right with
      | str b =>
          exact if same : a = b then isTrue (by rw [same])
            else isFalse (fun e => same (by cases e; rfl))
      | _ => exact isFalse (fun same => nomatch same)
  | .arr a, .arr b =>
      match decEqItems a b with
      | isTrue same => isTrue (by rw [same])
      | isFalse different => isFalse (fun e => different (by cases e; rfl))
  | .arr _, .null | .arr _, .bool _ | .arr _, .int _ | .arr _, .float _ | .arr _, .str _
  | .arr _, .obj _ => isFalse (fun same => nomatch same)
  | .obj a, .obj b =>
      match decEqMembers a b with
      | isTrue same => isTrue (by rw [same])
      | isFalse different => isFalse (fun e => different (by cases e; rfl))
  | .obj _, .null | .obj _, .bool _ | .obj _, .int _ | .obj _, .float _ | .obj _, .str _
  | .obj _, .arr _ => isFalse (fun same => nomatch same)
  termination_by structural left => left

def decEqItems : (left right : List Json) → Decidable (left = right)
  | [], [] => isTrue rfl
  | [], _ :: _ => isFalse (fun same => nomatch same)
  | _ :: _, [] => isFalse (fun same => nomatch same)
  | a :: as, b :: bs =>
      match decEq a b, decEqItems as bs with
      | isTrue head, isTrue tail => isTrue (by rw [head, tail])
      | isFalse different, _ => isFalse (fun e => different (by cases e; rfl))
      | _, isFalse different => isFalse (fun e => different (by cases e; rfl))
  termination_by structural left => left

def decEqMembers : (left right : List (String × Json)) → Decidable (left = right)
  | [], [] => isTrue rfl
  | [], _ :: _ => isFalse (fun same => nomatch same)
  | _ :: _, [] => isFalse (fun same => nomatch same)
  | (k, a) :: as, (l, b) :: bs =>
      if key : k = l then
        match decEq a b, decEqMembers as bs with
        | isTrue head, isTrue tail => isTrue (by rw [key, head, tail])
        | isFalse different, _ => isFalse (fun e => different (by cases e; rfl))
        | _, isFalse different => isFalse (fun e => different (by cases e; rfl))
      else isFalse (fun e => key (by cases e; rfl))
  termination_by structural left => left

end

instance : DecidableEq Json := decEq

/-! ## Equality of values -/

mutual

/-- Equality of two values of documents: that of the parts, with numeric equality for floats, so
that the two zeros are equal. -/
def same : Json → Json → Bool
  | .null, .null => true
  | .bool a, .bool b => a == b
  | .int a, .int b => a == b
  | .float a, .float b => a.sameNumber b
  | .str a, .str b => a == b
  | .arr a, .arr b => sameItems a b
  | .obj a, .obj b => sameMembers a b
  | _, _ => false
  termination_by structural left => left

def sameItems : List Json → List Json → Bool
  | [], [] => true
  | a :: as, b :: bs => same a b && sameItems as bs
  | _, _ => false
  termination_by structural left => left

def sameMembers : List (String × Json) → List (String × Json) → Bool
  | [], [] => true
  | (k, a) :: as, (l, b) :: bs => k == l && same a b && sameMembers as bs
  | _, _ => false
  termination_by structural left => left

end

def memberOf (value : Json) (items : List Json) : Bool :=
  items.any (same value)

/-! ## Looking into a value -/

def member? (key : String) : Json → Option Json
  | .obj members => Entries.find? key members
  | _ => none

def items? : Json → Option (List Json)
  | .arr items => some items
  | _ => none

def text? : Json → Option String
  | .str text => some text
  | _ => none

def bool? : Json → Option Bool
  | .bool value => some value
  | _ => none

def isText (value : Json) : Bool := value.text?.isSome

def isArray (value : Json) : Bool := value.items?.isSome

def isObject : Json → Bool
  | .obj _ => true
  | _ => false

def isNull : Json → Bool
  | .null => true
  | _ => false

/-! ## Members in key order -/

def intMin : Int := -9223372036854775808

def intMax : Int := 18446744073709551615

mutual

/-- The value that a text with its members as written stands for: members in ascending key order,
and of members with one key the last. -/
def normalized : Json → Json
  | .arr items => .arr (normalizedItems items)
  | .obj members => .obj (normalizedMembers members).entries
  | value => value
  termination_by structural value => value

def normalizedItems : List Json → List Json
  | [] => []
  | item :: rest => normalized item :: normalizedItems rest
  termination_by structural items => items

/-- The map of a list of members. Later members are put first, so an earlier member with the same
key does not replace them. -/
def normalizedMembers : List (String × Json) → SortedMap String Json
  | [] => {}
  | (key, value) :: rest =>
    let later := normalizedMembers rest
    if later.contains key then later else later.insert key (normalized value)
  termination_by structural members => members

end

mutual

def wellFormed : Json → Bool
  | .int value => intMin ≤ value && value ≤ intMax
  | .arr items => wellFormedItems items
  | .obj members => wellFormedMembers none members
  | _ => true
  termination_by structural value => value

def wellFormedItems : List Json → Bool
  | [] => true
  | item :: rest => wellFormed item && wellFormedItems rest
  termination_by structural items => items

def wellFormedMembers : Option String → List (String × Json) → Bool
  | _, [] => true
  | before, (key, value) :: rest =>
    (match before with | none => true | some earlier => decide (earlier < key))
      && wellFormed value && wellFormedMembers (some key) rest
  termination_by structural _ members => members

end

/-- The values that documents have: at every level the keys ascend strictly and every integer is
one that text can give. -/
def WellFormed (value : Json) : Prop := value.wellFormed = true

instance (value : Json) : Decidable value.WellFormed :=
  inferInstanceAs (Decidable (_ = true))

mutual

def floatFree : Json → Bool
  | .float _ => false
  | .arr items => floatFreeItems items
  | .obj members => floatFreeMembers members
  | _ => true
  termination_by structural value => value

def floatFreeItems : List Json → Bool
  | [] => true
  | item :: rest => floatFree item && floatFreeItems rest
  termination_by structural items => items

def floatFreeMembers : List (String × Json) → Bool
  | [] => true
  | (_, value) :: rest => floatFree value && floatFreeMembers rest
  termination_by structural members => members

end

end Json

end Governance
