import Governance.Condition.Basic
import Governance.Wire.Decode

/-!
# Records of conditions

A condition is a record with the tag `type`: `leaf`, `and` or `or`. Below the root of a condition
the tag may also be given by the place of its name in that list, and the object form of an operator
may have an empty object beside the name.
-/

set_option autoImplicit false

namespace Governance

namespace Operator

def ofName (name : String) : Operator := (Wire.ofName? Operator name).getD .unsupported

def ofJson : Json → Wire.Decoded Operator := Wire.nameWith Wire.unit fun name => .ok (ofName name)

def ofMember : Json → Wire.Decoded Operator :=
  Wire.nameWith (fun found => match found with
    | .obj [] => .ok ()
    | found => Wire.unit found) fun name => .ok (ofName name)

end Operator

namespace Condition

inductive Form where
  | leaf
  | all
  | any
  deriving DecidableEq, Repr

instance : Wire.Named Form where
  all := [.leaf, .all, .any]
  name
    | .leaf => "leaf"
    | .all => "and"
    | .any => "or"

/-! ## Writing -/

mutual

def toJson : Condition → Json
  | .leaf field operator value =>
    .obj [("type", .str "leaf"), ("field", .str field.display),
      ("operator", .str (Wire.Named.name operator)), ("value", value)]
  | .all children => .obj [("type", .str "and"), ("children", .arr (childrenToJson children))]
  | .any children => .obj [("type", .str "or"), ("children", .arr (childrenToJson children))]
  termination_by structural condition => condition

def childrenToJson : List Condition → List Json
  | [] => []
  | child :: rest => toJson child :: childrenToJson rest
  termination_by structural children => children

end

/-! ## Reading -/

def expected : String := "internally tagged enum ConditionNode"

def rootTag : Json → Wire.Decoded Form
  | .str name => Wire.variant name
  | found => .error (.invalidType found "variant identifier")

def childTag : Json → Wire.Decoded Form
  | .int index =>
    if index < 0 then .error (.invalidType (.int index) "variant identifier")
    else match (Wire.Named.all (α := Form))[index.toNat]? with
      | some form => .ok form
      | none => .error (.unknownVariantIndex index.toNat 3)
  | found => rootTag found

/-- A value, and the value read as the children of a combination. -/
abbrev WithChildren := Json × Wire.Decoded (List Condition)

def ofFields (form : Form) (given : Wire.Given WithChildren) : Wire.Decoded Condition :=
  match form with
  | .leaf =>
    Wire.taggedFields "struct variant ConditionNode::Leaf" 3 (fun given =>
      Condition.leaf <$> given.field 0 "field" (fun found => Wire.fieldPath found.1)
        <*> given.field 1 "operator" (fun found => Operator.ofMember found.1)
        <*> given.fieldOr (some .null) 2 "value" (fun found => Wire.value found.1)) given
  | .all =>
    Wire.taggedFields "struct variant ConditionNode::And" 1 (fun given =>
      Condition.all <$> given.fieldOr (some []) 0 "children" Prod.snd) given
  | .any =>
    Wire.taggedFields "struct variant ConditionNode::Or" 1 (fun given =>
      Condition.any <$> given.fieldOr (some []) 0 "children" Prod.snd) given

def ofTagged (tag : Json → Wire.Decoded Form) (given : Wire.Given WithChildren) :
    Wire.Decoded Condition :=
  match Wire.splitTag "type" given with
  | .error refusal => .error refusal
  | .ok (found, rest) =>
    match tag found.1 with
    | .error refusal => .error refusal
    | .ok form => ofFields form rest

mutual

def read (tag : Json → Wire.Decoded Form) : Json → Wire.Decoded Condition
  | .obj members => ofTagged tag (.byName (readMembers members))
  | .arr items => ofTagged tag (.byPlace (readItems items))
  | found => .error (.invalidType found expected)
  termination_by structural found => found

def readChildren : Json → Wire.Decoded (List Condition)
  | .arr items => readEach items
  | found => .error (.invalidType found "a sequence")
  termination_by structural found => found

def readEach : List Json → Wire.Decoded (List Condition)
  | [] => .ok []
  | item :: rest =>
    match read childTag item with
    | .error refusal => .error refusal
    | .ok child => (readEach rest).map (child :: ·)
  termination_by structural items => items

def readItems : List Json → List WithChildren
  | [] => []
  | item :: rest => (item, readChildren item) :: readItems rest
  termination_by structural items => items

def readMembers : List (String × Json) → List (String × WithChildren)
  | [] => []
  | (name, value) :: rest => (name, value, readChildren value) :: readMembers rest
  termination_by structural members => members

end

def ofJson : Json → Wire.Decoded Condition := read rootTag

end Condition

end Governance
