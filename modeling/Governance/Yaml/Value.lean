import Governance.Condition.Wire
import Governance.Json.Shape
import Governance.Yaml.Node
import Governance.Yaml.Plain

/-!
# Values of nodes

The value of a node where a shape is expected. A plain scalar is its text where a text is expected,
and elsewhere what it stands for; a quoted scalar is always a text. A record is written as a map,
and members that nothing asks for are passed over.

A condition is kept as it stands before it is read. Its keys are then not texts any more but what
they stand for: a whole number is the place of a field, and other keys that are not texts are
refused.
-/

set_option autoImplicit false

namespace Governance.Yaml

def nestingMax : Nat := 128

/-! ## Conditions -/

inductive Kept where
  | value
  | operator
  | condition
  | conditions

namespace Kept

def fields (form : Option String) : List (String × Kept) :=
  if form = some (Wire.Named.name Condition.Form.leaf) then
    [("field", .value), ("operator", .operator), ("value", .value)]
  else [("children", .conditions)]

def names? (form : Option String) : Kept → Option (List String)
  | .operator => some (Wire.names Operator)
  | .condition => some ((fields form).map Prod.fst)
  | _ => none

def member (form : Option String) (name : String) : Kept → Kept
  | .condition => (Entries.find? name (fields form)).getD .value
  | _ => .value

def item (form : Option String) : Nat → Kept → Kept
  | _, .conditions => .condition
  | place + 1, .condition => (((fields form)[place]?).map Prod.snd).getD .value
  | _, _ => .value

end Kept

def keptText? (names : Option (List String)) : Node → Option String
  | .quoted text => some text
  | .plain text =>
    match resolve? text, names with
    | some (.str text), _ => some text
    | some (.int place), some names =>
      if place < 0 then none else some ((names[place.toNat]?).getD text)
    | _, _ => none
  | _ => none

def formOf? (node : Node) : Option String :=
  let tag : Option Node := match node with
    | .list items => items.head?
    | .map members =>
      (members.find? fun (key, _) => keptText? none key == some "type").map Prod.snd
    | _ => none
  tag.bind (keptText? (some (Wire.names Condition.Form)))

mutual

def keptValue? : Node → Kept → Nat → Option Json
  | .plain text, _, _ => resolve? text
  | .quoted text, _, _ => some (.str text)
  | .list items, part, depth + 1 =>
    (keptItems? items (formOf? (.list items)) 0 part depth).map .arr
  | .map members, part, depth + 1 =>
    (keptMembers? members (formOf? (.map members)) part depth).map .obj
  | _, _, 0 => none
  termination_by structural node => node

def keptItems? : List Node → Option String → Nat → Kept → Nat → Option (List Json)
  | [], _, _, _, _ => some []
  | item :: rest, form, place, part, depth => do
    let item ← keptValue? item (part.item form place) depth
    let rest ← keptItems? rest form (place + 1) part depth
    some (item :: rest)
  termination_by structural items => items

def keptMembers? :
    List (Node × Node) → Option String → Kept → Nat → Option (List (String × Json))
  | [], _, _, _ => some []
  | (key, node) :: rest, form, part, depth => do
    let name ← keptText? (part.names? form) key
    let value ← keptValue? node (part.member form name) depth
    let rest ← keptMembers? rest form part depth
    some ((name, value) :: rest)
  termination_by structural members => members

end

/-! ## Documents -/

def ofPlain? (text : String) : Json.Shape → Option Json
  | .any => resolve? text
  | .condition => resolve? text
  | .text => some (.str text)
  | .optional inner => if isNull text then some .null else ofPlain? text inner
  | .list _ => if text.isEmpty then some (.arr []) else none
  | .record _ => if text.isEmpty then some (.obj []) else none

def ofQuoted? (text : String) (shape : Json.Shape) : Option Json :=
  match shape.present with
  | .list _ => none
  | .record _ => none
  | _ => some (.str text)

def Node.text? : Node → Option String
  | .plain text => some text
  | .quoted text => some text
  | _ => none

mutual

def Node.toJson? : Node → Json.Shape → Nat → Option Json
  | .plain text, shape, _ => ofPlain? text shape
  | .quoted text, shape, _ => ofQuoted? text shape
  | .list items, shape, depth =>
    match shape.present, depth with
    | .any, depth + 1 => (itemsToJson? items .any depth).map .arr
    | .list item, depth + 1 => (itemsToJson? items item depth).map .arr
    | .condition, depth => keptValue? (.list items) .condition depth
    | _, _ => none
  | .map members, shape, depth =>
    match shape.present, depth with
    | .any, depth + 1 => (membersToJson? members .any depth).map .obj
    | .record fields, depth + 1 => (membersToJson? members (.record fields) depth).map .obj
    | .condition, depth => keptValue? (.map members) .condition depth
    | _, _ => none
  termination_by structural node => node

def itemsToJson? : List Node → Json.Shape → Nat → Option (List Json)
  | [], _, _ => some []
  | item :: rest, shape, depth => do
    let item ← item.toJson? shape depth
    let rest ← itemsToJson? rest shape depth
    some (item :: rest)
  termination_by structural items => items

def membersToJson? : List (Node × Node) → Json.Shape → Nat → Option (List (String × Json))
  | [], _, _ => some []
  | (key, node) :: rest, shape, depth => do
    let name ← key.text?
    let member ← match shape.member? name with
      | none => some []
      | some inner => (node.toJson? inner depth).map fun value => [(name, value)]
    let rest ← membersToJson? rest shape depth
    some (member ++ rest)
  termination_by structural members => members

end

def parse? (shape : Json.Shape) (text : String) : Option Json :=
  (Node.ofText? text).bind fun node => node.toJson? shape nestingMax

end Governance.Yaml
