import Governance.Field.Registry
import Governance.Json.Text

/-!
# Canonical form

The form of a value that digests are taken of. Normalizing refuses floats and sorts the arrays that
the registry declares to be sets; every other array keeps its order. The canonical text then has no
blanks and lists members in the order of their quoted keys. That order differs from the order of
the keys themselves where a key is the beginning of another one that goes on with a character below
the quote, and for characters that are escaped.
-/

set_option autoImplicit false

namespace Governance

inductive CanonicalizationError where
  | floatRejected (value : Binary64)
  deriving DecidableEq, Repr

def CanonicalizationError.message : CanonicalizationError → String
  | .floatRejected value =>
    "float values are not permitted in canonical representations; use an integer or string: "
      ++ value.render Binary64.plainLayout

namespace Canonical

/-! ## Text -/

mutual

def text : Json → String
  | .null => "null"
  | .bool value => Json.boolText value
  | .int value => toString value
  | .float value => Json.floatText value
  | .str value => Json.quoted value
  | .arr items => "[" ++ ",".intercalate (itemTexts items) ++ "]"
  | .obj members =>
    let ordered := (memberTexts members).mergeSort fun a b => decide (a.1 ≤ b.1)
    "\x7b" ++ ",".intercalate (ordered.map fun (key, value) => key ++ ":" ++ value) ++ "\x7d"
  termination_by structural value => value

def itemTexts : List Json → List String
  | [] => []
  | item :: rest => text item :: itemTexts rest
  termination_by structural items => items

def memberTexts : List (String × Json) → List (String × String)
  | [] => []
  | (key, value) :: rest => (Json.quoted key, text value) :: memberTexts rest
  termination_by structural members => members

end

/-! ## Normalizing -/

/-- Sorts elements by their canonical text. Elements with the same text keep their order. -/
def sortByText (items : List Json) : List Json :=
  ((items.map fun item => (text item, item)).mergeSort fun a b => decide (a.1 ≤ b.1)).map
    Prod.snd

mutual

/-- Normalizes a value at a sequence of keys. Members are visited in the order in which they are
listed, which for the value of a document is ascending; the elements of an array are at the keys of
the array. -/
def normalize (registry : FieldRegistry) (keys : List String) :
    Json → Except CanonicalizationError Json
  | .float value => .error (.floatRejected value)
  | .arr items =>
    match normalizeItems registry keys items with
    | .error problem => .error problem
    | .ok items => .ok (.arr (if registry.isOrderless keys then sortByText items else items))
  | .obj members =>
    match normalizeMembers registry keys members with
    | .error problem => .error problem
    | .ok members => .ok (.obj members)
  | value => .ok value
  termination_by structural value => value

def normalizeItems (registry : FieldRegistry) (keys : List String) :
    List Json → Except CanonicalizationError (List Json)
  | [] => .ok []
  | item :: rest =>
    match normalize registry keys item with
    | .error problem => .error problem
    | .ok item => (normalizeItems registry keys rest).map (item :: ·)
  termination_by structural items => items

def normalizeMembers (registry : FieldRegistry) (keys : List String) :
    List (String × Json) → Except CanonicalizationError (List (String × Json))
  | [] => .ok []
  | (key, value) :: rest =>
    match normalize registry (keys ++ [key]) value with
    | .error problem => .error problem
    | .ok value => (normalizeMembers registry keys rest).map ((key, value) :: ·)
  termination_by structural members => members

end

def valueAt (registry : FieldRegistry) (path : FieldPath) (value : Json) :
    Except CanonicalizationError Json :=
  normalize registry path.keys value

def textAt (registry : FieldRegistry) (path : FieldPath) (value : Json) :
    Except CanonicalizationError String :=
  (valueAt registry path value).map text

def documentText (registry : FieldRegistry) (document : Json) :
    Except CanonicalizationError String :=
  textAt registry .root document

end Canonical

end Governance
