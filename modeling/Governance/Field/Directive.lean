import Governance.Json.Basic

/-!
# Field directives

What a policy field means: the kind of value it holds, whether the order of an array counts, how
the values of several policies merge, and which direction of change is stricter.
-/

set_option autoImplicit false

namespace Governance

inductive ValueKind where
  | boolean
  | number
  | stringArray
  | objectArray
  deriving DecidableEq, Repr

namespace ValueKind

def name : ValueKind → String
  | .boolean => "boolean"
  | .number => "number"
  | .stringArray => "string_array"
  | .objectArray => "object_array"

/-- Whether a value is of a kind. The empty array is of both array kinds. -/
def accepts : ValueKind → Json → Bool
  | .boolean, .bool _ => true
  | .number, .int _ => true
  | .number, .float _ => true
  | .stringArray, .arr items => items.all Json.isText
  | .objectArray, .arr items => items.all Json.isObject
  | _, _ => false

def isArray : ValueKind → Bool
  | .stringArray => true
  | .objectArray => true
  | _ => false

def describe : Json → String
  | .null => "null"
  | .bool _ => "boolean"
  | .int _ => "number"
  | .float _ => "number"
  | .str _ => "string"
  | .arr items =>
    if items.all Json.isText then "string_array"
    else if items.all Json.isObject then "object_array"
    else "array"
  | .obj _ => "object"

end ValueKind

inductive ArrayOrder where
  | orderless
  | ordered
  deriving DecidableEq, Repr

inductive MergeRule where
  | logicalOr
  | minimum
  | maximum
  | union
  | append
  deriving DecidableEq, Repr

inductive Strictness where
  | trueIsStricter
  | lowerIsStricter
  | higherIsStricter
  | moreIsStricter
  | fewerIsStricter
  | anyChangeIsLooser
  deriving DecidableEq, Repr

structure FieldDirective where
  kind : ValueKind
  ordering : ArrayOrder
  merge : MergeRule
  strictness : Strictness
  deriving DecidableEq, Repr

namespace FieldDirective

def requiredFlag : FieldDirective := ⟨.boolean, .ordered, .logicalOr, .trueIsStricter⟩

def upperBound : FieldDirective := ⟨.number, .ordered, .minimum, .lowerIsStricter⟩

def lowerBound : FieldDirective := ⟨.number, .ordered, .maximum, .higherIsStricter⟩

def set (kind : ValueKind) (strictness : Strictness) : FieldDirective :=
  ⟨kind, .orderless, .union, strictness⟩

def sequence (kind : ValueKind) : FieldDirective := ⟨kind, .ordered, .append, .moreIsStricter⟩

def isOrderless (directive : FieldDirective) : Bool := directive.ordering == .orderless

end FieldDirective

end Governance
