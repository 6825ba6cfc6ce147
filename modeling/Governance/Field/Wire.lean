import Governance.Field.Directive
import Governance.Wire.Decode

/-!
# Records of field directives

The names of kinds, orders, merge rules and directions, and the record of a directive.
-/

set_option autoImplicit false

namespace Governance

instance : Wire.Named ValueKind where
  all := [.boolean, .number, .stringArray, .objectArray]
  name := ValueKind.name

instance : Wire.Named ArrayOrder where
  all := [.orderless, .ordered]
  name
    | .orderless => "orderless"
    | .ordered => "ordered"

instance : Wire.Named MergeRule where
  all := [.logicalOr, .minimum, .maximum, .union, .append]
  name
    | .logicalOr => "logical_or"
    | .minimum => "minimum"
    | .maximum => "maximum"
    | .union => "union"
    | .append => "append"

instance : Wire.Named Strictness where
  all := [.trueIsStricter, .lowerIsStricter, .higherIsStricter, .moreIsStricter,
    .fewerIsStricter, .anyChangeIsLooser]
  name
    | .trueIsStricter => "true_is_stricter"
    | .lowerIsStricter => "lower_is_stricter"
    | .higherIsStricter => "higher_is_stricter"
    | .moreIsStricter => "more_is_stricter"
    | .fewerIsStricter => "fewer_is_stricter"
    | .anyChangeIsLooser => "any_change_is_looser"

namespace FieldDirective

def toJson (directive : FieldDirective) : Json :=
  .obj [("kind", .str (Wire.Named.name directive.kind)),
    ("ordering", .str (Wire.Named.name directive.ordering)),
    ("merge", .str (Wire.Named.name directive.merge)),
    ("strictness", .str (Wire.Named.name directive.strictness))]

def ofJson : Json → Wire.Decoded FieldDirective :=
  Wire.record "struct FieldDirective" 4 fun given =>
    FieldDirective.mk <$> given.field 0 "kind" Wire.named
      <*> given.field 1 "ordering" Wire.named
      <*> given.field 2 "merge" Wire.named
      <*> given.field 3 "strictness" Wire.named

end FieldDirective

end Governance
