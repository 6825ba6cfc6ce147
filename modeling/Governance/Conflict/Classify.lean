import Governance.Conflict.Basic

/-!
# Classification of differences

Whether a value is stricter or looser than an inherited one. The directive of the field decides
the direction; without a directive any difference is looser. Values of the wrong kind cannot be
compared.
-/

set_option autoImplicit false

namespace Governance

namespace Json

def float? : Json → Option Binary64
  | .int value => Binary64.ofInt? value
  | .float value => some value
  | _ => none

def compareNumbers? : Json → Json → Option Ordering
  | .int a, .int b => some (compare a b)
  | a, b => do
    let x ← a.float?
    let y ← b.float?
    some (x.compare y)

/-- Whether two values have the same shape. All numbers have one shape, and so have all arrays. -/
def sameShape : Json → Json → Bool
  | .null, .null => true
  | .bool _, .bool _ => true
  | .int _, .int _ => true
  | .int _, .float _ => true
  | .float _, .int _ => true
  | .float _, .float _ => true
  | .str _, .str _ => true
  | .arr _, .arr _ => true
  | .obj _, .obj _ => true
  | _, _ => false

def allIn (items others : List Json) : Bool :=
  items.all fun item => item.memberOf others

def beginsWith : List Json → List Json → Bool
  | _, [] => true
  | item :: rest, start :: starts => item.same start && beginsWith rest starts
  | [], _ :: _ => false

end Json

namespace ConflictClassification

def ofNumbers (stricter : Ordering) (parent child : Json) : Option ConflictClassification :=
  match child.compareNumbers? parent with
  | none => none
  | some .eq => none
  | some order => if order = stricter then some .stricter else some .looser

def ofFlags : Json → Json → Option ConflictClassification
  | .bool false, .bool true => some .stricter
  | .bool true, .bool false => some .looser
  | _, _ => none

/-- Classifies sets by inclusion. A set that gained and lost elements is looser. -/
def ofSets (moreIsStricter : Bool) (parent child : List Json) : Option ConflictClassification :=
  let kept := Json.allIn parent child
  let old := Json.allIn child parent
  if kept && old then none
  else if (if moreIsStricter then kept else old) then some .stricter
  else some .looser

/-- Classifies sequences. A sequence is made stricter only by going on at its end. -/
def ofSequences (parent child : List Json) : Option ConflictClassification :=
  if Json.sameItems parent child then none
  else if parent.length < child.length && Json.beginsWith child parent then some .stricter
  else some .looser

def ofFixed (orderless : Bool) (parent child : List Json) : Option ConflictClassification :=
  let unchanged :=
    if orderless then Json.allIn parent child && Json.allIn child parent
    else Json.sameItems parent child
  if unchanged then none else some .looser

def ofArrays (classify : List Json → List Json → Option ConflictClassification) :
    Json → Json → Option ConflictClassification
  | .arr parent, .arr child => classify parent child
  | _, _ => none

def ofKind (directive : FieldDirective) (parent child : Json) : Option ConflictClassification :=
  match directive.strictness with
  | .trueIsStricter => ofFlags parent child
  | .lowerIsStricter => ofNumbers .lt parent child
  | .higherIsStricter => ofNumbers .gt parent child
  | .moreIsStricter =>
    ofArrays (if directive.isOrderless then ofSets true else ofSequences) parent child
  | .fewerIsStricter =>
    ofArrays (if directive.isOrderless then ofSets false else ofSequences) parent child
  | .anyChangeIsLooser => ofArrays (ofFixed directive.isOrderless) parent child

/-- Classifies a value of a field against the inherited one. There is no conflict between values
that are equal as far as the directive can tell, such as `1` and `1.0`. -/
def classify (directive : Option FieldDirective) (parent child : Json) :
    Option ConflictClassification :=
  match directive with
  | none =>
    if !parent.sameShape child then some .incompatible
    else if parent.same child then none
    else some .looser
  | some directive =>
    if !(directive.kind.accepts parent && directive.kind.accepts child) then some .incompatible
    else ofKind directive parent child

end ConflictClassification

end Governance
