import Governance.Field.Registry
import Governance.ValidationError

/-!
# Declared fields

The fields that a policy declares. Its document is cut into leaves: a registered field is a leaf
with whatever it holds, and so is everything that is not an object; other objects are entered. An
object without members declares nothing unless empty objects are kept. Keys have to be plain, so
that the path of every leaf can be written and read back.
-/

set_option autoImplicit false

namespace Governance

abbrev Leaves := List (FieldPath × Json)

namespace Leaves

mutual

def ofValue (registry : FieldRegistry) (keepEmpty : Bool) (path : FieldPath) :
    Json → Except ValidationError Leaves
  | .obj members =>
    if (registry.directive? path).isSome then .ok [(path, .obj members)]
    else if members.isEmpty then .ok (if keepEmpty then [(path, .obj members)] else [])
    else ofMembers registry keepEmpty path members
  | value => .ok [(path, value)]
  termination_by structural value => value

def ofMembers (registry : FieldRegistry) (keepEmpty : Bool) (path : FieldPath) :
    List (String × Json) → Except ValidationError Leaves
  | [] => .ok []
  | (key, value) :: rest =>
    if !FieldPath.isPlainKey key then
      .error (.invalidFieldPath (path.child key).display (.keyNotPlain key))
    else match ofValue registry keepEmpty (path.child key) value with
      | .error problem => .error problem
      | .ok leaves => (ofMembers registry keepEmpty path rest).map (leaves ++ ·)
  termination_by structural members => members

end

end Leaves

namespace ScopedPolicy

/-- Checks that registered fields hold values of their kinds; the first field that does not
decides. -/
def checkKinds (policy : ScopedPolicy) (registry : FieldRegistry) :
    Leaves → Except ValidationError Unit
  | [] => .ok ()
  | (field, value) :: rest =>
    match registry.directive? field with
    | none => checkKinds policy registry rest
    | some directive =>
      if directive.kind.accepts value then checkKinds policy registry rest
      else .error (.fieldKindMismatch policy.id field directive.kind value)

/-- The fields that one document of a policy declares. An empty object is kept only where it
replaces what is inherited. -/
def leaves (policy : ScopedPolicy) (registry : FieldRegistry) (part : PolicySection) :
    Json → Except ValidationError Leaves
  | .obj members =>
    let keepEmpty := part == .rules && policy.mode == .replace
    match Leaves.ofMembers registry keepEmpty .root members with
    | .error problem => .error problem
    | .ok leaves => (policy.checkKinds registry leaves).map fun _ => leaves
  | _ => .error (.ruleSetNotObject policy.id part)

def declared (policy : ScopedPolicy) (registry : FieldRegistry) :
    Except ValidationError Leaves :=
  policy.leaves registry .rules policy.rules

def overridden (policy : ScopedPolicy) (registry : FieldRegistry) :
    Except ValidationError Leaves :=
  match policy.overrides with
  | none => .ok []
  | some overrides => policy.leaves registry .overrides overrides

end ScopedPolicy

end Governance
