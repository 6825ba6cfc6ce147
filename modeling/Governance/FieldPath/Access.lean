import Governance.FieldPath.Basic
import Governance.Json.Basic

/-!
# Access by path

Looking up and writing the value at a path. Writing creates objects along keys but never extends an
array.
-/

set_option autoImplicit false

namespace Governance.FieldPath

def follow? : List Segment → Json → Option Json
  | [], value => some value
  | .key name :: rest, .obj members => (Entries.find? name members).bind (follow? rest)
  | .index position :: rest, .arr items => items[position.toNat]?.bind (follow? rest)
  | _, _ => none

/-- The value at a path. A `null` in the document is a value. -/
def lookup? (path : FieldPath) (document : Json) : Option Json :=
  follow? path.segments document

def membersOf : Json → List (String × Json)
  | .obj members => members
  | _ => []

/-- Writes a value behind a list of segments. A key makes an object of a value that is none and
starts a missing member as `null`. A position that an array does not have ends the walk; what the
walk has written up to there stays, and the second component is false. -/
def write : List Segment → Json → Json → Json × Bool
  | [], _, value => (value, true)
  | .key name :: rest, document, value =>
    let members := membersOf document
    let (inner, written) := write rest ((Entries.find? name members).getD .null) value
    (.obj (Entries.put name inner members), written)
  | .index position :: rest, document, value =>
    match document with
    | .arr items =>
      match items[position.toNat]? with
      | some item =>
        let (inner, written) := write rest item value
        (.arr (items.set position.toNat inner), written)
      | none => (document, false)
    | _ => (document, false)

def insert (path : FieldPath) (document value : Json) : Json × Bool :=
  write path.segments document value

end Governance.FieldPath
