import Governance.Json.Basic

/-!
# Shapes of documents

What a document is expected to hold at each place, before it is read as a record. A text is read
along a shape because members that no field of a record asks for are passed over: they only have
to be well formed.
-/

set_option autoImplicit false

namespace Governance.Json

/-- What is expected at a place of a document. A condition is kept as it stands and read later. -/
inductive Shape where
  | any
  | text
  | optional (inner : Shape)
  | list (item : Shape)
  | record (fields : List (String × Shape))
  | condition
  deriving Inhabited

namespace Shape

def present : Shape → Shape
  | .optional inner => present inner
  | shape => shape

def item (shape : Shape) (place : Nat) : Shape :=
  match shape.present with
  | .list item => item
  | .record fields => ((fields[place]?).map Prod.snd).getD .any
  | _ => .any

def member? (shape : Shape) (name : String) : Option Shape :=
  match shape.present with
  | .record fields => Entries.find? name fields
  | _ => some .any

end Shape

end Governance.Json
