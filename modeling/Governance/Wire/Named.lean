/-!
# Values with a name

Types with finitely many values, each of which is written by its name.
-/

set_option autoImplicit false

namespace Governance.Wire

/-- Types whose values have names. The values are listed in the order in which messages list
them. -/
class Named (α : Type) where
  all : List α
  name : α → String

def names (α : Type) [Named α] : List String := (Named.all (α := α)).map Named.name

def ofName? (α : Type) [Named α] (name : String) : Option α :=
  (Named.all (α := α)).find? fun value => Named.name value == name

end Governance.Wire
