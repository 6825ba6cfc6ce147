import Governance.Rule.Resolution

/-!
# Rule books

Rules by identifier. A rule book lists its rules by identifier and resolves events in the order of
their priorities.
-/

set_option autoImplicit false

namespace Governance

structure RuleBook where
  rules : SortedMap RuleId PolicyRule := {}
  deriving DecidableEq

namespace RuleBook

def find? (book : RuleBook) (id : RuleId) : Option PolicyRule := book.rules.find? id

def insert (book : RuleBook) (rule : PolicyRule) : RuleBook :=
  ⟨book.rules.insert rule.id rule⟩

def erase (book : RuleBook) (id : RuleId) : RuleBook := ⟨book.rules.erase id⟩

def register (book : RuleBook) (rule : PolicyRule) : RuleBook × Option PolicyRule :=
  (book.insert rule, book.find? rule.id)

def unregister (book : RuleBook) (id : RuleId) : RuleBook × Option PolicyRule :=
  (book.erase id, book.find? id)

def ofList (rules : List PolicyRule) : RuleBook := rules.foldl insert {}

def toList (book : RuleBook) : List PolicyRule := book.rules.values

def size (book : RuleBook) : Nat := book.rules.size

def isEmpty (book : RuleBook) : Bool := book.rules.isEmpty

def resolve (book : RuleBook) (event : UsageEvent) : Verdict := event.resolve book.toList

def summary (book : RuleBook) : String :=
  "RuleBook \x7b rule_count: " ++ toString book.size ++ " \x7d"

end RuleBook

end Governance
