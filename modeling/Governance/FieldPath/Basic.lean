import Governance.SortedMap

/-!
# Field paths

A field path leads from the root of a document to a value in it, one key or one array position at
a time. Paths compare segment by segment; keys come before positions, keys compare by their
characters and positions by number.
-/

set_option autoImplicit false

namespace Governance

inductive Segment where
  | key (name : String)
  | index (position : UInt64)
  deriving DecidableEq, Repr, Inhabited

namespace Segment

def Less : Segment → Segment → Prop
  | .key a, .key b => a < b
  | .key _, .index _ => True
  | .index _, .key _ => False
  | .index a, .index b => a.toNat < b.toNat

instance (left right : Segment) : Decidable (Less left right) :=
  match left, right with
  | .key a, .key b => inferInstanceAs (Decidable (a < b))
  | .key _, .index _ => isTrue trivial
  | .index _, .key _ => isFalse id
  | .index a, .index b => inferInstanceAs (Decidable (a.toNat < b.toNat))

instance : KeyOrder Segment where
  lt := Less
  irrefl
    | .key a => String.lt_irrefl a
    | .index a => Nat.lt_irrefl a.toNat
  trans {a b c} left right := by
    cases a <;> cases b <;> cases c <;> simp only [Less] at left right ⊢
    · exact String.lt_trans left right
    · exact Nat.lt_trans left right
  total {a b} notLess notGreater := by
    cases a <;> cases b <;> simp only [Less, not_true_eq_false] at notLess notGreater
    · exact congrArg key (KeyOrder.total notLess notGreater)
    · exact congrArg index (UInt64.toNat_inj.mp
        (Nat.le_antisymm (Nat.not_lt.mp notGreater) (Nat.not_lt.mp notLess)))

instance : DecidableLT Segment := fun left right => inferInstanceAs (Decidable (Less left right))

def key? : Segment → Option String
  | .key name => some name
  | .index _ => none

end Segment

structure FieldPath where
  segments : List Segment
  deriving DecidableEq, Repr, Inhabited

namespace FieldPath

instance : KeyOrder FieldPath where
  lt left right := left.segments < right.segments
  irrefl path := KeyOrder.irrefl path.segments
  trans := KeyOrder.trans (κ := List Segment)
  total {a b} notLess notGreater := by
    cases a
    cases b
    exact congrArg FieldPath.mk (KeyOrder.total notLess notGreater)

instance : DecidableLT FieldPath :=
  fun left right => inferInstanceAs (Decidable (left.segments < right.segments))

def root : FieldPath := ⟨[]⟩

def ofKeys (keys : List String) : FieldPath := ⟨keys.map .key⟩

def child (path : FieldPath) (key : String) : FieldPath := ⟨path.segments ++ [.key key]⟩

def index (path : FieldPath) (position : UInt64) : FieldPath :=
  ⟨path.segments ++ [.index position]⟩

def isRoot (path : FieldPath) : Bool := path.segments.isEmpty

def topLevelKey? (path : FieldPath) : Option String :=
  path.segments.head?.bind Segment.key?

def keys (path : FieldPath) : List String := path.segments.filterMap Segment.key?

def startsWith (path start : FieldPath) : Bool :=
  start.segments.isPrefixOf path.segments

def take (path : FieldPath) (count : Nat) : FieldPath := ⟨path.segments.take count⟩

end FieldPath

end Governance
