import Governance.Conflict.Classify
import Governance.Effective.Basic
import Governance.Effective.Leaves

/-!
# Merging policies

Policies are applied one after another to the fields collected so far. The mode of a policy decides
how a declared value combines with an inherited one; overrides are applied last and always take the
place of what was there. Every difference from an inherited value is classified and recorded.
-/

set_option autoImplicit false

namespace Governance

/-! ## Combining values -/

namespace Json

/-- The elements of a list without those that equal an earlier one or one that has been seen; the
elements seen come first, in order. -/
def distinctAfter (seen : List Json) : List Json → List Json
  | [] => seen
  | item :: rest =>
    if item.memberOf seen then distinctAfter seen rest else distinctAfter (seen ++ [item]) rest

/-- The number that comes first in a direction, the inherited one if both are equal. What cannot be
compared is replaced. -/
def bound (direction : Ordering) (inherited declared : Json) : Json :=
  match declared.compareNumbers? inherited with
  | none => declared
  | some order => if order = direction then declared else inherited

end Json

namespace MergeRule

/-- Combines a declared value with an inherited one. Values that the rule is not meant for are
replaced. -/
def combine (rule : MergeRule) (inherited declared : Json) : Json :=
  match rule, inherited, declared with
  | .logicalOr, .bool a, .bool b => .bool (a || b)
  | .minimum, a, b => Json.bound .lt a b
  | .maximum, a, b => Json.bound .gt a b
  | .union, .arr a, .arr b => .arr (Json.distinctAfter [] (a ++ b))
  | .append, .arr a, .arr b => .arr (a ++ b)
  | _, _, declared => declared

end MergeRule

namespace InheritanceMode

def combine (mode : InheritanceMode) (directive : Option FieldDirective)
    (inherited declared : Json) : Json :=
  let merged := match directive with
    | none => declared
    | some directive => directive.merge.combine inherited declared
  match mode with
  | .replace => declared
  | .merge => merged
  | .append =>
    match inherited, declared with
    | .arr a, .arr b => .arr (a ++ b)
    | _, _ => merged

end InheritanceMode

/-- Whether a policy becomes looser when it loses a field. A flag that is not set and an empty list
of restrictions impose nothing. -/
def FieldDirective.losingLoosens (directive : Option FieldDirective) (value : Json) : Bool :=
  match directive.map FieldDirective.strictness, value with
  | some .trueIsStricter, .bool flag => flag
  | some .moreIsStricter, .arr items => !items.isEmpty
  | _, _ => true

/-! ## Merged fields -/

structure MergedField where
  value : Json
  source : FieldProvenance
  deriving DecidableEq

structure MergeState where
  fields : SortedMap FieldPath MergedField := {}
  conflicts : List PolicyConflict := []
  deriving DecidableEq

structure InheritanceSettings where
  registry : FieldRegistry := .standard
  conflicts : ConflictPolicy := {}
  deriving DecidableEq

namespace InheritanceSettings

/-! ## Conflicts -/

def conflict (settings : InheritanceSettings) (policy : ScopedPolicy) (field : FieldPath)
    (classification : ConflictClassification) (inherited : MergedField) (child : Json) :
    PolicyConflict :=
  let change := if child.isNull then " drops " ++ field.display
    else " sets " ++ field.display ++ " to " ++ child.compact
  { field, classification
    severity := settings.conflicts.severity classification
    parentValue := inherited.value
    childValue := child
    parentScope := inherited.source.scope
    parentPolicy := inherited.source.policy
    childScope := policy.scope
    childPolicy := policy.id
    description := policy.id.text ++ change ++ "; inherited " ++ inherited.value.compact
      ++ " from " ++ inherited.source.policy.text }

/-- Whether two values of a field have the same canonical form. Values without one are compared as
they are. -/
def sameCanonical (settings : InheritanceSettings) (field : FieldPath) (parent child : Json) :
    Bool :=
  match Canonical.valueAt settings.registry field parent,
    Canonical.valueAt settings.registry field child with
  | .ok parent, .ok child => parent.same child
  | _, _ => parent.same child

def difference (settings : InheritanceSettings) (field : FieldPath) (parent child : Json) :
    Option ConflictClassification :=
  if settings.sameCanonical field parent child then none
  else ConflictClassification.classify (settings.registry.directive? field) parent child

/-! ## Applying a policy -/

def overlaps (field other : FieldPath) : Bool := other.startsWith field || field.startsWith other

def clear (settings : InheritanceSettings) (policy : ScopedPolicy) (field : FieldPath)
    (declared : Json) (state : MergeState) : MergeState :=
  let (overlapping, others) :=
    (state.fields.filter fun other _ => overlaps field other,
      state.fields.filter fun other _ => !overlaps field other)
  { fields := others
    conflicts := state.conflicts ++ overlapping.entries.map fun (other, inherited) =>
      settings.conflict policy other .incompatible inherited declared }

/-- Declares a field that has an inherited value, or none. A declared array that adds to the
inherited one is compared by what it adds up to, any other value by itself. -/
def applyLeaf (settings : InheritanceSettings) (policy : ScopedPolicy) (isOverride : Bool)
    (field : FieldPath) (declared : Json) (inherited : Option MergedField) (state : MergeState) :
    MergeState :=
  let cleared := settings.clear policy field declared { state with
    fields := state.fields.erase field }
  let mode := if isOverride then .replace else policy.mode
  let source : FieldProvenance := ⟨policy.scope, policy.id, policy.mode, isOverride⟩
  match inherited with
  | none => { cleared with fields := cleared.fields.insert field ⟨declared, source⟩ }
  | some inherited =>
    let result := mode.combine (settings.registry.directive? field) inherited.value declared
    let compared := if declared.isArray then result else declared
    let found := match settings.difference field inherited.value compared with
      | none => []
      | some classification => [settings.conflict policy field classification inherited compared]
    { fields := cleared.fields.insert field ⟨result, source⟩
      conflicts := cleared.conflicts ++ found }

/-- Declares the fields of the rules. What is inherited stands in the state, or among the fields
that the policy displaces. -/
def applyDeclared (settings : InheritanceSettings) (policy : ScopedPolicy)
    (displaced : SortedMap FieldPath MergedField) (declared : Leaves) (state : MergeState) :
    MergeState :=
  declared.foldl (fun state (field, value) =>
    settings.applyLeaf policy false field value
      ((state.fields.find? field).or (displaced.find? field)) state) state

def applyOverridden (settings : InheritanceSettings) (policy : ScopedPolicy)
    (overridden : Leaves) (state : MergeState) : MergeState :=
  overridden.foldl (fun state (field, value) =>
    settings.applyLeaf policy true field value (state.fields.find? field) state) state

def covers (declared : Leaves) (field : FieldPath) : Bool :=
  match field.topLevelKey? with
  | none => false
  | some key => declared.any fun leaf => leaf.1.topLevelKey? == some key

def dropped (settings : InheritanceSettings) (policy : ScopedPolicy)
    (displaced : SortedMap FieldPath MergedField) (declared : Leaves) : List PolicyConflict :=
  let lost := displaced.entries.filter fun (field, inherited) =>
    declared.all (fun leaf => leaf.1 ≠ field)
      && FieldDirective.losingLoosens (settings.registry.directive? field) inherited.value
  lost.map fun (field, inherited) => settings.conflict policy field .looser inherited .null

/-- Applies the declared fields of a policy. A replacing policy first displaces everything under
the top level keys that it sets. -/
def applyRules (settings : InheritanceSettings) (policy : ScopedPolicy) (declared : Leaves)
    (state : MergeState) : MergeState :=
  match policy.mode with
  | .replace =>
    let displaced := state.fields.filter fun field _ => covers declared field
    let kept := state.fields.filter fun field _ => !covers declared field
    let applied := settings.applyDeclared policy displaced declared { state with fields := kept }
    { applied with
      conflicts := applied.conflicts ++ settings.dropped policy displaced declared }
  | _ => settings.applyDeclared policy {} declared state

/-- Applies a policy. Both of its documents are read before anything is changed. -/
def applyPolicy (settings : InheritanceSettings) (policy : ScopedPolicy) (state : MergeState) :
    Except ValidationError MergeState :=
  match policy.declared settings.registry with
  | .error problem => .error problem
  | .ok declared =>
    match policy.overridden settings.registry with
    | .error problem => .error problem
    | .ok overridden =>
      .ok (settings.applyOverridden policy overridden (settings.applyRules policy declared state))

def applyAll (settings : InheritanceSettings) :
    List ScopedPolicy → MergeState → Except ValidationError MergeState
  | [], state => .ok state
  | policy :: rest, state =>
    match settings.applyPolicy policy state with
    | .error problem => .error problem
    | .ok state => applyAll settings rest state

end InheritanceSettings

end Governance
