import Governance.Policy.Basic
import Governance.Timestamp

/-!
# Policy conflicts

A conflict is recorded wherever a policy differs from what it inherits at a field. A stricter value
is only noted, a looser one is a warning or an error by configuration, and an incompatible one
keeps the policy from taking effect. A conflict is settled by hand: it may be acknowledged, and it
ends as resolved.
-/

set_option autoImplicit false

namespace Governance

inductive ConflictClassification where
  | stricter
  | looser
  | incompatible
  deriving DecidableEq, Repr

instance : Wire.Named ConflictClassification where
  all := [.stricter, .looser, .incompatible]
  name
    | .stricter => "stricter"
    | .looser => "looser"
    | .incompatible => "incompatible"

inductive ConflictSeverity where
  | info
  | warning
  | error
  deriving DecidableEq, Repr

instance : Wire.Named ConflictSeverity where
  all := [.info, .warning, .error]
  name
    | .info => "info"
    | .warning => "warning"
    | .error => "error"

/-! ## Configuration -/

inductive LooserSeverity where
  | warning
  | error
  deriving DecidableEq, Repr, Inhabited

namespace LooserSeverity

instance : Wire.Named LooserSeverity where
  all := [.warning, .error]
  name
    | .warning => "warning"
    | .error => "error"

def severity : LooserSeverity → ConflictSeverity
  | .warning => .warning
  | .error => .error

/-- Reads a setting in any case with blanks around it. What is refused is given back as it was
looked up. -/
def ofText (text : String) : Except String LooserSeverity :=
  let setting := String.ofList ((Text.trim text).toList.map Char.toLower)
  match Wire.ofName? LooserSeverity setting with
  | some severity => .ok severity
  | none => .error setting

def refusal (setting : String) : String :=
  "looser severity must be warning or error, got " ++ Text.quote setting

end LooserSeverity

structure ConflictPolicy where
  looserSeverity : LooserSeverity := .warning
  deriving DecidableEq, Repr

namespace ConflictPolicy

instance : Inhabited ConflictPolicy := ⟨{}⟩

def severity (policy : ConflictPolicy) : ConflictClassification → ConflictSeverity
  | .stricter => .info
  | .looser => policy.looserSeverity.severity
  | .incompatible => .error

def toJson (policy : ConflictPolicy) : Json :=
  .obj [("looser_severity", .str (Wire.Named.name policy.looserSeverity))]

def ofJson : Json → Wire.Decoded ConflictPolicy :=
  Wire.record "struct ConflictPolicy" 1 fun given =>
    ConflictPolicy.mk <$> given.fieldOr (some .warning) 0 "looser_severity" Wire.named

end ConflictPolicy

/-! ## Settling conflicts -/

inductive ResolutionStatus where
  | unresolved
  | acknowledged
  | resolved
  deriving DecidableEq, Repr

namespace ResolutionStatus

instance : Wire.Named ResolutionStatus where
  all := [.unresolved, .acknowledged, .resolved]
  name
    | .unresolved => "unresolved"
    | .acknowledged => "acknowledged"
    | .resolved => "resolved"

def isTerminal (status : ResolutionStatus) : Bool := status == .resolved

/-- Whether a conflict may go from one status to another: only forward, and in one step or two. -/
def canBecome : ResolutionStatus → ResolutionStatus → Bool
  | .unresolved, .acknowledged => true
  | .unresolved, .resolved => true
  | .acknowledged, .resolved => true
  | _, _ => false

end ResolutionStatus

structure InvalidTransition where
  source : ResolutionStatus
  target : ResolutionStatus
  deriving DecidableEq, Repr

def InvalidTransition.message (transition : InvalidTransition) : String :=
  let source := Wire.Named.name transition.source
  let target := Wire.Named.name transition.target
  "invalid transition from " ++ source ++ " to " ++ target ++ ": "
    ++ if transition.source.isTerminal then "conflict is already resolved"
      else target ++ " is not reachable from " ++ source

structure ResolutionRecord where
  status : ResolutionStatus
  actor : String
  note : String
  time : Timestamp
  deriving DecidableEq, Repr

namespace ResolutionRecord

def toJson (step : ResolutionRecord) : Json :=
  .obj [("status", .str (Wire.Named.name step.status)), ("actor", .str step.actor),
    ("note", .str step.note), ("at", .str step.time.display)]

def timeOfJson : Json → Wire.Decoded Timestamp
  | .str text =>
    match Timestamp.parse? text with
    | some time => .ok time
    | none => .error .invalidTimestamp
  | found => .error (.invalidType found "an RFC 3339 formatted date and time string")

def ofJson : Json → Wire.Decoded ResolutionRecord :=
  Wire.record "struct ResolutionRecord" 4 fun given =>
    ResolutionRecord.mk <$> given.field 0 "status" Wire.named
      <*> given.field 1 "actor" Wire.text
      <*> given.fieldOr (some "") 2 "note" Wire.text
      <*> given.field 3 "at" timeOfJson

end ResolutionRecord

/-! ## Conflicts -/

/-- A value of a policy that differs from the inherited one. A child value of `null` stands for a
field that the policy drops. -/
structure PolicyConflict where
  field : FieldPath
  classification : ConflictClassification
  severity : ConflictSeverity
  parentValue : Json
  childValue : Json
  parentScope : ScopeId
  parentPolicy : PolicyId
  childScope : ScopeId
  childPolicy : PolicyId
  description : String
  status : ResolutionStatus := .unresolved
  steps : List ResolutionRecord := []
  deriving DecidableEq

namespace PolicyConflict

def isBlocking (conflict : PolicyConflict) : Bool :=
  conflict.severity == .error && !(conflict.status == .resolved)

def advance (conflict : PolicyConflict) (target : ResolutionStatus) (actor note : String)
    (time : Timestamp) : Except InvalidTransition PolicyConflict :=
  if conflict.status.canBecome target then
    .ok { conflict with
      status := target
      steps := conflict.steps ++ [⟨target, actor, note, time⟩] }
  else .error ⟨conflict.status, target⟩

def acknowledge (conflict : PolicyConflict) (actor note : String) (time : Timestamp) :
    Except InvalidTransition PolicyConflict :=
  conflict.advance .acknowledged actor note time

def resolve (conflict : PolicyConflict) (actor note : String) (time : Timestamp) :
    Except InvalidTransition PolicyConflict :=
  conflict.advance .resolved actor note time

def toJson (conflict : PolicyConflict) : Json :=
  .obj ([("field", .str conflict.field.display),
      ("classification", .str (Wire.Named.name conflict.classification)),
      ("severity", .str (Wire.Named.name conflict.severity)),
      ("parent_value", conflict.parentValue), ("child_value", conflict.childValue),
      ("parent_scope_id", .str conflict.parentScope.text),
      ("parent_policy_id", .str conflict.parentPolicy.text),
      ("child_scope_id", .str conflict.childScope.text),
      ("child_policy_id", .str conflict.childPolicy.text),
      ("description", .str conflict.description),
      ("status", .str (Wire.Named.name conflict.status))]
    ++ Wire.present "resolution" (if conflict.steps.isEmpty then none
      else some (.arr (conflict.steps.map ResolutionRecord.toJson))))

def ofJson : Json → Wire.Decoded PolicyConflict :=
  Wire.record "struct PolicyConflict" 12 fun given =>
    PolicyConflict.mk <$> given.field 0 "field" Wire.fieldPath
      <*> given.field 1 "classification" Wire.named
      <*> given.field 2 "severity" Wire.named
      <*> given.field 3 "parent_value" Wire.value
      <*> given.field 4 "child_value" Wire.value
      <*> given.field 5 "parent_scope_id" (Wire.identifier .scope)
      <*> given.field 6 "parent_policy_id" (Wire.identifier .policy)
      <*> given.field 7 "child_scope_id" (Wire.identifier .scope)
      <*> given.field 8 "child_policy_id" (Wire.identifier .policy)
      <*> given.field 9 "description" Wire.text
      <*> given.fieldOr (some .unresolved) 10 "status" Wire.named
      <*> given.fieldOr (some []) 11 "resolution" (Wire.list ResolutionRecord.ofJson)

end PolicyConflict

end Governance
