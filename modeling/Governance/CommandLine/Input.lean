import Governance.CommandLine.Config
import Governance.CommandLine.Extras
import Governance.Effective.Compute
import Governance.Evidence.Integrity
import Governance.Yaml.Value

/-!
# Input files

Documents that commands read. A file with the ending `.yaml` or `.yml` is YAML, any other is JSON.
A record that is read from JSON text must not repeat a field.
-/

set_option autoImplicit false

namespace Governance.CommandLine

abbrev Files := String → Option String

inductive CommandError where
  | unreadable (path : String)
  | invalidJson (path : String)
  | invalidYaml (path : String)
  | unreadableConfig (path : String)
  | invalidConfig (path : String)
  | looserSeverity (setting : String)
  | notEffectivePolicy (path : String) (cause : Wire.DecodeError)
  | hashMismatch (path : String) (policy : EffectivePolicy)
  | invalidScopeTree (cause : ValidationError)
  | validation (cause : ValidationError)
  | inheritance (cause : InheritanceError)
  | canonicalization (cause : CanonicalizationError)
  | record (cause : Wire.DecodeError)
  | extra (cause : ExtraError)
  | proof (cause : ProofError)
  deriving DecidableEq

/-- The cause of a failed computation in words, in front of which stands the failure itself. -/
def causeChain (message : String) : Option String → String
  | none => message
  | some cause => message ++ ": " ++ cause

namespace CommandError

def message : CommandError → String
  | .unreadable path => "failed to read " ++ path
  | .invalidJson path => "invalid JSON in " ++ path
  | .invalidYaml path => "invalid YAML in " ++ path
  | .unreadableConfig path => "failed to read config " ++ path
  | .invalidConfig path => "invalid config " ++ path
  | .looserSeverity setting =>
    looserSeverityVariable ++ ": " ++ LooserSeverity.refusal setting
  | .notEffectivePolicy path cause =>
    path ++ " is not an effective policy: " ++ cause.message
  | .hashMismatch path policy =>
    path ++ ": effective policy for " ++ policy.scope.text
      ++ " does not match its content hash " ++ policy.contentHash.display
  | .invalidScopeTree cause => "invalid scope tree: " ++ cause.message
  | .validation cause => cause.message
  | .inheritance cause =>
    causeChain cause.message (match cause with
      | .validation cause => some cause.message
      | .canonicalization cause => some cause.message
      | .conflict _ _ _ => none)
  | .canonicalization cause => cause.message
  | .record cause => cause.message
  | .extra cause => cause.message
  | .proof cause =>
    causeChain cause.message (match cause with
      | .canonicalization cause => some cause.message
      | _ => none)

end CommandError

/-! ## Shapes of documents -/

def eventShape : Json.Shape :=
  .record [("actor", .record [("role", .text)]),
    ("tool", .record [("id", .text), ("name", .text), ("version", .text)]),
    ("action", .record [("kind", .text)]),
    ("context", .record [("tenant_id", .text), ("enterprise_id", .text),
      ("brand", .optional .text), ("region", .optional .text), ("channel", .optional .text),
      ("policy_snapshot_id", .text)]),
    ("content", .optional (.record [("prompt", .optional .text),
      ("output_text", .optional .text), ("asset_uris", .list .text)]))]

def rulesShape : Json.Shape :=
  .list (.record [("id", .text), ("priority", .any), ("active", .any), ("condition", .condition),
    ("decision", .record [("status", .text), ("reason", .text)])])

def scopesShape : Json.Shape :=
  .list (.record [("id", .text), ("scope_type", .text), ("parent_id", .optional .text),
    ("path", .text)])

def policiesShape : Json.Shape :=
  .list (.record [("policy_id", .text), ("scope_id", .text), ("inheritance_mode", .text),
    ("rules", .any), ("override_rules", .any), ("parent_policy_id", .optional .text)])

def bundleShape : Json.Shape :=
  .record [("bundle_id", .text), ("tenant_id", .text), ("policy_snapshot_id", .text),
    ("items", .list (.record [("key", .text), ("value", .any)])), ("integrity_hash", .text)]

/-! ## Loading -/

/-- Whether a path is that of a YAML file, by the ending of its last component. -/
def isYaml (path : String) : Bool :=
  let name := ((Text.splitOn '/' path.toList).getLast?).getD []
  match (Text.splitOn '.' name).reverse with
  | ending :: stem :: others =>
    !(stem.isEmpty && others.isEmpty)
      && (ending == "yaml".toList || ending == "yml".toList)
  | _ => false

def readYaml? {α : Type} (shape : Json.Shape) (read : Json → Wire.Decoded α) (text : String) :
    Option α :=
  (Yaml.parse? shape text).bind fun document => (read document).toOption

def readJson? {α : Type} (shape : Json.Shape) (read : Json → Wire.Decoded α) (text : String) :
    Option α :=
  (Json.parse? shape text).bind fun document => (read document).toOption

def load {α : Type} (shape : Json.Shape) (read : Json → Wire.Decoded α) (files : Files)
    (path : String) : Except CommandError α :=
  match files path with
  | none => .error (.unreadable path)
  | some text =>
    if isYaml path then
      match readYaml? shape read text with
      | some document => .ok document
      | none => .error (.invalidYaml path)
    else
      match readJson? shape read text with
      | some document => .ok document
      | none => .error (.invalidJson path)

def loadValue : Files → String → Except CommandError Json := load .any Wire.value

def loadEvent : Files → String → Except CommandError UsageEvent :=
  load eventShape UsageEvent.ofJson

def loadRules : Files → String → Except CommandError (List PolicyRule) :=
  load rulesShape (Wire.list PolicyRule.ofJson)

def loadScopes : Files → String → Except CommandError (List Scope) :=
  load scopesShape (Wire.list Scope.ofJson)

def loadPolicies : Files → String → Except CommandError (List ScopedPolicy) :=
  load policiesShape (Wire.list ScopedPolicy.ofJson)

def loadBundle : Files → String → Except CommandError ProofBundle :=
  load bundleShape ProofBundle.ofJson

def unwrapped (key : String) (document : Json) : Json := (document.member? key).getD document

def loadEffective (files : Files) (path : String) : Except CommandError EffectivePolicy := do
  let document ← loadValue files path
  (EffectivePolicy.ofJson (unwrapped "policy" document)).mapError (.notEffectivePolicy path)

def loadVerdict (files : Files) (path : String) : Except CommandError Verdict := do
  let document ← loadValue files path
  (Verdict.ofJson (unwrapped "verdict" document)).mapError .record

def loadConfig (files : Files) (path setting : Option String) : Except CommandError Config := do
  let config ← match path with
    | none => .ok {}
    | some path =>
      match files path with
      | none => .error (.unreadableConfig path)
      | some text =>
        match readYaml? Config.shape Config.ofJson text with
        | some config => .ok config
        | none => .error (.invalidConfig path)
  (config.withLooserSeverity setting).mapError .looserSeverity

end Governance.CommandLine
