import Governance.CommandLine.Arguments
import Governance.CommandLine.Input
import Governance.Evidence.Compile
import Governance.Rule.Resolution

/-!
# Commands

What the commands do with their inputs, and what they print. The exit code is 0 for a good result,
1 for a bad one (a decision other than to allow, a conflict that blocks, a bundle that is not
intact, rules that are not valid) and 2 if there is no result.
-/

set_option autoImplicit false

namespace Governance.CommandLine

/-! ## Reports -/

inductive EffectiveReport where
  | computed (outcome : EffectiveOutcome)
  | rejected (scope : ScopeId) (conflicts : List PolicyConflict)
  deriving DecidableEq

inductive Report where
  | evaluation (verdict : Verdict) (trace : Option (List RuleEvaluation))
  | effective (report : EffectiveReport)
  | bundle (bundle : ProofBundle)
  | digest (digest : ContentDigest)
  | check (check : IntegrityCheck)
  | validation (rules scopes : Nat) (violations : List ValidationError)
  deriving DecidableEq

def EffectiveReport.toJson : EffectiveReport → Json
  | .computed outcome =>
    .obj [("result", .str "computed"), ("policy", outcome.policy.toJson),
      ("conflicts", .arr (outcome.conflicts.map PolicyConflict.toJson))]
  | .rejected scope conflicts =>
    .obj [("result", .str "rejected"), ("scope_id", .str scope.text),
      ("conflicts", .arr (conflicts.map PolicyConflict.toJson))]

namespace Report

def toJson : Report → Json
  | .evaluation verdict trace =>
    .obj ([("verdict", verdict.toJson)] ++ Wire.present "evaluations"
      (trace.map fun trace => .arr (trace.map RuleEvaluation.toJson)))
  | .effective report => report.toJson
  | .bundle compiled => compiled.toJson
  | .digest computed => .str computed.display
  | .check result => result.toJson
  | .validation rules scopes violations =>
    .obj [("rules_checked", .int rules), ("scopes_checked", .int scopes),
      ("violations", .arr (violations.map fun violation => .str violation.message))]

def render (config : Config) : Report → String
  | .digest computed => computed.display
  | report => if config.output.pretty then report.toJson.indented else report.toJson.compact

def isGood : Report → Bool
  | .evaluation verdict _ => verdict.status == .allow
  | .effective (.computed outcome) => !outcome.blocksActivation
  | .effective (.rejected _ _) => false
  | .bundle _ => true
  | .digest _ => true
  | .check result => result.isIntact
  | .validation _ _ violations => violations.isEmpty

end Report

/-! ## Commands -/

/-- The rules of an effective policy, whose values must have the digest on record. -/
def effectiveRules (path : String) (policy : EffectivePolicy) :
    Except CommandError (List PolicyRule) := do
  let intact ← policy.verify.mapError .canonicalization
  if intact then policy.decisionRules.mapError .validation
  else .error (.hashMismatch path policy)

def evaluate (files : Files) (event : String) (source : RuleSource) (explain : Bool) :
    Except CommandError Report := do
  let event ← loadEvent files event
  let rules ← match source with
    | .rules path => loadRules files path
    | .effective path => do
      let policy ← loadEffective files path
      effectiveRules path policy
  .ok (.evaluation (event.resolve rules) (if explain then some (event.explain rules) else none))

/-- The report of a computation. An incompatible conflict is a result. -/
def EffectiveReport.ofResult :
    Except InheritanceError EffectiveOutcome → Except CommandError EffectiveReport
  | .ok outcome => .ok (.computed outcome)
  | .error (.conflict scope _ conflicts) => .ok (.rejected scope conflicts)
  | .error cause => .error (.inheritance cause)

def effectiveOf (config : Config) (tree : ScopeTree) (target : ScopeId)
    (policies : List ScopedPolicy) (previous : Option EffectivePolicy) :
    Except CommandError EffectiveReport :=
  let settings : InheritanceSettings := { conflicts := config.conflicts }
  match previous with
  | none => EffectiveReport.ofResult (settings.computeInTree tree target policies)
  | some previous =>
    match tree.ancestorChain target with
    | .error problem => .error (.validation problem)
    | .ok chain =>
      let relevant := policies.filter fun policy => chain.any fun scope => scope.id = policy.scope
      EffectiveReport.ofResult (settings.recompute previous target chain relevant)

def effective (config : Config) (files : Files) (scopes policies target : String)
    (previous : Option String) : Except CommandError Report := do
  let scopes ← loadScopes files scopes
  let policies ← loadPolicies files policies
  let tree ← (ScopeTree.ofList scopes).mapError .invalidScopeTree
  let target ← (Identifier.ofText .scope target).mapError .validation
  let previous ← match previous with
    | none => .ok none
    | some path => (loadEffective files path).map some
  (effectiveOf config tree target policies previous).map .effective

def bundle (files : Files) (id : BundleId) (event verdict : String) (extras : List String) :
    Except CommandError Report := do
  let event ← loadEvent files event
  let verdict ← loadVerdict files verdict
  let extras ← (parseExtras extras).mapError .extra
  ((ProofBundle.compile id event verdict extras).mapError .proof).map .bundle

def hash (files : Files) (path : String) (unregistered : Bool) : Except CommandError Report := do
  let document ← loadValue files path
  let registry := if unregistered then .empty else .standard
  ((ContentDigest.ofDocument registry document).mapError .canonicalization).map .digest

def verify (files : Files) (path : String) : Except CommandError Report :=
  (loadBundle files path).map fun bundle => .check bundle.verify

def scopeViolations (scopes : List Scope) : List ValidationError :=
  match ScopeTree.ofList scopes with
  | .ok _ => []
  | .error problem => [problem]

def loadOptional {α : Type} (load : String → Except CommandError (List α)) :
    Option String → Except CommandError (List α)
  | none => .ok []
  | some path => load path

def validate (files : Files) (rules scopes : Option String) : Except CommandError Report := do
  let rules ← loadOptional (loadRules files) rules
  let scopes ← loadOptional (loadScopes files) scopes
  .ok (.validation rules.length scopes.length
    (PolicyRule.violations rules ++ scopeViolations scopes))

def Command.run (config : Config) (files : Files) (id : BundleId) :
    Command → Except CommandError Report
  | .evaluate event source explain => CommandLine.evaluate files event source explain
  | .effective scopes policies target previous =>
    CommandLine.effective config files scopes policies target previous
  | .bundle event verdict extras => CommandLine.bundle files id event verdict extras
  | .hash file unregistered => CommandLine.hash files file unregistered
  | .verify path => CommandLine.verify files path
  | .validate rules scopes => CommandLine.validate files rules scopes

/-! ## The program -/

inductive Response where
  | printed (text : String) (exitCode : Nat)
  | misused
  | failed (cause : CommandError)
  deriving DecidableEq

namespace Response

def exitCode : Response → Nat
  | .printed _ code => code
  | .misused => 2
  | .failed _ => 2

end Response

def versionText : String := "vera 0.1.0"

def usageText : String :=
  "\n".intercalate ["usage: vera [--config FILE] COMMAND",
    "  evaluate --event FILE (--rules FILE | --effective FILE) [--explain]",
    "  effective --scopes FILE --policies FILE --target SCOPE [--previous FILE]",
    "  bundle --event FILE --verdict FILE [--extra KEY=VALUE]...",
    "  hash FILE [--unregistered]",
    "  verify --bundle FILE",
    "  validate [--rules FILE] [--scopes FILE]"]

/-- Runs an invocation. The settings are loaded before anything else. -/
def Invocation.run (invocation : Invocation) (files : Files) (setting : Option String)
    (id : BundleId) : Response :=
  match loadConfig files invocation.config setting with
  | .error cause => .failed cause
  | .ok config =>
    match invocation.command.run config files id with
    | .error cause => .failed cause
    | .ok report => .printed (report.render config ++ "\n") (if report.isGood then 0 else 1)

def respond (arguments : List String) (files : Files) (setting : Option String) (id : BundleId) :
    Response :=
  match Request.parse? arguments with
  | none => .misused
  | some .version => .printed (versionText ++ "\n") 0
  | some .help => .printed (usageText ++ "\n") 0
  | some (.run invocation) => invocation.run files setting id

end Governance.CommandLine
