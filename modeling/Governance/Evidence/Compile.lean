import Governance.Evidence.Integrity

/-!
# Compiling bundles

The facts of a bundle are taken from the event and the verdict in a fixed order; those that are
absent are left out. What the caller adds follows in the order of its keys, which must not be keys
of the schema. The content of the event is never looked at.
-/

set_option autoImplicit false

namespace Governance.ProofBundle

def schemaKeys : List String :=
  ["tool.id", "tool.name", "tool.version", "actor.role", "action.kind", "context.tenant_id",
    "context.enterprise_id", "context.brand", "context.region", "context.channel",
    "context.policy_snapshot_id", "verdict.status", "verdict.reason", "verdict.rule_id",
    "verdict.policy_snapshot_id"]

def schemaValues (event : UsageEvent) (verdict : Verdict) : List (String × Option String) :=
  let context := event.context
  [("tool.id", some event.tool.id),
    ("tool.name", some event.tool.name),
    ("tool.version", some event.tool.version),
    ("actor.role", some event.actor.role),
    ("action.kind", some (Wire.Named.name event.action.kind)),
    ("context.tenant_id", some context.tenant.text),
    ("context.enterprise_id", some context.enterprise.text),
    ("context.brand", context.brand),
    ("context.region", context.region),
    ("context.channel", context.channel),
    ("context.policy_snapshot_id", some context.snapshot.text),
    ("verdict.status", some (Wire.Named.name verdict.status)),
    ("verdict.reason", some verdict.reason),
    ("verdict.rule_id", verdict.rule.map Identifier.text),
    ("verdict.policy_snapshot_id", some verdict.snapshot.text)]

def schemaItems (event : UsageEvent) (verdict : Verdict) : List EvidenceItem :=
  (schemaValues event verdict).filterMap fun (key, value) =>
    value.map fun text => ⟨key, .str text⟩

def extraItems (extras : SortedMap String Json) : List EvidenceItem :=
  extras.entries.map fun (key, value) => ⟨key, value⟩

def reservedKey? (extras : SortedMap String Json) : Option String :=
  extras.keys.find? fun key => schemaKeys.contains key

def compile (id : BundleId) (event : UsageEvent) (verdict : Verdict)
    (extras : SortedMap String Json) : Except ProofError ProofBundle :=
  let context := event.context
  if verdict.snapshot ≠ context.snapshot then
    .error (.snapshotMismatch context.snapshot verdict.snapshot)
  else match reservedKey? extras with
    | some key => .error (.reservedKey key)
    | none =>
      let items := schemaItems event verdict ++ extraItems extras
      match EvidenceItem.hashAll items with
      | .error problem => .error (.canonicalization problem)
      | .ok integrityHash =>
        .ok { id, tenant := context.tenant, snapshot := context.snapshot, items, integrityHash }

end Governance.ProofBundle
