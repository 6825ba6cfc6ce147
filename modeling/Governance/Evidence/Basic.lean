import Governance.BundleId
import Governance.Rule.Basic
import Governance.Event

/-!
# Evidence

A proof bundle is the record of one decision: what was used by whom for what, under which tenant
and snapshot, and what was decided. It holds a fixed list of facts and what the caller adds, and
nothing of the content of the event. Its digest covers the list of facts in order.
-/

set_option autoImplicit false

namespace Governance

structure EvidenceItem where
  key : String
  value : Json
  deriving DecidableEq

namespace EvidenceItem

def toJson (item : EvidenceItem) : Json := .obj [("key", .str item.key), ("value", item.value)]

def ofJson : Json → Wire.Decoded EvidenceItem :=
  Wire.record "struct EvidenceItem" 2 fun given =>
    EvidenceItem.mk <$> given.field 0 "key" Wire.text <*> given.field 1 "value" Wire.value

/-- The digest of a list of facts. No array is a set here. -/
def hashAll (items : List EvidenceItem) : Except CanonicalizationError ContentDigest :=
  ContentDigest.ofDocument .empty (.arr (items.map toJson))

end EvidenceItem

/-- The record of one decision. The identifier only tells bundles apart. -/
structure ProofBundle where
  id : BundleId
  tenant : TenantId
  snapshot : PolicySnapshotId
  items : List EvidenceItem
  integrityHash : ContentDigest
  deriving DecidableEq

namespace BundleId

def ofJson : Json → Wire.Decoded BundleId
  | .str text =>
    match BundleId.parse? text with
    | some id => .ok id
    | none => .error .invalidBundleId
  | found => .error (.invalidType found "a UUID string")

end BundleId

namespace ProofBundle

def get? (bundle : ProofBundle) (key : String) : Option Json :=
  (bundle.items.find? fun item => item.key == key).map EvidenceItem.value

def keys (bundle : ProofBundle) : List String := bundle.items.map EvidenceItem.key

def toJson (bundle : ProofBundle) : Json :=
  .obj [("bundle_id", .str bundle.id.uuidText), ("tenant_id", .str bundle.tenant.text),
    ("policy_snapshot_id", .str bundle.snapshot.text),
    ("items", .arr (bundle.items.map EvidenceItem.toJson)),
    ("integrity_hash", .str bundle.integrityHash.display)]

def ofJson : Json → Wire.Decoded ProofBundle :=
  Wire.record "struct ProofBundle" 5 fun given =>
    ProofBundle.mk <$> given.field 0 "bundle_id" BundleId.ofJson
      <*> given.field 1 "tenant_id" (Wire.identifier .tenant)
      <*> given.field 2 "policy_snapshot_id" (Wire.identifier .policySnapshot)
      <*> given.field 3 "items" (Wire.list EvidenceItem.ofJson)
      <*> given.field 4 "integrity_hash" Wire.digest

end ProofBundle

end Governance
