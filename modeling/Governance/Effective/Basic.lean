import Governance.Conflict.Basic
import Governance.Field.Registry
import Governance.FieldPath.Access

/-!
# Effective policies

The policy in force at a scope: the values that the policies along the chain add up to, the source
of every value, and the digest of the values. The version counts the changes of the digest.
-/

set_option autoImplicit false

namespace Governance

structure FieldProvenance where
  scope : ScopeId
  policy : PolicyId
  mode : InheritanceMode
  isOverride : Bool
  deriving DecidableEq, Repr

namespace FieldProvenance

def toJson (source : FieldProvenance) : Json :=
  .obj [("scope_id", .str source.scope.text), ("policy_id", .str source.policy.text),
    ("mode", .str (Wire.Named.name source.mode)), ("override", .bool source.isOverride)]

def ofJson : Json → Wire.Decoded FieldProvenance :=
  Wire.record "struct FieldProvenance" 4 fun given =>
    FieldProvenance.mk <$> given.field 0 "scope_id" (Wire.identifier .scope)
      <*> given.field 1 "policy_id" (Wire.identifier .policy)
      <*> given.field 2 "mode" Wire.named
      <*> given.fieldOr (some false) 3 "override" Wire.flag

end FieldProvenance

structure EffectivePolicy where
  scope : ScopeId
  values : Json
  provenance : SortedMap FieldPath FieldProvenance
  contentHash : ContentDigest
  version : UInt64
  deriving DecidableEq

namespace EffectivePolicy

/-! ## Looking up fields -/

def value? (policy : EffectivePolicy) (field : FieldPath) : Option Json :=
  field.lookup? policy.values

/-- The source of the first of the given beginnings of a path, the longest one first. The root has
no source. -/
def sourceUpTo? (policy : EffectivePolicy) (field : FieldPath) : Nat → Option FieldProvenance
  | 0 => none
  | count + 1 =>
    match policy.provenance.find? (field.take (count + 1)) with
    | some source => some source
    | none => sourceUpTo? policy field count

def explain (policy : EffectivePolicy) (field : FieldPath) : Option FieldProvenance :=
  policy.sourceUpTo? field field.segments.length

/-! ## Verifying -/

def verifyWith (policy : EffectivePolicy) (registry : FieldRegistry) :
    Except CanonicalizationError Bool :=
  (ContentDigest.ofDocument registry policy.values).map fun digest =>
    digest == policy.contentHash

def verify (policy : EffectivePolicy) : Except CanonicalizationError Bool :=
  policy.verifyWith .standard

/-! ## Records -/

/-- The record of an effective policy. Sources are listed in the order of their paths. -/
def toJson (policy : EffectivePolicy) : Json :=
  .obj [("scope_id", .str policy.scope.text), ("values", policy.values),
    ("provenance", .obj (policy.provenance.entries.map fun (field, source) =>
      (field.display, source.toJson))),
    ("content_hash", .str policy.contentHash.display),
    ("version", .int policy.version.toNat)]

def fieldOfName (name : String) : Wire.Decoded FieldPath := Wire.fieldPath (.str name)

def ofJson : Json → Wire.Decoded EffectivePolicy :=
  Wire.record "struct EffectivePolicy" 5 fun given =>
    EffectivePolicy.mk <$> given.field 0 "scope_id" (Wire.identifier .scope)
      <*> given.field 1 "values" Wire.value
      <*> given.field 2 "provenance" (Wire.map fieldOfName FieldProvenance.ofJson)
      <*> given.field 3 "content_hash" Wire.digest
      <*> given.field 4 "version" (Wire.word64 "u64")

end EffectivePolicy

structure EffectiveOutcome where
  policy : EffectivePolicy
  conflicts : List PolicyConflict
  deriving DecidableEq

namespace EffectiveOutcome

def blocksActivation (outcome : EffectiveOutcome) : Bool :=
  outcome.conflicts.any PolicyConflict.isBlocking

def toJson (outcome : EffectiveOutcome) : Json :=
  .obj [("policy", outcome.policy.toJson),
    ("conflicts", .arr (outcome.conflicts.map PolicyConflict.toJson))]

def ofJson : Json → Wire.Decoded EffectiveOutcome :=
  Wire.record "struct EffectiveOutcome" 2 fun given =>
    EffectiveOutcome.mk <$> given.field 0 "policy" EffectivePolicy.ofJson
      <*> given.field 1 "conflicts" (Wire.list PolicyConflict.ofJson)

end EffectiveOutcome

end Governance
