import Governance.Evidence.Basic

/-!
# Integrity of bundles

A bundle is intact if its facts have the digest that it carries. A bundle whose facts have no
digest at all is reported as such.
-/

set_option autoImplicit false

namespace Governance

inductive IntegrityCheck where
  | intact
  | mismatch (expected actual : ContentDigest)
  | unhashable (reason : String)
  deriving DecidableEq, Repr

inductive ProofError where
  | reservedKey (key : String)
  | snapshotMismatch (event verdict : PolicySnapshotId)
  | integrityViolation (bundle : BundleId) (expected actual : ContentDigest)
  | canonicalization (cause : CanonicalizationError)
  deriving DecidableEq, Repr

def ProofError.message : ProofError → String
  | .reservedKey key => "extra key " ++ Text.quote key ++ " is reserved by the evidence schema"
  | .snapshotMismatch event verdict =>
    "verdict snapshot " ++ verdict.text ++ " does not match event snapshot " ++ event.text
  | .integrityViolation bundle expected actual =>
    "proof bundle " ++ bundle.display ++ " integrity violation: expected " ++ expected.hex
      ++ ", got " ++ actual.hex
  | .canonicalization cause => "canonicalization error: " ++ cause.message

namespace IntegrityCheck

def isIntact : IntegrityCheck → Bool
  | .intact => true
  | _ => false

/-! ## Records -/

inductive Form where
  | intact
  | mismatch
  | unhashable
  deriving DecidableEq, Repr

instance : Wire.Named Form where
  all := [.intact, .mismatch, .unhashable]
  name
    | .intact => "intact"
    | .mismatch => "mismatch"
    | .unhashable => "unhashable"

def toJson : IntegrityCheck → Json
  | .intact => .obj [("result", .str "intact")]
  | .mismatch expected actual =>
    .obj [("result", .str "mismatch"), ("expected", .str expected.display),
      ("actual", .str actual.display)]
  | .unhashable reason => .obj [("result", .str "unhashable"), ("reason", .str reason)]

def tag : Json → Wire.Decoded Form
  | .str name => Wire.variant name
  | found => .error (.invalidType found "variant identifier")

def ofFields (form : Form) (given : Wire.Given Json) : Wire.Decoded IntegrityCheck :=
  match form with
  | .intact =>
    if given.length = 0 then .ok .intact
    else .error (.invalidLength given.length (Wire.elementCount 0 ++ " in sequence"))
  | .mismatch =>
    Wire.taggedFields "struct variant IntegrityCheck::Mismatch" 2 (fun given =>
      IntegrityCheck.mismatch <$> given.field 0 "expected" Wire.digest
        <*> given.field 1 "actual" Wire.digest) given
  | .unhashable =>
    Wire.taggedFields "struct variant IntegrityCheck::Unhashable" 1 (fun given =>
      IntegrityCheck.unhashable <$> given.field 0 "reason" Wire.text) given

def ofTagged (given : Wire.Given Json) : Wire.Decoded IntegrityCheck :=
  match Wire.splitTag "result" given with
  | .error refusal => .error refusal
  | .ok (found, rest) =>
    match tag found with
    | .error refusal => .error refusal
    | .ok form => ofFields form rest

def ofJson : Json → Wire.Decoded IntegrityCheck
  | .obj members => ofTagged (.byName members)
  | .arr items => ofTagged (.byPlace items)
  | found => .error (.invalidType found "internally tagged enum IntegrityCheck")

end IntegrityCheck

namespace ProofBundle

def verify (bundle : ProofBundle) : IntegrityCheck :=
  match EvidenceItem.hashAll bundle.items with
  | .error problem => .unhashable ("canonicalization error: " ++ problem.message)
  | .ok actual =>
    if actual = bundle.integrityHash then .intact
    else .mismatch bundle.integrityHash actual

def verifyIntegrity (bundle : ProofBundle) : Except ProofError Unit :=
  match EvidenceItem.hashAll bundle.items with
  | .error problem => .error (.canonicalization problem)
  | .ok actual =>
    if actual = bundle.integrityHash then .ok ()
    else .error (.integrityViolation bundle.id bundle.integrityHash actual)

end ProofBundle

end Governance
