import Governance.Conflict.Basic
import Governance.ValidationError

/-!
# Failures

One type for the failures of all parts of the library, for callers that do not tell them apart.
-/

set_option autoImplicit false

namespace Governance

inductive Failure where
  | canonicalization (cause : CanonicalizationError)
  | stateTransition (cause : InvalidTransition)
  | validation (cause : ValidationError)
  | integrity (cause : DigestError)
  | json (cause : Wire.DecodeError)
  deriving DecidableEq

def Failure.message : Failure → String
  | .canonicalization cause => "canonicalization error: " ++ cause.message
  | .stateTransition cause => "state transition error: " ++ cause.message
  | .validation cause => "validation error: " ++ cause.message
  | .integrity cause => Wire.invalidDigestMessage cause
  | .json cause => "JSON error: " ++ cause.message

end Governance
