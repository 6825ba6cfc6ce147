import Governance.Canonical
import Governance.Sha256
import Governance.Text.Split

/-!
# Content digests

A content digest is the SHA-256 hash of a canonical text. It is written as `sha256:` and 64
lower-case hexadecimal digits, and read with or without the name of the algorithm.
-/

set_option autoImplicit false

namespace Governance

structure ContentDigest where
  bytes : List UInt8
  length_eq : bytes.length = 32
  deriving DecidableEq, Repr

inductive DigestError where
  | unsupportedAlgorithm (name : String)
  | wrongLength (length : Nat)
  | splitCharacter (place : Nat)
  | invalidDigit (place : Nat)
  deriving DecidableEq, Repr

def DigestError.message : DigestError → String
  | .unsupportedAlgorithm name => "unsupported digest algorithm: " ++ name
  | .wrongLength length => "digest must be 64 hex characters, got " ++ toString length
  | .splitCharacter place => "invalid hex at position " ++ toString place
  | .invalidDigit place =>
    "invalid hex at position " ++ toString place ++ ": invalid digit found in string"

namespace ContentDigest

def algorithm : String := "sha256"

/-! ## Computing -/

def ofText (text : String) : ContentDigest :=
  ⟨Sha256.hash text.toUTF8.toList, Sha256.length_hash _⟩

def ofDocument (registry : FieldRegistry) (document : Json) :
    Except CanonicalizationError ContentDigest :=
  (Canonical.documentText registry document).map ofText

/-! ## Writing -/

def hex (digest : ContentDigest) : String :=
  String.ofList (digest.bytes.flatMap Text.byteHex)

def display (digest : ContentDigest) : String := algorithm ++ ":" ++ digest.hex

/-! ## Reading -/

/-- The byte that a pair of characters denotes. A plus sign may stand for the first digit. -/
def pairValue? (first second : Char) : Option UInt8 := do
  let low ← Text.hexValue? second
  if first = '+' then some (UInt8.ofNat low)
  else
    let high ← Text.hexValue? first
    some (UInt8.ofNat (16 * high + low))

/-- The bytes of a list of characters, two bytes of text for each, from a place on. A character of
two bytes is a pair without digits; a longer one, or one that a pair would cut, is refused. -/
def readPairs (place : Nat) : List Char → Except DigestError (List UInt8)
  | [] => .ok []
  | first :: rest =>
    if first.utf8Size = 1 then
      match rest with
      | [] => .error (.splitCharacter place)
      | second :: rest =>
        if second.utf8Size = 1 then
          match pairValue? first second with
          | none => .error (.invalidDigit place)
          | some byte => (readPairs (place + 2) rest).map (byte :: ·)
        else .error (.splitCharacter place)
    else if first.utf8Size = 2 then .error (.invalidDigit place)
    else .error (.splitCharacter place)

def readHex (digits : List Char) : Except DigestError ContentDigest :=
  let length := digits.foldl (· + ·.utf8Size) 0
  if length ≠ 64 then .error (.wrongLength length)
  else match readPairs 0 digits with
    | .error problem => .error problem
    | .ok bytes =>
      if whole : bytes.length = 32 then .ok ⟨bytes, whole⟩ else .error (.wrongLength bytes.length)

/-- Reads a digest. What stands before the first colon has to be the name of the algorithm. -/
def parse (text : String) : Except DigestError ContentDigest :=
  match Text.splitOnce? ':' text.toList with
  | none => readHex text.toList
  | some (name, digits) =>
    if String.ofList name = algorithm then readHex digits
    else .error (.unsupportedAlgorithm (String.ofList name))

end ContentDigest

end Governance
