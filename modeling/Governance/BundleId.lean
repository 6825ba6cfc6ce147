import Governance.Text.Digits
import Governance.Text.Split

/-!
# Bundle identifiers

A bundle is identified by a UUID. It is read in any of the usual forms, in either case, and written
with hyphens in lower case.
-/

set_option autoImplicit false

namespace Governance

structure BundleId where
  value : BitVec 128
  deriving DecidableEq, Repr

namespace BundleId

/-! ## Reading -/

def readHex? (digits : List Char) : Option Nat :=
  digits.foldlM (fun value c => (Text.hexValue? c).map (16 * value + ·)) 0

def groupLengths : List Nat := [8, 4, 4, 4, 12]

/-- The digits of a UUID without or with hyphens between the groups, without the decoration that
may stand around the latter form. -/
def digits? (text : List Char) : Option (List Char) :=
  if text.length = 32 then some text
  else
    let bare :=
      if text.length = 38 ∧ text.head? = some '{' ∧ text.getLast? = some '}' then
        (text.drop 1).dropLast
      else if text.length = 45 ∧ text.take 9 = "urn:uuid:".toList then text.drop 9
      else text
    let groups := Text.splitOn '-' bare
    if groups.map List.length = groupLengths then some groups.flatten else none

def parse? (text : String) : Option BundleId := do
  let digits ← digits? text.toList
  let value ← readHex? digits
  some ⟨BitVec.ofNat 128 value⟩

/-! ## Minting -/

/-- The identifier made of random bytes, with the marks of a random UUID: version 4 and the usual
variant. -/
def ofRandomBytes (bytes : List UInt8) : BundleId :=
  let value := bytes.foldl (fun value byte => 256 * value + byte.toNat) 0
  let random := BitVec.ofNat 128 value
  let cleared := random &&& ~~~ (0xF#128 <<< 76 ||| 0x3#128 <<< 62)
  ⟨cleared ||| 0x4#128 <<< 76 ||| 0x2#128 <<< 62⟩

/-! ## Writing -/

def hexDigits : Nat → Nat → List Char
  | 0, _ => []
  | count + 1, value => hexDigits count (value / 16) ++ [Text.hexDigit (value % 16)]

def groupsOf : List Nat → List Char → List (List Char)
  | [], _ => []
  | length :: rest, digits => digits.take length :: groupsOf rest (digits.drop length)

def uuidText (id : BundleId) : String :=
  String.ofList (['-'].intercalate (groupsOf groupLengths (hexDigits 32 id.value.toNat)))

def display (id : BundleId) : String := "proof-bundle:" ++ id.uuidText

end BundleId

end Governance
