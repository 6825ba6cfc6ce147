/-!
# Digits

Reading and writing numbers in base ten and base sixteen. Only the ASCII digits count as digits.
-/

set_option autoImplicit false

namespace Governance.Text

def wordMax : Nat := 18446744073709551615

def isDigit (c : Char) : Bool := '0' ≤ c && c ≤ '9'

def digitValue (c : Char) : Nat := c.toNat - '0'.toNat

def ofDigits (digits : List Char) : Nat :=
  digits.foldl (fun value c => 10 * value + digitValue c) 0

def decimal? (text : List Char) : Option Nat :=
  if text ≠ [] ∧ text.all isDigit then some (ofDigits text) else none

/-- Reads a position: decimal digits after at most one plus sign, no greater than a 64-bit word
can hold. -/
def position? (text : List Char) : Option Nat :=
  let digits := match text with
    | '+' :: rest => rest
    | _ => text
  match decimal? digits with
  | some value => if value ≤ wordMax then some value else none
  | none => none

def hexValue? (c : Char) : Option Nat :=
  if isDigit c then some (digitValue c)
  else if 'a' ≤ c ∧ c ≤ 'f' then some (c.toNat - 'a'.toNat + 10)
  else if 'A' ≤ c ∧ c ≤ 'F' then some (c.toNat - 'A'.toNat + 10)
  else none

def hexDigit (value : Nat) : Char :=
  if value < 10 then Char.ofNat ('0'.toNat + value) else Char.ofNat ('a'.toNat + (value - 10))

def byteHex (byte : UInt8) : List Char :=
  [hexDigit (byte.toNat / 16), hexDigit (byte.toNat % 16)]

def natHex (value : Nat) : String :=
  String.ofList (Nat.toDigits 16 value)

def padded (width value : Nat) : String :=
  let digits := (toString value).toList
  String.ofList (List.replicate (width - digits.length) '0' ++ digits)

end Governance.Text
