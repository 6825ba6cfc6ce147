import Governance.Json.Basic
import Governance.Yaml.Scalar

/-!
# What plain scalars stand for

Where anything is expected, a plain scalar may be a null, a flag, an integer or a float; it is a
text if it is none of them.
-/

set_option autoImplicit false

namespace Governance.Yaml

def isNull (text : String) : Bool :=
  text.isEmpty || ["null", "Null", "NULL", "~"].contains text

def flag? (text : String) : Option Bool :=
  if ["true", "True", "TRUE"].contains text then some true
  else if ["false", "False", "FALSE"].contains text then some false
  else none

def splitSign : List Char → Bool × List Char
  | '-' :: rest => (true, rest)
  | '+' :: rest => (false, rest)
  | text => (false, text)

def hasLeadingZero (digits : List Char) : Bool :=
  digits.head? == some '0' && 1 < digits.length && digits.all Text.isDigit

def integer? (text : List Char) : Option Int :=
  let (negative, digits) := splitSign text
  let magnitude := match digits with
    | '0' :: 'x' :: rest => inBase? 16 rest
    | '0' :: 'o' :: rest => inBase? 8 rest
    | '0' :: 'b' :: rest => inBase? 2 rest
    | _ => if hasLeadingZero digits then none else Text.decimal? digits
  magnitude.map fun value => if negative then -(value : Int) else value

def exponent? : List Char → Option Int
  | [] => some 0
  | mark :: rest =>
    if mark = 'e' ∨ mark = 'E' then
      let (negative, digits) := splitSign rest
      (Text.decimal? digits).map fun value => if negative then -(value : Int) else value
    else none

def float? (text : List Char) : Option Binary64 := do
  let (negative, rest) := splitSign text
  if hasLeadingZero rest then none
  let whole := rest.takeWhile Text.isDigit
  let rest := rest.drop whole.length
  let fraction := match rest with
    | '.' :: rest => rest.takeWhile Text.isDigit
    | _ => []
  let rest := match rest with
    | '.' :: rest => rest.drop fraction.length
    | _ => rest
  if whole.isEmpty && fraction.isEmpty then none
  let exponent ← exponent? rest
  Binary64.ofDecimal? negative (whole ++ fraction) (exponent - fraction.length)

def isNotFinite (text : String) : Bool :=
  [".inf", ".Inf", ".INF", "+.inf", "+.Inf", "+.INF", "-.inf", "-.Inf", "-.INF",
    ".nan", ".NaN", ".NAN"].contains text

/-- The value of a plain scalar where anything is expected. Integers of up to 128 bits that fit no
64-bit word are refused, greater ones are floats. -/
def resolve? (text : String) : Option Json :=
  if isNull text then some .null
  else match flag? text with
    | some flag => some (.bool flag)
    | none =>
      match integer? text.toList with
      | some value =>
        if Json.intMin ≤ value ∧ value ≤ Json.intMax then some (.int value)
        else if -(Nat.pow 2 127 : Int) ≤ value ∧ value < (Nat.pow 2 128 : Int) then none
        else some (((float? text.toList).map Json.float).getD (.str text))
      | none =>
        if isNotFinite text then some .null
        else some (((float? text.toList).map Json.float).getD (.str text))

end Governance.Yaml
