import Governance.Number.Binary64
import Governance.Text.Digits

/-!
# Shortest decimal text

The fewest decimal digits that lie within the rounding interval of a binary64 value, and of those
the nearest to it. How the digits are laid out, and which of two is taken when both are as near,
is a separate choice, a `Layout`: JSON text and messages make it differently.
-/

set_option autoImplicit false

namespace Governance

namespace Binary64

/-- A positive magnitude as a fraction, with the ends of its rounding interval over the same
denominator. The ends belong to the interval when the last bit of the magnitude is zero. -/
structure Interval where
  value : Nat
  low : Nat
  high : Nat
  denominator : Nat
  closed : Bool

/-- The rounding interval of a magnitude: half way to the neighbours on both sides. The lower
neighbour of a power of two is nearer, the least normal magnitude apart. -/
def interval (rank : Nat) : Interval :=
  let (m, e) := magnitudeParts rank
  let up := Nat.pow 2 (e - 2).toNat
  let below := if m = Nat.pow 2 52 ∧ -1074 < e then 1 else 2
  { value := 4 * m * up
    low := (4 * m - below) * up
    high := (4 * m + 2) * up
    denominator := Nat.pow 2 (2 - e).toNat
    closed := m % 2 == 0 }

def Interval.holds (range : Interval) (factor candidate : Nat) : Bool :=
  if range.closed then range.low * factor ≤ candidate && candidate ≤ range.high * factor
  else range.low * factor < candidate && candidate < range.high * factor

/-- The number of decimal digits in front of the point; negative for a magnitude whose first
digits after the point are zeros. Four hundred places reach the first digit of every magnitude. -/
def pointPlace (rank : Nat) : Int :=
  let range := interval rank
  ((Nat.toDigits 10 (range.value * Nat.pow 10 400 / range.denominator)).length : Int) - 400

/-- The point of the grid of `digits` significant digits that lies in the rounding interval and is
nearest to the magnitude, if there is one. On a tie it is the greater one or the even one. -/
def onGrid (tiesUp : Bool) (rank digits : Nat) : Option Nat :=
  let range := interval rank
  let step : Int := pointPlace rank - digits
  let factor := Nat.pow 10 (-step).toNat
  let unit := range.denominator * Nat.pow 10 step.toNat
  let below := range.value * factor / unit
  let above := below + 1
  let nearerBelow := match Ord.compare (range.value * factor - below * unit)
      (above * unit - range.value * factor) with
    | .lt => true
    | .eq => !tiesUp && below % 2 == 0
    | .gt => false
  match range.holds factor (below * unit), range.holds factor (above * unit) with
  | true, true => some (if nearerBelow then below else above)
  | true, false => some below
  | false, true => some above
  | false, false => none

/-- The first grid with a point in the interval; seventeen digits always suffice. -/
def firstOnGrid (tiesUp : Bool) (rank : Nat) : Nat → Nat → Nat × Nat
  | 0, digits => (0, digits)
  | fuel + 1, digits =>
    match onGrid tiesUp rank digits with
    | some point => (point, digits)
    | none => firstOnGrid tiesUp rank fuel (digits + 1)

/-- The shortest digits of a magnitude, without zeros at the end, and the place of the decimal
point: the magnitude is zero point the digits times ten to that power. -/
def shortest (tiesUp : Bool) (rank : Nat) : List Char × Int :=
  if rank = 0 then (['0'], 1)
  else
    let (point, digits) := firstOnGrid tiesUp rank 17 1
    let text := Nat.toDigits 10 point
    let place := pointPlace rank + ((text.length : Int) - digits)
    ((text.reverse.dropWhile (· == '0')).reverse, place)

/-- How digits are chosen and laid out. Outside the given range of exponents the notation is
scientific; a value without a fraction may be marked by a zero after the point. Of two texts that
are as short and as near, the greater one is taken or the one with the even last digit. -/
structure Layout where
  positional : Int → Bool
  fractionAlways : Bool
  tiesUp : Bool

def positionalText (digits : List Char) (place : Int) (fractionAlways : Bool) : String :=
  let count := digits.length
  let tail := if fractionAlways then ".0" else ""
  if place ≤ 0 then "0." ++ String.ofList (List.replicate (-place).toNat '0' ++ digits)
  else if (count : Int) ≤ place then
    String.ofList (digits ++ List.replicate (place.toNat - count) '0') ++ tail
  else
    String.ofList (digits.take place.toNat) ++ "." ++ String.ofList (digits.drop place.toNat)

def scientificText (digits : List Char) (place : Int) : String :=
  let exponent := place - 1
  let fraction := digits.drop 1
  let point := if fraction = [] then "" else "."
  let sign := if exponent < 0 then "-" else "+"
  String.ofList (digits.take 1) ++ point ++ String.ofList fraction ++ "e" ++ sign
    ++ toString exponent.natAbs

def render (layout : Layout) (value : Binary64) : String :=
  let (digits, place) := shortest layout.tiesUp value.rank
  let sign := if value.negative then "-" else ""
  sign ++ (if layout.positional (place - 1) then
      positionalText digits place layout.fractionAlways
    else scientificText digits place)

/-- JSON text: positional for the decimal exponents from -5 to 15, and always with a fraction or
an exponent, so that a float is never read back as an integer. -/
def jsonLayout : Layout :=
  { positional := fun exponent => -5 ≤ exponent && exponent ≤ 15
    fractionAlways := true
    tiesUp := false }

def plainLayout : Layout :=
  { positional := fun _ => true, fractionAlways := false, tiesUp := true }

end Binary64

end Governance
