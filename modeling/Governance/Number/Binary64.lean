import Governance.Text.Digits

/-!
# Finite binary64 numbers

A number with a fraction or an exponent is kept as a finite IEEE 754 binary64 value. A value is
represented by its sign and its rank: the place of its magnitude among all finite magnitudes in
ascending order, zero first. Order, equality and rounding then need natural numbers only.

Integers and decimals are read as the nearest value, ties to even.
-/

set_option autoImplicit false

namespace Governance

def Binary64.magnitudes : Nat := 0x7FF0000000000000

/-- A finite binary64 value: a sign and the rank of its magnitude. Zero has both signs. -/
structure Binary64 where
  negative : Bool
  rank : Nat
  rank_lt : rank < Binary64.magnitudes
  deriving DecidableEq, Repr

namespace Binary64

instance : Inhabited Binary64 := ⟨⟨false, 0, by decide⟩⟩

/-! ## Magnitudes -/

def magnitudeParts (rank : Nat) : Nat × Int :=
  if rank < Nat.pow 2 52 then (rank, -1074)
  else (Nat.pow 2 52 + rank % Nat.pow 2 52, (rank / Nat.pow 2 52 : Nat) - 1075)

def scaledQuotient (numerator denominator : Nat) (shift : Int) : Nat × Ordering :=
  let top := numerator * Nat.pow 2 shift.toNat
  let bottom := denominator * Nat.pow 2 (-shift).toNat
  (top / bottom, compare (2 * (top % bottom)) bottom)

/-- The rank nearest to a quotient, ties to even. It may be past the last finite magnitude. The
exponent is the one that leaves 53 significant bits, or the least exponent there is. -/
def nearestRank (numerator denominator : Nat) : Nat :=
  if numerator = 0 then 0
  else
    let guess : Int := (numerator.log2 : Int) - denominator.log2 - 53
    let exponent := if (scaledQuotient numerator denominator (-guess)).1 < Nat.pow 2 53
      then guess else guess + 1
    let exponent := max exponent (-1074)
    let (quotient, remainder) := scaledQuotient numerator denominator (-exponent)
    let rounded := match remainder with
      | .lt => quotient
      | .gt => quotient + 1
      | .eq => quotient + quotient % 2
    (exponent + 1074).toNat * Nat.pow 2 52 + rounded

def ofRank? (negative : Bool) (rank : Nat) : Option Binary64 :=
  if finite : rank < magnitudes then some ⟨negative, rank, finite⟩ else none

/-! ## Integers and order -/

def ofInt? (value : Int) : Option Binary64 :=
  ofRank? (decide (value < 0)) (nearestRank value.natAbs 1)

def place (value : Binary64) : Int :=
  if value.negative then -(value.rank : Int) else value.rank

def compare (left right : Binary64) : Ordering :=
  Ord.compare left.place right.place

def sameNumber (left right : Binary64) : Bool :=
  left.place == right.place

/-! ## Decimals -/

/-- The value nearest to a decimal, digits times a power of ten, unless it is too great. The place
of the first digit tells values that are far too great or too small, so that the powers of ten that
are computed are bounded by the number of digits. -/
def ofDecimal? (negative : Bool) (digits : List Char) (exponent : Int) : Option Binary64 :=
  let digits := digits.dropWhile (· == '0')
  let place := exponent + digits.length
  if digits = [] ∨ place < -330 then ofRank? negative 0
  else if 310 < place then none
  else ofRank? negative (nearestRank (Text.ofDigits digits * Nat.pow 10 exponent.toNat)
    (Nat.pow 10 (-exponent).toNat))

end Binary64

end Governance
