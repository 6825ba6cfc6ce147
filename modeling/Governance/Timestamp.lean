import Governance.Text.Blank
import Governance.Text.Digits

/-!
# Timestamps

Points in time to the nanosecond, read from RFC 3339 text with any offset and written in UTC. Days
follow the proleptic Gregorian calendar. A leap second is kept as a fraction of at least one second
behind second 59.
-/

set_option autoImplicit false

namespace Governance

/-- A point in time: seconds since the start of 1970 in UTC, and nanoseconds. -/
structure Timestamp where
  seconds : Int
  nanoseconds : Nat
  deriving DecidableEq, Repr

namespace Timestamp

/-! ## Calendar -/

def isLeapYear (year : Int) : Bool :=
  year % 4 == 0 && (year % 100 != 0 || year % 400 == 0)

def daysInMonth (year : Int) (month : Nat) : Nat :=
  if month = 2 then if isLeapYear year then 29 else 28
  else if month = 4 ∨ month = 6 ∨ month = 9 ∨ month = 11 then 30
  else 31

/-- The days from the start of 1970 to the start of a day. Years are counted from March, so that
the leap day is the last day of a year. -/
def daysFromCivil (year : Int) (month day : Nat) : Int :=
  let year := if month ≤ 2 then year - 1 else year
  let era := year / 400
  let yearOfEra := year % 400
  let monthFromMarch : Int := (month + 9) % 12
  let dayOfYear := (153 * monthFromMarch + 2) / 5 + (day - 1)
  era * 146097 + yearOfEra * 365 + yearOfEra / 4 - yearOfEra / 100 + dayOfYear - 719468

def civilFromDays (days : Int) : Int × Nat × Nat :=
  let shifted := days + 719468
  let era := shifted / 146097
  let dayOfEra := shifted % 146097
  let yearOfEra :=
    (dayOfEra - dayOfEra / 1460 + dayOfEra / 36524 - dayOfEra / 146096) / 365
  let dayOfYear := dayOfEra - (365 * yearOfEra + yearOfEra / 4 - yearOfEra / 100)
  let monthFromMarch := (5 * dayOfYear + 2) / 153
  let day := dayOfYear - (153 * monthFromMarch + 2) / 5 + 1
  let month := if monthFromMarch < 10 then monthFromMarch + 3 else monthFromMarch - 9
  let year := yearOfEra + era * 400
  (if month ≤ 2 then year + 1 else year, month.toNat, day.toNat)

/-! ## Writing -/

def yearText (year : Int) : String :=
  if 0 ≤ year ∧ year ≤ 9999 then Text.padded 4 year.toNat
  else (if year < 0 then "-" else "+") ++ Text.padded 4 year.natAbs

def fractionText (nanoseconds : Nat) : String :=
  if nanoseconds = 0 then ""
  else if nanoseconds % 1000000 = 0 then "." ++ Text.padded 3 (nanoseconds / 1000000)
  else if nanoseconds % 1000 = 0 then "." ++ Text.padded 6 (nanoseconds / 1000)
  else "." ++ Text.padded 9 nanoseconds

def display (time : Timestamp) : String :=
  let (year, month, day) := civilFromDays (time.seconds / 86400)
  let second := (time.seconds % 86400).toNat
  let leap := time.nanoseconds / 1000000000
  yearText year ++ "-" ++ Text.padded 2 month ++ "-" ++ Text.padded 2 day ++ "T"
    ++ Text.padded 2 (second / 3600) ++ ":" ++ Text.padded 2 (second / 60 % 60) ++ ":"
    ++ Text.padded 2 (second % 60 + leap) ++ fractionText (time.nanoseconds % 1000000000) ++ "Z"

/-! ## Reading -/

def readNumber? (width : Nat) (text : List Char) : Option (Nat × List Char) :=
  let text := Text.trimStart text
  let digits := (text.takeWhile Text.isDigit).take width
  (Text.decimal? digits).map fun value => (value, text.drop digits.length)

/-- A year behind blanks: four digits at most, or any number of them behind a sign. -/
def readYear? (text : List Char) : Option (Int × List Char) :=
  match Text.trimStart text with
  | '-' :: rest =>
    let digits := rest.takeWhile Text.isDigit
    (Text.decimal? digits).map fun value => (-(value : Int), rest.drop digits.length)
  | '+' :: rest =>
    let digits := rest.takeWhile Text.isDigit
    (Text.decimal? digits).map fun value => ((value : Int), rest.drop digits.length)
  | text => (readNumber? 4 text).map fun (value, rest) => ((value : Int), rest)

def readMark? (mark : Char) (text : List Char) : Option (List Char) :=
  match Text.trimStart text with
  | c :: rest => if c = mark then some rest else none
  | [] => none

/-- A fraction behind a point in nanoseconds, and the text after it. Digits beyond the ninth are
dropped. -/
def readFraction? : List Char → Option (Nat × List Char)
  | '.' :: rest =>
    let digits := rest.takeWhile Text.isDigit
    let kept := digits.take 9
    (Text.decimal? kept).map fun value =>
      (value * Nat.pow 10 (9 - kept.length), rest.drop digits.length)
  | text => some (0, text)

def isOffsetMark (c : Char) : Bool := c == ':' || Text.isBlank c

def readTwoDigits? : List Char → Option (Nat × List Char)
  | a :: b :: rest => (Text.decimal? [a, b]).map fun value => (value, rest)
  | _ => none

def readOffset? (text : List Char) : Option (Int × List Char) :=
  let signed (sign : Int) (rest : List Char) : Option (Int × List Char) := do
    let (hours, rest) ← readTwoDigits? rest
    let (minutes, rest) ← readTwoDigits? (rest.dropWhile isOffsetMark)
    if minutes < 60 then some (sign * (hours * 3600 + minutes * 60), rest) else none
  match Text.trimStart text with
  | 'Z' :: rest => some (0, rest)
  | 'z' :: rest => some (0, rest)
  | '+' :: rest => signed 1 rest
  | '-' :: rest => signed (-1) rest
  | '−' :: rest => signed (-1) rest
  | u :: t :: c :: rest =>
    if u.toLower = 'u' ∧ t.toLower = 't' ∧ c.toLower = 'c' then some (0, rest) else none
  | _ => none

def yearMax : Int := 262142

def yearMin : Int := -262143

def isInRange (seconds : Int) : Bool :=
  daysFromCivil yearMin 1 1 * 86400 ≤ seconds
    && seconds < (daysFromCivil yearMax 12 31 + 1) * 86400

/-- Reads a date, a time and an offset from UTC, with blanks around them. Both the date that is
written and the one in UTC have to be within the range of years. -/
def parse? (text : String) : Option Timestamp := do
  let (year, rest) ← readYear? text.toList
  let rest ← readMark? '-' rest
  let (month, rest) ← readNumber? 2 rest
  let rest ← readMark? '-' rest
  let (day, rest) ← readNumber? 2 rest
  let rest ← match rest with
    | 'T' :: rest => some rest
    | 't' :: rest => some rest
    | ' ' :: rest => some rest
    | _ => none
  let (hour, rest) ← readNumber? 2 rest
  let rest ← readMark? ':' rest
  let (minute, rest) ← readNumber? 2 rest
  let rest ← readMark? ':' rest
  let (second, rest) ← readNumber? 2 rest
  let (fraction, rest) ← readFraction? rest
  let (offset, rest) ← readOffset? rest
  if rest.all Text.isBlank ∧ yearMin ≤ year ∧ year ≤ yearMax ∧ 1 ≤ month ∧ month ≤ 12 ∧ 1 ≤ day
      ∧ day ≤ daysInMonth year month ∧ hour < 24 ∧ minute < 60 ∧ second ≤ 60
      ∧ offset.natAbs < 86400 then
    let leap : Nat := if second = 60 then 1 else 0
    let clock : Int := ((hour * 3600 + minute * 60 + (second - leap) : Nat) : Int)
    let seconds := daysFromCivil year month day * 86400 + clock - offset
    if isInRange seconds then some ⟨seconds, fraction + leap * 1000000000⟩ else none
  else none

end Timestamp

end Governance
