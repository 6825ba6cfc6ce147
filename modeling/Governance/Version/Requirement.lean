import Governance.Version.Basic

/-!
# Version requirements

A requirement is a list of comparators, all of which a version has to satisfy. A comparator may
leave out the patch number, or the minor number as well, and then stands for the whole range. A
version with a pre-release satisfies a requirement only if some comparator names a pre-release of
the same three numbers.
-/

set_option autoImplicit false

namespace Governance

/-- How a comparator bounds a version. `wildcard` is the equality written with a star. -/
inductive Bound where
  | exact
  | greater
  | greaterEqual
  | less
  | lessEqual
  | tilde
  | caret
  | wildcard
  deriving DecidableEq, Repr

def Bound.sign : Bound → String
  | .exact => "="
  | .greater => ">"
  | .greaterEqual => ">="
  | .less => "<"
  | .lessEqual => "<="
  | .tilde => "~"
  | .caret => "^"
  | .wildcard => ""

structure Comparator where
  bound : Bound
  major : UInt64
  minor : Option UInt64
  patch : Option UInt64
  preRelease : List Version.PreReleasePart
  deriving DecidableEq

structure Requirement where
  comparators : List Comparator
  deriving DecidableEq

/-! ## Writing -/

namespace Comparator

def display (comparator : Comparator) : String :=
  let star := if comparator.bound = .wildcard then ".*" else ""
  comparator.bound.sign ++ toString comparator.major.toNat ++
    match comparator.minor, comparator.patch with
    | none, _ => star
    | some minor, none => "." ++ toString minor.toNat ++ star
    | some minor, some patch =>
      "." ++ toString minor.toNat ++ "." ++ toString patch.toNat
        ++ if comparator.preRelease.isEmpty then ""
          else "-" ++ Version.preReleaseText comparator.preRelease

/-! ## Satisfaction -/

def agrees (asked : Option UInt64) (number : UInt64) : Bool :=
  asked.all fun wanted => wanted == number

def isExact (comparator : Comparator) (version : Version) : Bool :=
  version.major == comparator.major && agrees comparator.minor version.minor
    && agrees comparator.patch version.patch
    && version.preRelease == comparator.preRelease

/-- The order of a version and the numbers of a comparator, provided that the comparator has all
the numbers that decide it. -/
def order? (comparator : Comparator) (version : Version) : Option Ordering :=
  match compare version.major.toNat comparator.major.toNat with
  | .eq =>
    match comparator.minor with
    | none => none
    | some minor =>
      match compare version.minor.toNat minor.toNat with
      | .eq =>
        match comparator.patch with
        | none => none
        | some patch =>
          match compare version.patch.toNat patch.toNat with
          | .eq => some (Version.comparePreReleases version.preRelease comparator.preRelease)
          | decided => some decided
      | decided => some decided
  | decided => some decided

def preReleaseReached (comparator : Comparator) (version : Version) : Bool :=
  (Version.comparePreReleases version.preRelease comparator.preRelease).isGE

def isTilde (comparator : Comparator) (version : Version) : Bool :=
  version.major == comparator.major && agrees comparator.minor version.minor &&
    match comparator.patch with
    | none => preReleaseReached comparator version
    | some patch =>
      if version.patch == patch then preReleaseReached comparator version
      else patch < version.patch

/-- Whether a version agrees with a comparator up to the first number that is not zero and is not
below it. -/
def isCaret (comparator : Comparator) (version : Version) : Bool :=
  version.major == comparator.major &&
    match comparator.minor, comparator.patch with
    | none, _ => true
    | some minor, none =>
      if 0 < comparator.major then minor ≤ version.minor else version.minor == minor
    | some minor, some patch =>
      if 0 < comparator.major then
        if version.minor != minor then minor < version.minor
        else if version.patch != patch then patch < version.patch
        else preReleaseReached comparator version
      else if 0 < minor then
        version.minor == minor &&
          if version.patch != patch then patch < version.patch
          else preReleaseReached comparator version
      else version.minor == minor && version.patch == patch
        && preReleaseReached comparator version

def holds (comparator : Comparator) (version : Version) : Bool :=
  match comparator.bound with
  | .exact => isExact comparator version
  | .wildcard => isExact comparator version
  | .greater => order? comparator version == some .gt
  | .greaterEqual => isExact comparator version || order? comparator version == some .gt
  | .less => order? comparator version == some .lt
  | .lessEqual => isExact comparator version || order? comparator version == some .lt
  | .tilde => isTilde comparator version
  | .caret => isCaret comparator version

def namesPreReleaseOf (comparator : Comparator) (version : Version) : Bool :=
  comparator.major == version.major && comparator.minor == some version.minor
    && comparator.patch == some version.patch && !comparator.preRelease.isEmpty

end Comparator

namespace Requirement

def display (requirement : Requirement) : String :=
  if requirement.comparators.isEmpty then "*"
  else ", ".intercalate (requirement.comparators.map Comparator.display)

def isSatisfiedBy (requirement : Requirement) (version : Version) : Bool :=
  requirement.comparators.all (fun comparator => comparator.holds version)
    && (version.preRelease.isEmpty
      || requirement.comparators.any fun comparator => comparator.namesPreReleaseOf version)

/-! ## Reading -/

def isWildcard (c : Char) : Bool := c == '*' || c == 'x' || c == 'X'

def readSign : List Char → Option Bound × List Char
  | '=' :: rest => (some .exact, rest)
  | '>' :: '=' :: rest => (some .greaterEqual, rest)
  | '>' :: rest => (some .greater, rest)
  | '<' :: '=' :: rest => (some .lessEqual, rest)
  | '<' :: rest => (some .less, rest)
  | '~' :: rest => (some .tilde, rest)
  | '^' :: rest => (some .caret, rest)
  | text => (none, text)

inductive Slot where
  | number (value : UInt64)
  | star
  | left

def readSlot? : List Char → Option (Slot × List Char)
  | '.' :: c :: rest =>
    if isWildcard c then some (.star, rest)
    else (Version.readNumber? (c :: rest)).map fun (value, rest) => (.number value, rest)
  | ['.'] => none
  | text => some (.left, text)

/-- Reads a comparator with spaces around it. After a star no number may follow; a pre-release and
build metadata need all three numbers, and build metadata is ignored. -/
def readComparator? (text : List Char) : Option Comparator := do
  let (sign, rest) := readSign (text.dropWhile (· == ' '))
  let (major, rest) ← Version.readNumber? (rest.dropWhile (· == ' '))
  let (minor, rest) ← readSlot? rest
  let (patch, rest) ← readSlot? rest
  let bound := sign.getD (match minor, patch with
    | .star, _ => .wildcard
    | _, .star => .wildcard
    | _, _ => .caret)
  match minor, patch with
  | .number minor, .number patch =>
    let (preRelease, rest) ← Version.readPreRelease? rest
    let (_, rest) ← Version.readBuild? rest
    if rest.all (· == ' ') then some ⟨bound, major, some minor, some patch, preRelease⟩ else none
  | .star, .number _ => none
  | .number minor, _ =>
    if rest.all (· == ' ') then some ⟨bound, major, some minor, none, []⟩ else none
  | _, _ => if rest.all (· == ' ') then some ⟨bound, major, none, none, []⟩ else none

def comparatorsMax : Nat := 32

def read? (text : List Char) : Option Requirement :=
  match text.dropWhile (· == ' ') with
  | [] => none
  | c :: rest =>
    if isWildcard c then if rest.all (· == ' ') then some ⟨[]⟩ else none
    else
      let pieces := Text.splitOn ',' (c :: rest)
      if comparatorsMax < pieces.length then none
      else (pieces.mapM readComparator?).map Requirement.mk

def parse? (text : String) : Option Requirement := read? (Text.trim text).toList

end Requirement

end Governance
