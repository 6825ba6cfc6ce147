import Governance.Text.Blank
import Governance.Text.Digits
import Governance.Text.Split

/-!
# Semantic versions

Versions of tools: three numbers, a pre-release and build metadata. Precedence compares the numbers
and then the pre-release; build metadata carries no precedence.
-/

set_option autoImplicit false

namespace Governance

namespace Version

def isIdentifierChar (c : Char) : Bool :=
  Text.isDigit c || ('a' ≤ c && c ≤ 'z') || ('A' ≤ c && c ≤ 'Z') || c == '-'

def isLabel (text : List Char) : Bool := !text.isEmpty && text.all isIdentifierChar

inductive PreReleasePart where
  | numeric (value : Nat)
  | label (text : String) (valid : (isLabel text.toList && !text.toList.all Text.isDigit) = true)
  deriving DecidableEq

structure BuildPart where
  text : String
  valid : isLabel text.toList = true
  deriving DecidableEq

def PreReleasePart.display : PreReleasePart → String
  | .numeric value => toString value
  | .label text _ => text

/-- Precedence of parts: numbers by value and below all labels, labels by their characters. -/
def PreReleasePart.compare : PreReleasePart → PreReleasePart → Ordering
  | .numeric a, .numeric b => Ord.compare a b
  | .numeric _, .label _ _ => .lt
  | .label _ _, .numeric _ => .gt
  | .label a _, .label b _ => Ord.compare a b

/-- Precedence of lists of parts: by the first difference, and a list is below its extensions. -/
def compareParts : List PreReleasePart → List PreReleasePart → Ordering
  | [], [] => .eq
  | [], _ :: _ => .lt
  | _ :: _, [] => .gt
  | a :: as, b :: bs => (a.compare b).then (compareParts as bs)

/-- Precedence of pre-releases: a version without one is above all that have one. -/
def comparePreReleases : List PreReleasePart → List PreReleasePart → Ordering
  | [], [] => .eq
  | [], _ :: _ => .gt
  | _ :: _, [] => .lt
  | left, right => compareParts left right

end Version

structure Version where
  major : UInt64
  minor : UInt64
  patch : UInt64
  preRelease : List Version.PreReleasePart
  build : List Version.BuildPart
  deriving DecidableEq

namespace Version

def precedence (left right : Version) : Ordering :=
  (Ord.compare left.major.toNat right.major.toNat).then
    ((Ord.compare left.minor.toNat right.minor.toNat).then
      ((Ord.compare left.patch.toNat right.patch.toNat).then
        (comparePreReleases left.preRelease right.preRelease)))

/-! ## Writing -/

def preReleaseText (parts : List PreReleasePart) : String :=
  ".".intercalate (parts.map PreReleasePart.display)

def buildText (parts : List BuildPart) : String :=
  ".".intercalate (parts.map BuildPart.text)

def display (version : Version) : String :=
  toString version.major.toNat ++ "." ++ toString version.minor.toNat ++ "."
    ++ toString version.patch.toNat
    ++ (if version.preRelease.isEmpty then "" else "-" ++ preReleaseText version.preRelease)
    ++ (if version.build.isEmpty then "" else "+" ++ buildText version.build)

/-! ## Reading -/

/-- A number at the front of a text, and the text after it. It fits 64 bits and has no leading
zero. -/
def readNumber? (text : List Char) : Option (UInt64 × List Char) :=
  let digits := text.takeWhile Text.isDigit
  match Text.decimal? digits with
  | none => none
  | some value =>
    if (digits.head? = some '0' ∧ 1 < digits.length) ∨ Text.wordMax < value then none
    else some (UInt64.ofNat value, text.dropWhile Text.isDigit)

def readDotNumber? : List Char → Option (UInt64 × List Char)
  | '.' :: rest => readNumber? rest
  | _ => none

def isPartsChar (c : Char) : Bool := isIdentifierChar c || c == '.'

def readPreReleasePart? (part : List Char) : Option PreReleasePart :=
  match Text.decimal? part with
  | some value =>
    if part.head? = some '0' ∧ 1 < part.length then none else some (.numeric value)
  | none =>
    let text := String.ofList part
    if valid : (isLabel text.toList && !text.toList.all Text.isDigit) = true then
      some (.label text valid)
    else none

def readBuildPart? (part : List Char) : Option BuildPart :=
  let text := String.ofList part
  if valid : isLabel text.toList = true then some ⟨text, valid⟩ else none

/-- The pre-release behind a hyphen at the front of a text, and the text after it. Without a
hyphen the pre-release is empty. -/
def readPreRelease? : List Char → Option (List PreReleasePart × List Char)
  | '-' :: rest =>
    ((Text.splitOn '.' (rest.takeWhile isPartsChar)).mapM readPreReleasePart?).map fun parts =>
      (parts, rest.dropWhile isPartsChar)
  | text => some ([], text)

def readBuild? : List Char → Option (List BuildPart × List Char)
  | '+' :: rest =>
    ((Text.splitOn '.' (rest.takeWhile isPartsChar)).mapM readBuildPart?).map fun parts =>
      (parts, rest.dropWhile isPartsChar)
  | text => some ([], text)

def parse? (text : List Char) : Option Version := do
  let (major, rest) ← readNumber? text
  let (minor, rest) ← readDotNumber? rest
  let (patch, rest) ← readDotNumber? rest
  let (preRelease, rest) ← readPreRelease? rest
  let (build, rest) ← readBuild? rest
  if rest.isEmpty then some ⟨major, minor, patch, preRelease, build⟩ else none

/-! ## Lenient reading -/

def withoutMark : List Char → List Char
  | 'v' :: rest => rest
  | 'V' :: rest => rest
  | text => text

def startsSuffix (c : Char) : Bool := c == '-' || c == '+'

def padCore (parts : List (List Char)) : List Char :=
  ['.'].intercalate (parts ++ List.replicate (3 - parts.length) ['0'])

/-- Reads a version as tools report it: blanks around it and a leading `v` are dropped, and missing
numbers at the end are zero. A version in full is read as it is. -/
def parseLenient? (text : String) : Option Version :=
  let characters := withoutMark (Text.trim text).toList
  match parse? characters with
  | some version => some version
  | none =>
    let parts := Text.splitOn '.' (characters.takeWhile fun c => !startsSuffix c)
    let suffix := characters.dropWhile fun c => !startsSuffix c
    if parts.length ≤ 3 ∧ parts.all (fun part => (Text.decimal? part).isSome) then
      parse? (padCore parts ++ suffix)
    else none

end Version

end Governance
