import Governance.FieldPath.Basic
import Governance.Text.Blank
import Governance.Text.Digits
import Governance.Text.Quoted
import Governance.Text.Split

/-!
# Path text

Keys are separated by dots, and array positions stand in brackets after them: `stages[0].role`. A
bare number between dots is read as a position too. Writing always uses brackets.
-/

set_option autoImplicit false

namespace Governance

inductive PathProblem where
  | blank
  | emptySegment
  | unbalancedClose
  | unbalancedOpen
  | notAnIndex
  | textAfterIndex
  | keyNotPlain (key : String)
  deriving DecidableEq, Repr

def PathProblem.message : PathProblem → String
  | .blank => "path is empty"
  | .emptySegment => "empty segment"
  | .unbalancedClose => "unbalanced ']'"
  | .unbalancedOpen => "unbalanced '['"
  | .notAnIndex => "index must be a non-negative integer"
  | .textAfterIndex => "unexpected characters after index"
  | .keyNotPlain key => "key " ++ Text.quote key ++ " is not a plain field name"

namespace FieldPath

/-! ## Reading -/

def position? (text : List Char) : Option UInt64 :=
  (Text.position? text).map UInt64.ofNat

/-- Reads bracketed positions that have been cut at their closing brackets. All pieces but the
last one are an opening bracket and a position; nothing follows the last closing bracket. -/
def readIndices : List (List Char) → Except PathProblem (List Segment)
  | [] => .ok []
  | [last] =>
    match last with
    | [] => .ok []
    | '[' :: _ => .error .unbalancedOpen
    | _ => .error .textAfterIndex
  | piece :: more =>
    match piece with
    | '[' :: digits =>
      match position? digits with
      | none => .error .notAnIndex
      | some position => (readIndices more).map (.index position :: ·)
    | _ => .error .textAfterIndex

def readName (name : List Char) : Except PathProblem (List Segment) :=
  if name.isEmpty then .ok []
  else if name.contains ']' then .error .unbalancedClose
  else match position? name with
    | some position => .ok [.index position]
    | none => .ok [.key (String.ofList name)]

def readPart (part : List Char) : Except PathProblem (List Segment) :=
  if part.isEmpty then .error .emptySegment
  else
    let indices := part.dropWhile (· ≠ '[')
    match readName (part.takeWhile (· ≠ '[')) with
    | .error problem => .error problem
    | .ok name =>
      if indices.isEmpty then .ok name
      else (readIndices (Text.splitOn ']' indices)).map (name ++ ·)

def readParts : List (List Char) → Except PathProblem (List Segment)
  | [] => .ok []
  | part :: more =>
    match readPart part with
    | .error problem => .error problem
    | .ok segments => (readParts more).map (segments ++ ·)

/-- Reads a path. A path of blanks only is refused, and so is the root, which has no text. -/
def parse (text : String) : Except PathProblem FieldPath :=
  if Text.isBlankText text then .error .blank
  else (readParts (Text.splitOn '.' text.toList)).map FieldPath.mk

/-! ## Writing -/

def segmentText : Segment → String
  | .key name => "." ++ name
  | .index position => "[" ++ toString position.toNat ++ "]"

def display (path : FieldPath) : String :=
  match path.segments with
  | .key name :: rest => name ++ String.join (rest.map segmentText)
  | segments => String.join (segments.map segmentText)

/-! ## Plain keys -/

/-- Whether a key can stand in path text: it is not empty, has no dot or bracket, and does not
read as an array position. -/
def isPlainKey (key : String) : Bool :=
  let characters := key.toList
  !characters.isEmpty
    && characters.all (fun c => c ≠ '.' && c ≠ '[' && c ≠ ']')
    && (position? characters).isNone

end FieldPath

end Governance
