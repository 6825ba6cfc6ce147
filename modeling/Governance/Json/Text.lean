import Governance.Json.Basic
import Governance.Number.Shortest

/-!
# JSON text

Writing values. The compact form has no blanks; the indented form puts every element and member on
its own line, two spaces per level. Strings escape the quote, the backslash and the controls below
the space, and nothing else.
-/

set_option autoImplicit false

namespace Governance.Json

def escapeChar (c : Char) : List Char :=
  if c = '"' then ['\\', '"']
  else if c = '\\' then ['\\', '\\']
  else if c.toNat = 8 then ['\\', 'b']
  else if c.toNat = 12 then ['\\', 'f']
  else if c = '\n' then ['\\', 'n']
  else if c = '\r' then ['\\', 'r']
  else if c = '\t' then ['\\', 't']
  else if c.toNat < 32 then ['\\', 'u', '0', '0'] ++ Text.byteHex (UInt8.ofNat c.toNat)
  else [c]

def quoted (text : String) : String :=
  String.ofList ('"' :: (text.toList.flatMap escapeChar ++ ['"']))

def boolText (value : Bool) : String := if value then "true" else "false"

def floatText (value : Binary64) : String := value.render Binary64.jsonLayout

/-! ## Compact form -/

mutual

def compact : Json → String
  | .null => "null"
  | .bool value => boolText value
  | .int value => toString value
  | .float value => floatText value
  | .str text => quoted text
  | .arr items => "[" ++ ",".intercalate (compactItems items) ++ "]"
  | .obj members => "\x7b" ++ ",".intercalate (compactMembers members) ++ "\x7d"
  termination_by structural value => value

def compactItems : List Json → List String
  | [] => []
  | item :: rest => compact item :: compactItems rest
  termination_by structural items => items

def compactMembers : List (String × Json) → List String
  | [] => []
  | (key, value) :: rest => (quoted key ++ ":" ++ compact value) :: compactMembers rest
  termination_by structural members => members

end

/-! ## Indented form -/

def newline (level : Nat) : String :=
  String.ofList ('\n' :: List.replicate (2 * level) ' ')

def block (level : Nat) (opening closing : String) (lines : List String) : String :=
  if lines.isEmpty then opening ++ closing
  else opening ++ newline (level + 1) ++ ("," ++ newline (level + 1)).intercalate lines
    ++ newline level ++ closing

mutual

def indentedAt (level : Nat) : Json → String
  | .arr items => block level "[" "]" (indentedItems level items)
  | .obj members => block level "\x7b" "\x7d" (indentedMembers level members)
  | .null => "null"
  | .bool value => boolText value
  | .int value => toString value
  | .float value => floatText value
  | .str text => quoted text
  termination_by structural value => value

def indentedItems (level : Nat) : List Json → List String
  | [] => []
  | item :: rest => indentedAt (level + 1) item :: indentedItems level rest
  termination_by structural items => items

def indentedMembers (level : Nat) : List (String × Json) → List String
  | [] => []
  | (key, value) :: rest =>
    (quoted key ++ ": " ++ indentedAt (level + 1) value) :: indentedMembers level rest
  termination_by structural members => members

end

def indented (value : Json) : String := indentedAt 0 value

end Governance.Json
