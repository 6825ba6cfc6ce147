/-!
# Places in a text

A YAML text is read from its first character to its last. A cursor is what is left of the text
together with the line and the column of its first character, because indentation decides where
nodes end.
-/

set_option autoImplicit false

namespace Governance.Yaml

/-! ## Characters -/

def byteOrderMark : Char := Char.ofNat 0xFEFF

/-- Whether a character may stand in a text. Of the controls only tabs and line ends may. -/
def isAllowed (c : Char) : Bool :=
  let value := c.toNat
  value == 0x09 || value == 0x0A || value == 0x0D || (0x20 ≤ value && value ≤ 0x7E)
    || value == 0x85 || (0xA0 ≤ value && value ≤ 0xFFFD) || 0x10000 ≤ value

def isSpace (c : Char) : Bool := c == ' ' || c == '\t'

/-- Whether a character ends a line. The line separator and the paragraph separator end lines, and
stay what they are when lines are folded. -/
def isLineEnd (c : Char) : Bool := c == '\n' || c.toNat == 0x2028 || c.toNat == 0x2029

def unifyLines : List Char → List Char
  | '\r' :: '\n' :: rest => '\n' :: unifyLines rest
  | '\r' :: rest => '\n' :: unifyLines rest
  | c :: rest => (if c.toNat = 0x85 then '\n' else c) :: unifyLines rest
  | [] => []

def atGap : List Char → Bool
  | [] => true
  | c :: _ => isSpace c || isLineEnd c

def atLineEnd : List Char → Bool
  | [] => true
  | c :: _ => isLineEnd c

/-! ## Cursors -/

structure Cursor where
  line : Nat
  column : Nat
  rest : List Char

namespace Cursor

def ofList (text : List Char) : Cursor := ⟨0, 0, text⟩

def advance (cursor : Cursor) (count : Nat) : Cursor :=
  ⟨cursor.line, cursor.column + count, cursor.rest.drop count⟩

def next (cursor : Cursor) : Cursor :=
  match cursor.rest with
  | [] => cursor
  | c :: rest =>
    if isLineEnd c then ⟨cursor.line + 1, 0, rest⟩ else ⟨cursor.line, cursor.column + 1, rest⟩

def skipWhile (condition : Char → Bool) (cursor : Cursor) : Cursor :=
  cursor.advance (cursor.rest.takeWhile fun c => condition c && !isLineEnd c).length

def skipLine (cursor : Cursor) : Cursor := cursor.skipWhile fun _ => true

def isAt (mark : Char) (cursor : Cursor) : Bool := cursor.rest.head? == some mark

def isAtLine (mark : String) (cursor : Cursor) : Bool :=
  cursor.column == 0 && mark.toList.isPrefixOf cursor.rest && atGap (cursor.rest.drop 3)

def isAtMarker (cursor : Cursor) : Bool := cursor.isAtLine "---" || cursor.isAtLine "..."

end Cursor

end Governance.Yaml
