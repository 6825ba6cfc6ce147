import Governance.Text.Digits
import Governance.Yaml.Cursor

/-!
# Scalars

The texts of plain, quoted and block scalars. Line ends within plain and quoted scalars are folded:
the blanks around them are dropped, one of them is a space, and of several the first one is
dropped. Block scalars keep their lines, or fold those that are not indented.
-/

set_option autoImplicit false

namespace Governance.Yaml

/-! ## Gaps -/

structure Gap where
  blanks : List Char := []
  ends : List Char := []

namespace Gap

/-- Line ends after folding. Only a line feed is folded. -/
def foldEnds : List Char → List Char
  | ['\n'] => [' ']
  | '\n' :: more => more
  | ends => ends

def text (gap : Gap) : List Char :=
  if gap.ends.isEmpty then gap.blanks else foldEnds gap.ends

/-- Reads blanks and line ends. On a line that was begun in the gap, a tab may not stand in front of
the least column. -/
def read? (least : Nat) : Nat → Nat → Bool → List Char → Option (Gap × Cursor)
  | line, column, _, [] => some ({}, ⟨line, column, []⟩)
  | line, column, begun, c :: rest =>
    if isLineEnd c then
      (read? least (line + 1) 0 true rest).map fun (gap, cursor) =>
        ({ gap with ends := c :: gap.ends }, cursor)
    else if !isSpace c then some ({}, ⟨line, column, c :: rest⟩)
    else if !begun then
      (read? least line (column + 1) false rest).map fun (gap, cursor) =>
        ({ gap with blanks := c :: gap.blanks }, cursor)
    else if c = '\t' ∧ column < least then none
    else read? least line (column + 1) true rest

end Gap

def Cursor.gap? (least : Nat) (begun : Bool) (cursor : Cursor) : Option (Gap × Cursor) :=
  Gap.read? least cursor.line cursor.column begun cursor.rest

/-! ## Plain scalars -/

def isFlowMark (c : Char) : Bool := ",[]\x7b\x7d".toList.contains c

/-- A word of a plain scalar, and the cursor behind it. A colon ends the word if a gap follows; in
flow style it is refused in front of a mark of that style. -/
def readWord? (inFlow : Bool) : Nat → Nat → List Char → Option (List Char × Cursor)
  | line, column, [] => some ([], ⟨line, column, []⟩)
  | line, column, c :: rest =>
    if atGap (c :: rest) then some ([], ⟨line, column, c :: rest⟩)
    else if inFlow && c == ':' && rest.head?.any (fun mark => isFlowMark mark || mark == '?') then
      none
    else if (c == ':' && atGap rest) || (inFlow && isFlowMark c) then
      some ([], ⟨line, column, c :: rest⟩)
    else
      (readWord? inFlow line (column + 1) rest).map fun (word, cursor) => (c :: word, cursor)

abbrev PlainEnd := List Char × Bool × Cursor

/-- Reads the words of a plain scalar, up to a comment, a line between documents, or in block style
a line that is not indented to the least column. `held` is what stands before the next word. -/
def readPlain? (inFlow : Bool) (least : Nat) : Nat → List Char → Bool → Cursor → Option PlainEnd
  | 0, _, _, _ => none
  | steps + 1, held, begun, cursor =>
    if cursor.isAtMarker || cursor.isAt '#' then some ([], begun, cursor)
    else do
      let (word, cursor) ← readWord? inFlow cursor.line cursor.column cursor.rest
      if word.isEmpty then some ([], begun, cursor)
      else if cursor.rest.isEmpty || !atGap cursor.rest then some (held ++ word, false, cursor)
      else
        let (gap, cursor) ← cursor.gap? least false
        let begun := !gap.ends.isEmpty
        if !inFlow && cursor.column < least then some (held ++ word, begun, cursor)
        else
          let (more, begun, cursor) ← readPlain? inFlow least steps gap.text begun cursor
          some (held ++ word ++ more, begun, cursor)

/-! ## Quoted scalars -/

def inBase? (base : Nat) (digits : List Char) : Option Nat :=
  if digits.isEmpty then none
  else digits.foldlM (fun value c => do
    let digit ← Text.hexValue? c
    if digit < base then some (base * value + digit) else none) 0

def escapeWidth? (c : Char) : Option Nat :=
  match c with
  | 'x' => some 2
  | 'u' => some 4
  | 'U' => some 8
  | _ => none

def escaped? (c : Char) : Option Char :=
  match c with
  | '0' => some (Char.ofNat 0)
  | 'a' => some (Char.ofNat 7)
  | 'b' => some (Char.ofNat 8)
  | 't' => some '\t'
  | '\t' => some '\t'
  | 'n' => some '\n'
  | 'v' => some (Char.ofNat 11)
  | 'f' => some (Char.ofNat 12)
  | 'r' => some '\r'
  | 'e' => some (Char.ofNat 27)
  | ' ' => some ' '
  | '"' => some '"'
  | '/' => some '/'
  | '\\' => some '\\'
  | 'N' => some (Char.ofNat 0x85)
  | '_' => some (Char.ofNat 0xA0)
  | 'L' => some (Char.ofNat 0x2028)
  | 'P' => some (Char.ofNat 0x2029)
  | _ => none

def codePoint? (digits : List Char) : Option Char := do
  let value ← inBase? 16 digits
  if value.isValidChar then some (Char.ofNat value) else none

def readEscape? : List Char → Option (Char × Nat)
  | [] => none
  | mark :: rest =>
    match escapeWidth? mark with
    | none => (escaped? mark).map fun c => (c, 1)
    | some width =>
      if rest.length < width then none
      else (codePoint? (rest.take width)).map fun c => (c, width + 1)

/-- A word of a single-quoted scalar, and the cursor at the quote or the gap behind it. Two quotes
stand for one. -/
def readSingleWord : Nat → Nat → List Char → List Char × Cursor
  | line, column, '\'' :: '\'' :: rest =>
    let (word, cursor) := readSingleWord line (column + 2) rest
    ('\'' :: word, cursor)
  | line, column, c :: rest =>
    if c = '\'' ∨ atGap (c :: rest) then ([], ⟨line, column, c :: rest⟩)
    else
      let (word, cursor) := readSingleWord line (column + 1) rest
      (c :: word, cursor)
  | line, column, [] => ([], ⟨line, column, []⟩)

def readDoubleWord? : Nat → Cursor → Option (List Char × Bool × Cursor)
  | 0, _ => none
  | steps + 1, cursor =>
    match cursor.rest with
    | [] => some ([], false, cursor)
    | c :: rest =>
      if c = '"' ∨ atGap (c :: rest) then some ([], false, cursor)
      else if c ≠ '\\' then
        (readDoubleWord? steps (cursor.advance 1)).map fun (word, broken, cursor) =>
          (c :: word, broken, cursor)
      else if !rest.isEmpty && atLineEnd rest then some ([], true, (cursor.advance 1).next)
      else do
        let (c, width) ← readEscape? rest
        let (word, broken, cursor) ← readDoubleWord? steps (cursor.advance (width + 1))
        some (c :: word, broken, cursor)

/-- The text of a quoted scalar up to its closing quote, and the cursor behind it. No line between
documents may stand in it. Line ends behind an escaped one are kept. -/
def readQuoted? (double : Bool) : Nat → Cursor → Option (List Char × Cursor)
  | 0, _ => none
  | steps + 1, cursor =>
    if cursor.isAtMarker || cursor.rest.isEmpty then none
    else do
      let (word, broken, cursor) ←
        if double then readDoubleWord? steps cursor
        else
          let (word, cursor) := readSingleWord cursor.line cursor.column cursor.rest
          some (word, false, cursor)
      if cursor.isAt (if double then '"' else '\'') then some (word, cursor.advance 1)
      else
        let (gap, cursor) ← cursor.gap? 0 broken
        let (more, cursor) ← readQuoted? double steps cursor
        some (word ++ (if broken then gap.ends else gap.text) ++ more, cursor)

/-! ## Block scalars -/

inductive Chomping where
  | strip
  | clip
  | keep

def chomping? : List Char → Option Chomping
  | '-' :: _ => some .strip
  | '+' :: _ => some .keep
  | _ => none

/-- What the first line of a block scalar says behind its mark: how the end is chomped, and how far
the lines are indented if that is given. A comment may follow. -/
def readHeader? (cursor : Cursor) : Option (Chomping × Option Nat × Cursor) := do
  let digit? (cursor : Cursor) : Option Nat := (cursor.rest.head?.filter Text.isDigit).map
    Text.digitValue
  let before := chomping? cursor.rest
  let cursor := if before.isSome then cursor.advance 1 else cursor
  let increment := digit? cursor
  if increment = some 0 then none
  let cursor := if increment.isSome then cursor.advance 1 else cursor
  let behind := if before.isNone && increment.isSome then chomping? cursor.rest else none
  let cursor := if behind.isSome then cursor.advance 1 else cursor
  let cursor := cursor.skipWhile isSpace
  let cursor := if cursor.isAt '#' then cursor.skipLine else cursor
  if atLineEnd cursor.rest then some (((before <|> behind).getD .clip), increment, cursor.next)
  else none

/-- Reads the indentation of lines and the lines without characters in front of the next line.
Without a known indentation it is as deep as the deepest of these lines, and at least the given
one. Gives the line ends, the indentation, and the cursor. -/
def readIndentation? (known : Option Nat) (least : Nat) :
    Nat → Nat → Cursor → Option (List Char × Nat × Cursor)
  | 0, _, _ => none
  | steps + 1, deepest, cursor =>
    let blanks := (cursor.rest.takeWhile (· == ' ')).length
    let cursor := cursor.advance (match known with
      | none => blanks
      | some indent => min blanks (indent - cursor.column))
    let deepest := max deepest cursor.column
    if cursor.isAt '\t' && (known.all fun indent => cursor.column < indent) then none
    else match cursor.rest with
      | c :: _ =>
        if isLineEnd c then
          (readIndentation? known least steps deepest cursor.next).map
            fun (ends, indent, cursor) => (c :: ends, indent, cursor)
        else some ([], known.getD (max deepest least), cursor)
      | [] => some ([], known.getD (max deepest least), cursor)

/-- Reads the lines of a block scalar. `held` is the line end before the next line, `ends` are the
lines without characters behind it, and `blank` tells whether the line before began with a blank.
Gives the text, and the line ends behind it. -/
def readLines? (literal : Bool) (indent : Nat) :
    Nat → List Char → List Char → Bool → Cursor →
      Option (List Char × List Char × List Char × Cursor)
  | 0, _, _, _, _ => none
  | steps + 1, held, ends, blank, cursor =>
    if cursor.column ≠ indent ∨ cursor.rest.isEmpty then some ([], held, ends, cursor)
    else do
      let begins := cursor.rest.head?.any isSpace
      let joint :=
        if !literal && held == ['\n'] && !blank && !begins then
          if ends.isEmpty then [' '] else []
        else held
      let line := cursor.rest.takeWhile fun c => !isLineEnd c
      let cursor := cursor.skipLine
      let (ends', _, next) ← readIndentation? (some indent) 0 steps 0 cursor.next
      let (more, held', ends', cursor) ←
        readLines? literal indent steps (cursor.rest.take 1) ends' begins next
      some (joint ++ ends ++ line ++ more, held', ends', cursor)

/-- The text of a block scalar behind its mark, and the cursor behind it. `indent` is the column of
the node around it, if there is one. -/
def readBlockScalar? (literal : Bool) (indent : Option Nat) (bound : Nat) (cursor : Cursor) :
    Option (List Char × Cursor) := do
  let (chomping, increment, cursor) ← readHeader? cursor
  let known := increment.map fun increment => indent.getD 0 + increment
  let least := (indent.map (· + 1)).getD 1
  let (ends, indent, cursor) ← readIndentation? known least bound 0 cursor
  let (text, held, ends, cursor) ←
    readLines? literal indent bound [] ends false cursor
  some (text ++ (match chomping with
    | .strip => []
    | .clip => held
    | .keep => held ++ ends), cursor)

end Governance.Yaml
