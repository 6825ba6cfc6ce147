import Governance.Yaml.Scalar

/-!
# Tokens

A YAML text as a list of tokens. In block style the ends of nodes follow from indentation, and that
a scalar is a key shows only at the colon behind it: until then it is a candidate, and the tokens
that start a key are put in front of it later. A candidate ends with its line and after 1024
characters. Tags and directives are refused.
-/

set_option autoImplicit false

namespace Governance.Yaml

/-- The parts of a text. A list or a map in flow style is written in brackets; one in block style is
indented, and ends with `blockEnd`. -/
inductive Token where
  | documentStart
  | documentEnd
  | blockList
  | blockMap
  | blockEnd
  | flowList
  | flowListEnd
  | flowMap
  | flowMapEnd
  | item
  | comma
  | key
  | value
  | anchor (name : String)
  | alias (name : String)
  | plain (text : String)
  | quoted (text : String)
  deriving DecidableEq, Repr

/-- A token that is a key if a colon follows: where it stands, and how many tokens come before it.
A token at the indentation of a map has to be a key. -/
structure Candidate where
  line : Nat
  column : Nat
  place : Nat
  required : Bool

def keyLengthMax : Nat := 1024

def Candidate.isOver (cursor : Cursor) (candidate : Candidate) : Bool :=
  candidate.line < cursor.line || candidate.column + keyLengthMax < cursor.column

def Candidate.dropped? : Option Candidate → Option (Option Candidate)
  | none => some none
  | some candidate => if candidate.required then none else some none

def Candidate.kept? (cursor : Cursor) (candidate : Option Candidate) :
    Option (Option Candidate) :=
  if candidate.any (isOver cursor) then dropped? candidate else some candidate

/-- A text that is partly read. The tokens are listed from the last to the first. `indent` is the
column of the innermost block node, negative outside of all of them, and `outer` those around it;
`candidate` is the one at the present level of flow style, and `levels` those around it. No scalar
takes more than `bound` steps to read. -/
structure Tokenizer where
  bound : Nat
  cursor : Cursor
  tokens : List Token := []
  count : Nat := 0
  indent : Int := -1
  outer : List Int := []
  keyAllowed : Bool := true
  candidate : Option Candidate := none
  levels : List (Option Candidate) := []

namespace Tokenizer

def inFlow (state : Tokenizer) : Bool := !state.levels.isEmpty

def put (token : Token) (state : Tokenizer) : Tokenizer :=
  { state with tokens := token :: state.tokens, count := state.count + 1 }

def putAt (place : Nat) (token : Token) (state : Tokenizer) : Tokenizer :=
  { state with
    tokens := state.tokens.insertIdx (state.count - place) token
    count := state.count + 1 }

def take (token : Token) (width : Nat) (state : Tokenizer) : Tokenizer :=
  { state.put token with cursor := state.cursor.advance width }

def allowKey (allowed : Bool) (state : Tokenizer) : Tokenizer :=
  { state with keyAllowed := allowed }

/-! ## Keys -/

def drop? (state : Tokenizer) : Option Tokenizer :=
  (Candidate.dropped? state.candidate).map fun candidate => { state with candidate }

def refresh? (state : Tokenizer) : Option Tokenizer := do
  let candidate ← Candidate.kept? state.cursor state.candidate
  let levels ← state.levels.mapM (Candidate.kept? state.cursor)
  some { state with candidate, levels }

def offer? (state : Tokenizer) : Option Tokenizer :=
  if !state.keyAllowed then some state
  else state.drop?.map fun state =>
    { state with
      candidate := some
        { line := state.cursor.line
          column := state.cursor.column
          place := state.count
          required := !state.inFlow && state.indent == state.cursor.column } }

/-! ## Indentation -/

/-- Starts a block node at a column, unless one stands there already. The token that starts it is
put behind the first `place` ones. -/
def enter (column place : Nat) (token : Token) (state : Tokenizer) : Tokenizer :=
  if state.inFlow || column ≤ state.indent then state
  else
    { state.putAt place token with
      indent := column
      outer := state.indent :: state.outer }

def leaving (column : Int) : Int → List Int → Nat × Int × List Int
  | indent, [] => (0, indent, [])
  | indent, next :: outer =>
    if column < indent then
      let (count, indent, outer) := leaving column next outer
      (count + 1, indent, outer)
    else (0, indent, next :: outer)

def leave (column : Int) (state : Tokenizer) : Tokenizer :=
  if state.inFlow then state
  else
    let (closed, indent, outer) := leaving column state.indent state.outer
    { state with
      tokens := List.replicate closed .blockEnd ++ state.tokens
      count := state.count + closed
      indent
      outer }

/-- Moves to the next token, over blanks, comments and line ends. Tabs do not count as blanks where
a key may start in block style; a key may start on every new line there. -/
def approach : Nat → Tokenizer → Tokenizer
  | 0, state => state
  | steps + 1, state =>
    let cursor := state.cursor
    let cursor := if cursor.column == 0 && cursor.isAt byteOrderMark then cursor.next else cursor
    let cursor := cursor.skipWhile fun c =>
      c == ' ' || (c == '\t' && (state.inFlow || !state.keyAllowed))
    let cursor := if cursor.isAt '#' then cursor.skipLine else cursor
    if !cursor.rest.isEmpty && atLineEnd cursor.rest then
      approach steps
        { state with cursor := cursor.next, keyAllowed := state.keyAllowed || !state.inFlow }
    else { state with cursor }

/-! ## Tokens -/

def marker? (token : Token) (state : Tokenizer) : Option Tokenizer :=
  ((state.leave (-1)).drop?).map fun state => (state.take token 3).allowKey false

def openFlow? (token : Token) (state : Tokenizer) : Option Tokenizer :=
  state.offer?.map fun state =>
    { state.take token 1 with
      keyAllowed := true
      candidate := none
      levels := state.candidate :: state.levels }

def closeFlow? (token : Token) (state : Tokenizer) : Option Tokenizer :=
  state.drop?.map fun state =>
    let state := (state.take token 1).allowKey false
    match state.levels with
    | [] => state
    | candidate :: levels => { state with candidate, levels }

def comma? (state : Tokenizer) : Option Tokenizer :=
  state.drop?.map fun state => (state.take .comma 1).allowKey true

def item? (state : Tokenizer) : Option Tokenizer :=
  if !state.inFlow && !state.keyAllowed then none
  else ((state.enter state.cursor.column state.count .blockList).drop?).map fun state =>
    (state.take .item 1).allowKey true

def key? (state : Tokenizer) : Option Tokenizer :=
  if !state.inFlow && !state.keyAllowed then none
  else ((state.enter state.cursor.column state.count .blockMap).drop?).map fun state =>
    (state.take .key 1).allowKey !state.inFlow

/-- The colon in front of a value. What stands before it is a key if it was a candidate. -/
def value? (state : Tokenizer) : Option Tokenizer :=
  match state.candidate with
  | some candidate =>
    let state := state.putAt candidate.place .key
    let state := state.enter candidate.column candidate.place .blockMap
    let state := state.take .value 1
    some { state with candidate := none, keyAllowed := false }
  | none =>
    if !state.inFlow && !state.keyAllowed then none
    else
      let state := state.enter state.cursor.column state.count .blockMap
      some ((state.take .value 1).allowKey !state.inFlow)

def isNameChar (c : Char) : Bool :=
  Text.isDigit c || ('a' ≤ c && c ≤ 'z') || ('A' ≤ c && c ≤ 'Z') || c == '_' || c == '-'

def name? (make : String → Token) (state : Tokenizer) : Option Tokenizer := do
  let state ← state.offer?
  let rest := state.cursor.rest.drop 1
  let name := rest.takeWhile isNameChar
  let behind := rest.drop name.length
  if !name.isEmpty && (atGap behind || behind.head?.any "?:,]\x7d%@`".toList.contains) then
    some ((state.take (make (String.ofList name)) (name.length + 1)).allowKey false)
  else none

def blockScalar? (literal : Bool) (state : Tokenizer) : Option Tokenizer := do
  let state ← state.drop?
  let indent := if state.indent < 0 then none else some state.indent.toNat
  let (text, cursor) ← readBlockScalar? literal indent state.bound (state.cursor.advance 1)
  some { state.put (.quoted (String.ofList text)) with cursor, keyAllowed := true }

def quoted? (double : Bool) (state : Tokenizer) : Option Tokenizer := do
  let state ← state.offer?
  let (text, cursor) ← readQuoted? double state.bound (state.cursor.advance 1)
  some { state.put (.quoted (String.ofList text)) with cursor, keyAllowed := false }

/-- A plain scalar, which may be a key. If it ends on a new line, a key may start there. -/
def plain? (state : Tokenizer) : Option Tokenizer := do
  let state ← state.offer?
  let (text, begun, cursor) ←
    readPlain? state.inFlow (state.indent + 1).toNat state.bound [] false state.cursor
  some { state.put (.plain (String.ofList text)) with cursor, keyAllowed := begun }

/-- The characters that a plain scalar does not start with, unless they are followed by another one
of it. -/
def indicators : List Char := "-?:,[]\x7b\x7d#&*!|>'\"%@`".toList

def startsPlain (inFlow : Bool) (c : Char) (rest : List Char) : Bool :=
  !(atGap (c :: rest) || indicators.contains c)
    || (c == '-' && !atGap rest)
    || (!inFlow && (c == '?' || c == ':') && !atGap rest)

def token? (state : Tokenizer) (c : Char) (rest : List Char) : Option Tokenizer :=
  let stands := atGap rest
  if state.cursor.isAtLine "---" then state.marker? .documentStart
  else if state.cursor.isAtLine "..." then state.marker? .documentEnd
  else match c with
    | '[' => state.openFlow? .flowList
    | '{' => state.openFlow? .flowMap
    | ']' => state.closeFlow? .flowListEnd
    | '}' => state.closeFlow? .flowMapEnd
    | ',' => state.comma?
    | '*' => state.name? .alias
    | '&' => state.name? .anchor
    | '\'' => state.quoted? false
    | '"' => state.quoted? true
    | _ =>
      if c == '-' && stands then state.item?
      else if c == '?' && (state.inFlow || stands) then state.key?
      else if c == ':' && (state.inFlow || stands) then state.value?
      else if c == '|' && !state.inFlow then state.blockScalar? true
      else if c == '>' && !state.inFlow then state.blockScalar? false
      else if startsPlain state.inFlow c rest then state.plain?
      else none

def run? : Nat → Tokenizer → Option Tokenizer
  | 0, _ => none
  | steps + 1, state => do
    let state := approach state.bound state
    let state ← state.refresh?
    let state := state.leave state.cursor.column
    match state.cursor.rest with
    | [] => (state.leave (-1)).drop?
    | c :: rest => (state.token? c rest).bind (run? steps)

end Tokenizer

def Token.ofText? (text : String) : Option (List Token) :=
  let characters := match text.toList with
    | c :: rest => if c = byteOrderMark then rest else c :: rest
    | [] => []
  if characters.all isAllowed then
    let bound := characters.length + 3
    let cursor := Cursor.ofList (unifyLines characters)
    (Tokenizer.run? bound { bound, cursor }).map fun state => state.tokens.reverse
  else none

end Governance.Yaml
