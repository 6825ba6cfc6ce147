import Governance.Json.Shape
import Governance.Text.Digits

/-!
# Reading JSON text

A recursive descent over the characters. Objects keep their members as written, repetitions
included. A number without fraction and exponent is an integer if it fits 64 bits, with or without
sign, and is not negative zero; every other number is a float. Arrays and objects may be nested
127 deep.

Members that the shape of a document does not ask for are passed over. They have to be JSON, but
their numbers may be of any size, their escapes may name lone surrogates, and they may be nested
to any depth.

Every function takes a bound on its steps. The bound that `parse?` gives is never reached, because
three calls in a row consume at least one character.
-/

set_option autoImplicit false

namespace Governance.Json

def isSpace (c : Char) : Bool :=
  c == ' ' || c == '\n' || c == '\t' || c == '\r'

def skipSpaces (text : List Char) : List Char :=
  text.dropWhile isSpace

def readHexFour? : List Char → Option (Nat × List Char)
  | a :: b :: c :: d :: rest => do
    let a ← Text.hexValue? a
    let b ← Text.hexValue? b
    let c ← Text.hexValue? c
    let d ← Text.hexValue? d
    some (((a * 16 + b) * 16 + c) * 16 + d, rest)
  | _ => none

/-- The character of an escape by number, and the text after it. A high surrogate must be followed
by the escape of a low one, and the pair is one character; other surrogates are refused. -/
def readUnicodeEscape? (text : List Char) : Option (Char × List Char) :=
  match readHexFour? text with
  | none => none
  | some (unit, rest) =>
    if unit < 0xD800 ∨ 0xE000 ≤ unit then some (Char.ofNat unit, rest)
    else if 0xDC00 ≤ unit then none
    else match rest with
      | '\\' :: 'u' :: rest =>
        match readHexFour? rest with
        | some (low, rest) =>
          if 0xDC00 ≤ low ∧ low < 0xE000 then
            some (Char.ofNat (0x10000 + (unit - 0xD800) * 0x400 + (low - 0xDC00)), rest)
          else none
        | none => none
      | _ => none

def readEscape? : List Char → Option (Char × List Char)
  | '"' :: rest => some ('"', rest)
  | '\\' :: rest => some ('\\', rest)
  | '/' :: rest => some ('/', rest)
  | 'b' :: rest => some (Char.ofNat 8, rest)
  | 'f' :: rest => some (Char.ofNat 12, rest)
  | 'n' :: rest => some ('\n', rest)
  | 'r' :: rest => some ('\r', rest)
  | 't' :: rest => some ('\t', rest)
  | 'u' :: rest => readUnicodeEscape? rest
  | _ => none

def readString? : Nat → List Char → Option (List Char × List Char)
  | 0, _ => none
  | steps + 1, text =>
    match text with
    | [] => none
    | '"' :: rest => some ([], rest)
    | '\\' :: rest =>
      match readEscape? rest with
      | none => none
      | some (c, rest) => (readString? steps rest).map fun (body, rest) => (c :: body, rest)
    | c :: rest =>
      if c.toNat < 32 then none
      else (readString? steps rest).map fun (body, rest) => (c :: body, rest)

/-- The text after a string that is passed over, behind its closing quote. Escapes by number need
four hexadecimal digits and may name any unit. -/
def skipString? : Nat → List Char → Option (List Char)
  | 0, _ => none
  | steps + 1, text =>
    match text with
    | [] => none
    | '"' :: rest => some rest
    | '\\' :: 'u' :: rest => (readHexFour? rest).bind fun (_, rest) => skipString? steps rest
    | '\\' :: rest => (readEscape? rest).bind fun (_, rest) => skipString? steps rest
    | c :: rest => if c.toNat < 32 then none else skipString? steps rest

/-! ## Numbers -/

structure Numeral where
  whole : List Char
  fraction : List Char := []
  exponent : Option Int := none

def readFraction? : List Char → Option (List Char × List Char)
  | '.' :: rest =>
    let digits := rest.takeWhile Text.isDigit
    if digits.isEmpty then none else some (digits, rest.drop digits.length)
  | text => some ([], text)

def readPower? (text : List Char) : Option (Option Int × List Char) :=
  let (down, text) := match text with
    | '+' :: rest => (false, rest)
    | '-' :: rest => (true, rest)
    | text => (false, text)
  let digits := text.takeWhile Text.isDigit
  (Text.decimal? digits).map fun value =>
    (some (if down then -(value : Int) else value), text.drop digits.length)

def readExponent? : List Char → Option (Option Int × List Char)
  | 'e' :: rest => readPower? rest
  | 'E' :: rest => readPower? rest
  | text => some (none, text)

def readNumeral? (text : List Char) : Option (Numeral × List Char) := do
  let whole := text.takeWhile Text.isDigit
  if whole.isEmpty ∨ (whole.head? = some '0' ∧ 1 < whole.length) then none
  let (fraction, rest) ← readFraction? (text.drop whole.length)
  let (exponent, rest) ← readExponent? rest
  some (⟨whole, fraction, exponent⟩, rest)

namespace Numeral

def float? (negative : Bool) (numeral : Numeral) : Option Json :=
  (Binary64.ofDecimal? negative (numeral.whole ++ numeral.fraction)
    (numeral.exponent.getD 0 - numeral.fraction.length)).map .float

/-- The value of a number: an integer if it is written as one and is in range, or else a float.
Negative zero is a float, because no integer has a signed zero. -/
def value? (negative : Bool) (numeral : Numeral) : Option Json :=
  if numeral.fraction.isEmpty && numeral.exponent.isNone then
    let magnitude := Text.ofDigits numeral.whole
    let value : Int := if negative then -(magnitude : Int) else magnitude
    if intMin ≤ value ∧ value ≤ intMax ∧ ¬ (negative ∧ magnitude = 0) then some (.int value)
    else numeral.float? negative
  else numeral.float? negative

end Numeral

def readNumber? (negative : Bool) (text : List Char) : Option (Json × List Char) := do
  let (numeral, rest) ← readNumeral? text
  let value ← numeral.value? negative
  some (value, rest)

/-! ## Values -/

def readWord? (word : String) (text : List Char) : Option (List Char) :=
  if word.toList.isPrefixOf text then some (text.drop word.length) else none

/-! ### Values that are passed over -/

mutual

def skipValue? : Nat → List Char → Option (List Char)
  | 0, _ => none
  | steps + 1, text =>
    match skipSpaces text with
    | [] => none
    | '"' :: rest => skipString? steps rest
    | '[' :: rest =>
      match skipSpaces rest with
      | ']' :: rest => some rest
      | rest => skipItems? steps rest
    | '{' :: rest =>
      match skipSpaces rest with
      | '}' :: rest => some rest
      | rest => skipMembers? steps rest
    | '-' :: rest => (readNumeral? rest).map Prod.snd
    | 'n' :: rest => readWord? "ull" rest
    | 't' :: rest => readWord? "rue" rest
    | 'f' :: rest => readWord? "alse" rest
    | text => (readNumeral? text).map Prod.snd

def skipItems? : Nat → List Char → Option (List Char)
  | 0, _ => none
  | steps + 1, text =>
    match skipValue? steps text with
    | none => none
    | some rest =>
      match skipSpaces rest with
      | ',' :: rest => skipItems? steps rest
      | ']' :: rest => some rest
      | _ => none

def skipMembers? : Nat → List Char → Option (List Char)
  | 0, _ => none
  | steps + 1, text =>
    match skipSpaces text with
    | '"' :: rest =>
      match (skipString? steps rest).map skipSpaces with
      | some (':' :: rest) =>
        match (skipValue? steps rest).map skipSpaces with
        | some (',' :: rest) => skipMembers? steps rest
        | some ('}' :: rest) => some rest
        | _ => none
      | _ => none
    | _ => none

end

/-! ### Values that are read -/

mutual

def readValue? : Nat → Nat → Shape → List Char → Option (Json × List Char)
  | 0, _, _, _ => none
  | steps + 1, depth, shape, text =>
    match skipSpaces text with
    | [] => none
    | '"' :: rest =>
      (readString? steps rest).map fun (body, rest) => (.str (String.ofList body), rest)
    | '[' :: rest =>
      match depth with
      | 0 => none
      | depth + 1 =>
        match skipSpaces rest with
        | ']' :: rest => some (.arr [], rest)
        | rest =>
          (readItems? steps depth shape 0 rest).map fun (items, rest) => (.arr items, rest)
    | '{' :: rest =>
      match depth with
      | 0 => none
      | depth + 1 =>
        match skipSpaces rest with
        | '}' :: rest => some (.obj [], rest)
        | rest =>
          (readMembers? steps depth shape rest).map fun (members, rest) => (.obj members, rest)
    | '-' :: rest => readNumber? true rest
    | 'n' :: rest => (readWord? "ull" rest).map fun rest => (.null, rest)
    | 't' :: rest => (readWord? "rue" rest).map fun rest => (.bool true, rest)
    | 'f' :: rest => (readWord? "alse" rest).map fun rest => (.bool false, rest)
    | text => readNumber? false text

def readItems? : Nat → Nat → Shape → Nat → List Char → Option (List Json × List Char)
  | 0, _, _, _, _ => none
  | steps + 1, depth, shape, place, text =>
    match readValue? steps depth (shape.item place) text with
    | none => none
    | some (item, rest) =>
      match skipSpaces rest with
      | ',' :: rest =>
        (readItems? steps depth shape (place + 1) rest).map fun (items, rest) =>
          (item :: items, rest)
      | ']' :: rest => some ([item], rest)
      | _ => none

/-- The members of an object up to its closing brace, at least one, and the text after it. Members
that nothing asks for are left out. -/
def readMembers? : Nat → Nat → Shape → List Char → Option (List (String × Json) × List Char)
  | 0, _, _, _ => none
  | steps + 1, depth, shape, text =>
    match skipSpaces text with
    | '"' :: rest =>
      match readString? steps rest with
      | none => none
      | some (key, rest) =>
        match skipSpaces rest with
        | ':' :: rest =>
          match readMember? steps depth shape (String.ofList key) rest with
          | none => none
          | some (member, rest) =>
            match skipSpaces rest with
            | ',' :: rest =>
              (readMembers? steps depth shape rest).map fun (members, rest) =>
                (member ++ members, rest)
            | '}' :: rest => some (member, rest)
            | _ => none
        | _ => none
    | _ => none

def readMember? : Nat → Nat → Shape → String → List Char →
    Option (List (String × Json) × List Char)
  | 0, _, _, _, _ => none
  | steps + 1, depth, shape, name, text =>
    match shape.member? name with
    | some shape =>
      (readValue? steps depth shape text).map fun (value, rest) => ([(name, value)], rest)
    | none => (skipValue? steps text).map fun rest => ([], rest)

end

def nestingMax : Nat := 127

def parse? (shape : Shape) (text : String) : Option Json :=
  let characters := text.toList
  match readValue? (3 * characters.length + 3) nestingMax shape characters with
  | some (value, rest) => if (skipSpaces rest).isEmpty then some value else none
  | none => none

def parseValue? (text : String) : Option Json :=
  (parse? .any text).map normalized

end Governance.Json
