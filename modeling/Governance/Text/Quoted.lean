import Governance.Text.Digits
import Governance.Text.Printable

/-!
# Quoted text

How a message quotes a text that came from outside: between double quotes, with a backslash in
front of quotes and backslashes, short forms for the four common controls, and the number of every
other character that would not show.
-/

set_option autoImplicit false

namespace Governance.Text

def quoteChar (c : Char) : List Char :=
  if c = '"' then ['\\', '"']
  else if c = '\\' then ['\\', '\\']
  else if c = '\n' then ['\\', 'n']
  else if c = '\r' then ['\\', 'r']
  else if c = '\t' then ['\\', 't']
  else if c.toNat = 0 then ['\\', '0']
  else if isPrintable c then [c]
  else ("\\u\x7b" ++ natHex c.toNat ++ "\x7d").toList

def quote (text : String) : String :=
  String.ofList ('"' :: (text.toList.flatMap quoteChar ++ ['"']))

def quoteOption : Option String → String
  | none => "None"
  | some text => "Some(" ++ quote text ++ ")"

end Governance.Text
