/-!
# Blank characters

The characters with the Unicode property `White_Space`, and trimming by them. Core's
`Char.isWhitespace` knows ASCII only.
-/

set_option autoImplicit false

namespace Governance.Text

/-- Whether a character has the Unicode property `White_Space`. The zero-width space, the byte
order mark and the Mongolian vowel separator do not have it. -/
def isBlank (c : Char) : Bool :=
  (0x9 ≤ c.toNat && c.toNat ≤ 0xD) || c.toNat == 0x20 || c.toNat == 0x85 || c.toNat == 0xA0
    || c.toNat == 0x1680 || (0x2000 ≤ c.toNat && c.toNat ≤ 0x200A) || c.toNat == 0x2028
    || c.toNat == 0x2029 || c.toNat == 0x202F || c.toNat == 0x205F || c.toNat == 0x3000

def trimStart (text : List Char) : List Char :=
  text.dropWhile isBlank

def trimEnd (text : List Char) : List Char :=
  (trimStart text.reverse).reverse

def trim (text : String) : String :=
  String.ofList (trimEnd (trimStart text.toList))

def isBlankText (text : String) : Bool :=
  text.toList.all isBlank

end Governance.Text
