import ApiDocs.Text.Unprintable

/-!
# Quoted text

The display of a string literal is its text between double quotes. A double quote and a
backslash are written behind a backslash, the four common controls by their letter, and every
other character without a visible form by its code point in braces.

## Main definitions

* `Text.quoted`: the quoted display of a text.
* `Text.hex`: hexadecimal digits without leading zeros.
-/

namespace ApiDocs.Text

/-- Lower-case hexadecimal digits of `n`, without leading zeros. -/
def hex (n : Nat) : List Char := Nat.toDigits 16 n

/-- Hexadecimal digits of `n`, filled with zeros up to `width`. -/
def hexPadded (width n : Nat) : List Char :=
  let digits := hex n
  List.replicate (width - digits.length) '0' ++ digits

/-- One character of a quoted text. -/
def quotedChar (c : Char) : List Char :=
  if c = '"' then ['\\', '"']
  else if c = '\\' then ['\\', '\\']
  else if c = '\n' then ['\\', 'n']
  else if c = '\x0d' then ['\\', 'r']
  else if c = '\t' then ['\\', 't']
  else if c = '\x00' then ['\\', '0']
  else if c.toNat < 0x20 || isUnprintable c then
    ['\\', 'u', '\x7b'] ++ hex c.toNat ++ ['\x7d']
  else [c]

/-- The display of a string literal. -/
def quoted (s : String) : String :=
  String.ofList ('"' :: (s.toList.flatMap quotedChar ++ ['"']))

end ApiDocs.Text
