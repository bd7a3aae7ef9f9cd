import ApiDocs.Json.Basic
import ApiDocs.Number.Layout
import ApiDocs.Text.Quoted

/-!
# Writing JSON

A value is written in one of two layouts: compact, without any gap, or indented by two spaces a
level with one item or member a line. Empty arrays and objects stay on their line in both.

## Main definitions

* `Json.compact`: the compact text.
* `Json.pretty`: the indented text.
-/

namespace ApiDocs.Json

/-- One character of a string. -/
def stringChar (c : Char) : List Char :=
  if c = '"' then ['\\', '"']
  else if c = '\\' then ['\\', '\\']
  else if c = '\x08' then ['\\', 'b']
  else if c = '\x0c' then ['\\', 'f']
  else if c = '\n' then ['\\', 'n']
  else if c = '\x0d' then ['\\', 'r']
  else if c = '\t' then ['\\', 't']
  else if c.toNat < 0x20 then ['\\', 'u'] ++ Text.hexPadded 4 c.toNat
  else [c]

/-- A string between its quotes. -/
def stringText (s : String) : List Char := '"' :: (s.toList.flatMap stringChar ++ ['"'])

/-- An integer. -/
def intText (n : Int) : List Char :=
  if n < 0 then '-' :: Number.digitsOf n.natAbs else Number.digitsOf n.natAbs

/-- A double; JSON has no text for infinities and "not a number". -/
def realText (x : Binary64) : List Char :=
  if x.isFinite then (x.text .json).toList else "null".toList

/-- The text of a value that is neither array nor object. -/
def scalarText : Json → List Char
  | .null => "null".toList
  | .bool true => "true".toList
  | .bool false => "false".toList
  | .int n => intText n
  | .real x => realText x
  | .str s => stringText s
  | .arr _ => []
  | .obj _ => []

/-- A fresh line, indented `level` steps. -/
def newline (level : Nat) : List Char := '\n' :: List.replicate (2 * level) ' '

mutual

/-- The compact text of a value. -/
def compactText : Json → List Char
  | .arr [] => ['[', ']']
  | .arr (x :: xs) => '[' :: (compactText x ++ compactItems xs)
  | .obj [] => ['\x7b', '\x7d']
  | .obj ((k, v) :: ms) => '\x7b' :: (stringText k ++ ':' :: (compactText v ++ compactMembers ms))
  | v => scalarText v

/-- The items after the first, and the closing bracket. -/
def compactItems : List Json → List Char
  | [] => [']']
  | x :: xs => ',' :: (compactText x ++ compactItems xs)

/-- The members after the first, and the closing brace. -/
def compactMembers : List (String × Json) → List Char
  | [] => ['\x7d']
  | (k, v) :: ms => ',' :: (stringText k ++ ':' :: (compactText v ++ compactMembers ms))

end

mutual

/-- The indented text of a value that stands `level` steps deep. -/
def prettyText (level : Nat) : Json → List Char
  | .arr [] => ['[', ']']
  | .arr (x :: xs) =>
    '[' :: (newline (level + 1) ++ (prettyText (level + 1) x ++ prettyItems level xs))
  | .obj [] => ['\x7b', '\x7d']
  | .obj ((k, v) :: ms) =>
    '\x7b' :: (newline (level + 1) ++
      (stringText k ++ ':' :: ' ' :: (prettyText (level + 1) v ++ prettyMembers level ms)))
  | v => scalarText v

/-- The items after the first, and the closing bracket on a line of its own. -/
def prettyItems (level : Nat) : List Json → List Char
  | [] => newline level ++ [']']
  | x :: xs => ',' :: (newline (level + 1) ++ (prettyText (level + 1) x ++ prettyItems level xs))

/-- The members after the first, and the closing brace on a line of its own. -/
def prettyMembers (level : Nat) : List (String × Json) → List Char
  | [] => newline level ++ ['\x7d']
  | (k, v) :: ms =>
    ',' :: (newline (level + 1) ++
      (stringText k ++ ':' :: ' ' :: (prettyText (level + 1) v ++ prettyMembers level ms)))

end

/-- The compact text. -/
def compact (v : Json) : String := String.ofList (compactText v)

/-- The indented text. -/
def pretty (v : Json) : String := String.ofList (prettyText 0 v)

end ApiDocs.Json
