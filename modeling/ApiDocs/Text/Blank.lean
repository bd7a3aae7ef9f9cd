/-!
# Blank characters and trimming

A character is *blank* when Unicode gives it the property `White_Space`. Every place of this
library that trims text or splits it at blanks uses this one class, so that a no-break space
around a flag name, a documentation line or a summary is treated alike.

Texts are cut as lists of characters: the cuts are then the list operations of the standard
library, and each has its lemmas there.

## Main definitions

* `Text.isBlank`: the property `White_Space`.
* `Text.trim`, `Text.trimStart`, `Text.trimEnd`: removal of blanks at the ends.
* `Text.splitOn`: the pieces between occurrences of one character.
* `Text.splitBlank`: the text before and after the first blank.
-/

namespace ApiDocs.Text

/-- The Unicode property `White_Space`. -/
def isBlank (c : Char) : Bool :=
  let n := c.toNat
  (0x09 ≤ n && n ≤ 0x0D) || n == 0x20 || n == 0x85 || n == 0xA0 || n == 0x1680 ||
    (0x2000 ≤ n && n ≤ 0x200A) || n == 0x2028 || n == 0x2029 || n == 0x202F ||
    n == 0x205F || n == 0x3000

/-! ## Trimming -/

/-- Drop the blanks at the front. -/
def trimStart (cs : List Char) : List Char := cs.dropWhile isBlank

/-- Drop the blanks at the back. -/
def trimEnd (cs : List Char) : List Char := (cs.reverse.dropWhile isBlank).reverse

/-- Drop the blanks at both ends. -/
def trim (cs : List Char) : List Char := trimEnd (trimStart cs)

/-- `trim` on strings. -/
def trimmed (s : String) : String := String.ofList (trim s.toList)

/-- The trimmed text, or nothing when only blanks were there. -/
def nonBlank? (s : String) : Option String :=
  match trim s.toList with
  | [] => none
  | cs => some (String.ofList cs)

/-! ## Splitting -/

/-- The pieces between the occurrences of `sep`; there is always at least one. -/
def splitOn (sep : Char) : List Char → List (List Char)
  | [] => [[]]
  | c :: cs =>
    if c = sep then [] :: splitOn sep cs
    else
      match splitOn sep cs with
      | [] => [[c]]
      | piece :: pieces => (c :: piece) :: pieces

/-- The text before the first blank, and the text after it if there is a blank. -/
def splitBlank (cs : List Char) : List Char × Option (List Char) :=
  match cs.dropWhile (fun c => !isBlank c) with
  | [] => (cs, none)
  | _ :: rest => (cs.takeWhile (fun c => !isBlank c), some rest)

/-- Drop `pre` from the front of `cs` if it stands there. -/
def stripStart? (pre cs : List Char) : Option (List Char) :=
  pre.isPrefixOf? cs

/-- Drop `suf` from the back of `cs` if it stands there. -/
def stripEnd? (suf cs : List Char) : Option (List Char) :=
  if suf.isSuffixOf cs then some (cs.take (cs.length - suf.length)) else none

/-! ## Lemmas -/

theorem splitOn_ne_nil (sep : Char) (cs : List Char) : splitOn sep cs ≠ [] := by
  cases cs with
  | nil => simp [splitOn]
  | cons c cs =>
    unfold splitOn
    split
    · simp
    · split <;> simp

end ApiDocs.Text
