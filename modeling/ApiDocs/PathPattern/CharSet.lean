import ApiDocs.Text.Blank
import ApiDocs.Text.CaseFold
import ApiDocs.Text.Digit
import ApiDocs.Text.NamePart

/-!
# Sets of characters

The sets that a pattern can ask a character to be in.

## Main definitions

* `CharSet`: a set of characters.
* `CharSet.has`: membership.
-/

namespace ApiDocs

/-- A set of characters. -/
inductive CharSet where
  | none
  | range (first last : Char)
  | digit
  | word
  | blank
  | union (a b : CharSet)
  | inter (a b : CharSet)
  | compl (a : CharSet)
  /-- The characters that differ at most in case from one of the set. -/
  | anyCase (a : CharSet)
  deriving DecidableEq, Repr, Inhabited

namespace CharSet

/-- May the character stand in a word? -/
def isWordChar (c : Char) : Bool :=
  c.isAlphanum || c = '_' || Text.isForeignNamePart c || c.toNat = 0x200C || c.toNat = 0x200D

/-- Is the character in the set? -/
def has : CharSet → Char → Bool
  | none, _ => false
  | range first last, c => first ≤ c && c ≤ last
  | digit, c => Text.isDecimalDigit c
  | word, c => isWordChar c
  | blank, c => Text.isBlank c
  | union a b, c => a.has c || b.has c
  | inter a b, c => a.has c && b.has c
  | compl a, c => !a.has c
  | anyCase a, c => (Text.sameCase c).any a.has

/-- The set of one character. -/
def one (c : Char) : CharSet := .range c c

/-- All characters but line feeds. -/
def exceptLineFeed : CharSet := .compl (.one '\n')

/-- All characters. -/
def all : CharSet := .compl .none

/-- The union of sets. -/
def unionAll (sets : List CharSet) : CharSet := sets.foldl .union .none

/-- The characters in exactly one of two sets. -/
def symmDiff (a b : CharSet) : CharSet := .union (.inter a (.compl b)) (.inter b (.compl a))

end CharSet

end ApiDocs
