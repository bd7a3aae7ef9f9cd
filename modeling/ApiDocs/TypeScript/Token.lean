import ApiDocs.Number.Binary64

/-!
# Tokens of TypeScript

The smallest parts of a source and where they stand. Names and keywords are one kind of token,
because most keywords are names elsewhere. The angle brackets `<` and `>` are always tokens of
their own, so that nested type arguments end bracket by bracket; an expression joins them again
into the operators that start with them.

Offsets count bytes from the start of the source.

## Main definitions

* `TypeScript.Span`: a stretch of a source.
* `TypeScript.Token`: a token.
* `TypeScript.Cursor`: the unread rest of a source.
-/

namespace ApiDocs.TypeScript

/-- A stretch of a source: the offsets of its first byte and of the byte behind its last. -/
structure Span where
  start : Nat
  stop : Nat
  deriving DecidableEq, Repr, Inhabited

/-- A token. -/
inductive Token where
  /-- A name or keyword; `plain` unless some of its characters are written as escapes. -/
  | word (text : String) (plain : Bool)
  /-- A private name, without its hash. -/
  | privateWord (text : String)
  | number (value : Binary64)
  /-- A big integer, by its decimal digits. -/
  | bigint (digits : String)
  | string (value : String)
  /-- A template from its opening quote or from the end of a substitution, up to its closing quote
  (`last`) or to the next substitution. -/
  | template (text : String) (last : Bool)
  | regex
  /-- The text between the tags of an element. -/
  | jsxText
  | punct (text : String)
  | eof
  deriving DecidableEq, Repr, Inhabited

/-- The number of bytes of a text. -/
def byteLength (cs : List Char) : Nat := cs.foldl (fun n c => n + c.utf8Size) 0

/-- The unread rest of a source and its offset. -/
structure Cursor where
  rest : List Char
  offset : Nat
  deriving Repr, Inhabited

namespace Cursor

/-- The cursor behind the next character. -/
def skip (c : Cursor) : Cursor :=
  match c.rest with
  | [] => c
  | x :: rest => ⟨rest, c.offset + x.utf8Size⟩

/-- The cursor behind the next `n` characters. -/
def skipN (c : Cursor) : Nat → Cursor
  | 0 => c
  | n + 1 => c.skip.skipN n

/-- The characters up to the first that fails the test, and the cursor there. -/
def takeWhile (p : Char → Bool) (c : Cursor) : List Char × Cursor :=
  let taken := c.rest.takeWhile p
  (taken, ⟨c.rest.dropWhile p, c.offset + byteLength taken⟩)

/-- The text from the cursor up to an offset. -/
def textUpTo (c : Cursor) (stop : Nat) : List Char :=
  go c.rest c.offset
where
  /-- Characters from `offset` on that start before `stop`. -/
  go : List Char → Nat → List Char
    | [], _ => []
    | x :: rest, offset => if offset < stop then x :: go rest (offset + x.utf8Size) else []

end Cursor

end ApiDocs.TypeScript
