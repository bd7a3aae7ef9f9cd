import ApiDocs.Json.Reader

/-!
# Strings, gaps and comments of TOML

Readers for what a TOML text is made of below its values: blanks, line breaks, comments, and the
four kinds of strings. A string stands between double quotes, with escapes, or between single
quotes, without; either kind may run over several lines when its quotes are written three times.

## Main definitions

* `Toml.skipGap`, `Toml.skipTrivia`: what may stand between the parts of a line, and of an array.
* `Toml.readQuoted`: a string of one line.
* `Toml.readString`: a string of any kind.
-/

namespace ApiDocs.Toml

open Json (Reader hexNumber?)

/-- A blank within a line. -/
def isGap (c : Char) : Bool := c = ' ' || c = '\t'

/-- Skip blanks. -/
def skipGap (cs : List Char) : List Char := cs.dropWhile isGap

/-- May the character stand in a comment or a string? -/
def isPlain (c : Char) : Bool := c = '\t' || (0x20 ≤ c.toNat && c.toNat != 0x7F)

/-- The text behind a line break. -/
def lineBreak? : List Char → Option (List Char)
  | '\n' :: rest => some rest
  | '\x0d' :: '\n' :: rest => some rest
  | _ => none

/-- Skip a comment, if there is one, up to the end of its line. -/
def skipComment : List Char → List Char
  | '#' :: rest => rest.dropWhile isPlain
  | cs => cs

/-- Skip blanks, comments and line breaks; `fuel` bounds the number of lines. -/
def skipLines : Nat → List Char → List Char
  | 0, cs => cs
  | fuel + 1, cs =>
    let cs := skipComment (skipGap cs)
    match lineBreak? cs with
    | some rest => skipLines fuel rest
    | none => cs

/-- Skip blanks, comments and line breaks. -/
def skipTrivia (cs : List Char) : List Char := skipLines (cs.length + 1) cs

/-! ## Strings -/

/-- The character that a one-letter escape stands for. -/
def escapedChar? (c : Char) : Option Char :=
  match c with
  | 'b' => some '\x08'
  | 't' => some '\t'
  | 'n' => some '\n'
  | 'f' => some '\x0c'
  | 'r' => some '\x0d'
  | '"' => some '"'
  | '\\' => some '\\'
  | _ => none

/-- The character of a number, which surrogates have none. -/
def charOf? (n : Nat) : Option Char := if n.isValidChar then some (Char.ofNat n) else none

/-- The character written by hexadecimal digits. -/
def hexChar? (digits : List Char) : Option Char := (hexNumber? digits).bind charOf?

/-- Put a character in front of what a reader has read. -/
def andThen (c : Char) (r : Option (List Char × List Char)) : Option (List Char × List Char) :=
  r.map fun (cs, rest) => (c :: cs, rest)

/-- A string with escapes, behind its opening quote. -/
def readBasic : Reader (List Char)
  | '"' :: rest => some ([], rest)
  | '\\' :: 'u' :: a :: b :: c :: d :: rest => do
    andThen (← hexChar? [a, b, c, d]) (readBasic rest)
  | '\\' :: 'U' :: a :: b :: c :: d :: e :: f :: g :: h :: rest => do
    andThen (← hexChar? [a, b, c, d, e, f, g, h]) (readBasic rest)
  | '\\' :: e :: rest => do andThen (← escapedChar? e) (readBasic rest)
  | c :: rest => if isPlain c then andThen c (readBasic rest) else none
  | [] => none

/-- A string without escapes, behind its opening quote. -/
def readLiteral : Reader (List Char)
  | '\'' :: rest => some ([], rest)
  | c :: rest => if isPlain c then andThen c (readLiteral rest) else none
  | [] => none

/-- Is there nothing but blanks up to the next line break? -/
def endsLine (cs : List Char) : Bool := (lineBreak? (skipGap cs)).isSome

/-- A string of several lines with escapes, behind its opening quotes. A backslash at the end of a
line takes out all blanks and line breaks behind it; `folding` says that this is going on. Up to two
quotes may stand before the closing ones. -/
def readBasicLines : (folding : Bool) → Reader (List Char)
  | true, '\x0d' :: '\n' :: rest => readBasicLines true rest
  | false, '\x0d' :: '\n' :: rest => andThen '\n' (readBasicLines false rest)
  | _, '"' :: '"' :: '"' :: '"' :: '"' :: rest => some (['"', '"'], rest)
  | _, '"' :: '"' :: '"' :: '"' :: rest => some (['"'], rest)
  | _, '"' :: '"' :: '"' :: rest => some ([], rest)
  | _, '\\' :: 'u' :: a :: b :: c :: d :: rest => do
    andThen (← hexChar? [a, b, c, d]) (readBasicLines false rest)
  | _, '\\' :: 'U' :: a :: b :: c :: d :: e :: f :: g :: h :: rest => do
    andThen (← hexChar? [a, b, c, d, e, f, g, h]) (readBasicLines false rest)
  | _, '\\' :: c :: rest =>
    if endsLine (c :: rest) then readBasicLines true (c :: rest)
    else do andThen (← escapedChar? c) (readBasicLines false rest)
  | folding, c :: rest =>
    if folding && (isGap c || c = '\n') then readBasicLines true rest
    else if isPlain c || c = '\n' then andThen c (readBasicLines false rest)
    else none
  | _, [] => none

/-- A string of several lines without escapes, behind its opening quotes. -/
def readLiteralLines : Reader (List Char)
  | '\x0d' :: '\n' :: rest => andThen '\n' (readLiteralLines rest)
  | '\'' :: '\'' :: '\'' :: '\'' :: '\'' :: rest => some (['\'', '\''], rest)
  | '\'' :: '\'' :: '\'' :: '\'' :: rest => some (['\''], rest)
  | '\'' :: '\'' :: '\'' :: rest => some ([], rest)
  | c :: rest => if isPlain c || c = '\n' then andThen c (readLiteralLines rest) else none
  | [] => none

/-- A line break right behind the opening quotes of several lines does not count. -/
def skipBreak (cs : List Char) : List Char := (lineBreak? cs).getD cs

/-- A string of one line. -/
def readQuoted : Reader (List Char)
  | '"' :: rest => readBasic rest
  | '\'' :: rest => readLiteral rest
  | _ => none

/-- A string of any kind. -/
def readString : Reader (List Char)
  | '"' :: '"' :: '"' :: rest => readBasicLines false (skipBreak rest)
  | '\'' :: '\'' :: '\'' :: rest => readLiteralLines (skipBreak rest)
  | cs => readQuoted cs

end ApiDocs.Toml
