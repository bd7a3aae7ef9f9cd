import ApiDocs.Json.Reader
import ApiDocs.Text.Blank
import ApiDocs.Text.NamePart
import ApiDocs.Text.Quoted
import ApiDocs.TypeScript.Token

/-!
# Scanning TypeScript

A scan takes the gap before a token and then the token off the front of a source. What a slash or a
closing brace starts depends on where it stands, so scanning is done token by token on behalf of
the parser, which asks for the rest of a template or for a regular expression where one may stand.

A block comment in a gap *documents* the token behind the gap if its content starts with a star and
has something else. Comments on the line of the token before the gap, with a line break behind them,
belong to that token and document nothing.

## Main definitions

* `TypeScript.scanGap`: blanks and comments, with the documentation they hold.
* `TypeScript.scanToken`: a token.
* `TypeScript.scanTemplate`, `TypeScript.scanRegex`, `TypeScript.scanJsxText`: what only the parser
  knows to be there.
-/

namespace ApiDocs.TypeScript

/-- Why a source is refused, and where. -/
structure ParseError where
  offset : Nat
  message : String
  deriving DecidableEq, Repr, Inhabited

/-- A failure at an offset. -/
def failAt (offset : Nat) (message : String) : Except ParseError α := .error ⟨offset, message⟩

/-! ## Gaps -/

/-- Does the character break a line? -/
def isLineBreak (c : Char) : Bool :=
  c = '\n' || c = '\x0d' || c.toNat == 0x2028 || c.toNat == 0x2029

/-- May the character stand between tokens? -/
def isGapChar (c : Char) : Bool := Text.isBlank c || c.toNat == 0xFEFF

/-- What was found in a gap. -/
structure Gap where
  /-- Is there a line break in the gap, inside a comment or not? -/
  lineBreak : Bool := false
  /-- Contents of block comments that may document the next token, the last one first. -/
  leading : List String := []
  /-- Is a line break found that ends the line of the token before the gap? -/
  lineEnded : Bool := false
  deriving Repr

/-- Note a line break outside of comments: comments on the line of the token before belong to
that token. -/
def Gap.breakLine (g : Gap) : Gap :=
  { lineBreak := true, leading := if g.lineEnded then g.leading else [], lineEnded := true }

/-- Note a comment that runs to the end of its line. `held` tells that the token before the gap
does not take such comments. -/
def Gap.lineComment (held : Bool) (g : Gap) : Gap :=
  { lineBreak := true
    leading := if g.lineEnded || held then g.leading else []
    lineEnded := true }

/-- Note a block comment. -/
def Gap.blockComment (content : List Char) (g : Gap) : Gap :=
  { g with
    lineBreak := g.lineBreak || content.any isLineBreak
    leading := String.ofList content :: g.leading }

/-- The content of a block comment and the cursor behind it. -/
def scanBlockComment : List Char → Nat → Option (List Char × Cursor)
  | '*' :: '/' :: rest, offset => some ([], ⟨rest, offset + 2⟩)
  | c :: rest, offset =>
    (scanBlockComment rest (offset + c.utf8Size)).map fun (content, cursor) => (c :: content, cursor)
  | [], _ => none

/-- Scan a gap, at most `fuel` parts of it. -/
def scanGapFuel (held : Bool) : Nat → Gap → Cursor → Except ParseError (Gap × Cursor)
  | 0, gap, c => .ok (gap, c)
  | fuel + 1, gap, c =>
    match c.rest with
    | '/' :: '/' :: _ =>
      let (_, c) := c.takeWhile fun x => !isLineBreak x
      scanGapFuel held fuel (gap.lineComment held) c
    | '/' :: '*' :: rest =>
      match scanBlockComment rest (c.offset + 2) with
      | some (content, c) => scanGapFuel held fuel (gap.blockComment content) c
      | none => failAt c.offset "comment without end"
    | x :: _ =>
      if isLineBreak x then scanGapFuel held fuel gap.breakLine c.skip
      else if isGapChar x then scanGapFuel held fuel gap c.skip
      else .ok (gap, c)
    | [] => .ok (gap, c)

/-- The gap at the cursor. `first` tells that the source starts here, which counts as a line break;
`held` tells that the token before is one behind which a line comment may still lead. -/
def scanGap (first held : Bool) (c : Cursor) : Except ParseError (Gap × Cursor) :=
  scanGapFuel held (c.rest.length + 1) { lineEnded := first, lineBreak := first } c

/-- Does the content of a block comment mark it as documentation? -/
def isDocContent (content : String) : Bool :=
  match content.toList with
  | '*' :: rest => rest.any (· ≠ '*')
  | _ => false

/-- The documentation that the comments of a gap give to the next token. -/
def Gap.doc? (g : Gap) : Option String := g.leading.find? isDocContent

/-! ## Texts with escapes -/

/-- A piece of a text: a character, or a UTF-16 unit written as an escape. -/
inductive TextUnit where
  | char (c : Char)
  | unit (n : Nat)
  deriving Repr

/-- The text of pieces. Units pair up to characters; half of a pair that stands alone is shown by
the replacement character and its number. -/
def joinText : List TextUnit → List Char
  | [] => []
  | .char c :: rest => c :: joinText rest
  | .unit n :: rest =>
    match rest with
    | .unit m :: rest' =>
      if Json.isHighSurrogate n && Json.isLowSurrogate m then
        Json.pairChar n m :: joinText rest'
      else loneUnit n ++ joinText (.unit m :: rest')
    | rest => loneUnit n ++ joinText rest
where
  /-- A unit without a partner. -/
  loneUnit (n : Nat) : List Char :=
    if Json.isHighSurrogate n || Json.isLowSurrogate n then
      Char.ofNat 0xFFFD :: Text.hexPadded 4 n
    else [Char.ofNat n]

/-- The pieces that a code point gives. -/
def codePointUnits (n : Nat) : Option (List TextUnit) :=
  if n < 0x10000 then some [.unit n]
  else if n < 0x110000 then some [.char (Char.ofNat n)]
  else none

/-- An escape behind its backslash: its pieces and what follows. -/
def scanEscape : List Char → Option (List TextUnit × List Char)
  | 'n' :: rest => some ([.char '\n'], rest)
  | 't' :: rest => some ([.char '\t'], rest)
  | 'r' :: rest => some ([.char '\x0d'], rest)
  | 'b' :: rest => some ([.char '\x08'], rest)
  | 'f' :: rest => some ([.char '\x0c'], rest)
  | 'v' :: rest => some ([.char '\x0b'], rest)
  | 'x' :: a :: b :: rest => do
    let n ← Json.hexNumber? [a, b]
    return ([.unit n], rest)
  | 'u' :: '\x7b' :: rest => do
    let digits := rest.takeWhile (· ≠ '\x7d')
    if digits.isEmpty then none
    let n ← Json.hexNumber? digits
    let units ← codePointUnits n
    match rest.dropWhile (· ≠ '\x7d') with
    | _ :: rest => return (units, rest)
    | [] => none
  | 'u' :: a :: b :: c :: d :: rest => do
    let n ← Json.hexNumber? [a, b, c, d]
    return ([.unit n], rest)
  | '\x0d' :: '\n' :: rest => some ([], rest)
  | c :: rest =>
    if isLineBreak c then some ([], rest)
    else if '0' ≤ c ∧ c ≤ '7' then
      let more := rest.takeWhile (fun d => '0' ≤ d && d ≤ '7')
      let more := more.take (if c ≤ '3' then 2 else 1)
      let n := (c :: more).foldl (fun n d => 8 * n + (d.toNat - '0'.toNat)) 0
      some ([.unit n], rest.drop more.length)
    else if c = 'x' || c = 'u' then none
    else some ([.char c], rest)
  | [] => none

/-- The pieces of a text up to `ended`, with the rest behind; `fuel` bounds their number. -/
def scanPieces (ended : List Char → Option (List Char)) (lineBreaks : Bool) :
    Nat → List Char → Option (List TextUnit × List Char)
  | 0, _ => none
  | fuel + 1, cs =>
    match ended cs with
    | some rest => some ([], rest)
    | none =>
      match cs with
      | [] => none
      | '\\' :: rest => do
        let (units, rest) ← scanEscape rest
        let (more, rest) ← scanPieces ended lineBreaks fuel rest
        return (units ++ more, rest)
      | '\x0d' :: '\n' :: rest =>
        if lineBreaks then do
          let (more, rest) ← scanPieces ended lineBreaks fuel rest
          return (.char '\n' :: more, rest)
        else none
      | c :: rest =>
        if !lineBreaks && (c = '\n' || c = '\x0d') then none
        else do
          let (more, rest) ← scanPieces ended lineBreaks fuel rest
          return (.char (if lineBreaks && c = '\x0d' then '\n' else c) :: more, rest)

/-- The cursor at `rest`, which is a rest of what the cursor `c` reads. -/
def Cursor.moveTo (c : Cursor) (rest : List Char) : Cursor :=
  ⟨rest, c.offset + byteLength (c.rest.take (c.rest.length - rest.length))⟩

/-- A string behind its opening quote. -/
def scanString (quote : Char) (c : Cursor) : Except ParseError (Token × Cursor) :=
  let ended := fun cs =>
    match cs with
    | x :: rest => if x = quote then some rest else none
    | [] => none
  match scanPieces ended false (c.rest.length + 1) c.rest with
  | some (units, rest) => .ok (.string (String.ofList (joinText units)), c.moveTo rest)
  | none => failAt c.offset "string without end"

/-- A template behind its opening quote, or behind a substitution. -/
def scanTemplate (c : Cursor) : Except ParseError (Token × Cursor) :=
  let ended := fun cs =>
    match cs with
    | '\x60' :: _ => some cs
    | '$' :: '\x7b' :: _ => some cs
    | _ => none
  match scanPieces ended true (c.rest.length + 1) c.rest with
  | some (units, rest) =>
    let text := String.ofList (joinText units)
    match rest with
    | '\x60' :: rest => .ok (.template text true, c.moveTo rest)
    | _ => .ok (.template text false, c.moveTo (rest.drop 2))
  | none => failAt c.offset "template without end"

/-- A regular expression behind its first slash; inside brackets a slash does not end it. -/
def scanRegexBody : Bool → List Char → Option (List Char)
  | _, [] => none
  | inside, '\\' :: c :: rest => if isLineBreak c then none else scanRegexBody inside rest
  | inside, c :: rest =>
    if isLineBreak c then none
    else if c = '[' then scanRegexBody true rest
    else if c = ']' then scanRegexBody false rest
    else if c = '/' && !inside then some (rest.dropWhile Text.isNamePart)
    else scanRegexBody inside rest

/-- A regular expression behind its first slash, with its flags. -/
def scanRegex (c : Cursor) : Except ParseError (Token × Cursor) :=
  match scanRegexBody false c.rest with
  | some rest => .ok (.regex, c.moveTo rest)
  | none => failAt c.offset "regular expression without end"

/-- The text between tags: up to the next brace or tag. -/
def scanJsxText (c : Cursor) : Token × Cursor :=
  let (_, c) := c.takeWhile fun x => x ≠ '<' && x ≠ '\x7b'
  (.jsxText, c)

/-! ## Numbers -/

/-- Does every separator stand between two digits? -/
def isGrouped (cs : List Char) : Bool :=
  cs.isEmpty || (Text.splitOn '_' cs).all fun group => !group.isEmpty

/-- Digits with separators between them. -/
def scanDigits (isDigit : Char → Bool) (cs : List Char) : Option (List Char × List Char) :=
  let taken := cs.takeWhile fun c => isDigit c || c = '_'
  if isGrouped taken then some (taken.filter (· ≠ '_'), cs.drop taken.length) else none

/-- The value of digits to a base. -/
def baseValue (base : Nat) (ds : List Char) : Nat :=
  ds.foldl (fun n d => base * n + (Json.hexValue? d).getD 0) 0

/-- Is the character a digit to the base? -/
def isBaseDigit (base : Nat) (c : Char) : Bool :=
  match Json.hexValue? c with
  | some n => n < base
  | none => false

/-- The base that a letter behind a zero announces. -/
def baseOf? (c : Char) : Option Nat :=
  match c with
  | 'x' | 'X' => some 16
  | 'o' | 'O' => some 8
  | 'b' | 'B' => some 2
  | _ => none

/-- An exponent with its letter, if one stands here. -/
def scanExponent (cs : List Char) : Option (Int × List Char) :=
  match cs with
  | e :: rest =>
    if e = 'e' || e = 'E' then do
      let (neg, rest) :=
        match rest with
        | '-' :: rest => (true, rest)
        | '+' :: rest => (false, rest)
        | _ => (false, rest)
      let (ds, rest) ← scanDigits Char.isDigit rest
      if ds.isEmpty then none
      else
        let n : Int := baseValue 10 ds
        some (if neg then -n else n, rest)
    else none
  | [] => none

/-- A number to the base ten. -/
def scanDecimal (cs : List Char) : Option (Token × List Char) := do
  let (whole, rest) ← scanDigits Char.isDigit cs
  match rest with
  | 'n' :: rest => some (.bigint (String.ofList (Nat.toDigits 10 (baseValue 10 whole))), rest)
  | _ =>
    let (fraction, rest) ←
      match rest with
      | '.' :: rest => scanDigits Char.isDigit rest
      | _ => some ([], rest)
    let exponent := scanExponent rest
    let e := (exponent.map (·.1)).getD 0
    let rest := (exponent.map (·.2)).getD rest
    let value := Binary64.ofDecimal false (baseValue 10 (whole ++ fraction)) (e - fraction.length)
    some (.number value, rest)

/-- A number, which starts with a digit or with a point before a digit. -/
def scanNumber (cs : List Char) : Option (Token × List Char) :=
  match cs with
  | '0' :: x :: rest =>
    match baseOf? x with
    | some base => do
      let (ds, rest) ← scanDigits (isBaseDigit base) rest
      if ds.isEmpty then none
      else
        let n := baseValue base ds
        match rest with
        | 'n' :: rest => some (.bigint (String.ofList (Nat.toDigits 10 n)), rest)
        | _ => some (.number (Binary64.ofNat n), rest)
    | none =>
      let ds := (x :: rest).takeWhile (isBaseDigit 8)
      if !ds.isEmpty && !(((x :: rest).drop ds.length).head?.any fun c => c = '8' || c = '9') then
        some (.number (Binary64.ofNat (baseValue 8 ds)), (x :: rest).drop ds.length)
      else scanDecimal cs
  | _ => scanDecimal cs

/-! ## Names and signs -/

/-- The characters of a name, with those written as escapes, and whether there are any. -/
def scanName : Nat → List Char → Option (List Char × Bool × List Char)
  | 0, _ => none
  | fuel + 1, cs =>
    match cs with
    | '\\' :: 'u' :: rest => do
      let (units, rest) ← scanEscape ('u' :: rest)
      let (more, _, rest) ← scanName fuel rest
      return (joinText units ++ more, false, rest)
    | c :: rest =>
      if Text.isNamePart c then do
        let (more, plain, rest) ← scanName fuel rest
        return (c :: more, plain, rest)
      else some ([], true, cs)
    | [] => some ([], true, [])

/-- The signs of more than one character, longer ones before those they start with. -/
def longSigns : List String :=
  ["...", "===", "!==", "**=", "&&=", "||=", "??=", "=>", "==", "!=", "**", "*=", "++", "+=", "--",
    "-=", "&&", "&=", "||", "|=", "??", "^=", "%=", "/="]

/-- The signs of one character. -/
def shortSigns : List Char :=
  ['=', '!', '*', '+', '-', '<', '>', '&', '|', '?', '^', '%', '/', '(', ')', '[', ']', '\x7b',
    '\x7d', ';', ',', ':', '.', '@', '~']

/-- A sign. A question mark and a point are one sign unless a digit follows. -/
def scanSign (cs : List Char) : Option (String × List Char) :=
  match cs with
  | '?' :: '.' :: d :: rest => if d.isDigit then some ("?", '.' :: d :: rest) else
      some ("?.", d :: rest)
  | _ =>
    match longSigns.findSome? fun s => (Text.stripStart? s.toList cs).map fun rest => (s, rest) with
    | some found => some found
    | none =>
      match cs with
      | c :: rest => if c ∈ shortSigns then some (c.toString, rest) else none
      | [] => none

/-- **The token at the cursor.** -/
def scanToken (c : Cursor) : Except ParseError (Token × Cursor) :=
  match c.rest with
  | [] => .ok (.eof, c)
  | '"' :: _ => scanString '"' c.skip
  | '\'' :: _ => scanString '\'' c.skip
  | '\x60' :: _ => scanTemplate c.skip
  | '#' :: rest =>
    match scanName (rest.length + 1) rest with
    | some (name, _, after) =>
      if name.isEmpty then failAt c.offset "private name expected"
      else .ok (.privateWord (String.ofList name), c.moveTo after)
    | none => failAt c.offset "private name expected"
  | x :: rest =>
    if x.isDigit || (x = '.' && rest.head?.any Char.isDigit) then
      match scanNumber c.rest with
      | some (t, after) =>
        if after.head?.any Text.isNameStart then failAt c.offset "malformed number"
        else .ok (t, c.moveTo after)
      | none => failAt c.offset "malformed number"
    else if Text.isNameStart x || x = '\\' then
      match scanName (c.rest.length + 1) c.rest with
      | some (name, plain, after) =>
        if name.isEmpty then failAt c.offset "unexpected character"
        else .ok (.word (String.ofList name) plain, c.moveTo after)
      | none => failAt c.offset "malformed name"
    else
      match scanSign c.rest with
      | some (s, after) => .ok (.punct s, c.moveTo after)
      | none => failAt c.offset "unexpected character"

end ApiDocs.TypeScript
