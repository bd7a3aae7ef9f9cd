import ApiDocs.TypeScript.Scanner
import ApiDocs.TypeScript.Tree

/-!
# Parsers

A parser reads tokens off the front of a source. It holds the next token, the cursors before and
behind it, and what it has learned about comments on the way. A parser that fails leaves its user
with the state from before, so trying one form and then another costs nothing but time.

## Main definitions

* `TypeScript.ParserState`, `TypeScript.Parser`: parsers.
* `TypeScript.Parser.attempt`, `TypeScript.Parser.ahead`: trying a form, looking ahead.
* `TypeScript.Parser.collect`, `TypeScript.Parser.commaList`: repetition.
* `TypeScript.Parser.semicolon`: the end of a statement, which a line break may stand for.
-/

namespace ApiDocs.TypeScript

/-- What a kind of source allows. -/
structure Dialect where
  /-- May types be written? -/
  typed : Bool
  /-- May elements of markup be written? -/
  markup : Bool
  /-- Does the source only declare what is defined elsewhere? -/
  declarations : Bool
  deriving DecidableEq, Repr, Inhabited

/-- Where a parser stands. -/
structure ParserState where
  dialect : Dialect
  /-- The next token. -/
  token : Token
  /-- Is there a line break before the next token? -/
  lineBreak : Bool
  /-- The cursor at the next token. -/
  here : Cursor
  /-- The cursor behind the next token. -/
  next : Cursor
  /-- The end of the token before. -/
  lastStop : Nat
  /-- Documentation comments by the offset of the token that they stand before. -/
  docs : List (Nat × String)
  /-- Is what is declared here defined elsewhere? -/
  ambient : Bool
  /-- May the parameters of an arrow function be followed by a result type? -/
  arrowResults : Bool

/-- A parser of values of type `α`. -/
abbrev Parser := StateT ParserState (Except ParseError)

namespace Parser

/-! ## Tokens -/

/-- Refuse the source at the next token. -/
def fail (message : String) : Parser α := fun s => failAt s.here.offset message

/-- The state before the first token of a source. -/
def start (dialect : Dialect) (source : Cursor) : Except ParseError ParserState := do
  let (gap, here) ← scanGap true false source
  let (token, next) ← scanToken here
  return {
    dialect, token, here, next
    lineBreak := true
    lastStop := source.offset
    docs := gap.doc?.toList.map fun doc => (here.offset, doc)
    ambient := dialect.declarations
    arrowResults := true }

/-- Go on to the token after the next. -/
def advance : Parser Unit := fun s => do
  let held := s.token = .punct "=" || s.token = .punct "("
  let (gap, here) ← scanGap false held s.next
  let (token, next) ← scanToken here
  return ((), { s with
    token, here, next
    lineBreak := gap.lineBreak
    lastStop := s.next.offset
    docs := gap.doc?.toList.map (fun doc => (here.offset, doc)) ++ s.docs })

/-- Read the next token anew, from behind its first character. -/
def rescan (scan : Cursor → Except ParseError (Token × Cursor)) : Parser Unit := fun s => do
  let (token, next) ← scan s.here.skip
  return ((), { s with token, next })

/-- Take the text behind the next token, up to the next tag or brace, for a token. -/
def advanceMarkup : Parser Unit := fun s =>
  let (token, next) := scanJsxText s.next
  .ok ((), { s with token, here := s.next, next, lastStop := s.next.offset })

/-- Take the next `n` characters for one sign. -/
def joinSign (n : Nat) : Parser Unit := fun s =>
  let sign := String.ofList (s.here.rest.take n)
  .ok ((), { s with token := .punct sign, next := s.here.skipN n })

/-- The next token. -/
def token : Parser Token := do return (← get).token

/-- The cursor at the next token. -/
def here : Parser Cursor := do return (← get).here

/-- Is there a line break before the next token? -/
def lineBreak : Parser Bool := do return (← get).lineBreak

/-- The text from a cursor up to the end of the token before. -/
def textFrom (start : Cursor) : Parser String := do
  return String.ofList (start.textUpTo (← get).lastStop)

/-- The stretch from a cursor up to the end of the token before. -/
def spanFrom (start : Cursor) : Parser Span := do return ⟨start.offset, (← get).lastStop⟩

/-! ## Trying and looking ahead -/

/-- Try a parser; nothing is read where it fails. -/
def attempt (p : Parser α) : Parser (Option α) := fun s =>
  match p s with
  | .ok (a, s') => .ok (some a, s')
  | .error _ => .ok (none, s)

/-- What a parser would give here. Nothing is read. -/
def ahead (p : Parser α) : Parser (Option α) := fun s =>
  match p s with
  | .ok (a, _) => .ok (some a, s)
  | .error _ => .ok (none, s)

/-- Does the test hold of what follows? Nothing is read. -/
def aheadHolds (p : Parser Bool) : Parser Bool := do return (← ahead p).getD false

/-- Try one form and, where it fails, the other. -/
def orElseTry (p : Parser α) (q : Parser α) : Parser α := do
  match ← attempt p with
  | some a => return a
  | none => q

/-! ## Words and signs -/

/-- Is the sign next? -/
def atSign (sign : String) : Parser Bool := do return (← token) == .punct sign

/-- Is one of the signs next? -/
def atOneOf (signs : List String) : Parser Bool := do
  match ← token with
  | .punct s => return signs.contains s
  | _ => return false

/-- Is the word next? -/
def atWord (word : String) : Parser Bool := do return (← token) == .word word true

/-- The next token, if it is a word. -/
def word? : Parser (Option String) := do
  match ← token with
  | .word w _ => return some w
  | _ => return none

/-- Read the sign if it is next. -/
def eat (sign : String) : Parser Bool := do
  if ← atSign sign then advance; return true
  else return false

/-- Read the word if it is next. -/
def eatWord (word : String) : Parser Bool := do
  if ← atWord word then advance; return true
  else return false

/-- Read the sign. -/
def expect (sign : String) : Parser Unit := do
  if ← atSign sign then advance else fail ("expected " ++ sign)

/-- Read the word. -/
def expectWord (word : String) : Parser Unit := do
  if ← atWord word then advance else fail ("expected " ++ word)

/-- The words that name nothing. -/
def reservedWords : List String :=
  ["break", "case", "catch", "class", "const", "continue", "debugger", "default", "delete", "do",
    "else", "enum", "export", "extends", "false", "finally", "for", "function", "if", "import", "in",
    "instanceof", "new", "null", "return", "super", "switch", "this", "throw", "true", "try",
    "typeof", "var", "void", "while", "with"]

/-- Is a name next? -/
def atName : Parser Bool := do
  match ← word? with
  | some w => return !reservedWords.contains w
  | none => return false

/-- Read a name. -/
def name : Parser String := do
  match ← word? with
  | some w =>
    if reservedWords.contains w then fail "name expected"
    else
      advance
      return w
  | none => fail "name expected"

/-- Read a word, reserved or not. -/
def anyWord : Parser String := do
  match ← word? with
  | some w => advance; return w
  | none => fail "name expected"

/-- Refuse what only sources with types may hold. -/
def requireTypes : Parser Unit := do
  if !(← get).dialect.typed then fail "types are not allowed here"

/-- May types be written? -/
def typed : Parser Bool := do return (← get).dialect.typed

/-! ## Repetition -/

/-- Repeat a step until it gives nothing, at most `fuel` times. -/
def collectFuel (step : Parser (Option α)) : Nat → Parser (List α)
  | 0 => fail "too long"
  | fuel + 1 => do
    match ← step with
    | some a => return a :: (← collectFuel step fuel)
    | none => return []

/-- Repeat a step until it gives nothing. A step that gives something reads a token, so what is left
of the source bounds the number of steps. -/
def collect (step : Parser (Option α)) : Parser (List α) := fun s =>
  collectFuel step (s.here.rest.length + 2) s

/-- Grow a value step by step until a step gives nothing, at most `fuel` times. -/
def growFuel (step : α → Parser (Option α)) : Nat → α → Parser α
  | 0, _ => fail "too long"
  | fuel + 1, a => do
    match ← step a with
    | some a' => growFuel step fuel a'
    | none => return a

/-- Grow a value step by step until a step gives nothing. A step that gives something reads a token. -/
def grow (step : α → Parser (Option α)) (a : α) : Parser α := fun s =>
  growFuel step (s.here.rest.length + 2) a s

/-- Items between commas up to a closing sign, which is read too. A comma may follow the last. -/
def commaList (close : String) (item : Parser α) : Parser (List α) := do
  let items ← collect do
    if ← atSign close then return none
    let a ← item
    if !(← atSign close) then expect ","
    return some a
  expect close
  return items

/-- One or more items between commas. -/
def commaItems (item : Parser α) : Parser (List α) := do
  let first ← item
  let more ← collect do
    if ← eat "," then return some (← item)
    else return none
  return first :: more

/-! ## Ends of statements -/

/-- Read the end of a statement: a semicolon, or nothing where a line break, a closing brace or the
end of the source follows. -/
def semicolon : Parser Unit := do
  if ← eat ";" then return
  if (← lineBreak) || (← atSign "\x7d") || (← token) == .eof then return
  fail "semicolon expected"

/-- Parse with another setting for what is defined elsewhere. -/
def withAmbient (ambient : Bool) (p : Parser α) : Parser α := do
  let before := (← get).ambient
  modify fun s => { s with ambient := before || ambient }
  let a ← p
  modify fun s => { s with ambient := before }
  return a

/-- Parse with another setting for result types of arrow functions. -/
def withArrowResults (allowed : Bool) (p : Parser α) : Parser α := do
  let before := (← get).arrowResults
  modify fun s => { s with arrowResults := allowed }
  let a ← p
  modify fun s => { s with arrowResults := before }
  return a

/-! ## Templates -/

/-- Read a template whose first part is the next token, with a parser for its substitutions. -/
def template (substitution : Parser Unit) : Parser Unit := do
  let _ ← collect do
    match ← token with
    | .template _ true => return none
    | .template _ false =>
      advance
      substitution
      if ← atSign "\x7d" then rescan scanTemplate else fail "end of substitution expected"
      return some ()
    | _ => fail "template expected"
  advance

end Parser

end ApiDocs.TypeScript
