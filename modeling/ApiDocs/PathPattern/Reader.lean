import ApiDocs.Json.Reader
import ApiDocs.PathPattern.Basic

/-!
# Reading patterns

The text of a pattern has characters that stand for themselves, classes in brackets, groups in
parentheses, alternatives, repetitions, tests of places, and flags that change how the rest of their
group is read. There is no looking around and no referring back: such patterns are refused.

## Main definitions

* `PathPattern.Flags`: how a pattern is read.
* `PathPattern.Reader`: readers of parts of a pattern.
* `PathPattern.read?`: the pattern of a text.
-/

namespace ApiDocs.PathPattern

open Number (twoTo)

/-- How a pattern is read. -/
structure Flags where
  anyCase : Bool := false
  multiLine : Bool := false
  dotAll : Bool := false
  /-- Are blanks and comments in the pattern skipped? -/
  spaced : Bool := false
  deriving DecidableEq, Repr, Inhabited

/-- Where a reader stands. -/
structure ReadState where
  rest : List Char
  flags : Flags := {}
  /-- The names of groups so far. -/
  names : List String := []
  deriving Inhabited

/-- A reader of a part of a pattern. -/
abbrev Reader := StateT ReadState Option

namespace Reader

/-! ## Characters -/

/-- Refuse the pattern. -/
def refuse : Reader α := fun _ => none

/-- The next character. -/
def peek : Reader (Option Char) := do return (← get).rest.head?

/-- The character after the next. -/
def peekSecond : Reader (Option Char) := do return (← get).rest.tail.head?

/-- Read a character. -/
def next : Reader Char := fun s =>
  match s.rest with
  | c :: rest => some (c, { s with rest })
  | [] => none

/-- Read some characters if they are next. -/
def eat (cs : List Char) : Reader Bool := fun s =>
  match Text.stripStart? cs s.rest with
  | some rest => some (true, { s with rest })
  | none => some (false, s)

/-- Read a character that has to be next. -/
def expect (c : Char) : Reader Unit := do
  if !(← eat [c]) then refuse

/-- Read the characters up to the first that fails the test. -/
def takeWhile (p : Char → Bool) : Reader (List Char) := fun s =>
  some (s.rest.takeWhile p, { s with rest := s.rest.dropWhile p })

/-- The text behind blanks and comments. -/
def skipSpaceFuel : Nat → List Char → List Char
  | 0, cs => cs
  | fuel + 1, cs =>
    match cs with
    | '#' :: rest => skipSpaceFuel fuel (rest.dropWhile (· ≠ '\n'))
    | c :: rest => if Text.isBlank c then skipSpaceFuel fuel rest else cs
    | [] => []

/-- Skip blanks and comments where the flags say so. -/
def skipSpace : Reader Unit :=
  modify fun s =>
    if s.flags.spaced then { s with rest := skipSpaceFuel (s.rest.length + 1) s.rest } else s

/-- Repeat a step until it gives nothing, at most `fuel` times. -/
def collectFuel (step : Reader (Option α)) : Nat → Reader (List α)
  | 0 => refuse
  | fuel + 1 => do
    match ← step with
    | some a => return a :: (← collectFuel step fuel)
    | none => return []

/-- Repeat a step until it gives nothing. A step that gives something reads a character. -/
def collect (step : Reader (Option α)) : Reader (List α) := fun s =>
  collectFuel step (s.rest.length + 2) s

/-! ## Escapes -/

/-- What an escape stands for. -/
inductive Escape where
  | char (c : Char)
  | set (s : CharSet)
  | test (t : PlaceTest)

/-- The character of a code point. -/
def charOf (n : Nat) : Reader Char :=
  if n.isValidChar then return Char.ofNat n else refuse

/-- A character by its number, in braces or with so many digits. -/
def numberedChar (digits : Nat) : Reader Char := do
  let ds ←
    if ← eat ['\x7b'] then
      let ds ← takeWhile (· ≠ '\x7d')
      expect '\x7d'
      pure ds
    else
      let ds := (← get).rest.take digits
      if ds.length < digits then refuse
      modify fun s => { s with rest := s.rest.drop digits }
      pure ds
  if ds.isEmpty then refuse
  match Json.hexNumber? ds with
  | some n => charOf n
  | none => refuse

/-- The tests of places with a name in braces. -/
def namedTest? (name : List Char) : Option PlaceTest :=
  match String.ofList name with
  | "start" => some .wordStart
  | "end" => some .wordEnd
  | "start-half" => some .wordStartHalf
  | "end-half" => some .wordEndHalf
  | _ => none

/-- The test behind a backslash and the letter of word edges. -/
def wordEdge : Reader PlaceTest := do
  let isNameChar := fun c : Char => c.isAlpha || c = '-'
  if (← peek) == some '\x7b' && (← peekSecond).any isNameChar then
    discard next
    let name ← takeWhile isNameChar
    expect '\x7d'
    match namedTest? name with
    | some t => return t
    | none => refuse
  else return .wordEdge

/-- May a backslash stand before the character to make it stand for itself? -/
def isEscapable (c : Char) : Bool :=
  c.toNat < 0x80 && !c.isAlphanum && c ≠ '<' && c ≠ '>'

/-- An escape, behind its backslash. -/
def escape : Reader Escape := do
  let c ← next
  match c with
  | 'd' => return .set .digit
  | 'D' => return .set (.compl .digit)
  | 'w' => return .set .word
  | 'W' => return .set (.compl .word)
  | 's' => return .set .blank
  | 'S' => return .set (.compl .blank)
  | 'n' => return .char '\n'
  | 't' => return .char '\t'
  | 'r' => return .char '\x0d'
  | 'f' => return .char '\x0c'
  | 'v' => return .char '\x0b'
  | 'a' => return .char '\x07'
  | 'x' => return .char (← numberedChar 2)
  | 'u' => return .char (← numberedChar 4)
  | 'U' => return .char (← numberedChar 8)
  | 'A' => return .test .textStart
  | 'z' => return .test .textEnd
  | 'b' => return .test (← wordEdge)
  | 'B' => return .test .noWordEdge
  | '<' => return .test .wordStart
  | '>' => return .test .wordEnd
  | c => if isEscapable c then return .char c else refuse

/-! ## Classes -/

/-- The ASCII classes by their names. -/
def asciiClass? (name : List Char) : Option CharSet :=
  let ranges (rs : List (Char × Char)) : CharSet :=
    CharSet.unionAll (rs.map fun r => .range r.1 r.2)
  match String.ofList name with
  | "alnum" => some (ranges [('0', '9'), ('A', 'Z'), ('a', 'z')])
  | "alpha" => some (ranges [('A', 'Z'), ('a', 'z')])
  | "ascii" => some (ranges [('\x00', '\x7f')])
  | "blank" => some (ranges [('\t', '\t'), (' ', ' ')])
  | "cntrl" => some (ranges [('\x00', '\x1f'), ('\x7f', '\x7f')])
  | "digit" => some (ranges [('0', '9')])
  | "graph" => some (ranges [('!', '~')])
  | "lower" => some (ranges [('a', 'z')])
  | "print" => some (ranges [(' ', '~')])
  | "punct" => some (ranges [('!', '/'), (':', '@'), ('[', '\x60'), ('\x7b', '~')])
  | "space" => some (ranges [('\t', '\x0d'), (' ', ' ')])
  | "upper" => some (ranges [('A', 'Z')])
  | "word" => some (ranges [('0', '9'), ('A', 'Z'), ('a', 'z'), ('_', '_')])
  | "xdigit" => some (ranges [('0', '9'), ('A', 'F'), ('a', 'f')])
  | _ => none

/-- An ASCII class in brackets and colons; nothing is read if there is none. -/
def asciiClass : Reader (Option CharSet) := fun s =>
  match s.rest with
  | '[' :: ':' :: rest =>
    let (negated, rest) :=
      match rest with
      | '^' :: rest => (true, rest)
      | rest => (false, rest)
    let name := rest.takeWhile (· ≠ ':')
    match rest.drop name.length, asciiClass? name with
    | ':' :: ']' :: behind, some set =>
      some (some (if negated then .compl set else set), { s with rest := behind })
    | _, _ => some (none, s)
  | _ => some (none, s)

/-- An item of a class: a character, or a class by its escape. -/
def classItem : Reader (Char ⊕ CharSet) := do
  skipSpace
  let c ← next
  if c = '\\' then
    match ← escape with
    | .char c => return .inl c
    | .set s => return .inr s
    | .test _ => refuse
  else return .inl c

/-- Does a range go on behind its first character? -/
def atRange : Reader Bool := do
  skipSpace
  return (← peek) == some '-' && (← peekSecond) != some ']' && (← peekSecond) != some '-'

/-- An item or a range of a class. -/
def classRange : Reader CharSet := do
  let first ← classItem
  if ← atRange then
    discard next
    match first, ← classItem with
    | .inl a, .inl b => if a ≤ b then return .range a b else refuse
    | _, _ => refuse
  else
    match first with
    | .inl c => return .one c
    | .inr s => return s

/-- The operators between the parts of a class. -/
def classOperator? : Reader (Option (CharSet → CharSet → CharSet)) := do
  if ← eat ['&', '&'] then return some .inter
  if ← eat ['-', '-'] then return some fun a b => .inter a (.compl b)
  if ← eat ['~', '~'] then return some CharSet.symmDiff
  return none

/-- A part of a class up to an operator or the closing bracket, with `inner` for classes in it. -/
def classUnion (inner : Reader CharSet) : Reader CharSet := do
  let sets ← collect do
    skipSpace
    match ← peek, ← peekSecond with
    | some ']', _ => return none
    | some '&', some '&' => return none
    | some '-', some '-' => return none
    | some '~', some '~' => return none
    | some '[', _ =>
      match ← asciiClass with
      | some set => return some set
      | none => return some (← inner)
    | _, _ => return some (← classRange)
  return CharSet.unionAll sets

/-- The characters at the start of a class that stand for themselves only there. -/
def classStart : Reader CharSet := do
  skipSpace
  let dashes ← takeWhile (· = '-')
  skipSpace
  if dashes.isEmpty then
    if ← eat [']'] then return .one ']' else return .none
  else return .one '-'

/-- A class in brackets; classes in it nest at most `depth` deep. -/
def classSet : (depth : Nat) → Reader CharSet
  | 0 => refuse
  | depth + 1 => do
    expect '['
    skipSpace
    let negated ← eat ['^']
    let start ← classStart
    let first ← classUnion (classSet depth)
    let parts ← collect do
      match ← classOperator? with
      | some op =>
        let part ← classUnion (classSet depth)
        return some (op, part)
      | none => return none
    expect ']'
    let set := parts.foldl (fun a (op, b) => op a b) (.union start first)
    let set := if (← get).flags.anyCase then .anyCase set else set
    return if negated then .compl set else set

/-! ## Groups -/

/-- May a group's name start with the character? -/
def isNameStart (c : Char) : Bool := c = '_' || c.isAlpha || Text.isForeignNamePart c

/-- May the character stand in a group's name? -/
def isNameChar (c : Char) : Bool :=
  isNameStart c || c.isDigit || c = '.' || c = '[' || c = ']'

/-- The name of a group, with the bracket behind it. No two groups have the same. -/
def groupName : Reader Unit := do
  let name ← takeWhile (· ≠ '>')
  expect '>'
  match name with
  | [] => refuse
  | c :: rest =>
    if !(isNameStart c && rest.all isNameChar) then refuse
    let name := String.ofList name
    if (← get).names.contains name then refuse
    modify fun s => { s with names := name :: s.names }

/-- Flags set and unset. -/
def Flags.set (f : Flags) (flag : Char) (value : Bool) : Option Flags :=
  match flag with
  | 'i' => some { f with anyCase := value }
  | 'm' => some { f with multiLine := value }
  | 's' => some { f with dotAll := value }
  | 'x' => some { f with spaced := value }
  | 'U' | 'u' | 'R' => some f
  | _ => none

/-- The flags that some letters give. Each letter stands once, and one of them behind a minus. -/
def flagsOf (value : Bool) (seen : List Char) (f : Flags) : List Char → Option Flags
  | [] => if seen.head? = some '-' then none else some f
  | c :: rest =>
    if seen.contains c then none
    else if c = '-' then flagsOf false ('-' :: seen) f rest
    else (Flags.set f c value).bind fun f => flagsOf value (c :: seen) f rest

/-- A group behind its opening parenthesis, with `inner` for what it holds. Flags that are set alone
stay set up to the end of the group around them. The answer tells whether something stands there that
can be repeated. -/
def group (inner : Reader PathPattern) : Reader (PathPattern × Bool) := do
  let before := (← get).flags
  let finish : Reader (PathPattern × Bool) := do
    let p ← inner
    expect ')'
    modify fun s => { s with flags := before }
    return (p, true)
  skipSpace
  if !(← eat ['?']) then finish
  else if (← eat "P<".toList) then
    groupName
    finish
  else if (← peek) == some '<' && (← peekSecond) != some '=' && (← peekSecond) != some '!' then
    discard next
    groupName
    finish
  else
    let letters ← takeWhile fun c => c ≠ ':' && c ≠ ')'
    match flagsOf true [] before letters with
    | none => refuse
    | some flags =>
      if ← eat [':'] then
        modify fun s => { s with flags }
        finish
      else
        expect ')'
        if letters.isEmpty then refuse
        modify fun s => { s with flags }
        return (.empty, false)

/-! ## Items and repetitions -/

/-- A character that stands for itself. -/
def literal (c : Char) : Reader PathPattern := do
  return .char (if (← get).flags.anyCase then .anyCase (.one c) else .one c)

/-- An item, and whether it can be repeated. -/
def item (inner : Reader PathPattern) : Reader (PathPattern × Bool) := do
  let flags := (← get).flags
  match ← peek with
  | none => refuse
  | some '(' =>
    discard next
    group inner
  | some '[' =>
    let depth := (← get).rest.length
    return (.char (← classSet depth), true)
  | some c =>
    discard next
    match c with
    | '.' => return (.char (if flags.dotAll then .all else .exceptLineFeed), true)
    | '^' => return (.place (if flags.multiLine then .lineStart else .textStart), true)
    | '$' => return (.place (if flags.multiLine then .lineEnd else .textEnd), true)
    | '*' | '+' | '?' | '\x7b' => refuse
    | '\\' =>
      match ← escape with
      | .char c => return (← literal c, true)
      | .set s => return (.char s, true)
      | .test t => return (.place t, true)
    | c => return (← literal c, true)

/-- A number with blanks around it. -/
def number? : Reader (Option Nat) := do
  discard (takeWhile Text.isBlank)
  let ds ← takeWhile Char.isDigit
  discard (takeWhile Text.isBlank)
  if ds.isEmpty then return none
  let n := ds.foldl (fun n d => 10 * n + (d.toNat - '0'.toNat)) 0
  if n < twoTo 32 then return some n else refuse

/-- The bounds of a repetition, behind their opening brace. -/
def bounds : Reader (Nat × Option Nat) := do
  match ← number? with
  | none => refuse
  | some least =>
    let most ←
      if ← eat [','] then
        if (← peek) == some '\x7d' then pure none
        else
          match ← number? with
          | some n => pure (some n)
          | none => refuse
      else pure (some least)
    expect '\x7d'
    if most.any (· < least) then refuse
    return (least, most)

/-- The bounds of a repetition, if one follows. -/
def repetition? : Reader (Option (Nat × Option Nat)) := do
  skipSpace
  let found ←
    if ← eat ['*'] then pure (some (0, none))
    else if ← eat ['+'] then pure (some (1, none))
    else if ← eat ['?'] then pure (some (0, some 1))
    else if ← eat ['\x7b'] then
      let b ← bounds
      pure (some b)
    else pure none
  if found.isSome then
    skipSpace
    discard (eat ['?'])
  return found

/-- An item with its repetitions. -/
def repeatedItem (inner : Reader PathPattern) : Reader PathPattern := do
  let (p, repeatable) ← item inner
  let repetitions ← collect repetition?
  if !repeatable && !repetitions.isEmpty then refuse
  return repetitions.foldl (fun p (least, most) => .repeated p least most) p

/-- Items one after the other. -/
def sequence (inner : Reader PathPattern) : Reader PathPattern := do
  let items ← collect do
    skipSpace
    match ← peek with
    | none | some '|' | some ')' => return none
    | _ => return some (← repeatedItem inner)
  return items.foldr .seq .empty

/-- Alternatives; groups in them nest at most `depth` deep. -/
def alternatives : (depth : Nat) → Reader PathPattern
  | 0 => refuse
  | depth + 1 => do
    let first ← sequence (alternatives depth)
    let more ← collect do
      if ← eat ['|'] then return some (← sequence (alternatives depth))
      else return none
    return more.foldl .alt first

end Reader

/-- How large a pattern may be with its repetitions written out. -/
def maxSize : Nat := 250000

/-- **The pattern of a text**; none if the text is no pattern. -/
def read? (text : String) : Option PathPattern := do
  let (p, s) ← Reader.alternatives (text.length + 1) { rest := text.toList }
  if s.rest.isEmpty && p.size ≤ maxSize then some p else none

end ApiDocs.PathPattern
