import ApiDocs.Toml.Scalar
import ApiDocs.Toml.Tree

/-!
# Reading TOML

A TOML text is read line by line: a line holds a key and its value, the header of a table, or the
header of a table in an array. Values may nest `nestingLimit` deep, which is also what the recursion
descends on, and a key has at most as many parts.

## Main definitions

* `Toml.readKey`: a key of one or more parts.
* `Toml.readValue`: a value.
* `Toml.parse?`: the table that a text holds.
-/

namespace ApiDocs.Toml

open Json (Reader)

/-- How deep arrays and tables may nest within a value. -/
def nestingLimit : Nat := 79

/-! ## Keys -/

/-- May the character stand in a key without quotes? -/
def isKeyChar (c : Char) : Bool := c.isAlphanum || c = '_' || c = '-'

/-- One part of a key. -/
def readKeyPart : Reader String := fun cs =>
  match cs.takeWhile isKeyChar with
  | [] => (readQuoted cs).map fun (text, rest) => (String.ofList text, rest)
  | text => some (String.ofList text, cs.dropWhile isKeyChar)

/-- The parts of a key with dots between them. Each part takes at least one character, so `fuel`
may be the length of the text. -/
def readKeyParts : Nat → Reader (List String)
  | 0, _ => none
  | fuel + 1, cs => do
    let (part, cs) ← readKeyPart cs
    match skipGap cs with
    | '.' :: rest => do
      let (parts, rest) ← readKeyParts fuel (skipGap rest)
      return (part :: parts, rest)
    | rest => return ([part], rest)

/-- A key: the parts before the last, and the last. -/
def readKey : Reader (List String × String) := fun cs => do
  let (parts, rest) ← readKeyParts (cs.length + 1) cs
  if nestingLimit < parts.length then none
  let last ← parts.getLast?
  return ((parts.dropLast, last), rest)

/-! ## Values -/

/-- A key, an equals sign and a value. -/
def readPair (value : Reader Json) : Reader ((List String × String) × Json) := fun cs => do
  let (key, cs) ← readKey (skipGap cs)
  match skipGap cs with
  | '=' :: rest => do
    let (v, rest) ← value (skipGap rest)
    return ((key, v), rest)
  | _ => none

/-- The items of an array up to its closing bracket. A comma may stand behind the last item. -/
def readItems (value : Reader Json) : Nat → Reader (List Json)
  | 0, _ => none
  | fuel + 1, cs =>
    match skipTrivia cs with
    | ']' :: rest => some ([], rest)
    | cs => do
      let (x, cs) ← value cs
      match skipTrivia cs with
      | ',' :: rest => do
        let (xs, rest) ← readItems value fuel rest
        return (x :: xs, rest)
      | ']' :: rest => return ([x], rest)
      | _ => none

/-- The pairs of a table within a line, up to its closing brace. -/
def readPairs (value : Reader Json) : Nat → Entries → Reader Entries
  | 0, _, _ => none
  | fuel + 1, entries, cs => do
    let (((path, name), v), cs) ← readPair value cs
    let entries ← addValue path name v entries
    match skipGap cs with
    | ',' :: rest => readPairs value fuel entries rest
    | '\x7d' :: rest => return (entries, rest)
    | _ => none

/-- A table within a line, behind its opening brace. -/
def readInlineTable (value : Reader Json) : Reader Json := fun cs =>
  match skipGap cs with
  | '\x7d' :: rest => some (.obj [], rest)
  | cs => (readPairs value (cs.length + 1) [] cs).map fun (entries, rest) =>
    (.obj (entriesJson entries), rest)

/-- A value that is neither array nor table. -/
def readScalar : Reader Json := fun cs =>
  match cs with
  | '"' :: _ => (readString cs).map fun (text, rest) => (.str (String.ofList text), rest)
  | '\'' :: _ => (readString cs).map fun (text, rest) => (.str (String.ofList text), rest)
  | _ => readWordValue cs

/-- A value with at most `depth` arrays and tables inside one another. -/
def readValue : Nat → Reader Json
  | 0, cs =>
    match cs with
    | '[' :: _ => none
    | '\x7b' :: _ => none
    | _ => readScalar cs
  | depth + 1, cs =>
    match cs with
    | '[' :: rest =>
      (readItems (readValue depth) (rest.length + 1) rest).map fun (xs, rest) => (.arr xs, rest)
    | '\x7b' :: rest => readInlineTable (readValue depth) rest
    | _ => readScalar cs

/-! ## Lines -/

/-- What has been read of a text: its table, and the header that lines belong to. -/
structure Document where
  entries : Entries := []
  header : List String := []
  deriving Repr

/-- The end of a line: blanks, perhaps a comment, and a line break or the end of the text. -/
def endLine? (cs : List Char) : Option (List Char) :=
  match skipComment (skipGap cs) with
  | [] => some []
  | cs => lineBreak? cs

/-- A header behind its opening brackets, up to its closing ones. -/
def readHeader (close : List Char) : Reader (List String × String) := fun cs => do
  let (key, cs) ← readKey (skipGap cs)
  let rest ← Text.stripStart? close (skipGap cs)
  return (key, rest)

/-- The effect of one line that is not empty. -/
def readLine (d : Document) : Reader Document := fun cs =>
  match cs with
  | '[' :: '[' :: rest => do
    let ((path, name), rest) ← readHeader [']', ']'] rest
    let entries ← openTables path name d.entries
    return ({ entries, header := path ++ [name] }, rest)
  | '[' :: rest => do
    let ((path, name), rest) ← readHeader [']'] rest
    let entries ← openTable path name d.entries
    return ({ entries, header := path ++ [name] }, rest)
  | _ => do
    let (((path, name), v), rest) ← readPair (readValue nestingLimit) cs
    let entries ← grow .implied (fun _ => addValue path name v) d.header .defined d.entries
    return ({ d with entries }, rest)

/-- All lines. Each line takes at least one character, so `fuel` may be the length of the text. -/
def readLines : Nat → Document → List Char → Option Document
  | 0, _, _ => none
  | fuel + 1, d, cs =>
    match skipTrivia cs with
    | [] => some d
    | cs => do
      let (d, rest) ← readLine d cs
      readLines fuel d (← endLine? rest)

/-- The text without a mark of its byte order. -/
def skipMark : List Char → List Char
  | '\uFEFF' :: rest => rest
  | cs => cs

/-- **The table that a text holds.** -/
def parse? (text : String) : Option Json := do
  let cs := skipMark text.toList
  let d ← readLines (cs.length + 1) {} cs
  return .obj (entriesJson d.entries)

end ApiDocs.Toml
