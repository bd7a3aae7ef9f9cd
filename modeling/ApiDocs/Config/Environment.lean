import ApiDocs.Json.Overlay
import ApiDocs.Text.Blank
import ApiDocs.Toml.Scalar

/-!
# Settings from the environment

A variable whose name starts with `namePrefix`, in letters of either case, is a setting. The rest of
its name is the name of the field, and two underscores lead into a table. Its text is read as a
value: a truth value, a number, a character or a string in quotes, a list in brackets or a table in
braces. A text that is none of these is itself the value.

## Main definitions

* `Environment.valueOf`: the value of a text.
* `Environment.fieldPath?`: the field that a variable sets.
* `Environment.layer`: all settings of an environment.
-/

namespace ApiDocs.Environment

open Json (Reader digitsValue)
open Number (twoTo)

/-! ## Values -/

/-- The blanks that separate the parts of a value. -/
def isGap (c : Char) : Bool := c = ' ' || c = '\t' || c = '\n' || c = '\x0c' || c = '\x0d'

/-- Skip blanks. -/
def skipGap (cs : List Char) : List Char := cs.dropWhile isGap

/-- Does the character end a text without quotes? -/
def isSeparator (c : Char) : Bool :=
  c = ',' || c = '\x7b' || c = '\x7d' || c = '[' || c = ']'

/-- Decimal digits and nothing else. -/
def digits? (cs : List Char) : Option (List Char) :=
  if !cs.isEmpty && cs.all Char.isDigit then some cs else none

/-- An integer of 64 bits, with a sign or without. -/
def integer? (cs : List Char) : Option Int := do
  let (neg, cs) := Toml.splitSign cs
  let n := digitsValue (← digits? cs)
  if neg then
    if n ≤ twoTo 63 then some (-(n : Int)) else none
  else if n < twoTo 64 then some n else none

/-- A number with a point. Digits may be missing on one side of it. -/
def decimal? (cs : List Char) : Option Binary64 := do
  let (neg, cs) := Toml.splitSign cs
  let (mantissa, power) := Toml.cutAt (fun c => c = 'e' || c = 'E') cs
  let (whole, fraction) := Toml.cutAt (· = '.') mantissa
  let fraction ← fraction
  let digits ← digits? (whole ++ fraction)
  let power : Int ← match power with
    | none => some 0
    | some p =>
      let (below, p) := Toml.splitSign p
      (digits? p).map fun ds => if below then -(digitsValue ds : Int) else digitsValue ds
  return Binary64.ofDecimal neg (digitsValue digits) (power - fraction.length)

/-- The value of a text without quotes. -/
def bareValue (cs : List Char) : Json :=
  let cs := Text.trim cs
  match decimal? cs with
  | some x => .real x
  | none =>
    if cs = "true".toList then .bool true
    else if cs = "false".toList then .bool false
    else
      match integer? cs with
      | some n => .int n
      | none => .str (String.ofList cs)

/-- Items between commas up to the character `close`. A comma may stand right before it. -/
def readItems (item : Reader α) (close : Char) : Nat → Reader (List α)
  | 0, _ => none
  | fuel + 1, cs =>
    if cs.head? = some close then some ([], cs.tail)
    else do
      let (x, cs) ← item cs
      match cs with
      | ',' :: rest => do
        let (xs, rest) ← readItems item close fuel rest
        return (x :: xs, rest)
      | c :: rest => if c = close then return ([x], rest) else none
      | [] => none

/-- May the character stand in a name without quotes? -/
def isNameChar (c : Char) : Bool := c.isAlphanum || c = '_' || c = '-'

/-- A name, with quotes or without. -/
def readName : Reader String := fun cs =>
  match cs with
  | '"' :: rest => (Toml.readBasic rest).map fun (text, rest) => (String.ofList text, rest)
  | _ =>
    match cs.takeWhile isNameChar with
    | [] => none
    | text => some (String.ofList text, cs.dropWhile isNameChar)

/-- A name, an equals sign and a value. -/
def readPair (value : Reader Json) : Reader (String × Json) := fun cs => do
  let (name, cs) ← readName (skipGap cs)
  match skipGap cs with
  | '=' :: rest => do
    let (v, rest) ← value rest
    return ((name, v), rest)
  | _ => none

/-- A value and the blanks around it. -/
def readValue : Nat → Reader Json
  | 0, _ => none
  | fuel + 1, cs => do
    let (v, rest) ← match skipGap cs with
      | '"' :: rest => (Toml.readBasic rest).map fun (s, rest) => (Json.str (String.ofList s), rest)
      | '\'' :: c :: '\'' :: rest => some (.str c.toString, rest)
      | '\'' :: _ => none
      | '[' :: rest =>
        (readItems (readValue fuel) ']' (rest.length + 1) rest).map fun (xs, rest) => (.arr xs, rest)
      | '\x7b' :: rest =>
        (readItems (readPair (readValue fuel)) '\x7d' (rest.length + 1) rest).map fun (ms, rest) =>
          (.obj (Table.ofList ms).entries, rest)
      | cs => some (bareValue (cs.takeWhile (!isSeparator ·)), cs.dropWhile (!isSeparator ·))
    return (v, skipGap rest)

/-- **The value of a text.** -/
def valueOf (text : String) : Json :=
  match readValue (text.length + 1) text.toList with
  | some (v, []) => v
  | _ => .str text

/-! ## Fields -/

/-- How the names of settings start. -/
def namePrefix : String := "TYDOC_"

/-- Two underscores are a step into a table. -/
def withDots : List Char → List Char
  | '_' :: '_' :: rest => '.' :: withDots rest
  | c :: rest => c :: withDots rest
  | [] => []

/-- A text in small letters, as far as they are those of the basic alphabet. -/
def smallLetters (cs : List Char) : List Char := cs.map Char.toLower

/-- The text behind the start of names. -/
def stripNamePrefix? (cs : List Char) : Option (List Char) :=
  let n := namePrefix.length
  if smallLetters (cs.take n) = smallLetters namePrefix.toList then some (cs.drop n) else none

/-- The field that a variable sets: the names from the outside in. -/
def fieldPath? (name : String) : Option (List String) := do
  let rest ← stripNamePrefix? (Text.trim name.toList)
  let parts := Text.splitOn '.' (smallLetters (Text.trim (withDots rest)))
  if parts.any List.isEmpty then none else some (parts.map String.ofList)

/-- A value within tables. -/
def nested (path : List String) (v : Json) : Json :=
  path.foldr (fun name inner => .obj [(name, inner)]) v

/-- The settings of one variable. -/
def settingOf (entry : String × String) : Json :=
  match fieldPath? entry.1 with
  | some path => nested path (valueOf entry.2)
  | none => .obj []

/-- **All settings of an environment.** Later variables win. -/
def layer (env : List (String × String)) : Json := Json.layered (env.map settingOf)

end ApiDocs.Environment
