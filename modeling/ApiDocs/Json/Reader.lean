import ApiDocs.Json.Basic

/-!
# Reading JSON

The reader takes a value off the front of a text and returns the rest. Arrays and objects may
nest `nestingLimit` deep; the limit is also what the recursion descends on, so reading ends on
every text.

A number with a fraction, an exponent or too many digits is read the quick way: the leading digits
that fit a 64-bit word are taken as a double, which is then multiplied or divided by a power of ten.
Each of the steps rounds, and a result too large for a double is refused.

## Main definitions

* `Json.read`: a value off the front of a text.
* `Json.parse?`: a text that holds one value and nothing else.
-/

namespace ApiDocs.Json

open Number (twoTo tenTo)

/-- A reader takes a result off the front of the text and returns the rest. -/
abbrev Reader (α : Type) := List Char → Option (α × List Char)

/-- How deep arrays and objects may nest. -/
def nestingLimit : Nat := 127

/-- The four characters that may stand between the parts of a value. -/
def isGap (c : Char) : Bool := c = ' ' || c = '\n' || c = '\t' || c = '\x0d'

/-- Skip what stands between the parts of a value. -/
def skipGap (cs : List Char) : List Char := cs.dropWhile isGap

/-- Take a fixed word off the front. -/
def readWord (word : List Char) (value : Json) : Reader Json := fun cs =>
  (word.isPrefixOf? cs).map fun rest => (value, rest)

/-! ## Strings -/

/-- A piece of a string: a character, or a number written as a `u` escape. -/
inductive StringUnit where
  | char (c : Char)
  | code (n : Nat)
  deriving DecidableEq, Repr

/-- The value of a hexadecimal digit. -/
def hexValue? (c : Char) : Option Nat :=
  if c.isDigit then some (c.toNat - '0'.toNat)
  else if 'a' ≤ c ∧ c ≤ 'f' then some (c.toNat - 'a'.toNat + 10)
  else if 'A' ≤ c ∧ c ≤ 'F' then some (c.toNat - 'A'.toNat + 10)
  else none

/-- The number written by hexadecimal digits. -/
def hexNumber? (cs : List Char) : Option Nat :=
  cs.foldlM (fun n c => (hexValue? c).map (16 * n + ·)) 0

/-- The character that a one-letter escape stands for. -/
def escapedChar? (c : Char) : Option Char :=
  match c with
  | '"' => some '"'
  | '\\' => some '\\'
  | '/' => some '/'
  | 'b' => some '\x08'
  | 'f' => some '\x0c'
  | 'n' => some '\n'
  | 'r' => some '\x0d'
  | 't' => some '\t'
  | _ => none

/-- The pieces of a string up to its closing quote. -/
def readUnits : Reader (List StringUnit)
  | '"' :: rest => some ([], rest)
  | '\\' :: 'u' :: a :: b :: c :: d :: rest => do
    let n ← hexNumber? [a, b, c, d]
    let (units, rest) ← readUnits rest
    return (.code n :: units, rest)
  | '\\' :: e :: rest => do
    let c ← escapedChar? e
    let (units, rest) ← readUnits rest
    return (.char c :: units, rest)
  | c :: rest =>
    if c.toNat < 0x20 then none
    else do
      let (units, rest) ← readUnits rest
      return (.char c :: units, rest)
  | [] => none

/-- Is `n` the first half of a surrogate pair? -/
def isHighSurrogate (n : Nat) : Bool := 0xD800 ≤ n && n < 0xDC00

/-- Is `n` the second half of a surrogate pair? -/
def isLowSurrogate (n : Nat) : Bool := 0xDC00 ≤ n && n < 0xE000

/-- The character of a surrogate pair. -/
def pairChar (high low : Nat) : Char :=
  Char.ofNat (0x10000 + (high - 0xD800) * 0x400 + (low - 0xDC00))

/-- Join the pieces of a string; a half of a surrogate pair without the other is refused. -/
def joinUnits : List StringUnit → Option (List Char)
  | [] => some []
  | .char c :: rest => (joinUnits rest).map (c :: ·)
  | .code n :: rest =>
    if isHighSurrogate n then
      match rest with
      | .code m :: rest =>
        if isLowSurrogate m then (joinUnits rest).map (pairChar n m :: ·) else none
      | _ => none
    else if isLowSurrogate n then none
    else (joinUnits rest).map (Char.ofNat n :: ·)

/-- The rest of a string behind its opening quote. -/
def readString : Reader String := fun cs => do
  let (units, rest) ← readUnits cs
  let text ← joinUnits units
  return (String.ofList text, rest)

/-! ## Numbers -/

/-- The parts of a number as written. -/
structure Numeral where
  neg : Bool
  whole : List Char
  fraction : Option (List Char)
  exponent : Option Int
  deriving Repr

/-- The value of decimal digits. -/
def digitsValue (ds : List Char) : Nat :=
  ds.foldl (fun n d => 10 * n + (d.toNat - '0'.toNat)) 0

/-- Split off the leading digits. -/
def spanDigits (cs : List Char) : List Char × List Char :=
  (cs.takeWhile Char.isDigit, cs.dropWhile Char.isDigit)

/-- An exponent behind its letter. -/
def readExponent : Reader Int := fun cs =>
  let (neg, cs) :=
    match cs with
    | '-' :: rest => (true, rest)
    | '+' :: rest => (false, rest)
    | _ => (false, cs)
  match spanDigits cs with
  | ([], _) => none
  | (ds, rest) =>
    let n : Int := digitsValue ds
    some (if neg then -n else n, rest)

/-- A number as written. A whole part of more than one digit does not start with zero. -/
def readNumeral : Reader Numeral := fun cs => do
  let (neg, cs) :=
    match cs with
    | '-' :: rest => (true, rest)
    | _ => (false, cs)
  let (whole, cs) := spanDigits cs
  if whole.isEmpty || (whole.head? == some '0' && 1 < whole.length) then none
  let (fraction, cs) ←
    match cs with
    | '.' :: rest =>
      match spanDigits rest with
      | ([], _) => none
      | (ds, rest) => some (some ds, rest)
    | _ => some (none, cs)
  let (exponent, cs) ←
    match cs with
    | c :: rest =>
      if c = 'e' || c = 'E' then (readExponent rest).map fun (e, rest) => (some e, rest)
      else some (none, cs)
    | [] => some (none, cs)
  return (⟨neg, whole, fraction, exponent⟩, cs)

/-- Append digits to a word as long as it fits 64 bits; the digits left over come back. -/
def fillWord : Nat → List Char → Nat × List Char
  | word, [] => (word, [])
  | word, d :: ds =>
    let next := 10 * word + (d.toNat - '0'.toNat)
    if next < twoTo 64 then fillWord next ds else (word, d :: ds)

/-- Multiply a double by a power of ten in steps of at most `10 ^ 308`, each of which rounds.
Nothing when the result is too large. -/
def scaleByTen : Nat → Binary64 → Int → Option Binary64
  | 0, x, _ => some x
  | fuel + 1, x, e =>
    if e.natAbs ≤ 308 then
      if 0 ≤ e then
        let y := x.mul (Binary64.ofNat (tenTo e.natAbs))
        if y.isFinite then some y else none
      else some (x.div (Binary64.ofNat (tenTo e.natAbs)))
    else if x = Binary64.zero false then some x
    else if 0 ≤ e then none
    else scaleByTen fuel (x.div (Binary64.ofNat (tenTo 308))) (e + 308)

/-- The double of a number that is not an integer of 64 bits. Three steps of `scaleByTen` bring
every word to zero, so four are never used up. -/
def Numeral.double? (n : Numeral) : Option Binary64 := do
  let (word, left) := fillWord 0 n.whole
  let fraction := n.fraction.getD []
  let (word, unused) := fillWord word fraction
  let shift : Int := (left.length : Int) - (fraction.length - unused.length : Nat)
  let x ← scaleByTen 4 (Binary64.ofNat word) (shift + n.exponent.getD 0)
  return if n.neg then x.neg else x

/-- The value of a number: an integer if it is written as one and fits, else a double. -/
def Numeral.value? (n : Numeral) : Option Json :=
  let whole := digitsValue n.whole
  if n.fraction.isNone && n.exponent.isNone then
    if !n.neg && whole < twoTo 64 then some (.int whole)
    else if n.neg && whole != 0 && whole ≤ twoTo 63 then some (.int (-(whole : Int)))
    else n.double?.map .real
  else n.double?.map .real

/-- A number off the front of the text. -/
def readNumber : Reader Json := fun cs => do
  let (n, rest) ← readNumeral cs
  let v ← n.value?
  return (v, rest)

/-! ## Values -/

/-- A value that is neither array nor object. -/
def readScalar : Reader Json := fun cs =>
  match cs with
  | '"' :: rest => (readString rest).map fun (s, rest) => (.str s, rest)
  | 'n' :: _ => readWord ['n', 'u', 'l', 'l'] .null cs
  | 't' :: _ => readWord ['t', 'r', 'u', 'e'] (.bool true) cs
  | 'f' :: _ => readWord ['f', 'a', 'l', 's', 'e'] (.bool false) cs
  | _ => readNumber cs

/-- One or more items between commas, up to the character `close`. Each item takes at least one
character, so `fuel` may be the length of the text. -/
def readSeparated (item : Reader α) (close : Char) : Nat → Reader (List α)
  | 0, _ => none
  | fuel + 1, cs => do
    let (x, cs) ← item (skipGap cs)
    match skipGap cs with
    | ',' :: rest => do
      let (xs, rest) ← readSeparated item close fuel rest
      return (x :: xs, rest)
    | c :: rest => if c = close then return ([x], rest) else none
    | [] => none

/-- Items between commas, up to the character `close`; there may be none. -/
def readList (item : Reader α) (close : Char) : Reader (List α) := fun cs =>
  match skipGap cs with
  | c :: rest =>
    if c = close then some ([], rest) else readSeparated item close (c :: rest).length (c :: rest)
  | [] => none

/-- A member of an object: name, colon, value. -/
def readMember (value : Reader Json) : Reader (String × Json) := fun cs =>
  match cs with
  | '"' :: rest => do
    let (name, rest) ← readString rest
    match skipGap rest with
    | ':' :: rest => do
      let (v, rest) ← value (skipGap rest)
      return ((name, v), rest)
    | _ => none
  | _ => none

/-- **A value off the front of the text,** with at most `depth` arrays and objects inside one
another. -/
def read : Nat → Reader Json
  | 0, cs =>
    match cs with
    | '[' :: _ => none
    | '\x7b' :: _ => none
    | _ => readScalar cs
  | depth + 1, cs =>
    match cs with
    | '[' :: rest => (readList (read depth) ']' rest).map fun (xs, rest) => (.arr xs, rest)
    | '\x7b' :: rest =>
      (readList (readMember (read depth)) '\x7d' rest).map fun (ms, rest) => (.obj ms, rest)
    | _ => readScalar cs

/-- The value that a text holds, if it holds one and nothing else. -/
def parse? (text : String) : Option Json :=
  match read nestingLimit (skipGap text.toList) with
  | some (v, rest) => if (skipGap rest).isEmpty then some v else none
  | none => none

end ApiDocs.Json
