import ApiDocs.Text.Blank
import ApiDocs.Toml.Text

/-!
# Numbers and moments of TOML

A value that is neither string nor array nor table is one word: a truth value, an integer, a number
with a fraction or an exponent, or a moment. Digits may be grouped by underscores. A moment is a
date, a time of day, or both, and only then may have an offset.

## Main definitions

* `Toml.integer?`, `Toml.real?`: numbers.
* `Toml.isDate`, `Toml.isTime`, `Toml.isMoment`: moments.
* `Toml.readWordValue`: a word of any of these kinds.
-/

namespace ApiDocs.Toml

open Json (Reader hexValue? digitsValue)
open Number (twoTo)

/-! ## Digits -/

/-- Digits without the underscores that group them. An underscore stands between two digits. -/
def ungrouped? (isDigit : Char → Bool) (cs : List Char) : Option (List Char) :=
  let groups := Text.splitOn '_' cs
  if groups.all fun g => !g.isEmpty && g.all isDigit then some groups.flatten else none

/-- Decimal digits, grouped or not. -/
def decimals? : List Char → Option (List Char) := ungrouped? Char.isDigit

/-- The digits of a whole number: no zero in front of others. -/
def whole? (cs : List Char) : Option (List Char) := do
  let ds ← decimals? cs
  if ds.head? == some '0' && 1 < ds.length then none else some ds

/-- A sign and what follows it. -/
def splitSign : List Char → Bool × List Char
  | '-' :: rest => (true, rest)
  | '+' :: rest => (false, rest)
  | cs => (false, cs)

/-! ## Numbers -/

/-- A number in base `2 ^ bits`. -/
def powerDigits? (bits : Nat) (cs : List Char) : Option Nat := do
  let isDigit (c : Char) : Bool := (hexValue? c).any (· < twoTo bits)
  let ds ← ungrouped? isDigit cs
  ds.foldlM (fun n c => (hexValue? c).map (twoTo bits * n + ·)) 0

/-- The value of an integer, before its range is checked. -/
def integerValue? : List Char → Option Int
  | '0' :: 'x' :: rest => (powerDigits? 4 rest).map (↑·)
  | '0' :: 'o' :: rest => (powerDigits? 3 rest).map (↑·)
  | '0' :: 'b' :: rest => (powerDigits? 1 rest).map (↑·)
  | cs => do
    let (neg, cs) := splitSign cs
    let n : Int := digitsValue (← whole? cs)
    return if neg then -n else n

/-- An integer of 64 bits. -/
def integer? (cs : List Char) : Option Int := do
  let n ← integerValue? cs
  if -(twoTo 63 : Int) ≤ n && n < twoTo 63 then some n else none

/-- What stands before and behind the first character with a property. -/
def cutAt (p : Char → Bool) (cs : List Char) : List Char × Option (List Char) :=
  match cs.dropWhile (!p ·) with
  | [] => (cs, none)
  | _ :: rest => (cs.takeWhile (!p ·), some rest)

/-- The exponent behind its letter. -/
def exponent? (cs : List Char) : Option Int := do
  let (neg, cs) := splitSign cs
  let n : Int := digitsValue (← decimals? cs)
  return if neg then -n else n

/-- A number with a fraction or an exponent. One that is too large is refused. -/
def decimal? (cs : List Char) : Option Binary64 := do
  let (neg, cs) := splitSign cs
  let (mantissa, power) := cutAt (fun c => c = 'e' || c = 'E') cs
  let (whole, fraction) := cutAt (· = '.') mantissa
  if power.isNone && fraction.isNone then none
  let whole ← whole? whole
  let fraction ← match fraction with
    | some f => decimals? f
    | none => some []
  let power ← match power with
    | some p => exponent? p
    | none => some 0
  let x := Binary64.ofDecimal neg (digitsValue (whole ++ fraction)) (power - fraction.length)
  if x = Binary64.infinity false then none else some x

/-- An infinity or "not a number". -/
def special? (cs : List Char) : Option Binary64 :=
  let (neg, cs) := splitSign cs
  if cs = "inf".toList then some (Binary64.infinity neg)
  else if cs = "nan".toList then some Binary64.nan
  else none

/-- A number that is no integer. -/
def real? (cs : List Char) : Option Binary64 := (decimal? cs).or (special? cs)

/-! ## Moments -/

/-- A number of two digits that is at least `least` and at most `most`. -/
def twoDigits? (least most : Nat) (cs : List Char) : Option Nat :=
  let n := digitsValue cs
  if cs.length == 2 && cs.all Char.isDigit && least ≤ n && n ≤ most then some n else none

/-- The days of a month. -/
def daysOf (year month : Nat) : Nat :=
  if month = 2 then
    if (year % 4 = 0 && year % 100 != 0) || year % 400 = 0 then 29 else 28
  else if month = 4 || month = 6 || month = 9 || month = 11 then 30
  else 31

/-- Is the text a date? -/
def isDate (cs : List Char) : Bool :=
  match Text.splitOn '-' cs with
  | [y, m, d] =>
    y.length == 4 && y.all Char.isDigit &&
      match twoDigits? 1 12 m with
      | some month => (twoDigits? 1 (daysOf (digitsValue y) month) d).isSome
      | none => false
  | _ => false

/-- Is the text a number of seconds, with a fraction or without? -/
def isSeconds (cs : List Char) : Bool :=
  match cutAt (· = '.') cs with
  | (s, none) => (twoDigits? 0 60 s).isSome
  | (s, some f) => (twoDigits? 0 60 s).isSome && !f.isEmpty && f.all Char.isDigit

/-- Is the text a time of day? -/
def isTime (cs : List Char) : Bool :=
  match Text.splitOn ':' cs with
  | [h, m, s] => (twoDigits? 0 23 h).isSome && (twoDigits? 0 59 m).isSome && isSeconds s
  | _ => false

/-- Is the text hours and minutes? -/
def isOffset (cs : List Char) : Bool :=
  match Text.splitOn ':' cs with
  | [h, m] => (twoDigits? 0 23 h).isSome && (twoDigits? 0 59 m).isSome
  | _ => false

/-- Is the text a time of day, with an offset or without? -/
def isOffsetTime (cs : List Char) : Bool :=
  match cutAt (fun c => c = 'Z' || c = 'z' || c = '+' || c = '-') cs with
  | (time, none) => isTime time
  | (time, some offset) =>
    isTime time &&
      if cs.contains 'Z' || cs.contains 'z' then offset.isEmpty else isOffset offset

/-- Is the text a moment, with a letter between date and time? -/
def isMoment (cs : List Char) : Bool :=
  match cutAt (fun c => c = 'T' || c = 't') cs with
  | (date, some time) => isDate date && isOffsetTime time
  | (_, none) => isDate cs || isTime cs

/-- A moment as a value: a record of its text. No setting is a moment, so nothing reads it. -/
def momentValue (cs : List Char) : Json := .obj [("moment", .str (String.ofList cs))]

/-! ## Words -/

/-- May the character stand in a word? -/
def isWordChar (c : Char) : Bool :=
  c.isAlphanum || c = '_' || c = '+' || c = '-' || c = '.' || c = ':'

/-- The value of a word. -/
def wordValue? (word : List Char) : Option Json :=
  if word = "true".toList then some (.bool true)
  else if word = "false".toList then some (.bool false)
  else
    match integer? word with
    | some n => some (.int n)
    | none =>
      match real? word with
      | some x => some (.real x)
      | none => if isMoment word then some (momentValue word) else none

/-- A word as a value. A date may be followed by a blank and a time of day. -/
def readWordValue : Reader Json := fun cs =>
  let word := cs.takeWhile isWordChar
  let rest := cs.dropWhile isWordChar
  let more := (rest.drop 1).takeWhile isWordChar
  if isDate word && rest.head? == some ' ' && !more.isEmpty then
    if isOffsetTime more then
      some (momentValue (word ++ ' ' :: more), (rest.drop 1).dropWhile isWordChar)
    else none
  else (wordValue? word).map fun v => (v, rest)

end ApiDocs.Toml
