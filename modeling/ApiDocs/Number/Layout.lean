import ApiDocs.Number.Shortest

/-!
# Number texts

Two texts of a number are needed. In displays a number is written positionally whatever its size
and without a point when it is whole. In JSON a number always shows that it is not an integer: it
has a point or an exponent, and the exponent comes into use from `1e16` up and below `1e-5`.

## Main definitions

* `Number.Layout`: the decisions of a number text.
* `Number.Layout.plain`, `Number.Layout.json`: the two layouts.
* `Binary64.text`: the text of a number.
-/

namespace ApiDocs

namespace Number

/-- The decisions of a number text. The decimal point of a number `0.d₁d₂… * 10 ^ point` stands
after `point` digits, so `point` tells the size. -/
structure Layout where
  /-- Which of two equally near decimals is taken. -/
  tie : Tie
  /-- Is a number with this position of the decimal point written without an exponent? -/
  positional : Int → Bool
  /-- What follows the digits of a whole number. -/
  wholeEnd : String

/-- The layout of displays: positional always. -/
def Layout.plain : Layout where
  tie := .up
  positional := fun _ => true
  wholeEnd := ""

/-- The layout of JSON texts: positional from `1e-5` to below `1e16`. -/
def Layout.json : Layout where
  tie := .even
  positional := fun point => -5 < point && point ≤ 16
  wholeEnd := ".0"

/-- Decimal digits of a natural number. -/
def digitsOf (n : Nat) : List Char := Nat.toDigits 10 n

/-- Write a decimal without an exponent. -/
def positionalText (layout : Layout) (digits : List Char) (point : Int) : List Char :=
  if point ≤ 0 then
    ['0', '.'] ++ List.replicate (-point).toNat '0' ++ digits
  else if digits.length ≤ point.toNat then
    digits ++ List.replicate (point.toNat - digits.length) '0' ++ layout.wholeEnd.toList
  else
    digits.take point.toNat ++ ['.'] ++ digits.drop point.toNat

/-- Write a decimal as one digit, the others after a point, and a signed exponent. -/
def exponentText (digits : List Char) (point : Int) : List Char :=
  let mantissa :=
    match digits with
    | [] => ['0']
    | [d] => [d]
    | d :: rest => d :: '.' :: rest
  let e := point - 1
  let sign := if e < 0 then '-' else '+'
  mantissa ++ ['e', sign] ++ digitsOf e.natAbs

/-- The text of a positive decimal. -/
def decimalText (layout : Layout) (d : Decimal) : List Char :=
  let digits := digitsOf d.digits
  let point := d.exponent + digits.length
  if layout.positional point then positionalText layout digits point
  else exponentText digits point

end Number

namespace Binary64

/-- The text of a number in a layout. -/
def text (layout : Number.Layout) (x : Binary64) : String :=
  match x.view with
  | .nan => "NaN"
  | .infinite neg => if neg then "-inf" else "inf"
  | .finite neg m q =>
    let digits :=
      if m = 0 then '0' :: layout.wholeEnd.toList
      else Number.decimalText layout (Number.shortest layout.tie m q)
    String.ofList (if neg then '-' :: digits else digits)

end Binary64

end ApiDocs
