import ApiDocs.Number.Power

/-!
# Binary floating point numbers

A number literal is an IEEE 754 binary64 number. It is kept as its bit pattern, and all
arithmetic goes through exact natural numbers and one rounding step, `ofRatio`, which takes the
double nearest to a ratio and the even one of two that are equally near. So every operation here
can be reasoned about, and equality of numbers is equality of bits.

## Main definitions

* `Binary64`: a bit pattern.
* `Binary64.view`: what a pattern stands for: a dyadic `± m * 2 ^ q`, an infinity or no number.
* `Binary64.ofRatio`: the nearest double, ties to even.
* `Binary64.add`, `Binary64.mul`, `Binary64.div`: exact operation, then one rounding.
* `Binary64.ofDecimal`: the double nearest to a decimal.
-/

namespace ApiDocs

open Number (twoTo tenTo)

/-- A binary64 number, given by its bits. -/
structure Binary64 where
  bits : UInt64
  deriving DecidableEq, Repr, Inhabited

namespace Binary64

/-! ## Fields -/

/-- The sign bit. -/
def isNegative (x : Binary64) : Bool := twoTo 63 ≤ x.bits.toNat

/-- The biased exponent, eleven bits. -/
def exponentField (x : Binary64) : Nat := x.bits.toNat / twoTo 52 % twoTo 11

/-- The stored part of the significand, fifty-two bits. -/
def fractionField (x : Binary64) : Nat := x.bits.toNat % twoTo 52

/-- Assemble a pattern from its three fields. -/
def ofFields (neg : Bool) (exponent fraction : Nat) : Binary64 :=
  ⟨((if neg then twoTo 63 else 0) + exponent * twoTo 52 + fraction).toUInt64⟩

/-- Zero of the given sign. -/
def zero (neg : Bool) : Binary64 := ofFields neg 0 0

/-- Infinity of the given sign. -/
def infinity (neg : Bool) : Binary64 := ofFields neg 2047 0

/-- The pattern used for "not a number". -/
def nan : Binary64 := ofFields false 2047 (twoTo 51)

/-- What a bit pattern stands for. -/
inductive View where
  /-- The number `± significand * 2 ^ exponent`. -/
  | finite (neg : Bool) (significand : Nat) (exponent : Int)
  | infinite (neg : Bool)
  | nan
  deriving DecidableEq, Repr

/-- Read the fields of a pattern. -/
def view (x : Binary64) : View :=
  if x.exponentField = 2047 then
    if x.fractionField = 0 then .infinite x.isNegative else .nan
  else if x.exponentField = 0 then .finite x.isNegative x.fractionField (-1074)
  else .finite x.isNegative (twoTo 52 + x.fractionField) (x.exponentField - 1075)

/-- Is the pattern a number other than the infinities? -/
def isFinite (x : Binary64) : Bool := x.exponentField != 2047

/-! ## Rounding -/

/-- The quotient `num / den` rounded to a natural number, a half going to the even neighbour. -/
def roundHalfEven (num den : Nat) : Nat :=
  let q := num / den
  let r := num % den
  if 2 * r < den then q
  else if den < 2 * r then q + 1
  else if q % 2 = 0 then q else q + 1

/-- The fraction `num / den * 2 ^ shift`, as numerator and denominator. -/
def scaled (num den : Nat) (shift : Int) : Nat × Nat :=
  if 0 ≤ shift then (num * twoTo shift.toNat, den) else (num, den * twoTo (-shift).toNat)

/-- The exponent `e` with `2 ^ e ≤ num / den < 2 ^ (e + 1)`, for a positive ratio. -/
def ratioLog2 (num den : Nat) : Int :=
  let guess : Int := num.log2 - den.log2
  let (n, d) := scaled num den (-guess)
  if d ≤ n then guess else guess - 1

/-- Store `significand * 2 ^ exponent`, where the significand has at most 53 bits, or is `2 ^ 53`
after rounding up. -/
def ofDyadic (neg : Bool) (significand : Nat) (exponent : Int) : Binary64 :=
  let (m, e) := if twoTo 53 ≤ significand then (significand / 2, exponent + 1)
    else (significand, exponent)
  if 971 < e then infinity neg
  else if m < twoTo 52 then ofFields neg 0 m
  else ofFields neg (e + 1075).toNat (m - twoTo 52)

/-- **The double nearest to `± num / den`,** the even one of two that are equally near. -/
def ofRatio (neg : Bool) (num den : Nat) : Binary64 :=
  if num = 0 then zero neg
  else
    let exponent := max (ratioLog2 num den - 52) (-1074)
    let (n, d) := scaled num den (-exponent)
    ofDyadic neg (roundHalfEven n d) exponent

/-- The double nearest to a natural number. -/
def ofNat (n : Nat) : Binary64 := ofRatio false n 1

/-- The double nearest to an integer. -/
def ofInt (n : Int) : Binary64 := ofRatio (n < 0) n.natAbs 1

/-- The double nearest to `± digits * 10 ^ exponent`. Exponents so far out that the result is an
infinity or a zero whatever the digits are not expanded. -/
def ofDecimal (neg : Bool) (digits : Nat) (exponent : Int) : Binary64 :=
  let length : Int := (Nat.toDigits 10 digits).length
  if digits = 0 then zero neg
  else if 400 < exponent + length then infinity neg
  else if exponent + length < -400 then zero neg
  else if 0 ≤ exponent then ofRatio neg (digits * tenTo exponent.toNat) 1
  else ofRatio neg digits (tenTo (-exponent).toNat)

/-! ## Arithmetic -/

/-- Flip the sign bit. -/
def neg (x : Binary64) : Binary64 := ⟨x.bits ^^^ 0x8000000000000000⟩

/-- The signed dyadic `m * 2 ^ q` rounded to a double; the sign of a zero is given. -/
def ofSigned (zeroNeg : Bool) (m : Int) (q : Int) : Binary64 :=
  if m = 0 then zero zeroNeg
  else
    let (n, d) := scaled m.natAbs 1 q
    ofRatio (m < 0) n d

/-- The signed integer `± m`. -/
def signed (neg : Bool) (m : Nat) : Int := if neg then -(m : Int) else m

/-- Sum, rounded once. -/
def add (x y : Binary64) : Binary64 :=
  match x.view, y.view with
  | .finite s m q, .finite t n r =>
    let e := min q r
    let a := signed s m * twoTo (q - e).toNat
    let b := signed t n * twoTo (r - e).toNat
    ofSigned (s && t) (a + b) e
  | .nan, _ | _, .nan => nan
  | .infinite s, .infinite t => if s = t then infinity s else nan
  | .infinite s, .finite .. => infinity s
  | .finite .., .infinite t => infinity t

/-- Product of two finite numbers, rounded once. -/
def mul (x y : Binary64) : Binary64 :=
  match x.view, y.view with
  | .finite s m q, .finite t n r =>
    let (a, d) := scaled (m * n) 1 (q + r)
    ofRatio (s != t) a d
  | .infinite s, .finite t n _ => if n = 0 then nan else infinity (s != t)
  | .finite s m _, .infinite t => if m = 0 then nan else infinity (s != t)
  | .infinite s, .infinite t => infinity (s != t)
  | .nan, _ | _, .nan => nan

/-- Quotient of two numbers, rounded once. -/
def div (x y : Binary64) : Binary64 :=
  match x.view, y.view with
  | .finite s m q, .finite t n r =>
    if n = 0 then if m = 0 then nan else infinity (s != t)
    else
      let (a, d) := scaled m n (q - r)
      ofRatio (s != t) a d
  | .infinite s, .finite t _ _ => infinity (s != t)
  | .finite s _ _, .infinite t => zero (s != t)
  | .infinite _, .infinite _ => nan
  | .nan, _ | _, .nan => nan

/-- Are the values equal? The two zeros are, and nothing that is not a number is. -/
def equals (x y : Binary64) : Bool :=
  match x.view, y.view with
  | .nan, _ | _, .nan => false
  | .finite _ 0 _, .finite _ 0 _ => true
  | _, _ => x == y

/-- The number one. -/
def one : Binary64 := ofNat 1

end Binary64

end ApiDocs
