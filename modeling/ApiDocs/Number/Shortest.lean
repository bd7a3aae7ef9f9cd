import ApiDocs.Number.Binary64

/-!
# Shortest decimals

The decimal text of a double has as few digits as possible such that reading it gives the same
double again, and of those the digits nearest to its value. The reals that round to the double
`m * 2 ^ q` form an interval, whose ends belong to it exactly when `m` is even. For one digit, two
digits, and so on, the two neighbours of the value on that decimal grid are tested against the
interval in exact arithmetic; seventeen digits always suffice.

## Main definitions

* `Number.Decimal`: digits and a power of ten.
* `Number.shortest`: the shortest decimal of a positive dyadic.
-/

namespace ApiDocs.Number

/-- The decimal `digits * 10 ^ exponent`. -/
structure Decimal where
  digits : Nat
  exponent : Int
  deriving DecidableEq, Repr

/-- Which of two neighbours of equal length and equal distance is taken. -/
inductive Tie where
  | up
  | even
  deriving DecidableEq, Repr

/-- The reals that round to a double, in units of `2 ^ unit`: `low`, the value itself, `high`, and
whether the ends belong to it. -/
structure RoundingInterval where
  low : Nat
  value : Nat
  high : Nat
  unit : Int
  closed : Bool
  deriving Repr

/-- The interval of `m * 2 ^ q`. Below a power of two the doubles lie twice as close, unless the
exponent is already the least. -/
def roundingInterval (m : Nat) (q : Int) : RoundingInterval where
  low := if m = twoTo 52 && q != -1074 then 4 * m - 1 else 4 * m - 2
  value := 4 * m
  high := 4 * m + 2
  unit := q - 2
  closed := m % 2 = 0

/-- Compare `a * 2 ^ p` with `b * 10 ^ k`. -/
def compareScaled (a : Nat) (p : Int) (b : Nat) (k : Int) : Ordering :=
  let left := a * twoTo p.toNat * tenTo (-k).toNat
  let right := b * tenTo k.toNat * twoTo (-p).toNat
  compare left right

/-- The largest `d` with `d * 10 ^ k ≤ a * 2 ^ p`. -/
def floorScaled (a : Nat) (p : Int) (k : Int) : Nat :=
  a * twoTo p.toNat * tenTo (-k).toNat / (tenTo k.toNat * twoTo (-p).toNat)

/-- Does `d * 10 ^ k` round to the double of the interval? -/
def RoundingInterval.holds (i : RoundingInterval) (d : Nat) (k : Int) : Bool :=
  let above := compareScaled i.low i.unit d k
  let below := compareScaled i.high i.unit d k
  (above == .lt || (i.closed && above == .eq)) && (below == .gt || (i.closed && below == .eq))

/-- The decimal with the grid `10 ^ k` next to the value, if one lies in the interval. -/
def RoundingInterval.onGrid? (i : RoundingInterval) (tie : Tie) (k : Int) : Option Decimal :=
  let down := floorScaled i.value i.unit k
  let up := down + 1
  match i.holds down k, i.holds up k with
  | false, false => none
  | true, false => some ⟨down, k⟩
  | false, true => some ⟨up, k⟩
  | true, true =>
    match compareScaled (2 * i.value) i.unit (down + up) k with
    | .lt => some ⟨down, k⟩
    | .gt => some ⟨up, k⟩
    | .eq =>
      match tie with
      | .up => some ⟨up, k⟩
      | .even => if down % 2 = 0 then some ⟨down, k⟩ else some ⟨up, k⟩

/-- The exponent `e` with `10 ^ e ≤ a * 2 ^ p < 10 ^ (e + 1)`, searched upward from `guess`. -/
def decimalExponent (a : Nat) (p : Int) : Nat → Int → Int
  | 0, guess => guess
  | fuel + 1, guess =>
    if compareScaled a p 1 (guess + 1) == .lt then guess else decimalExponent a p fuel (guess + 1)

/-- Remove the zeros at the end of the digits, at most `fuel` of them. -/
def dropTrailingZeros : Nat → Nat → Int → Decimal
  | 0, digits, exponent => ⟨digits, exponent⟩
  | fuel + 1, digits, exponent =>
    if digits % 10 = 0 && digits != 0 then dropTrailingZeros fuel (digits / 10) (exponent + 1)
    else ⟨digits, exponent⟩

/-- The first hit among the grids with `count`, `count + 1`, … digits. -/
def firstGrid (i : RoundingInterval) (tie : Tie) (e : Int) : Nat → Nat → Option Decimal
  | 0, _ => none
  | fuel + 1, count =>
    match i.onGrid? tie (e - count + 1) with
    | some d => some d
    | none => firstGrid i tie e fuel (count + 1)

/-- The shortest decimal that reads back as `m * 2 ^ q`, for a positive `m`. -/
def shortest (tie : Tie) (m : Nat) (q : Int) : Decimal :=
  let i := roundingInterval m q
  let low : Int := ((m.log2 : Int) + q) * 30103 / 100000 - 2
  let e := decimalExponent m q 8 low
  match firstGrid i tie e 17 1 with
  | some d => dropTrailingZeros 20 d.digits d.exponent
  | none => ⟨0, 0⟩

end ApiDocs.Number
