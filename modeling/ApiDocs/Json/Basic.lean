import ApiDocs.Number.Binary64

/-!
# JSON values

A JSON value keeps the members of an object in the order of the text, repeated names included:
what an order or a repetition means is decided by whoever decodes the object. Numbers are of two
kinds. A number without point and exponent that fits a 64-bit word is an integer; every other
number is a double.

## Main definitions

* `Json`: a JSON value.
* `Json.field?`: the value of a member.
-/

namespace ApiDocs

/-- A JSON value. -/
inductive Json where
  | null
  | bool (b : Bool)
  | int (n : Int)
  | real (x : Binary64)
  | str (s : String)
  | arr (items : List Json)
  | obj (members : List (String × Json))
  deriving Repr, Inhabited

namespace Json

/-- The value of the first member called `name`; nothing for a value that is no object. -/
def field? (name : String) : Json → Option Json
  | .obj members => (members.find? (·.1 == name)).map (·.2)
  | _ => none

/-- The text of a string value. -/
def str? : Json → Option String
  | .str s => some s
  | _ => none

/-- The truth value of a boolean. -/
def bool? : Json → Option Bool
  | .bool b => some b
  | _ => none

/-- The items of an array. -/
def arr? : Json → Option (List Json)
  | .arr items => some items
  | _ => none

/-- The members of an object. -/
def obj? : Json → Option (List (String × Json))
  | .obj members => some members
  | _ => none

/-- An integer that is not negative and below `bound`. -/
def below? (bound : Nat) : Json → Option Nat
  | .int n => if 0 ≤ n && n < bound then some n.toNat else none
  | _ => none

/-- A number of either kind, as a double. -/
def number? : Json → Option Binary64
  | .int n => some (Binary64.ofInt n)
  | .real x => some x
  | _ => none

/-- An optional value, `null` standing for its absence. -/
def ofOption (f : α → Json) : Option α → Json
  | some a => f a
  | none => .null

/-- A natural number. -/
def nat (n : Nat) : Json := .int n

/-- An array of strings. -/
def strs (xs : List String) : Json := .arr (xs.map .str)

end Json

end ApiDocs
