/-!
# Powers of two and ten

Sizes of words are powers of two, and positions of decimal digits are powers of ten.
-/

namespace ApiDocs.Number

/-- The power `2 ^ n`. -/
def twoTo (n : Nat) : Nat := Nat.pow 2 n

/-- The power `10 ^ n`. -/
def tenTo (n : Nat) : Nat := Nat.pow 10 n

end ApiDocs.Number
