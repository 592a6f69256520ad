/-!
# Powers of two and of ten

The two bases between which a floating-point number moves when it is read from decimal text or
written as such.
-/

namespace TerraIndex

/-- Two to the power `n`. -/
def twoTo (n : Nat) : Nat := Nat.pow 2 n

/-- Ten to the power `n`. -/
def tenTo (n : Nat) : Nat := Nat.pow 10 n

end TerraIndex
