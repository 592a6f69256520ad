/-!
# Character classes as ranges of code points

A class is a list of closed ranges of code points.
-/

namespace TerraIndex.Text

def inRanges (ranges : List (Nat × Nat)) (c : Char) : Bool :=
  ranges.any fun (first, last) => first ≤ c.toNat && c.toNat ≤ last

end TerraIndex.Text
