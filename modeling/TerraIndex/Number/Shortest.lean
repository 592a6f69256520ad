import TerraIndex.Number.Binary64
/-!
# The shortest decimal of a floating-point number

Among the decimals that read back as a given number, `Binary64.shortest` finds one with the fewest
digits and, of those, the nearest. On the grid of `n`-digit decimals only the two neighbours of
the exact value can qualify, so `n = 1, 2, …, 17` are tried in turn.

`Binary64.text` writes it: positionally for exponents from -4 to 15, with an exponent of at least
two digits otherwise.
-/

namespace TerraIndex

/-- The number `digits * 10 ^ power`. -/
structure Decimal where
  digits : Nat
  power : Int
deriving DecidableEq

namespace Decimal

/-- Moves trailing zeros of the digits into the power, at most `fuel` of them. -/
def trimZeros : Nat → Decimal → Decimal
  | 0, d => d
  | fuel + 1, d =>
    if d.digits % 10 = 0 ∧ d.digits ≠ 0 then trimZeros fuel ⟨d.digits / 10, d.power + 1⟩ else d

/-- The exponent mark is followed by a sign and at least two digits. -/
def exponentText (e : Int) : String :=
  let n := e.natAbs
  "e" ++ (if e < 0 then "-" else "+") ++ (if n < 10 then "0" else "") ++ n.repr

/-- The decimal in positional or scientific notation, always with a point in the former. -/
def text (d : Decimal) : String :=
  let cs := d.digits.repr.toList
  let point : Int := d.power + cs.length
  if point < -3 ∨ 16 < point then
    let tail := cs.drop 1
    String.ofList (cs.take 1 ++ (if tail.isEmpty then [] else '.' :: tail))
      ++ exponentText (point - 1)
  else if point ≤ 0 then
    String.ofList ("0.".toList ++ List.replicate (-point).toNat '0' ++ cs)
  else if (cs.length : Int) ≤ point then
    String.ofList (cs ++ List.replicate (point - cs.length).toNat '0' ++ ".0".toList)
  else
    String.ofList (cs.take point.toNat ++ '.' :: cs.drop point.toNat)

end Decimal

namespace Binary64

/-- The least `k` near a first estimate such that `num / den < 10 ^ k`. -/
def magnitudeTen (num den : Nat) : Int :=
  let guess : Int := ((Nat.log2 num : Int) - Nat.log2 den) * 30103 / 100000
  let below (k : Int) : Bool :=
    if k < 0 then num * tenTo (-k).toNat < den else num < den * tenTo k.toNat
  ([guess - 1, guess, guess + 1].find? below).getD (guess + 2)

/-- The neighbours of `num / den` on the grid of multiples of `10 ^ power`, the nearer first, and
of two equally near the even one. -/
def neighbours (num den : Nat) (power : Int) : List Nat :=
  let (n, d) :=
    if power < 0 then (num * tenTo (-power).toNat, den) else (num, den * tenTo power.toNat)
  let below := n / d
  let twice := 2 * (n % d)
  if twice < d ∨ (twice = d ∧ below % 2 = 0) then [below, below + 1] else [below + 1, below]

/-- The shortest decimal of the magnitude of a finite number. -/
def shortest (x : Binary64) : Decimal :=
  let (num, den) := x.ratio
  let top := magnitudeTen num den
  let onGrid (n : Nat) : Option Decimal :=
    let power := top - n
    ((neighbours num den power).find? fun m => ofDecimal x.isNegative m power == x).map (⟨·, power⟩)
  if x.isZero then ⟨0, 0⟩
  else
    let found := ((List.range 17).map (· + 1)).findSome? onGrid
    (found.getD ⟨num / den, 0⟩).trimZeros 400

/-- The text of a number; the last two branches are the texts of what is not finite. -/
def text (x : Binary64) : String :=
  let sign := if x.isNegative then "-" else ""
  if x.isFinite then sign ++ x.shortest.text
  else if x.isNaN then "nan"
  else sign ++ "inf"

end Binary64

end TerraIndex
