import TerraIndex.Number.Power
/-!
# Binary floating-point numbers

A `Binary64` is a 64-bit pattern, read as IEEE 754 reads it: a sign, eleven exponent bits and
fifty-two fraction bits. All arithmetic on it is exact arithmetic on natural numbers.

`ofDecimal` rounds a decimal number to the nearest representable one, a tie to the even
significand, too large a magnitude to infinity.
-/

namespace TerraIndex

structure Binary64 where
  bits : UInt64
deriving DecidableEq, Inhabited

namespace Binary64

def isNegative (x : Binary64) : Bool := x.bits.toNat / twoTo 63 == 1

def exponentField (x : Binary64) : Nat := x.bits.toNat / twoTo 52 % twoTo 11

def fractionField (x : Binary64) : Nat := x.bits.toNat % twoTo 52

def isFinite (x : Binary64) : Bool := x.exponentField != 2047

def isNaN (x : Binary64) : Bool := !x.isFinite && x.fractionField != 0

/-- The magnitude of a finite number is `significand * 2 ^ exponent`. -/
def significand (x : Binary64) : Nat :=
  if x.exponentField = 0 then x.fractionField else twoTo 52 + x.fractionField

def exponent (x : Binary64) : Int :=
  if x.exponentField = 0 then -1074 else (x.exponentField : Int) - 1075

def isZero (x : Binary64) : Bool := x.isFinite && x.significand == 0

/-- The number with the given sign whose other 63 bits are `magnitude`. -/
def ofSignMagnitude (negative : Bool) (magnitude : Nat) : Binary64 :=
  ⟨UInt64.ofNat ((if negative then twoTo 63 else 0) + magnitude)⟩

def infinity (negative : Bool) : Binary64 := ofSignMagnitude negative (2047 * twoTo 52)

def nan : Binary64 := ofSignMagnitude false (2047 * twoTo 52 + twoTo 51)

/-- The integer nearest to `num / den`, a tie going to the even neighbour. -/
def divNearest (num den : Nat) : Nat :=
  let below := num / den
  let twice := 2 * (num % den)
  if twice > den || (twice == den && below % 2 == 1) then below + 1 else below

/-- `num / den` times `2 ^ (-power)`, again as a numerator and a denominator. -/
def unscale (num den : Nat) (power : Int) : Nat × Nat :=
  if power < 0 then (num * twoTo (-power).toNat, den) else (num, den * twoTo power.toNat)

/-- The power of two that leaves `num / den` a 53-bit integer part, or the least power there is. -/
def scaleOf (num den : Nat) : Int :=
  let guess := (Nat.log2 num : Int) - Nat.log2 den - 52
  let (n, d) := unscale num den guess
  max (if n < twoTo 52 * d then guess - 1 else guess) (-1074)

/-- The nearest number to `num / den`; a significand that rounds up to `2 ^ 53` carries into the
exponent by itself. -/
def ofRatio (negative : Bool) (num den : Nat) : Binary64 :=
  if num = 0 then ofSignMagnitude negative 0
  else
    let power := scaleOf num den
    let (n, d) := unscale num den power
    let m := divNearest n d
    let magnitude := if m < twoTo 52 then m else (power + 1075).toNat * twoTo 52 + (m - twoTo 52)
    ofSignMagnitude negative (min magnitude (2047 * twoTo 52))

/-- The nearest number to `digits * 10 ^ power`. Powers far outside the range are answered without
computing them: `10 ^ 400` exceeds every finite number, and `10 ^ power ≤ 8 ^ power` below zero. -/
def ofDecimal (negative : Bool) (digits : Nat) (power : Int) : Binary64 :=
  if digits = 0 then ofSignMagnitude negative 0
  else if power > 400 then infinity negative
  else if (Nat.log2 digits : Int) + 3 * power < -1200 then ofSignMagnitude negative 0
  else if power < 0 then ofRatio negative digits (tenTo (-power).toNat)
  else ofRatio negative (digits * tenTo power.toNat) 1

/-- The magnitude of a finite number as a numerator and a denominator. -/
def ratio (x : Binary64) : Nat × Nat := unscale x.significand 1 (-x.exponent)

/-- The integer that a finite number without fractional part stands for. -/
def toInt? (x : Binary64) : Option Int :=
  let (num, den) := x.ratio
  if x.isFinite && num % den == 0 then
    some (if x.isNegative then -(num / den : Nat) else (num / den : Nat))
  else none

/-- Equality of values: the two zeros are one, and `nan` differs from itself. -/
def sameValue (x y : Binary64) : Bool :=
  (x.bits == y.bits && !x.isNaN) || (x.isZero && y.isZero)

end Binary64

end TerraIndex
