/-!
# Decimal digits

What a sequence of decimal digits stands for. Integers are read and written up to
`maxIntegerDigits` digits.
-/

namespace TerraIndex

def maxIntegerDigits : Nat := 4300

def digitsValue (digits : List Char) : Nat :=
  digits.foldl (fun n d => n * 10 + (d.toNat - 0x30)) 0

end TerraIndex
