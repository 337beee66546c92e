/-! # Decimals

A decimal is an integer scaled by a power of ten. It is what a literal with a point spells, and what a
float is written as.
-/
namespace Abacus

/-- The value `digits · 10 ^ exponent`. -/
structure Decimal where
  digits : Nat
  exponent : Int
deriving DecidableEq

namespace Decimal

def ofDigits (whole fraction : List Char) : Decimal :=
  ⟨Nat.ofDigitChars 10 (whole ++ fraction) 0, -(fraction.length : Int)⟩

/-- The nearest double, which is infinite for a decimal out of range. -/
def toFloat (d : Decimal) : Float := Float.ofScientific d.digits (d.exponent < 0) d.exponent.natAbs

/-- Drops trailing zeros of the digits into the exponent. -/
def trim (d : Decimal) : Decimal :=
  if d.digits ≠ 0 ∧ d.digits % 10 = 0 then
    trim ⟨d.digits / 10, d.exponent + 1⟩
  else d
termination_by d.digits
decreasing_by omega

end Decimal

end Abacus
