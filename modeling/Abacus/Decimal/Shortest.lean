import Abacus.Decimal
/-! # The shortest decimal of a double

A double stands for every real that rounds to it. Among the decimals in that interval the search
takes the fewest digits, then the nearest to the double, and the greater of two equally near ones.
All comparisons are exact: two scaled integers are brought to a common scale and compared as naturals.
-/
namespace Abacus

/-- The positive real `mantissa · 2 ^ exponent` as a double holds it. -/
structure Binary where
  mantissa : Nat
  exponent : Int
  /-- The next double below lies half as far away as the next one above. -/
  narrowBelow : Bool
deriving DecidableEq

inductive Double where
  | nan
  | infinite (negative : Bool)
  /-- Zero has the mantissa `0`. -/
  | finite (negative : Bool) (value : Binary)
deriving DecidableEq

def Double.ofBits (bits : UInt64) : Double :=
  let negative := bits >>> 63 == 1
  let exponent : Nat := (bits >>> 52 &&& 0x7FF).toNat
  let fraction : Nat := (bits &&& 0xFFFFFFFFFFFFF).toNat
  if exponent = 0x7FF then
    if fraction = 0 then .infinite negative else .nan
  else if exponent = 0 then
    -- The leading bit is not set.
    .finite negative ⟨fraction, -1074, false⟩
  else
    .finite negative ⟨0x10000000000000 + fraction, exponent - 1075, fraction = 0 && 1 < exponent⟩

def power (base : Nat) (e : Int) : Nat := base.pow e.toNat

/-- Compares `a · 10 ^ i` with `b · 2 ^ j`. -/
def compareScaled (a : Nat) (i : Int) (b : Nat) (j : Int) : Ordering :=
  compare (a * power 10 i * power 2 (-j)) (b * power 2 j * power 10 (-i))

namespace Binary

/-- Whether the decimal rounds to this double. -/
def readsBack (x : Binary) (d : Decimal) : Bool :=
  -- The interval reaches halfway to either neighbour. Ties go to the even mantissa.
  let lower := if x.narrowBelow then 4 * x.mantissa - 1 else 4 * x.mantissa - 2
  let fromBelow := compareScaled d.digits d.exponent lower (x.exponent - 2)
  let fromAbove := compareScaled d.digits d.exponent (4 * x.mantissa + 2) (x.exponent - 2)
  let closed := x.mantissa % 2 == 0
  (fromBelow == .gt || closed && fromBelow == .eq) && (fromAbove == .lt || closed && fromAbove == .eq)

def multiplesOf (x : Binary) (e : Int) : Nat :=
  (x.mantissa * power 2 x.exponent * power 10 (-e)) / (power 2 (-x.exponent) * power 10 e)

/-- The least `k` with the value below `10 ^ k`. -/
def magnitude (x : Binary) : Int :=
  -- The binary logarithm gives it up to one.
  let k := (x.mantissa.log2 + x.exponent) * 30103 / 100000 + 1
  if compareScaled 1 k x.mantissa x.exponent = .gt then k else k + 1

def nearestAt (x : Binary) (e : Int) : Option Decimal :=
  -- Of the decimals with last place `10 ^ e` only the two neighbours of the value can be nearest.
  let n := x.multiplesOf e
  match x.readsBack ⟨n, e⟩, x.readsBack ⟨n + 1, e⟩ with
  | true, true =>
    if compareScaled (2 * n + 1) e (2 * x.mantissa) x.exponent = .gt then some ⟨n, e⟩ else some ⟨n + 1, e⟩
  | true, false => some ⟨n, e⟩
  | false, true => some ⟨n + 1, e⟩
  | false, false => none

def expansion (x : Binary) : Decimal :=
  ⟨x.mantissa * power 2 x.exponent * power 5 (-x.exponent), min x.exponent 0⟩

def shortest (x : Binary) : Decimal :=
  -- Seventeen digits are always enough.
  (((List.range 17).findSome? fun (n : Nat) => x.nearestAt (x.magnitude - 1 - n)).getD x.expansion).trim

end Binary

end Abacus
