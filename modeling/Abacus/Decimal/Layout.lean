import Abacus.Decimal.Shortest
/-! # Text of decimals and doubles

Positional notation serves values from `10 ^ -4` up to but not including `10 ^ 16` and always shows a
fraction, so a float never looks like an integer. All others are scientific, without a plus sign,
padding or an empty fraction.
-/
namespace Abacus

namespace Decimal

/-- Whether a value whose leading digit has place `10 ^ e` is written positionally. -/
def isPositional (e : Int) : Bool := -4 ≤ e && e < 16

/-- The digits with the point behind the first `point` of them; zeros fill the gap on either side. -/
def positional (ds : List Char) (point : Int) : List Char :=
  if point ≤ 0 then
    '0' :: '.' :: (List.replicate (-point).toNat '0' ++ ds)
  else if point.toNat < ds.length then
    ds.take point.toNat ++ '.' :: ds.drop point.toNat
  else
    ds ++ List.replicate (point.toNat - ds.length) '0' ++ ['.', '0']

/-- The first digit, the others behind a point if there are any, and the exponent. -/
def scientific (ds : List Char) (e : Int) : List Char :=
  ds.take 1 ++ (if ds.length ≤ 1 then [] else '.' :: ds.drop 1) ++ 'e' :: (toString e).toList

def text (d : Decimal) : String :=
  let ds := Nat.toDigits 10 d.digits
  let point := ds.length + d.exponent
  String.ofList (if isPositional (point - 1) then positional ds point else scientific ds (point - 1))

end Decimal

namespace Double

def signText (negative : Bool) : String := if negative then "-" else ""

def text : Double → String
  | nan => "NaN"
  | infinite negative => signText negative ++ "inf"
  | finite negative x => signText negative ++ if x.mantissa = 0 then "0.0" else x.shortest.text

end Double

end Abacus
