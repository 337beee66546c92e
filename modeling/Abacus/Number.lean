/-! # Numbers

A number is a 64-bit signed integer or a double. Integers stay exact: a sum, difference, product or
negation that leaves the 64-bit range is refused and never wraps. A float operand makes the result a
float, and so does every division; there only a divisor that equals zero is refused.
-/
namespace Abacus

inductive ArithmeticError where
  | overflow
  | divisionByZero
deriving DecidableEq

def ArithmeticError.message : ArithmeticError → String
  | .overflow => "integer overflow"
  | .divisionByZero => "division by zero"

inductive Number where
  | int (i : Int64)
  | float (x : Float)
deriving DecidableEq

namespace Number

/-- The value as a double; an integer goes to the nearest one. -/
def toFloat : Number → Float
  | int i => Float.ofInt i.toInt
  | float x => x

def isFloat : Number → Bool
  | int _ => false
  | float _ => true

/-- Equality of values within one kind. Doubles compare as doubles, so NaN differs from itself and
the two zeros agree; an integer never equals a float. -/
def sameValue : Number → Number → Bool
  | int i, int j => i == j
  | float x, float y => x == y
  | _, _ => false

/-- Two integers agree when they are equal; otherwise the doubles may differ by `tolerance`. -/
def approxEq (a b : Number) (tolerance : Float) : Bool :=
  match a, b with
  | int i, int j => i == j
  | a, b => (a.toFloat - b.toFloat).abs ≤ tolerance

/-- The integers that 64 signed bits hold. -/
def Fits (i : Int) : Prop := Int64.minValue.toInt ≤ i ∧ i ≤ Int64.maxValue.toInt

instance (i : Int) : Decidable (Fits i) := inferInstanceAs (Decidable (_ ∧ _))

def ofInt (i : Int) : Except ArithmeticError Number :=
  if Fits i then .ok (int (Int64.ofInt i)) else .error .overflow

/-- Two integers are combined exactly; with a float among the operands both count as doubles. -/
def combine (onInts : Int → Int → Int) (onFloats : Float → Float → Float) :
    Number → Number → Except ArithmeticError Number
  | int i, int j => ofInt (onInts i.toInt j.toInt)
  | a, b => .ok (float (onFloats a.toFloat b.toFloat))

def add : Number → Number → Except ArithmeticError Number := combine (· + ·) (· + ·)

def sub : Number → Number → Except ArithmeticError Number := combine (· - ·) (· - ·)

def mul : Number → Number → Except ArithmeticError Number := combine (· * ·) (· * ·)

/-- Real division: the quotient of two integers is a float too. -/
def div (a b : Number) : Except ArithmeticError Number :=
  if b.toFloat == 0 then .error .divisionByZero else .ok (float (a.toFloat / b.toFloat))

def neg : Number → Except ArithmeticError Number
  | int i => ofInt (-i.toInt)
  | float x => .ok (float (-x))

end Number

end Abacus
