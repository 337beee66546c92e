import Abacus.Token
/-! # Operators and signs

An operator stands between two operands, a sign before one. Plus and minus are both, and only their
place in the text tells which.
-/
namespace Abacus

inductive Operator where
  | add
  | sub
  | mul
  | div
deriving DecidableEq

namespace Operator

def mark : Operator → Mark
  | add => .plus
  | sub => .minus
  | mul => .star
  | div => .slash

def ofMark? : Mark → Option Operator
  | .plus => some add
  | .minus => some sub
  | .star => some mul
  | .slash => some div
  | .leftParen | .rightParen => none

def symbol (op : Operator) : Char := op.mark.toChar

def apply : Operator → Number → Number → Except ArithmeticError Number
  | add => Number.add
  | sub => Number.sub
  | mul => Number.mul
  | div => Number.div

end Operator

inductive Sign where
  | plus
  | minus
deriving DecidableEq

namespace Sign

def mark : Sign → Mark
  | plus => .plus
  | minus => .minus

def ofMark? : Mark → Option Sign
  | .plus => some plus
  | .minus => some minus
  | _ => none

def symbol (s : Sign) : Char := s.mark.toChar

def apply : Sign → Number → Except ArithmeticError Number
  | plus, n => .ok n
  | minus, n => n.neg

end Sign

end Abacus
