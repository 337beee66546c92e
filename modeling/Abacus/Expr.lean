import Abacus.Operator
/-! # Expressions

The tree of a line of arithmetic. Parentheses leave no node: grouping is the shape of the tree.
-/
namespace Abacus

inductive Expr where
  | literal (n : Number)
  | signed (s : Sign) (operand : Expr)
  | binary (op : Operator) (left right : Expr)
deriving DecidableEq

namespace Expr

def size : Expr → Nat
  | literal _ => 1
  | signed _ e => e.size + 1
  | binary _ l r => l.size + r.size + 1

/-- The number of nodes on the longest path from the root to a literal. -/
def height : Expr → Nat
  | literal _ => 1
  | signed _ e => e.height + 1
  | binary _ l r => max l.height r.height + 1

def text : Expr → String
  | literal n => n.text
  | signed s e => "(" ++ s.symbol.toString ++ e.text ++ ")"
  | binary op l r => "(" ++ l.text ++ " " ++ op.symbol.toString ++ " " ++ r.text ++ ")"

/-- The value of the tree, operands first and from left to right; the first failure decides. -/
def eval : Expr → Except ArithmeticError Number
  | literal n => .ok n
  | signed s e => e.eval.bind s.apply
  | binary op l r => l.eval.bind fun a => r.eval.bind fun b => op.apply a b

def sameValue : Expr → Expr → Bool
  | literal a, literal b => a.sameValue b
  | signed s a, signed t b => s == t && a.sameValue b
  | binary o a b, binary p c d => o == p && a.sameValue c && b.sameValue d
  | _, _ => false

theorem height_pos (e : Expr) : 0 < e.height := by cases e <;> simp [height]

end Expr

end Abacus
