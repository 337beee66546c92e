import Abacus.Expr
import Abacus.Text.Align
/-! # Programs

Postfix code for a machine with a stack of operands: operands come before the operator that combines
them, the left one before the right one.
-/
namespace Abacus

inductive Instruction where
  | push (n : Number)
  | unary (s : Sign)
  | binary (op : Operator)
deriving DecidableEq

namespace Instruction

def text : Instruction → String
  | push n => "push " ++ n.text
  | unary s => "unary " ++ s.symbol.toString
  | binary op => "binary " ++ op.symbol.toString

def sameValue : Instruction → Instruction → Bool
  | push a, push b => a.sameValue b
  | unary s, unary t => s == t
  | binary o, binary p => o == p
  | _, _ => false

end Instruction

/-- The code of an expression, with more code behind it. -/
def Expr.emit : Expr → List Instruction → List Instruction
  | literal n, k => .push n :: k
  | signed s e, k => e.emit (.unary s :: k)
  | binary op l r, k => l.emit (r.emit (.binary op :: k))

structure Program where
  code : List Instruction
deriving DecidableEq

namespace Program

def ofExpr (e : Expr) : Program := ⟨e.emit []⟩

def size (p : Program) : Nat := p.code.length

def lines (p : Program) : List String :=
  p.code.mapIdx fun i x => Text.alignRight 4 (toString i) ++ "  " ++ x.text ++ "\n"

def listing (p : Program) : String := String.join p.lines

def sameValue (p q : Program) : Bool := p.code.isEqv q.code Instruction.sameValue

end Program

theorem Expr.emit_eq_append (e : Expr) (k : List Instruction) : e.emit k = e.emit [] ++ k := by
  induction e generalizing k with
  | literal n => rfl
  | signed s e ih => rw [emit, ih, emit, ih [_], List.append_assoc, List.singleton_append]
  | binary op l r ihl ihr =>
    rw [emit, ihl, ihr, emit, ihl (r.emit _), ihr [_]]
    simp

end Abacus
