import Abacus.Program
/-! # The stack machine

A machine holds the instructions that are still pending and a stack of operands, the latest first. It
takes one instruction after the other and must end with exactly one operand. After a failure nothing
is left in it.
-/
namespace Abacus

inductive MachineError where
  | arithmetic (e : ArithmeticError)
  /-- An operand was asked for on a stack of `available` operands. -/
  | underflow (symbol : Char) (needed available : Nat)
  /-- The code has ended with this many operands. -/
  | unbalanced (operands : Nat)
deriving DecidableEq

def MachineError.message : MachineError → String
  | .arithmetic e => e.message
  | .underflow symbol needed available =>
    "`" ++ symbol.toString ++ "` needs " ++ toString needed ++ " operand(s), " ++ toString available
      ++ " available"
  | .unbalanced operands => "program left " ++ toString operands ++ " operands instead of one"

structure Machine where
  pending : List Instruction := []
  operands : List Number := []
deriving DecidableEq

namespace Machine

def empty : Machine := {}

def isDrained (m : Machine) : Bool := m.pending.isEmpty && m.operands.isEmpty

/-- An instruction that fails has lost the operands it took. -/
structure Fault where
  error : MachineError
  operands : List Number
deriving DecidableEq

def pop (symbol : Char) (needed : Nat) (ns : List Number) : Except Fault (Number × List Number) :=
  let available := ns.length
  match ns with
  | n :: rest => .ok (n, rest)
  | [] => .error ⟨.underflow symbol needed available, []⟩

def step : Instruction → List Number → Except Fault (List Number)
  | .push n, ns => .ok (n :: ns)
  | .unary s, ns => do
    let (a, rest) ← pop s.symbol 1 ns
    let v ← (s.apply a).mapError fun e => ⟨.arithmetic e, rest⟩
    return v :: rest
  | .binary op, ns => do
    -- The right operand is the later one.
    let (b, rest) ← pop op.symbol 2 ns
    let (a, rest) ← pop op.symbol 2 rest
    let v ← (op.apply a b).mapError fun e => ⟨.arithmetic e, rest⟩
    return v :: rest

/-- The result, and what is left of the code and of the stack. -/
def execute : List Instruction → List Number → Except MachineError Number × Machine
  | [], [n] => (.ok n, {})
  | [], ns => (.error (.unbalanced ns.length), { operands := ns })
  | i :: rest, ns =>
    match step i ns with
    | .ok ns' => execute rest ns'
    | .error f => (.error f.error, ⟨rest, f.operands⟩)

def load (_ : Machine) (p : Program) : Machine := ⟨p.code, []⟩

/-- Works off what is pending. A failure clears the machine. -/
def reduce (m : Machine) : Except MachineError Number × Machine :=
  match execute m.pending m.operands with
  | (.ok n, m') => (.ok n, m')
  | (.error e, _) => (.error e, empty)

def run (m : Machine) (e : Expr) : Except MachineError Number × Machine :=
  (m.load (.ofExpr e)).reduce

end Machine

end Abacus
