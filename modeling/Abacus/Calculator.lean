import Abacus.Expr.Parser
import Abacus.Machine
/-! # The calculator

What can be asked of a text: its tokens, its tree and its value, each with one kind of failure.
-/
namespace Abacus

inductive Error where
  | lexical (e : LexError)
  | grammatical (e : SyntaxError)
  | arithmetic (e : ArithmeticError)
  | machine (e : MachineError)
deriving DecidableEq

namespace Error

def message : Error → String
  | lexical e => e.message
  | grammatical e => e.message
  | arithmetic e => e.message
  | machine e => e.message

/-- The messages of what lies behind the failure, from the stage that reports it to the stage where
it arose. -/
def causes : Error → List String
  | grammatical (.lexical e) => [(SyntaxError.lexical e).message, e.message]
  | machine (.arithmetic e) => [(MachineError.arithmetic e).message, e.message]
  | e => [e.message]

end Error

def tokenize (text : String) : Except Error (List Token) := do
  let l ← (Lexer.ofText text).mapError .lexical
  l.allTokens.1.mapError .lexical

def parse (text : String) : Except Error Expr := do
  let l ← (Lexer.ofText text).mapError .lexical
  (Parser.parse .standard l.cursor).mapError .grammatical

def evaluate (text : String) : Except Error Number := do
  let e ← parse text
  e.eval.mapError .arithmetic

end Abacus
