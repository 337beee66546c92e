import Abacus.Expr
/-! # S-expressions

The view of an expression as nested lists, each with its operator or sign in front. Any other nesting
of numbers and symbols is an S-expression too.
-/
namespace Abacus

inductive Sexp where
  | number (n : Number)
  | symbol (c : Char)
  | list (items : List Sexp)

namespace Sexp

def ofExpr : Expr → Sexp
  | .literal n => number n
  | .signed s e => list [symbol s.symbol, ofExpr e]
  | .binary op l r => list [symbol op.symbol, ofExpr l, ofExpr r]

mutual

/-- A list stands in parentheses, with one space between its items. -/
def text : Sexp → String
  | number n => n.text
  | symbol c => c.toString
  | list items => "(" ++ " ".intercalate (texts items) ++ ")"

def texts : List Sexp → List String
  | [] => []
  | item :: items => item.text :: texts items

end

mutual

def sameValue : Sexp → Sexp → Bool
  | number a, number b => a.sameValue b
  | symbol c, symbol d => c == d
  | list as, list bs => sameValues as bs
  | _, _ => false

def sameValues : List Sexp → List Sexp → Bool
  | [], [] => true
  | a :: as, b :: bs => a.sameValue b && sameValues as bs
  | _, _ => false

end

end Sexp

end Abacus
