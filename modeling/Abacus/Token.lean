import Abacus.Number.Text
/-! # Tokens

A token is a number, a mark, or the end of the input. Marks are the six one-character tokens.
-/
namespace Abacus

inductive Mark where
  | leftParen
  | rightParen
  | plus
  | minus
  | star
  | slash
deriving DecidableEq

namespace Mark

def all : List Mark := [leftParen, rightParen, plus, minus, star, slash]

def toChar : Mark → Char
  | leftParen => '('
  | rightParen => ')'
  | plus => '+'
  | minus => '-'
  | star => '*'
  | slash => '/'

def ofChar? (c : Char) : Option Mark := all.find? fun m => m.toChar == c

end Mark

inductive Token where
  | endOfInput
  | number (n : Number)
  | mark (m : Mark)
deriving DecidableEq

namespace Token

/-- A token without its value. -/
inductive Kind where
  | endOfInput
  | integer
  | float
  | mark (m : Mark)
deriving DecidableEq

def kind : Token → Kind
  | endOfInput => .endOfInput
  | number (.int _) => .integer
  | number (.float _) => .float
  | mark m => .mark m

def isEnd : Token → Bool
  | endOfInput => true
  | _ => false

def Kind.text : Kind → String
  | endOfInput => "end of input"
  | integer => "integer"
  | float => "float"
  | mark m => "`" ++ m.toChar.toString ++ "`"

def Kind.mark? : Kind → Option Mark
  | mark m => some m
  | _ => none

def text : Token → String
  | endOfInput => Kind.endOfInput.text
  | number n => n.text
  | mark m => m.toChar.toString

def sameValue : Token → Token → Bool
  | endOfInput, endOfInput => true
  | number a, number b => a.sameValue b
  | mark m, mark n => m == n
  | _, _ => false

end Token

end Abacus
