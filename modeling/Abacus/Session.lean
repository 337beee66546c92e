import Abacus.Calculator
import Abacus.Sexp
import Abacus.Text.Style
/-! # Sessions

A session reads lines and answers each with every stage of its calculation: tokens, tree,
S-expression, program, and the value twice, from the tree and from the machine. It ends with its
input, or at a line that is not UTF-8. Its output is taken to accept all that is written: what a failing
write leads to is left out.
-/
namespace Abacus.Session

open Text

def prompt : String := Style.green.apply ">" ++ " "

def farewell : String := Style.yellow.apply "exiting..." ++ "\n"

def label (name : String) : String := Style.cyan.apply (alignRight 8 name)

def field (name content : String) : String := label name ++ " " ++ content ++ "\n"

/-- What was written about a line, up to the failure if there is one. -/
structure Report where
  output : String
  failure : Option Error
deriving DecidableEq

def tokenTexts (tokens : List Token) : String := String.join (tokens.map fun t => t.text ++ " ")

def views (e : Expr) : String :=
  field "tree" e.text ++ field "sexp" (Sexp.ofExpr e).text
    ++ label "program" ++ "\n" ++ (Program.ofExpr e).listing

def value (name : String) (n : Number) : String := field name (Style.bold.apply n.text)

def reportTree (e : Expr) : Report :=
  match e.eval with
  | .error err => ⟨views e, some (.arithmetic err)⟩
  | .ok n =>
    match (Machine.empty.run e).1 with
    | .error err => ⟨views e ++ value "interp" n, some (.machine err)⟩
    | .ok m => ⟨views e ++ value "interp" n ++ value "vm" m, none⟩

def report (text : String) : Report :=
  match Lexer.ofText text with
  | .error err => ⟨label "tokens" ++ " ", some (.lexical err)⟩
  | .ok l =>
    let s := l.cursor.stream
    let start := label "tokens" ++ " " ++ tokenTexts s.tokens
    match s.failure with
    | some err => ⟨start, some (.lexical err)⟩
    | none =>
      match Parser.parse .standard l.cursor with
      | .error err => ⟨start ++ "\n", some (.grammatical err)⟩
      | .ok e =>
        let r := reportTree e
        ⟨start ++ "\n" ++ r.output, r.failure⟩

def errorLine (e : Error) : String := Style.bold.apply (Style.red.apply "error:") ++ " " ++ e.message ++ "\n"

def answer (text : String) : String :=
  if text.toList.all isBlank then ""
  else
    let r := report text
    r.output ++ (r.failure.map errorLine).getD ""

/-- The lines of an input, each with its end; the last one may have none. -/
def lines (input : List UInt8) : List (List UInt8) :=
  input.foldr
    (fun b ls =>
      if b = 10 then [b] :: ls
      else
        match ls with
        | [] => [[b]]
        | l :: ls => (b :: l) :: ls)
    []

/-- The text of a line without its end, which is a line feed or a carriage return and a line feed. -/
def lineText? (line : List UInt8) : Option String :=
  let content :=
    match line.reverse with
    | 10 :: 13 :: l => l.reverse
    | 10 :: l => l.reverse
    | _ => line
  String.fromUTF8? content.toByteArray

def texts (input : List UInt8) : List String :=
  ((lines input).map lineText?).takeWhile Option.isSome |>.filterMap id

def transcript (input : List UInt8) : String :=
  String.join ((texts input).map fun t => prompt ++ answer t) ++ prompt ++ farewell

/-- The code at the end of the input, and also at a line that cannot be read. -/
def exitCode : UInt32 := 0

end Abacus.Session
