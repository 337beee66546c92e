import Abacus.Calculator
import Abacus.Decimal
import Abacus.Decimal.Layout
import Abacus.Decimal.Shortest
import Abacus.Expr
import Abacus.Expr.Parser
import Abacus.Machine
import Abacus.Main
import Abacus.Number
import Abacus.Number.Text
import Abacus.Operator
import Abacus.Program
import Abacus.Proofs.DoubleReading
import Abacus.Proofs.DoubleRounding
import Abacus.Proofs.DoubleText
import Abacus.Proofs.EvalFailures
import Abacus.Proofs.FaithfulViews
import Abacus.Proofs.IntegerValue
import Abacus.Proofs.LexerCalls
import Abacus.Proofs.LexerLayout
import Abacus.Proofs.LexerSpelling
import Abacus.Proofs.LexerStream
import Abacus.Proofs.ListingText
import Abacus.Proofs.MachineAgreement
import Abacus.Proofs.MachineFaults
import Abacus.Proofs.MachineHistory
import Abacus.Proofs.OperandBound
import Abacus.Proofs.ParserAcceptance
import Abacus.Proofs.ParserCompleteness
import Abacus.Proofs.ParserFeed
import Abacus.Proofs.ParserGrammar
import Abacus.Proofs.ParserLimits
import Abacus.Proofs.ParserLoad
import Abacus.Proofs.ParserProgress
import Abacus.Proofs.ParserRules
import Abacus.Proofs.ParserStream
import Abacus.Proofs.PrintedText
import Abacus.Proofs.ProgramBalance
import Abacus.Proofs.SessionLines
import Abacus.Proofs.SessionReport
import Abacus.Proofs.TextComposition
import Abacus.Proofs.TrailingBlanks
import Abacus.Session
import Abacus.Sexp
import Abacus.Text.Align
import Abacus.Text.Blank
import Abacus.Text.DefaultIgnorable
import Abacus.Text.GraphemeExtend
import Abacus.Text.Invisible
import Abacus.Text.Quoted
import Abacus.Text.Ranges
import Abacus.Text.Style
import Abacus.Text.Unassigned
import Abacus.Token
import Abacus.Token.Lexer
