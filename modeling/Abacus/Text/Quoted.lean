import Abacus.Text.DefaultIgnorable
import Abacus.Text.GraphemeExtend
import Abacus.Text.Invisible
import Abacus.Text.Unassigned
/-! # Quoted characters

A character in single quotes, as it is named in a message. The quote, the backslash and the common
controls have escapes of their own; what cannot be seen standing alone is written by code point.
-/
namespace Abacus.Text

def isVisible (c : Char) : Bool :=
  !(graphemeExtendRanges.contains c || defaultIgnorableRanges.contains c
    || invisibleRanges.contains c || unassignedRanges.contains c)

/-- The code point in lower-case hexadecimal digits, without padding. -/
def codePoint (c : Char) : String :=
  "\\u\x7b" ++ String.ofList (Nat.toDigits 16 c.toNat) ++ "\x7d"

def escaped (c : Char) : String :=
  match c with
  | '\x00' => "\\0"
  | '\t' => "\\t"
  | '\r' => "\\r"
  | '\n' => "\\n"
  | '\x27' => "\\'"
  | '\\' => "\\\\"
  | c => if isVisible c then c.toString else codePoint c

def quoted (c : Char) : String := "'" ++ escaped c ++ "'"

end Abacus.Text
