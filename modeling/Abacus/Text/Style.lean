/-! # Terminal styles

A styled text stands between two control sequences, one that turns the style on and one that turns it
off again.
-/
namespace Abacus.Text

inductive Style where
  | red
  | green
  | yellow
  | cyan
  | bold
deriving DecidableEq

namespace Style

def on : Style → String
  | red => "31"
  | green => "32"
  | yellow => "33"
  | cyan => "36"
  | bold => "1"

/-- The code that turns the style off: the default colour, or no attributes at all. -/
def off : Style → String
  | bold => "0"
  | _ => "39"

def apply (s : Style) (text : String) : String :=
  "\x1b[" ++ s.on ++ "m" ++ text ++ "\x1b[" ++ s.off ++ "m"

end Style

end Abacus.Text
