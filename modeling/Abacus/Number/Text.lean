import Abacus.Number
import Abacus.Decimal.Layout
/-! # Text of numbers -/
namespace Abacus

/-- An integer in decimal; a float by the shortest decimal that reads back. -/
def Number.text : Number → String
  | int i => toString i.toInt
  | float x => (Double.ofBits x.toBits).text

end Abacus
