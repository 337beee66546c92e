/-! # Alignment -/
namespace Abacus.Text

/-- The text at the right end of a field. A text that is too long for the field stays whole. -/
def alignRight (width : Nat) (text : String) : String :=
  String.ofList (List.replicate (width - text.length) ' ') ++ text

end Abacus.Text
