import Abacus.Proofs.ProgramBalance

/-! # The lines of a listing

The text of a number consists of letters, digits, minus signs and points. So there is no line feed in
the text of an instruction, and a listing has one line for each instruction.
-/
namespace Abacus

/-! ## Characters of numbers -/

/-- The characters from which the texts of numbers are made. -/
def Number.isTextChar (c : Char) : Bool := c.isAlphanum || c == '-' || c == '.'

def NumberLike (text : List Char) : Prop := ∀ c ∈ text, Number.isTextChar c = true

instance (text : List Char) : Decidable (NumberLike text) :=
  decidable_of_iff (text.all Number.isTextChar = true) List.all_eq_true

theorem numberLike_of_isDigit {text : List Char} (h : ∀ c ∈ text, c.isDigit = true) : NumberLike text := by
  intro c hc
  simp [Number.isTextChar, Char.isAlphanum, h c hc]

theorem NumberLike.append {a b : List Char} (ha : NumberLike a) (hb : NumberLike b) :
    NumberLike (a ++ b) := List.forall_mem_append.mpr ⟨ha, hb⟩

theorem NumberLike.cons {c : Char} {a : List Char} (hc : Number.isTextChar c = true)
    (ha : NumberLike a) : NumberLike (c :: a) := List.forall_mem_cons.mpr ⟨hc, ha⟩

theorem NumberLike.sublist {a b : List Char} (hb : NumberLike b) (h : a.Sublist b) : NumberLike a :=
  fun c hc => hb c (h.subset hc)

theorem numberLike_zeros (n : Nat) : NumberLike (List.replicate n '0') := by
  intro c hc
  rw [List.eq_of_mem_replicate hc]
  rfl

theorem numberLike_toDigits (n : Nat) : NumberLike (Nat.toDigits 10 n) :=
  numberLike_of_isDigit fun _ hc => Nat.isDigit_of_mem_toDigits (by decide) (by decide) hc

theorem numberLike_toString_nat (n : Nat) : NumberLike (toString n).toList := by
  rw [show (toString n).toList = Nat.toDigits 10 n from Nat.toList_repr]
  exact numberLike_toDigits n

theorem numberLike_toString_int (i : Int) : NumberLike (toString i).toList := by
  cases i with
  | ofNat n => exact numberLike_toString_nat n
  | negSucc n =>
    have htext : toString (Int.negSucc n) = "-" ++ toString (n + 1) := rfl
    rw [htext, String.toList_append]
    exact (numberLike_toString_nat (n + 1)).cons rfl

theorem Decimal.numberLike_positional {ds : List Char} (h : NumberLike ds) (point : Int) :
    NumberLike (positional ds point) := by
  unfold positional
  split
  · exact ((numberLike_zeros _).append h).cons rfl |>.cons rfl
  · split
    · exact (h.sublist (ds.take_sublist _)).append ((h.sublist (ds.drop_sublist _)).cons rfl)
    · exact (h.append (numberLike_zeros _)).append (by decide)

theorem Decimal.numberLike_scientific {ds : List Char} (h : NumberLike ds) (e : Int) :
    NumberLike (scientific ds e) := by
  unfold scientific
  refine ((h.sublist (ds.take_sublist _)).append ?_).append ((numberLike_toString_int e).cons rfl)
  split
  · exact nofun
  · exact (h.sublist (ds.drop_sublist _)).cons rfl

theorem Decimal.numberLike_text (d : Decimal) : NumberLike d.text.toList := by
  simp only [text, String.toList_ofList]
  split
  · exact numberLike_positional (numberLike_toDigits _) _
  · exact numberLike_scientific (numberLike_toDigits _) _

theorem Double.numberLike_text (x : Double) : NumberLike x.text.toList := by
  have hsign : ∀ negative, NumberLike (signText negative).toList := by decide
  cases x with
  | nan => decide
  | infinite negative =>
    rw [text, String.toList_append]
    exact (hsign negative).append (by decide)
  | finite negative x =>
    rw [text, String.toList_append]
    refine (hsign negative).append ?_
    split
    · decide
    · exact x.shortest.numberLike_text

theorem Number.numberLike_text (n : Number) : NumberLike n.text.toList := by
  cases n with
  | int i => exact numberLike_toString_int i.toInt
  | float x => exact (Double.ofBits x.toBits).numberLike_text

theorem NumberLike.newline_not_mem {text : List Char} (h : NumberLike text) : '\n' ∉ text := by
  intro hmem
  have hchar := h _ hmem
  revert hchar
  decide

/-! ## Lines -/

theorem Mark.toChar_ne_newline (m : Mark) : m.toChar ≠ '\n' := by
  cases m <;> decide

theorem Instruction.newline_not_mem_text (i : Instruction) : '\n' ∉ i.text.toList := by
  cases i with
  | push n => simp [text, n.numberLike_text.newline_not_mem]
  | unary s => simp [text, Sign.symbol, s.mark.toChar_ne_newline.symm]
  | binary op => simp [text, Operator.symbol, op.mark.toChar_ne_newline.symm]

theorem Text.newline_not_mem_alignRight {text : String} (h : '\n' ∉ text.toList) (width : Nat) :
    '\n' ∉ (alignRight width text).toList := by
  simp [alignRight, h]

namespace Program

/-- Every line ends with its only line feed. -/
theorem count_newline_line {p : Program} {line : String} (h : line ∈ p.lines) :
    line.toList.count '\n' = 1 := by
  obtain ⟨k, hk, rfl⟩ := List.mem_mapIdx.mp h
  have hindex := List.count_eq_zero.mpr
    (Text.newline_not_mem_alignRight (numberLike_toString_nat k).newline_not_mem 4)
  have htext := List.count_eq_zero.mpr (p.code.get ⟨k, hk⟩).newline_not_mem_text
  rw [List.get_eq_getElem] at htext
  have hrest : "  ".toList.count '\n' = 0 ∧ "\n".toList.count '\n' = 1 := by decide
  rw [String.toList_append, String.toList_append, String.toList_append, List.count_append,
    List.count_append, List.count_append, hindex, htext, hrest.1, hrest.2]

theorem count_newline_listing (p : Program) : p.listing.toList.count '\n' = p.size := by
  have hlines : p.lines.map (List.count '\n' ∘ String.toList) = p.lines.map fun _ => 1 :=
    List.map_congr_left fun _ h => count_newline_line h
  rw [listing, String.toList_join, List.count_flatMap, hlines]
  simp [lines, size]

end Program

end Abacus
