import Abacus.Proofs.SessionReport

/-! # Blanks at the end of a text

A blank continues no lexeme and starts none. So a cursor reads the same tokens with or without blanks at
the end of its text, and fails in the same way and in the same place, and an answer does not show whether
there were any.
-/
namespace Abacus

theorem Bars.append {p : Char → Bool} {text tail : List Char} (h : Bars p text) (htail : Bars p tail) :
    Bars p (text ++ tail) := by
  cases text with
  | nil => exact htail
  | cons c text => exact bars_cons.mpr (bars_cons.mp h)

section
variable {tail : List Char} (htail : ∀ c ∈ tail, Text.isBlank c = true)
include htail

theorem bars_of_blank {p : Char → Bool} (hp : ∀ c, Text.isBlank c = true → p c = false) : Bars p tail := by
  intro c hc
  exact hp c (htail c (List.mem_of_mem_head? hc))

theorem Lexeme.Longest.append_blanks {l : Lexeme} {after : List Char} (h : l.Longest after) :
    l.Longest (after ++ tail) := by
  have hdigit : Bars Char.isDigit tail := bars_of_blank htail fun c hc => isDigit_of_isBlank hc
  have hpoint : Bars (· == '.') tail := by
    refine bars_of_blank htail fun c hc => ?_
    rw [beq_eq_false_iff_ne]
    rintro rfl
    revert hc
    decide
  cases l with
  | integer digits => exact ⟨h.1, h.2.1.append hdigit, h.2.2.append hpoint⟩
  | decimal whole fraction => exact ⟨h.1, h.2.1, h.2.2.append hdigit⟩
  | mark m => trivial

theorem Lexeme.take?_append_blanks {text : List Char} (hne : text ≠ []) :
    take? (text ++ tail) = (take? text).map fun p => (p.1, p.2 ++ tail) := by
  cases htake : take? text with
  | some p =>
    obtain ⟨rfl, hlongest⟩ := take?_eq_some.mp htake
    rw [List.append_assoc]
    exact take?_of_longest (hlongest.append_blanks htail)
  | none =>
    cases text with
    | nil => exact absurd rfl hne
    | cons c rest =>
      have hdigit : c.isDigit = false := by
        by_contra hc
        unfold take? at htake
        split at htake <;> simp_all
      simpa [take?, hdigit] using htake

namespace Cursor

theorem next_of_blank (offset : Nat) :
    next ⟨offset, tail⟩ = (.ok .endOfInput, ⟨offset + byteLength tail, []⟩) := by
  have hend := next_stuck offset htail (bars_nil _) not_takes_nil
  rwa [List.append_nil] at hend

/-- Blanks behind the text do not show in what is read next, and they stay behind it. -/
theorem next_append_blanks (c : Cursor) :
    (∃ c' d, c.next = (.ok .endOfInput, c') ∧ next ⟨c.offset, c.rest ++ tail⟩ = (.ok .endOfInput, d)) ∨
      next ⟨c.offset, c.rest ++ tail⟩ = (c.next.1, ⟨c.next.2.offset, c.next.2.rest ++ tail⟩) := by
  obtain ⟨offset, rest⟩ := c
  -- The blanks before the next token, and what stands behind them.
  obtain ⟨gap, body, rfl, hgap, hbody⟩ : ∃ gap body, rest = gap ++ body ∧
      (∀ c ∈ gap, Text.isBlank c = true) ∧ Bars Text.isBlank body :=
    ⟨_, _, List.takeWhile_append_dropWhile.symm, fun c hc => List.mem_takeWhile_imp hc,
      bars_dropWhile _ _⟩
  cases body with
  | nil =>
    left
    have hboth : ∀ c ∈ gap ++ tail, Text.isBlank c = true :=
      fun c hc => (List.mem_append.mp hc).elim (hgap c) (htail c)
    rw [List.append_nil]
    exact ⟨_, _, next_of_blank hgap offset, next_of_blank hboth offset⟩
  | cons found body =>
    right
    have hfound : Bars Text.isBlank (found :: (body ++ tail)) := bars_cons.mpr (bars_cons.mp hbody)
    have hskip := skipBlanks_of_bars offset hgap hbody
    have hskip' := skipBlanks_of_bars offset hgap hfound
    have htake := Lexeme.take?_append_blanks htail (List.cons_ne_nil found body)
    rw [List.cons_append] at htake
    rw [List.append_assoc, List.cons_append]
    simp only [next, hskip, hskip', htake]
    rcases Lexeme.take? (found :: body) with _ | ⟨l, rest⟩
    · rfl
    · simp only [Option.map_some]
      cases l.token <;> rfl

theorem alike_append_blanks (c : Cursor) : Alike ⟨c.offset, c.rest ++ tail⟩ c := by
  -- By induction on the length of the text, since every token uses up some of it.
  induction hn : c.rest.length using Nat.strong_induction_on generalizing c with
  | _ n ih =>
    subst hn
    rcases c.next_append_blanks htail with ⟨c', d, hc, hd⟩ | hd
    · constructor <;> rw [stream_of_end hc, stream_of_end hd]
    · rcases hc : c.next with ⟨e | t, c'⟩
      · rw [hc] at hd
        constructor <;> rw [stream_of_error hc, stream_of_error hd]
      · rw [hc] at hd
        cases ht : t.isEnd with
        | true =>
          obtain rfl := Token.isEnd_eq_true.mp ht
          constructor <;> rw [stream_of_end hc, stream_of_end hd]
        | false =>
          obtain ⟨htokens, hfailure⟩ := ih _ (length_next_lt hc ht) c' rfl
          constructor <;> rw [stream_of_token hc ht, stream_of_token hd ht]
          · exact congrArg (t :: ·) htokens
          · exact hfailure

end Cursor

end

namespace Session

theorem report_append_blanks {text tail : String} (hne : text ≠ "")
    (htail : ∀ c ∈ tail.toList, Text.isBlank c = true) : report (text ++ tail) = report text := by
  have hne' : text ++ tail ≠ "" := by simp [hne]
  have halike : (Cursor.ofText (text ++ tail)).Alike (.ofText text) := by
    rw [Cursor.ofText, String.toList_append]
    exact (Cursor.ofText text).alike_append_blanks htail
  simp only [report, ofText_eq_ok hne, ofText_eq_ok hne', halike.tokens, halike.failure,
    Parser.parse_eq_of_alike halike]

theorem answer_append_blanks (text : String) {tail : String}
    (htail : ∀ c ∈ tail.toList, Text.isBlank c = true) : answer (text ++ tail) = answer text := by
  have hblank : (text ++ tail).toList.all Text.isBlank = text.toList.all Text.isBlank := by
    rw [String.toList_append, List.all_append, List.all_eq_true.mpr htail, Bool.and_true]
  unfold answer
  rw [hblank]
  split
  · rfl
  · rename_i hnot
    have hne : text ≠ "" := by
      rintro rfl
      exact hnot rfl
    rw [report_append_blanks hne htail]

end Session

end Abacus
