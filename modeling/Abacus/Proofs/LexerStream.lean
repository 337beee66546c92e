import Abacus.Calculator
import Mathlib

/-! # The stream of a text, token by token

Reading to the end collects what reading one token after the other brings. The end of the input, once
reached, is read again and again from the same place.
-/
namespace Abacus

theorem Lexeme.isEnd_of_token {l : Lexeme} {t : Token} (h : l.token = .ok t) : t.isEnd = false := by
  cases l with
  | integer digits =>
    simp only [Lexeme.token] at h
    split at h
    · cases h
      rfl
    · cases h
  | decimal whole fraction =>
    cases h
    rfl
  | mark m =>
    cases h
    rfl

theorem Token.isEnd_eq_true {t : Token} : t.isEnd = true ↔ t = .endOfInput := by
  cases t <;> simp [isEnd]

theorem Token.kind_eq_end {t : Token} : t.kind = .endOfInput ↔ t = .endOfInput := by
  rcases t with _ | (_ | _) | _ <;> simp [kind]

theorem Token.kind_eq_mark {t : Token} {m : Mark} : t.kind = .mark m ↔ t = .mark m := by
  rcases t with _ | (_ | _) | _ <;> simp [kind]

namespace Cursor

/-- Behind the last token only the end of the input is left. -/
theorem next_of_end {c c' : Cursor} (h : c.next = (.ok .endOfInput, c')) :
    c'.next = (.ok .endOfInput, c') := by
  unfold next at h
  dsimp only at h
  split at h
  · rename_i hrest
    obtain rfl : c.skipBlanks = c' := by simpa using h
    have hskip : c.skipBlanks.skipBlanks = c.skipBlanks := by
      rw [skipBlanks, hrest]
      cases hc : c.skipBlanks
      simp_all [byteLength]
    simp [next, hskip, hrest]
  · split at h
    · simp at h
    · split at h
      · simp at h
      · rename_i ht
        have hend := Lexeme.isEnd_of_token ht
        simp_all [Token.isEnd]

theorem go_of_error {c c' : Cursor} {e : LexError} (h : c.next = (.error e, c')) (read : List Token) :
    stream.go read c = ⟨read.reverse, some e, c'⟩ := by
  rw [stream.go.eq_def]
  split <;> simp_all

theorem go_of_end {c c' : Cursor} (h : c.next = (.ok .endOfInput, c')) (read : List Token) :
    stream.go read c = ⟨read.reverse, none, c'⟩ := by
  rw [stream.go.eq_def]
  split <;> simp_all [Token.isEnd]

theorem go_of_token {c c' : Cursor} {t : Token} (h : c.next = (.ok t, c')) (ht : t.isEnd = false)
    (read : List Token) : stream.go read c = stream.go (t :: read) c' := by
  rw [stream.go.eq_def]
  split <;> simp_all

theorem go_append (read earlier : List Token) (c : Cursor) :
    stream.go (read ++ earlier) c =
      ⟨earlier.reverse ++ (stream.go read c).tokens, (stream.go read c).failure, (stream.go read c).stop⟩ := by
  induction read, c using stream.go.induct with
  | case1 read c e c' h => simp [go_of_error h]
  | case2 read c t c' h ht =>
    obtain rfl := Token.isEnd_eq_true.mp ht
    simp [go_of_end h]
  | case3 read c t c' h ht _ ih =>
    have hf : t.isEnd = false := by simpa using ht
    rw [go_of_token h hf, go_of_token h hf]
    exact ih

theorem stream_of_error {c c' : Cursor} {e : LexError} (h : c.next = (.error e, c')) :
    c.stream = ⟨[], some e, c'⟩ := go_of_error h []

theorem stream_of_end {c c' : Cursor} (h : c.next = (.ok .endOfInput, c')) :
    c.stream = ⟨[], none, c'⟩ := go_of_end h []

theorem stream_of_token {c c' : Cursor} {t : Token} (h : c.next = (.ok t, c')) (ht : t.isEnd = false) :
    c.stream = ⟨t :: c'.stream.tokens, c'.stream.failure, c'.stream.stop⟩ :=
  (go_of_token h ht []).trans (go_append [] [t] c')

end Cursor

theorem ofText_eq_ok {text : String} (h : text ≠ "") :
    Lexer.ofText text = .ok { cursor := .ofText text } := by
  simp [Lexer.ofText, h]

/-- A text has tokens when it is not empty and its stream does not fail. -/
theorem tokenize_eq_ok_iff {text : String} {ts : List Token} :
    tokenize text = .ok ts ↔
      text ≠ "" ∧ (Cursor.ofText text).stream.tokens = ts ∧ (Cursor.ofText text).stream.failure = none := by
  by_cases h : text = ""
  · subst h
    simp [tokenize, Lexer.ofText, Except.mapError, bind, Except.bind]
  · cases hf : (Cursor.ofText text).stream.failure <;>
      simp [tokenize, ofText_eq_ok h, Except.mapError, bind, Except.bind, Lexer.allTokens, hf, h]

end Abacus
