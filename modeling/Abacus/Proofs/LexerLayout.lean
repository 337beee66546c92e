import Abacus.Proofs.LexerSpelling

/-! # The layout of a text

A text that has tokens is laid out as spellings with blanks between them and around them, where two
numbers in a row need at least one blank. It has one layout. Any other text has one as far as tokens
can be read, up to a character that is no blank and where no longest spelling begins; this place is
unique too, and it decides what is reported.
-/
namespace Abacus

theorem byteLength_append (a b : List Char) : byteLength (a ++ b) = byteLength a + byteLength b := by
  rw [byteLength, byteLength, byteLength, String.ofList_append, String.utf8ByteSize_append]

def Token.isNumber : Token → Bool
  | .number _ => true
  | _ => false

/-- A token as it stands in a text, with the blanks before it. -/
structure Piece where
  gap : List Char
  chars : List Char
  token : Token
  blank : ∀ c ∈ gap, Text.isBlank c = true
  spelled : Spelling chars token

namespace Piece

def text (q : Piece) : List Char := q.gap ++ q.chars

/-- Of two numbers in a row the second has blanks before it. -/
def Apart (q r : Piece) : Prop := q.token.isNumber = true → r.token.isNumber = true → r.gap ≠ []

theorem ext_of_eq {q r : Piece} (hgap : q.gap = r.gap) (hchars : q.chars = r.chars)
    (htoken : q.token = r.token) : q = r := by
  cases q
  cases r
  subst hgap hchars htoken
  rfl

end Piece

def piecesText (qs : List Piece) : List Char := qs.flatMap Piece.text

theorem piecesText_cons (q : Piece) (qs : List Piece) :
    piecesText (q :: qs) = q.gap ++ (q.chars ++ piecesText qs) := by
  simp [piecesText, Piece.text]

/-- Spellings with blanks before each of them and behind the last. -/
structure Layout where
  pieces : List Piece
  tail : List Char
  blank : ∀ c ∈ tail, Text.isBlank c = true
  apart : pieces.IsChain Piece.Apart

namespace Layout

def text (L : Layout) : List Char := piecesText L.pieces ++ L.tail

def tokens (L : Layout) : List Token := L.pieces.map Piece.token

theorem ext_of_eq {L M : Layout} (hpieces : L.pieces = M.pieces) (htail : L.tail = M.tail) : L = M := by
  cases L
  cases M
  subst hpieces htail
  rfl

end Layout

/-- No spelling among the pieces is continued by what stands behind it in the text. -/
def Munched : List Piece → List Char → Prop
  | [], _ => True
  | q :: qs, after => q.token.EndsBefore (piecesText qs ++ after) ∧ Munched qs after

/-- The text is laid out up to the byte `p`, every spelling as long as it can be. Then comes a character
that is no blank and where no longest spelling begins. -/
def StopsAt (text : List Char) (p : Nat) (found : Char) (rest : List Char) : Prop :=
  ∃ L : Layout, text = L.text ++ found :: rest ∧ p = byteLength L.text ∧
    Munched L.pieces (L.tail ++ found :: rest) ∧ Text.isBlank found = false ∧ ¬ Takes (found :: rest)

/-! ## Pieces that are apart are munched -/

theorem Token.endsBefore_of_bars {t : Token} {after : List Char} (hdigit : Bars Char.isDigit after)
    (hpoint : Bars (· == '.') after) : t.EndsBefore after := by
  rcases t with _ | (i | x) | m
  · trivial
  · exact ⟨hdigit, hpoint⟩
  · exact hdigit
  · trivial

theorem Token.endsBefore_of_not_isNumber {t : Token} (h : t.isNumber = false) (after : List Char) :
    t.EndsBefore after := by
  rcases t with _ | n | m
  · trivial
  · cases h
  · trivial

theorem Token.EndsBefore.bars_digit {t : Token} {after : List Char} (h : t.EndsBefore after)
    (hn : t.isNumber = true) : Bars Char.isDigit after := by
  rcases t with _ | (i | x) | m
  · cases hn
  · exact h.1
  · exact h
  · cases hn

/-- A blank continues no spelling. -/
theorem Token.endsBefore_of_blank {t : Token} {gap : List Char} (hne : gap ≠ [])
    (hblank : ∀ c ∈ gap, Text.isBlank c = true) (after : List Char) : t.EndsBefore (gap ++ after) := by
  cases gap with
  | nil => exact absurd rfl hne
  | cons c gap =>
    have hc := hblank c List.mem_cons_self
    refine Token.endsBefore_of_bars (bars_cons.mpr (isDigit_of_isBlank hc)) (bars_cons.mpr ?_)
    rw [beq_eq_false_iff_ne]
    rintro rfl
    revert hc
    decide

theorem Spelling.mark_of_not_isNumber {chars : List Char} {t : Token} (h : Spelling chars t)
    (hn : t.isNumber = false) : ∃ m : Mark, chars = [m.toChar] := by
  cases h with
  | integer => cases hn
  | decimal => cases hn
  | mark m => exact ⟨m, rfl⟩

/-- Neither does another spelling, unless both are numbers. -/
theorem Token.endsBefore_of_mark {t : Token} {m : Mark} (after : List Char) :
    t.EndsBefore (m.toChar :: after) := by
  refine Token.endsBefore_of_bars (bars_cons.mpr m.isDigit_toChar) (bars_cons.mpr ?_)
  rw [beq_eq_false_iff_ne]
  exact m.toChar_ne_point

theorem Piece.endsBefore_of_apart {q r : Piece} (h : q.Apart r) (after : List Char) :
    q.token.EndsBefore (r.gap ++ (r.chars ++ after)) := by
  by_cases hgap : r.gap = []
  · rw [hgap, List.nil_append]
    cases hq : q.token.isNumber with
    | false => exact Token.endsBefore_of_not_isNumber hq _
    | true =>
      have hr : r.token.isNumber = false := by
        by_contra hr
        exact h hq (by simpa using hr) hgap
      obtain ⟨m, hm⟩ := r.spelled.mark_of_not_isNumber hr
      rw [hm]
      exact Token.endsBefore_of_mark after
  · exact Token.endsBefore_of_blank hgap r.blank _

theorem Piece.apart_of_endsBefore {q r : Piece} {after : List Char}
    (h : q.token.EndsBefore (r.gap ++ (r.chars ++ after))) : q.Apart r := by
  intro hq hr hgap
  rw [hgap, List.nil_append] at h
  obtain ⟨n, hn⟩ : ∃ n, r.token = .number n := by
    cases ht : r.token with
    | number n => exact ⟨n, rfl⟩
    | endOfInput => simp [ht, Token.isNumber] at hr
    | mark m => simp [ht, Token.isNumber] at hr
  have hspelled := r.spelled
  rw [hn] at hspelled
  obtain ⟨d, ds, hchars, hd⟩ := hspelled.number_cons
  have hbars := h.bars_digit hq
  rw [hchars] at hbars
  simp [bars_cons.mp hbars] at hd

theorem munched_of_apart {qs : List Piece} (h : qs.IsChain Piece.Apart) {tail : List Char}
    (htail : ∀ c ∈ tail, Text.isBlank c = true) : Munched qs tail := by
  induction h with
  | nil => trivial
  | singleton q =>
    refine ⟨?_, trivial⟩
    by_cases hne : tail = []
    · subst hne
      exact Token.endsBefore_of_bars (bars_nil _) (bars_nil _)
    · have hends := Token.endsBefore_of_blank (t := q.token) hne htail []
      rwa [List.append_nil] at hends
  | @cons_cons q r qs hapart _ ih =>
    refine ⟨?_, ih⟩
    rw [piecesText_cons, List.append_assoc, List.append_assoc]
    exact Piece.endsBefore_of_apart hapart _

theorem apart_of_munched {qs : List Piece} {after : List Char} (h : Munched qs after) :
    qs.IsChain Piece.Apart := by
  induction qs with
  | nil => exact .nil
  | cons q qs ih =>
    obtain ⟨hends, hrest⟩ := h
    cases qs with
    | nil => exact .singleton q
    | cons r qs =>
      refine .cons_cons ?_ (ih hrest)
      rw [piecesText_cons, List.append_assoc, List.append_assoc] at hends
      exact Piece.apart_of_endsBefore hends

/-! ## How far tokens can be read -/

/-- The pieces of a text as far as tokens can be read, the blanks behind them, and what is left. -/
structure Reach (text : List Char) (qs : List Piece) (tail rest : List Char) : Prop where
  text_eq : text = piecesText qs ++ (tail ++ rest)
  munched : Munched qs (tail ++ rest)
  blank : ∀ c ∈ tail, Text.isBlank c = true
  bars : Bars Text.isBlank rest
  stuck : ¬ Takes rest

theorem not_takes_nil : ¬ Takes [] := by
  rintro ⟨chars, t, after, htext, hspelling, -⟩
  obtain ⟨rfl, -⟩ := List.append_eq_nil_iff.mp htext.symm
  generalize hnil : ([] : List Char) = chars at hspelling
  cases hspelling with
  | integer hdigits => exact hdigits.1 hnil.symm
  | decimal => simp at hnil
  | mark => simp at hnil

theorem exists_reach (text : List Char) : ∃ qs tail rest, Reach text qs tail rest := by
  -- The induction is on the length of the text: every piece takes some of it.
  induction hn : text.length using Nat.strong_induction_on generalizing text with
  | _ n ih =>
    subst hn
    have hsplit := List.takeWhile_append_dropWhile (p := Text.isBlank) (l := text)
    have hblank : ∀ c ∈ text.takeWhile Text.isBlank, Text.isBlank c = true :=
      fun c hc => List.mem_takeWhile_imp hc
    by_cases htakes : Takes (text.dropWhile Text.isBlank)
    · obtain ⟨chars, t, after, hafter, hspelling, hends⟩ := htakes
      have hchars : chars ≠ [] := by
        rintro rfl
        exact not_takes_nil ⟨[], t, [], rfl, hspelling, Token.endsBefore_of_bars (bars_nil _) (bars_nil _)⟩
      have hlength : after.length < text.length := by
        have hpos := List.length_pos_iff.mpr hchars
        rw [← hsplit, hafter, List.length_append, List.length_append]
        omega
      obtain ⟨qs, tail, rest, hreach⟩ := ih _ hlength after rfl
      refine ⟨⟨_, chars, t, hblank, hspelling⟩ :: qs, tail, rest, ?_, ⟨?_, hreach.munched⟩, hreach.blank,
        hreach.bars, hreach.stuck⟩
      · rw [piecesText_cons, List.append_assoc, List.append_assoc, ← hreach.text_eq, ← hafter, hsplit]
      · rw [← hreach.text_eq]
        exact hends
    · refine ⟨[], _, _, ?_, trivial, hblank, bars_dropWhile _ _, htakes⟩
      exact hsplit.symm

theorem eq_of_spelling {chars chars' after after' : List Char} {t t' : Token}
    (h : chars ++ after = chars' ++ after') (hs : Spelling chars t) (he : t.EndsBefore after)
    (hs' : Spelling chars' t') (he' : t'.EndsBefore after') :
    chars = chars' ∧ t = t' ∧ after = after' := by
  obtain ⟨l, rfl, ht, hl⟩ := Lexeme.exists_of_spelling hs he
  obtain ⟨l', rfl, ht', hl'⟩ := Lexeme.exists_of_spelling hs' he'
  have htake := Lexeme.take?_of_longest hl
  rw [h, Lexeme.take?_of_longest hl', Option.some.injEq, Prod.mk.injEq] at htake
  obtain ⟨rfl, rfl⟩ := htake
  exact ⟨rfl, Except.ok.inj (ht.symm.trans ht'), rfl⟩

theorem Reach.unique {text : List Char} {qs qs' : List Piece} {tail tail' rest rest' : List Char}
    (h : Reach text qs tail rest) (h' : Reach text qs' tail' rest') :
    qs = qs' ∧ tail = tail' ∧ rest = rest' := by
  induction qs generalizing text qs' with
  | nil =>
    have htext : text = tail ++ rest := h.text_eq
    cases qs' with
    | nil =>
      have htext' : text = tail' ++ rest' := h'.text_eq
      obtain ⟨rfl, rfl⟩ := eq_of_bars (htext.symm.trans htext') h.blank h.bars h'.blank h'.bars
      exact ⟨rfl, rfl, rfl⟩
    | cons q qs' =>
      -- The first reading says that no spelling begins where the second one has its first piece.
      have htext' := h'.text_eq
      rw [piecesText_cons, List.append_assoc, List.append_assoc] at htext'
      obtain ⟨rfl, hrest⟩ := eq_of_bars (htext.symm.trans htext') h.blank h.bars q.blank
        (q.spelled.bars_blank _)
      exact absurd ⟨q.chars, q.token, _, hrest, q.spelled, h'.munched.1⟩ h.stuck
  | cons q qs ih =>
    have htext := h.text_eq
    rw [piecesText_cons, List.append_assoc, List.append_assoc] at htext
    cases qs' with
    | nil =>
      have htext' : text = tail' ++ rest' := h'.text_eq
      obtain ⟨rfl, hrest⟩ := eq_of_bars (htext'.symm.trans htext) h'.blank h'.bars q.blank
        (q.spelled.bars_blank _)
      exact absurd ⟨q.chars, q.token, _, hrest, q.spelled, h.munched.1⟩ h'.stuck
    | cons q' qs' =>
      have htext' := h'.text_eq
      rw [piecesText_cons, List.append_assoc, List.append_assoc] at htext'
      obtain ⟨hgap, hbody⟩ := eq_of_bars (htext.symm.trans htext') q.blank (q.spelled.bars_blank _)
        q'.blank (q'.spelled.bars_blank _)
      obtain ⟨hchars, htoken, hafter⟩ := eq_of_spelling hbody q.spelled h.munched.1 q'.spelled
        h'.munched.1
      obtain rfl := Piece.ext_of_eq hgap hchars htoken
      have hbehind : Reach (piecesText qs ++ (tail ++ rest)) qs tail rest :=
        ⟨rfl, h.munched.2, h.blank, h.bars, h.stuck⟩
      obtain ⟨rfl, rfl, rfl⟩ := ih hbehind ⟨hafter, h'.munched.2, h'.blank, h'.bars, h'.stuck⟩
      exact ⟨rfl, rfl, rfl⟩

/-! ## What the cursor reads -/

instance (text : List Char) : Decidable (TooLarge text) := inferInstanceAs (Decidable (_ ∧ _ ∧ _))

/-- What is reported where no token can be read: nothing at the end of the text. -/
def verdict (offset : Nat) : List Char → Option LexError
  | [] => none
  | found :: rest =>
    if TooLarge (found :: rest) then some (.integerTooLarge ((found :: rest).takeWhile Char.isDigit))
    else some (.unexpectedChar found offset)

namespace Cursor

theorem skipBlanks_of_bars (offset : Nat) {gap rest : List Char}
    (hgap : ∀ c ∈ gap, Text.isBlank c = true) (hrest : Bars Text.isBlank rest) :
    skipBlanks ⟨offset, gap ++ rest⟩ = ⟨offset + byteLength gap, rest⟩ := by
  simp only [skipBlanks, takeWhile_of_bars hgap hrest, dropWhile_of_bars hgap hrest]

theorem next_piece (offset : Nat) (q : Piece) {after : List Char} (h : q.token.EndsBefore after) :
    next ⟨offset, q.gap ++ (q.chars ++ after)⟩ =
      (.ok q.token, ⟨offset + byteLength q.text, after⟩) := by
  obtain ⟨l, hchars, htoken, hlongest⟩ := Lexeme.exists_of_spelling q.spelled h
  have htake := Lexeme.take?_of_longest hlongest
  have hskip := skipBlanks_of_bars offset q.blank (q.spelled.bars_blank after)
  rw [hchars] at htake
  simp only [next, hskip]
  split
  · rename_i hnil
    rw [hnil] at htake
    cases htake
  · simp only [htake, htoken, hchars, Piece.text, byteLength_append, Nat.add_assoc]

theorem next_stuck (offset : Nat) {tail rest : List Char} (hblank : ∀ c ∈ tail, Text.isBlank c = true)
    (hbars : Bars Text.isBlank rest) (hstuck : ¬ Takes rest) :
    next ⟨offset, tail ++ rest⟩ =
      ((verdict (offset + byteLength tail) rest).elim (.ok .endOfInput) .error,
        ⟨offset + byteLength tail, rest⟩) := by
  have hskip := skipBlanks_of_bars offset hblank hbars
  simp only [next, hskip]
  cases rest with
  | nil => rfl
  | cons found rest =>
    dsimp only
    cases htake : Lexeme.take? (found :: rest) with
    | none =>
      have hsmall := not_tooLarge_of_take?_eq_none htake
      simp only [verdict, if_neg hsmall, Option.elim]
    | some pair =>
      obtain ⟨l, after⟩ := pair
      obtain ⟨htext, hlongest⟩ := Lexeme.take?_eq_some.mp htake
      cases htoken : l.token with
      | ok t => exact absurd (takes_iff.mpr ⟨l, after, t, htake, htoken⟩) hstuck
      | error e =>
        obtain ⟨rfl, hlarge⟩ := Lexeme.tooLarge_of_token hlongest htoken
        rw [← htext] at hlarge htoken
        simp only [verdict, if_pos hlarge, Option.elim, htoken]

theorem stream_of_reach (offset : Nat) {text : List Char} {qs : List Piece} {tail rest : List Char}
    (h : Reach text qs tail rest) :
    stream ⟨offset, text⟩ = ⟨qs.map Piece.token,
      verdict (offset + byteLength (piecesText qs ++ tail)) rest,
      ⟨offset + byteLength (piecesText qs ++ tail), rest⟩⟩ := by
  induction qs generalizing offset text with
  | nil =>
    obtain rfl : text = tail ++ rest := h.text_eq
    have hnext := next_stuck offset h.blank h.bars h.stuck
    cases hv : verdict (offset + byteLength tail) rest with
    | none =>
      rw [hv] at hnext
      rw [stream_of_end hnext]
      simp [piecesText, hv]
    | some e =>
      rw [hv] at hnext
      rw [stream_of_error hnext]
      simp [piecesText, hv]
  | cons q qs ih =>
    have htext := h.text_eq
    rw [piecesText_cons, List.append_assoc, List.append_assoc] at htext
    have hnext := next_piece offset q h.munched.1
    rw [← htext] at hnext
    have hrest := ih (offset + byteLength q.text) ⟨rfl, h.munched.2, h.blank, h.bars, h.stuck⟩
    have hbytes : offset + byteLength (piecesText (q :: qs) ++ tail) =
        offset + byteLength q.text + byteLength (piecesText qs ++ tail) := by
      rw [piecesText_cons, Piece.text]
      simp only [byteLength_append]
      omega
    rw [stream_of_token hnext q.spelled.isEnd, hrest, hbytes]
    rfl

end Cursor

/-! ## Layouts and tokens -/

theorem Layout.reach (L : Layout) : Reach L.text L.pieces L.tail [] where
  text_eq := by rw [List.append_nil, text]
  munched := by
    rw [List.append_nil]
    exact munched_of_apart L.apart L.blank
  blank := L.blank
  bars := bars_nil _
  stuck := not_takes_nil

theorem Reach.exists_layout {text : List Char} {qs : List Piece} {tail rest : List Char}
    (h : Reach text qs tail rest) : ∃ L : Layout, L.pieces = qs ∧ L.tail = tail ∧ text = L.text ++ rest :=
  ⟨⟨qs, tail, h.blank, apart_of_munched h.munched⟩, rfl, rfl,
    h.text_eq.trans (List.append_assoc _ _ _).symm⟩

theorem StopsAt.reach {text rest : List Char} {p : Nat} {found : Char} (h : StopsAt text p found rest) :
    ∃ qs tail, Reach text qs tail (found :: rest) ∧ p = byteLength (piecesText qs ++ tail) := by
  obtain ⟨L, htext, hp, hmunched, hfound, hstuck⟩ := h
  refine ⟨L.pieces, L.tail, ⟨?_, hmunched, L.blank, bars_cons.mpr hfound, hstuck⟩, hp⟩
  rw [htext, Layout.text, List.append_assoc]

theorem Reach.stopsAt {text rest : List Char} {qs : List Piece} {tail : List Char} {found : Char}
    (h : Reach text qs tail (found :: rest)) :
    StopsAt text (byteLength (piecesText qs ++ tail)) found rest := by
  obtain ⟨L, rfl, rfl, htext⟩ := h.exists_layout
  exact ⟨L, htext, rfl, h.munched, bars_cons.mp h.bars, h.stuck⟩

theorem tokenize_of_reach {text : String} (hne : text ≠ "") {qs : List Piece} {tail rest : List Char}
    (h : Reach text.toList qs tail rest) :
    tokenize text = (verdict (byteLength (piecesText qs ++ tail)) rest).elim
      (.ok (qs.map Piece.token)) (fun e => .error (.lexical e)) := by
  have hstream := Cursor.stream_of_reach 0 h
  rw [Nat.zero_add] at hstream
  simp only [tokenize, ofText_eq_ok hne, Except.mapError, bind, Except.bind, Lexer.allTokens,
    Cursor.ofText, hstream]
  cases verdict (byteLength (piecesText qs ++ tail)) rest <;> rfl

theorem tokenize_of_layout {text : String} (hne : text ≠ "") {L : Layout} (h : L.text = text.toList) :
    tokenize text = .ok L.tokens := by
  have hreach := L.reach
  rw [h] at hreach
  exact tokenize_of_reach hne hreach

theorem verdict_cons_isSome (offset : Nat) (found : Char) (rest : List Char) :
    ∃ e, verdict offset (found :: rest) = some e := by
  rw [verdict]
  split <;> exact ⟨_, rfl⟩

theorem exists_layout_or_stopsAt (text : List Char) :
    (∃ L : Layout, L.text = text) ∨ ∃ p found rest, StopsAt text p found rest := by
  obtain ⟨qs, tail, rest, hreach⟩ := exists_reach text
  cases rest with
  | nil =>
    obtain ⟨L, -, -, htext⟩ := hreach.exists_layout
    exact .inl ⟨L, by rw [htext, List.append_nil]⟩
  | cons found rest => exact .inr ⟨_, found, rest, hreach.stopsAt⟩

theorem tokenize_of_stopsAt {text : String} (hne : text ≠ "") {p : Nat} {found : Char}
    {rest : List Char} (h : StopsAt text.toList p found rest) :
    tokenize text = .error (.lexical (if TooLarge (found :: rest)
      then .integerTooLarge ((found :: rest).takeWhile Char.isDigit) else .unexpectedChar found p)) := by
  obtain ⟨qs, tail, hreach, rfl⟩ := h.reach
  rw [tokenize_of_reach hne hreach, verdict]
  split <;> rfl

/-- A text has tokens when and only when it has a layout with these tokens, and then it has one layout.
Otherwise there is one place where it stops, and what is reported is the integer that is too large
there, or else the character that is found there. -/
theorem tokens_are_layouts {text : String} (hne : text ≠ "") :
    (∀ ts, tokenize text = .ok ts ↔ ∃ L : Layout, L.text = text.toList ∧ L.tokens = ts) ∧
    (∀ L M : Layout, L.text = text.toList → M.text = text.toList → L = M) ∧
    ((∀ ts, tokenize text ≠ .ok ts) ↔ ∃! p, ∃ found rest, StopsAt text.toList p found rest) ∧
    ∀ p found rest, StopsAt text.toList p found rest →
      tokenize text = .error (.lexical (if TooLarge (found :: rest)
        then .integerTooLarge ((found :: rest).takeWhile Char.isDigit)
        else .unexpectedChar found p)) := by
  refine ⟨?_, ?_, ?_, ?_⟩
  · intro ts
    constructor
    · intro htokens
      rcases exists_layout_or_stopsAt text.toList with ⟨L, hL⟩ | ⟨p, found, rest, hstops⟩
      · rw [tokenize_of_layout hne hL] at htokens
        exact ⟨L, hL, Except.ok.inj htokens⟩
      · rw [tokenize_of_stopsAt hne hstops] at htokens
        cases htokens
    · rintro ⟨L, hL, rfl⟩
      exact tokenize_of_layout hne hL
  · intro L M hL hM
    have hLreach := L.reach
    have hMreach := M.reach
    rw [hL] at hLreach
    rw [hM] at hMreach
    obtain ⟨hpieces, htail, -⟩ := hLreach.unique hMreach
    exact Layout.ext_of_eq hpieces htail
  · constructor
    · intro hfails
      rcases exists_layout_or_stopsAt text.toList with ⟨L, hL⟩ | ⟨p, found, rest, hstops⟩
      · exact absurd (tokenize_of_layout hne hL) (hfails _)
      · refine ⟨p, ⟨found, rest, hstops⟩, ?_⟩
        rintro p' ⟨found', rest', hstops'⟩
        obtain ⟨qs, tail, hreach, rfl⟩ := hstops.reach
        obtain ⟨qs', tail', hreach', rfl⟩ := hstops'.reach
        obtain ⟨rfl, rfl, -⟩ := hreach.unique hreach'
        rfl
    · rintro ⟨p, ⟨found, rest, hstops⟩, -⟩ ts hts
      rw [tokenize_of_stopsAt hne hstops] at hts
      cases hts
  · intro p found rest hstops
    exact tokenize_of_stopsAt hne hstops

/-- Behind a no-break space of two bytes and the float `1.5`, a second point begins no spelling. Behind a
blank there may be a second float, here the double nearest to `2.1` with zeros at both ends. -/
theorem second_point_stops :
    ("\u00a01.5 02.10" ≠ "" ∧ ∃ L : Layout, L.text = "\u00a01.5 02.10".toList ∧
      L.tokens = [.number (.float (Float.ofBits 0x3FF8000000000000)),
        .number (.float (Float.ofBits 0x4000CCCCCCCCCCCD))]) ∧
    "\u00a01.5.2" ≠ "" ∧ ∃ rest, StopsAt "\u00a01.5.2".toList 5 '.' rest := by
  have hfloats : "\u00a01.5 02.10" ≠ "" := by decide
  refine ⟨⟨hfloats, ((tokens_are_layouts hfloats).1 _).mp (by decide +kernel)⟩, ?_⟩
  have hne : "\u00a01.5.2" ≠ "" := by decide
  have hfail : tokenize "\u00a01.5.2" = .error (.lexical (.unexpectedChar '.' 5)) := by decide +kernel
  obtain ⟨-, -, hstop, herror⟩ := tokens_are_layouts hne
  have hnone : ∀ ts, tokenize "\u00a01.5.2" ≠ .ok ts := by
    intro ts hts
    simp [hfail] at hts
  obtain ⟨p, ⟨found, rest, hstops⟩, -⟩ := hstop.mp hnone
  have hreport := (herror p found rest hstops).symm.trans hfail
  split at hreport
  · cases hreport
  · cases hreport
    exact ⟨hne, rest, hstops⟩

end Abacus
