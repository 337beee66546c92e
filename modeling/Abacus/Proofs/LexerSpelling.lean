import Abacus.Proofs.LexerStream

/-! # The spelling of tokens

An integer is spelled by digits, a float by digits with a point among or behind them, a mark by its
character. Of the spellings that begin in one place the lexer takes the longest, which is the one that
the characters behind it do not continue; where it takes none, there is none.
-/
namespace Abacus

/-! ## Classes of characters -/

theorem isBlank_of_isDigit {c : Char} (h : c.isDigit = true) : Text.isBlank c = false := by
  obtain ⟨hlow, hhigh⟩ := Bool.and_eq_true_iff.mp h
  have hlow' : 48 ≤ c.toNat := UInt32.le_iff_toNat_le.mp (of_decide_eq_true hlow)
  have hhigh' : c.toNat ≤ 57 := UInt32.le_iff_toNat_le.mp (of_decide_eq_true hhigh)
  simp only [Text.isBlank, Text.Ranges.contains, Text.blankRanges, List.any_cons, List.any_nil,
    Bool.or_eq_false_iff, Bool.and_eq_false_iff, decide_eq_false_iff_not]
  refine ⟨?_, ?_, ?_, ?_, ?_, ?_, ?_, ?_, ?_, ?_, trivial⟩ <;> omega

theorem isDigit_of_isBlank {c : Char} (h : Text.isBlank c = true) : c.isDigit = false := by
  by_contra hdigit
  simp [isBlank_of_isDigit (Bool.not_eq_false _ ▸ hdigit)] at h

namespace Mark

theorem isBlank_toChar (m : Mark) : Text.isBlank m.toChar = false := by
  cases m <;> decide

theorem isDigit_toChar (m : Mark) : m.toChar.isDigit = false := by
  cases m <;> decide

theorem toChar_ne_point (m : Mark) : m.toChar ≠ '.' := by
  cases m <;> decide

theorem ofChar?_toChar (m : Mark) : ofChar? m.toChar = some m := by
  cases m <;> decide

theorem toChar_of_ofChar? {c : Char} {m : Mark} (h : ofChar? c = some m) : m.toChar = c := by
  simpa using List.find?_some h

end Mark

/-- The text does not begin with such a character. -/
def Bars (p : Char → Bool) (text : List Char) : Prop := ∀ c, text.head? = some c → p c = false

theorem bars_nil (p : Char → Bool) : Bars p [] := nofun

theorem bars_cons {p : Char → Bool} {c : Char} {text : List Char} : Bars p (c :: text) ↔ p c = false := by
  simp [Bars]

theorem bars_dropWhile (p : Char → Bool) (text : List Char) : Bars p (text.dropWhile p) := by
  intro c hc
  have hhead := List.head?_dropWhile_not p text
  rw [hc] at hhead
  exact hhead

theorem takeWhile_of_bars {p : Char → Bool} {run rest : List Char} (hrun : ∀ c ∈ run, p c = true)
    (hrest : Bars p rest) : (run ++ rest).takeWhile p = run := by
  rw [List.takeWhile_append_of_pos hrun]
  cases rest with
  | nil => simp
  | cons c rest => simp [bars_cons.mp hrest]

theorem dropWhile_of_bars {p : Char → Bool} {run rest : List Char} (hrun : ∀ c ∈ run, p c = true)
    (hrest : Bars p rest) : (run ++ rest).dropWhile p = rest := by
  rw [List.dropWhile_append_of_pos hrun]
  cases rest with
  | nil => rfl
  | cons c rest => simp [bars_cons.mp hrest]

/-- Where a run of such characters ends is known from the text. -/
theorem eq_of_bars {p : Char → Bool} {run run' rest rest' : List Char} (h : run ++ rest = run' ++ rest')
    (hrun : ∀ c ∈ run, p c = true) (hrest : Bars p rest) (hrun' : ∀ c ∈ run', p c = true)
    (hrest' : Bars p rest') : run = run' ∧ rest = rest' := by
  constructor
  · rw [← takeWhile_of_bars hrun hrest, h, takeWhile_of_bars hrun' hrest']
  · rw [← dropWhile_of_bars hrun hrest, h, dropWhile_of_bars hrun' hrest']

/-! ## Spellings -/

def digitsValue (digits : List Char) : Nat := Nat.ofDigitChars 10 digits 0

def IsNumeral (digits : List Char) : Prop := digits ≠ [] ∧ ∀ d ∈ digits, d.isDigit = true

/-- The characters spell the token. -/
inductive Spelling : List Char → Token → Prop where
  | integer {digits : List Char} {i : Int64} (hdigits : IsNumeral digits)
      (hmost : digitsValue digits ≤ 2 ^ 63 - 1) (hvalue : i.toInt = digitsValue digits) :
      Spelling digits (.number (.int i))
  | decimal {whole fraction : List Char} (hwhole : IsNumeral whole)
      (hfraction : ∀ d ∈ fraction, d.isDigit = true) :
      Spelling (whole ++ '.' :: fraction) (.number (.float (Decimal.ofDigits whole fraction).toFloat))
  | mark (m : Mark) : Spelling [m.toChar] (.mark m)

/-- What follows a spelling of the token does not continue it: behind a number there is no digit, and
behind an integer no point. -/
def Token.EndsBefore : Token → List Char → Prop
  | .number (.int _), after => Bars Char.isDigit after ∧ Bars (· == '.') after
  | .number (.float _), after => Bars Char.isDigit after
  | _, _ => True

/-- A longest spelling begins here. -/
def Takes (text : List Char) : Prop :=
  ∃ chars t after, text = chars ++ after ∧ Spelling chars t ∧ t.EndsBefore after

/-- The digits here are followed by no point and spell more than an integer can hold. -/
def TooLarge (text : List Char) : Prop :=
  text.takeWhile Char.isDigit ≠ [] ∧ (text.dropWhile Char.isDigit).head? ≠ some '.' ∧
    2 ^ 63 - 1 < digitsValue (text.takeWhile Char.isDigit)

theorem IsNumeral.cons {digits : List Char} (h : IsNumeral digits) :
    ∃ d ds, digits = d :: ds ∧ d.isDigit = true := by
  obtain ⟨hne, hall⟩ := h
  cases digits with
  | nil => exact absurd rfl hne
  | cons d ds => exact ⟨d, ds, rfl, hall d List.mem_cons_self⟩

theorem Spelling.bars_blank {chars : List Char} {t : Token} (h : Spelling chars t) (after : List Char) :
    Bars Text.isBlank (chars ++ after) := by
  cases h with
  | integer hdigits =>
    obtain ⟨d, ds, rfl, hd⟩ := hdigits.cons
    exact bars_cons.mpr (isBlank_of_isDigit hd)
  | decimal hwhole =>
    obtain ⟨d, ds, rfl, hd⟩ := hwhole.cons
    exact bars_cons.mpr (isBlank_of_isDigit hd)
  | mark m => exact bars_cons.mpr m.isBlank_toChar

theorem Spelling.isEnd {chars : List Char} {t : Token} (h : Spelling chars t) : t.isEnd = false := by
  cases h <;> rfl

theorem Spelling.number_cons {chars : List Char} {n : Number} (h : Spelling chars (.number n)) :
    ∃ d ds, chars = d :: ds ∧ d.isDigit = true := by
  cases h with
  | integer hdigits => exact hdigits.cons
  | decimal hwhole =>
    obtain ⟨d, ds, rfl, hd⟩ := hwhole.cons
    exact ⟨d, _, rfl, hd⟩

theorem fits_iff (value : Nat) : Number.Fits value ↔ value ≤ 2 ^ 63 - 1 := by
  have hmin : Int64.minValue.toInt = -9223372036854775808 := rfl
  have hmax : Int64.maxValue.toInt = 9223372036854775807 := rfl
  rw [Number.Fits, hmin, hmax]
  omega

/-! ## What the lexer takes -/

namespace Lexeme

def digits? (text : List Char) : Option (List Char × List Char) :=
  if text.takeWhile Char.isDigit = [] then none
  else some (text.takeWhile Char.isDigit, text.dropWhile Char.isDigit)

def takeDecimal? (text : List Char) : Option (Lexeme × List Char) :=
  match digits? text with
  | some (whole, '.' :: rest) =>
    some (decimal whole (rest.takeWhile Char.isDigit), rest.dropWhile Char.isDigit)
  | _ => none

def takeInteger? (text : List Char) : Option (Lexeme × List Char) :=
  (digits? text).map fun (digits, rest) => (integer digits, rest)

def takeMark? : List Char → Option (Lexeme × List Char)
  | [] => none
  | c :: rest => (Mark.ofChar? c).map fun m => (mark m, rest)

/-- The lexeme is the first of three that is there: a decimal, of which an integer would be the head, an
integer, a mark. -/
theorem take?_eq_or (text : List Char) :
    take? text = (takeDecimal? text).or ((takeInteger? text).or (takeMark? text)) := by
  have hsplit := List.takeWhile_append_dropWhile (p := Char.isDigit) (l := text)
  unfold take?
  split
  · rename_i hdigits hrest
    rw [hdigits, hrest] at hsplit
    subst hsplit
    rfl
  · rename_i c rest hdigits hrest
    rw [hdigits, hrest] at hsplit
    have hnone : digits? text = none := if_pos hdigits
    rw [takeDecimal?, takeInteger?, hnone, ← hsplit]
    rfl
  · rename_i d ds rest hdigits hrest
    have hsome : digits? text = some (d :: ds, '.' :: rest) := by simp [digits?, hdigits, hrest]
    rw [takeDecimal?, hsome]
    rfl
  · rename_i d ds hdigits hpoint
    have hsome : digits? text = some (d :: ds, text.dropWhile Char.isDigit) := by
      simp [digits?, hdigits]
    have hdecimal : takeDecimal? text = none := by
      rw [takeDecimal?, hsome]
      split
      · rename_i whole rest hpair
        obtain ⟨-, hrest⟩ := Prod.mk.inj (Option.some.inj hpair)
        exact absurd hrest (hpoint rest)
      · rfl
    rw [hdecimal, takeInteger?, hsome]
    rfl

/-- The lexeme is well formed, and what follows does not continue it. -/
def Longest : Lexeme → List Char → Prop
  | integer digits, after => IsNumeral digits ∧ Bars Char.isDigit after ∧ Bars (· == '.') after
  | decimal whole fraction, after =>
    IsNumeral whole ∧ (∀ d ∈ fraction, d.isDigit = true) ∧ Bars Char.isDigit after
  | mark _, _ => True

theorem take?_of_longest {l : Lexeme} {after : List Char} (h : l.Longest after) :
    take? (l.chars ++ after) = some (l, after) := by
  cases l with
  | integer digits =>
    obtain ⟨hdigits, hdigit, hpoint⟩ := h
    rw [chars, take?, takeWhile_of_bars hdigits.2 hdigit, dropWhile_of_bars hdigits.2 hdigit]
    obtain ⟨d, ds, rfl, -⟩ := hdigits.cons
    split
    · simp_all
    · simp_all
    · simp [Bars] at hpoint
    · simp_all
  | decimal whole fraction =>
    obtain ⟨hwhole, hfraction, hdigit⟩ := h
    have hbars : Bars Char.isDigit ('.' :: (fraction ++ after)) := bars_cons.mpr (by decide)
    have hsplit : (decimal whole fraction).chars ++ after = whole ++ '.' :: (fraction ++ after) := by
      simp [chars]
    rw [hsplit, take?, takeWhile_of_bars hwhole.2 hbars, dropWhile_of_bars hwhole.2 hbars]
    obtain ⟨d, ds, rfl, -⟩ := hwhole.cons
    simp only [takeWhile_of_bars hfraction hdigit, dropWhile_of_bars hfraction hdigit]
  | mark m =>
    have hdigit := m.isDigit_toChar
    simp [chars, take?, hdigit, m.ofChar?_toChar]

theorem longest_of_take? {text after : List Char} {l : Lexeme} (h : take? text = some (l, after)) :
    text = l.chars ++ after ∧ l.Longest after := by
  have hsplit := List.takeWhile_append_dropWhile (p := Char.isDigit) (l := text)
  have hrun : ∀ d ∈ text.takeWhile Char.isDigit, d.isDigit = true := fun d hd => List.mem_takeWhile_imp hd
  have hbars := bars_dropWhile Char.isDigit text
  unfold take? at h
  split at h
  · cases h
  · rename_i c rest hnone hrest
    obtain ⟨m, hm, hpair⟩ := Option.map_eq_some_iff.mp h
    obtain ⟨rfl, rfl⟩ := Prod.mk.inj hpair
    rw [hnone, hrest] at hsplit
    exact ⟨by rw [← hsplit, chars, Mark.toChar_of_ofChar? hm]; rfl, trivial⟩
  · rename_i d ds rest hdigits hrest
    obtain ⟨rfl, rfl⟩ := Prod.mk.inj (Option.some.inj h)
    rw [hdigits] at hsplit hrun
    rw [hrest] at hsplit
    refine ⟨?_, ⟨nofun, hrun⟩, fun d hd => List.mem_takeWhile_imp hd, bars_dropWhile _ _⟩
    rw [← hsplit]
    simp [chars, List.takeWhile_append_dropWhile]
  · rename_i d ds hdigits hpoint
    obtain ⟨rfl, rfl⟩ := Prod.mk.inj (Option.some.inj h)
    rw [hdigits] at hsplit hrun
    refine ⟨hsplit.symm, ⟨nofun, hrun⟩, hbars, ?_⟩
    intro c hc
    obtain ⟨rest', hrest'⟩ := List.head?_eq_some_iff.mp hc
    simp only [beq_eq_false_iff_ne]
    rintro rfl
    exact hpoint rest' hrest'

theorem take?_eq_some {text after : List Char} {l : Lexeme} :
    take? text = some (l, after) ↔ text = l.chars ++ after ∧ l.Longest after := by
  constructor
  · exact longest_of_take?
  · rintro ⟨rfl, h⟩
    exact take?_of_longest h

theorem exists_of_spelling {chars after : List Char} {t : Token} (h : Spelling chars t)
    (hends : t.EndsBefore after) : ∃ l : Lexeme, l.chars = chars ∧ l.token = .ok t ∧ l.Longest after := by
  cases h with
  | @integer digits i hdigits hmost hvalue =>
    refine ⟨integer chars, rfl, ?_, hdigits, hends⟩
    have hfits : Number.Fits (Nat.ofDigitChars 10 chars 0) := (fits_iff _).mpr hmost
    have hint : Int64.ofInt (Nat.ofDigitChars 10 chars 0) = i := by
      change Int64.ofInt (digitsValue chars) = i
      rw [← hvalue, Int64.ofInt_toInt]
    simp only [token, if_pos hfits, hint]
  | @decimal whole fraction hwhole hfraction =>
    exact ⟨decimal whole fraction, rfl, rfl, hwhole, hfraction, hends⟩
  | mark m => exact ⟨mark m, rfl, rfl, trivial⟩

theorem spelling_of_token {l : Lexeme} {after : List Char} {t : Token} (h : l.Longest after)
    (ht : l.token = .ok t) : Spelling l.chars t ∧ t.EndsBefore after := by
  cases l with
  | integer digits =>
    obtain ⟨hdigits, hends⟩ := h
    simp only [token] at ht
    split at ht
    · rename_i hfits
      cases ht
      have hmost : digitsValue digits ≤ 2 ^ 63 - 1 := (fits_iff _).mp hfits
      have hvalue : (Int64.ofInt (digitsValue digits)).toInt = digitsValue digits := by
        rw [Int64.toInt_ofInt]
        exact Int.bmod_eq_of_le (by simp only [Int64.size]; omega) (by simp only [Int64.size]; omega)
      exact ⟨.integer hdigits hmost hvalue, hends⟩
    · cases ht
  | decimal whole fraction =>
    cases ht
    exact ⟨.decimal h.1 h.2.1, h.2.2⟩
  | mark m =>
    cases ht
    exact ⟨.mark m, trivial⟩

theorem tooLarge_of_token {l : Lexeme} {after : List Char} {e : LexError} (h : l.Longest after)
    (he : l.token = .error e) :
    e = .integerTooLarge ((l.chars ++ after).takeWhile Char.isDigit) ∧ TooLarge (l.chars ++ after) := by
  cases l with
  | integer digits =>
    obtain ⟨hdigits, hdigit, hpoint⟩ := h
    simp only [token] at he
    split at he
    · cases he
    · rename_i hfits
      cases he
      rw [fits_iff, Nat.not_le] at hfits
      rw [TooLarge, chars, takeWhile_of_bars hdigits.2 hdigit, dropWhile_of_bars hdigits.2 hdigit]
      refine ⟨rfl, hdigits.1, ?_, hfits⟩
      intro hhead
      simpa using hpoint '.' hhead
  | decimal whole fraction => cases he
  | mark m => cases he

end Lexeme

/-- The lexer finds a token where and only where a longest spelling begins. -/
theorem takes_iff {text : List Char} :
    Takes text ↔ ∃ l after t, Lexeme.take? text = some (l, after) ∧ l.token = .ok t := by
  constructor
  · rintro ⟨chars, t, after, rfl, hspelling, hends⟩
    obtain ⟨l, rfl, ht, hlongest⟩ := Lexeme.exists_of_spelling hspelling hends
    exact ⟨l, after, t, Lexeme.take?_of_longest hlongest, ht⟩
  · rintro ⟨l, after, t, htake, ht⟩
    obtain ⟨rfl, hlongest⟩ := Lexeme.take?_eq_some.mp htake
    obtain ⟨hspelling, hends⟩ := Lexeme.spelling_of_token hlongest ht
    exact ⟨l.chars, t, after, rfl, hspelling, hends⟩

theorem not_tooLarge_of_take?_eq_none {text : List Char} (h : Lexeme.take? text = none) :
    ¬ TooLarge text := by
  rintro ⟨hrun, -⟩
  rw [Lexeme.take?_eq_or, Option.or_eq_none_iff, Option.or_eq_none_iff] at h
  obtain ⟨-, hinteger, -⟩ := h
  rw [Lexeme.takeInteger?, Lexeme.digits?, if_neg hrun] at hinteger
  cases hinteger

end Abacus
