import Abacus.Token
import Abacus.Text.Blank
import Abacus.Text.Quoted
/-! # From text to tokens

A cursor stands somewhere in a text and reads one token at a time: it passes the blanks before it and
takes the longest lexeme there. A failing read leaves the cursor behind the blanks, so it fails in the
same way again. A lexer is a cursor that can also be drained as a sequence which ends at its first
failure.
-/
namespace Abacus

inductive LexError where
  | emptyInput
  /-- No lexeme starts with this character. The offset counts UTF-8 bytes. -/
  | unexpectedChar (found : Char) (offset : Nat)
  | integerTooLarge (literal : List Char)
deriving DecidableEq

def LexError.message : LexError → String
  | .emptyInput => "empty input"
  | .unexpectedChar found offset =>
    "unexpected character " ++ Text.quoted found ++ " at offset " ++ toString offset
  | .integerTooLarge literal => "integer literal " ++ String.ofList literal ++ " is too large"

inductive Lexeme where
  | integer (digits : List Char)
  | decimal (whole fraction : List Char)
  | mark (m : Mark)
deriving DecidableEq

namespace Lexeme

def chars : Lexeme → List Char
  | integer digits => digits
  | decimal whole fraction => whole ++ '.' :: fraction
  | mark m => [m.toChar]

/-- The longest lexeme at the head of a text, and the text behind it. -/
def take? (text : List Char) : Option (Lexeme × List Char) :=
  match text.takeWhile Char.isDigit, text.dropWhile Char.isDigit with
  | [], [] => none
  | [], c :: rest => (Mark.ofChar? c).map fun m => (mark m, rest)
  | d :: ds, '.' :: rest =>
    some (decimal (d :: ds) (rest.takeWhile Char.isDigit), rest.dropWhile Char.isDigit)
  | d :: ds, rest => some (integer (d :: ds), rest)

/-- The token of a lexeme. Leading zeros are fine, an integer above the 64-bit range is not; a
decimal always has a nearest double, which for a long one may be infinite. -/
def token : Lexeme → Except LexError Token
  | integer digits =>
    let value := Nat.ofDigitChars 10 digits 0
    if Number.Fits value then .ok (.number (.int (Int64.ofInt value)))
    else .error (.integerTooLarge digits)
  | decimal whole fraction => .ok (.number (.float (Decimal.ofDigits whole fraction).toFloat))
  | mark m => .ok (.mark m)

theorem length_of_take? {text rest : List Char} {l : Lexeme} (h : take? text = some (l, rest)) :
    rest.length < text.length := by
  have split := congrArg List.length (List.takeWhile_append_dropWhile (p := Char.isDigit) (l := text))
  rw [List.length_append] at split
  unfold take? at h
  split at h
  · simp at h
  · rename_i c more h1 h2
    simp only [h1, h2, List.length_nil, List.length_cons] at split
    simp only [Option.map_eq_some_iff, Prod.mk.injEq] at h
    obtain ⟨_, _, _, rfl⟩ := h
    omega
  · rename_i more _ h2
    simp only [h2, List.length_cons] at split
    simp only [Option.some.injEq, Prod.mk.injEq] at h
    obtain ⟨_, rfl⟩ := h
    have := (List.dropWhile_sublist (l := more) Char.isDigit).length_le
    omega
  · rename_i h1 _
    simp only [h1, List.length_cons] at split
    simp only [Option.some.injEq, Prod.mk.injEq] at h
    obtain ⟨_, rfl⟩ := h
    omega

end Lexeme

def byteLength (text : List Char) : Nat := (String.ofList text).utf8ByteSize

structure Cursor where
  /-- The number of bytes before this place. -/
  offset : Nat
  rest : List Char
deriving DecidableEq

namespace Cursor

def ofText (text : String) : Cursor := ⟨0, text.toList⟩

def skipBlanks (c : Cursor) : Cursor :=
  ⟨c.offset + byteLength (c.rest.takeWhile Text.isBlank), c.rest.dropWhile Text.isBlank⟩

/-- Reads the next token. At the end of the text this is the end of the input, as often as asked. -/
def next (c : Cursor) : Except LexError Token × Cursor :=
  let start := c.skipBlanks
  match start.rest with
  | [] => (.ok .endOfInput, start)
  | found :: _ =>
    match Lexeme.take? start.rest with
    | none => (.error (.unexpectedChar found start.offset), start)
    | some (lexeme, rest) =>
      match lexeme.token with
      | .error e => (.error e, start)
      | .ok t => (.ok t, ⟨start.offset + byteLength lexeme.chars, rest⟩)

theorem length_skipBlanks (c : Cursor) : c.skipBlanks.rest.length ≤ c.rest.length :=
  (List.dropWhile_sublist Text.isBlank).length_le

theorem length_next_le (c : Cursor) : c.next.2.rest.length ≤ c.rest.length := by
  have skip := c.length_skipBlanks
  unfold next
  dsimp only
  split
  · exact skip
  · split
    · exact skip
    · rename_i h
      have := Lexeme.length_of_take? h
      split
      · exact skip
      · exact Nat.le_trans (Nat.le_of_lt this) skip

/-- Every token but the end of the input uses up text. -/
theorem length_next_lt {c c' : Cursor} {t : Token} (h : c.next = (.ok t, c')) (ht : t.isEnd = false) :
    c'.rest.length < c.rest.length := by
  have skip := c.length_skipBlanks
  unfold next at h
  dsimp only at h
  split at h
  · simp only [Prod.mk.injEq, Except.ok.injEq] at h
    obtain ⟨rfl, _⟩ := h
    simp [Token.isEnd] at ht
  · split at h
    · simp at h
    · rename_i htake
      have := Lexeme.length_of_take? htake
      split at h
      · simp at h
      · simp only [Prod.mk.injEq] at h
        obtain ⟨_, rfl⟩ := h
        exact Nat.lt_of_lt_of_le this skip

/-- What reading to the end brings: the tokens before it, the failure if there is one, and the place
where reading stopped. -/
structure Stream where
  tokens : List Token
  failure : Option LexError
  stop : Cursor
deriving DecidableEq

def stream (c : Cursor) : Stream := go [] c
where
  /-- Continues behind the tokens already read, the last of them first. -/
  go (read : List Token) (c : Cursor) : Stream :=
    match h : c.next with
    | (.error e, c') => ⟨read.reverse, some e, c'⟩
    | (.ok t, c') =>
      if ht : t.isEnd then ⟨read.reverse, none, c'⟩
      else
        have := length_next_lt h (by simpa using ht)
        go (t :: read) c'
  termination_by c.rest.length

end Cursor

structure Lexer where
  cursor : Cursor
  failed : Bool := false
deriving DecidableEq

namespace Lexer

/-- A lexer at the start of a text, which must not be empty. -/
def ofText (text : String) : Except LexError Lexer :=
  if text.isEmpty then .error .emptyInput else .ok { cursor := .ofText text }

def offset (l : Lexer) : Nat := l.cursor.offset

def nextToken (l : Lexer) : Except LexError Token × Lexer :=
  let (result, c) := l.cursor.next
  (result, { l with cursor := c })

/-- The tokens from here to the end of the input. A failure loses the ones before it. -/
def allTokens (l : Lexer) : Except LexError (List Token) × Lexer :=
  let s := l.cursor.stream
  (match s.failure with
    | some e => .error e
    | none => .ok s.tokens,
   { l with cursor := s.stop })

/-- The next item of the sequence: a token, the failure that ends it, or nothing once it has ended. -/
def next? (l : Lexer) : Option (Except LexError Token) × Lexer :=
  if l.failed then (none, l)
  else
    match l.cursor.next with
    | (.error e, c) => (some (.error e), ⟨c, true⟩)
    | (.ok t, c) => (if t.isEnd then none else some (.ok t), ⟨c, false⟩)

def drain (l : Lexer) : List (Except LexError Token) × Lexer :=
  if l.failed then ([], l)
  else
    let s := l.cursor.stream
    (s.tokens.map .ok ++ s.failure.toList.map .error, ⟨s.stop, s.failure.isSome⟩)

end Lexer

end Abacus
