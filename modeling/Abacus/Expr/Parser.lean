import Abacus.Expr
import Abacus.Token.Lexer
/-! # From text to expressions

A sum is a chain of products, a product a chain of factors, and chains lean to the left. A factor is a
number, a sum in parentheses, or a sign before a sum: the operand of a sign reaches to the end of its
group.

The reader looks one token ahead and takes tokens from the text on demand, so of two faults in a text
the first one is reported. It returns the state reached on failure too. Nesting and height are
limited; parentheses and signs nest, and every operator and sign adds to the height.

Every recursive reading carries a proof that it has used up part of the text. This is what makes the
recursion end: at the end of the input nothing can be used up, and nothing there starts a factor.
-/
namespace Abacus

inductive SyntaxError where
  /-- A token could not be read when its turn came. -/
  | lexical (e : LexError)
  | unexpected (expected : Token.Kind) (found : Token)
  | missingFactor (found : Token)
  | tooDeep (limit : Nat)
deriving DecidableEq

def SyntaxError.message : SyntaxError → String
  | .lexical e => e.message
  | .unexpected expected found => "expected " ++ expected.text ++ ", found " ++ found.text
  | .missingFactor found => "expected a number, `(` or a sign, found " ++ found.text
  | .tooDeep limit => "expression nests deeper than " ++ toString limit ++ " levels"

namespace Parser

/-- How far an expression may nest and how high its tree may grow; `none` is no limit. -/
structure Limits where
  nesting : Option Nat
  height : Option Nat
deriving DecidableEq

namespace Limits

def maxNesting : Nat := 256

def maxHeight : Nat := 4096

def standard : Limits := ⟨some maxNesting, some maxHeight⟩

def unlimited : Limits := ⟨none, none⟩

end Limits

/-- Passes when a depth may grow by one. -/
def room (limit : Option Nat) (depth : Nat) : Except SyntaxError Unit :=
  match limit with
  | none => .ok ()
  | some most => if depth < most then .ok () else .error (.tooDeep most)

structure Tree where
  expr : Expr
  height : Nat
  height_eq : height = expr.height

namespace Tree

def literal (n : Number) : Tree := ⟨.literal n, 1, rfl⟩

def signed (lim : Limits) (s : Sign) (t : Tree) : Except SyntaxError Tree :=
  (room lim.height t.height).map fun _ =>
    ⟨.signed s t.expr, t.height + 1, by rw [t.height_eq, Expr.height]⟩

def binary (lim : Limits) (op : Operator) (l r : Tree) : Except SyntaxError Tree :=
  (room lim.height (max l.height r.height)).map fun _ =>
    ⟨.binary op l.expr r.expr, max l.height r.height + 1, by rw [l.height_eq, r.height_eq, Expr.height]⟩

end Tree

/-- A place in a text with the token before it already taken off, and the number of groups and signs
that are open there. -/
structure State where
  cursor : Cursor
  lookahead : Token
  nesting : Nat
deriving DecidableEq

abbrev Outcome (α : Type) := Except SyntaxError α × State

namespace State

/-- The text still to be used up; the token ahead counts for one character. -/
def size (s : State) : Nat := s.cursor.rest.length + if s.lookahead.isEnd then 0 else 1

/-- Drops the token ahead and takes the next one. If that fails, the token ahead stays. -/
def shift (s : State) : Outcome Unit :=
  match s.cursor.next with
  | (.ok t, c) => (.ok (), { s with cursor := c, lookahead := t })
  | (.error e, c) => (.error (.lexical e), { s with cursor := c })

def expect (k : Token.Kind) (s : State) : Outcome Unit :=
  if s.lookahead.kind = k then s.shift else (.error (.unexpected k s.lookahead), s)

def descend (s : State) : State := { s with nesting := s.nesting + 1 }

def ascend (s : State) : State := { s with nesting := s.nesting - 1 }

theorem size_descend (s : State) : s.descend.size = s.size := rfl

theorem size_shift_le {s s' : State} (h : s.shift = (.ok (), s')) :
    s'.size ≤ s.cursor.rest.length := by
  unfold shift at h
  split at h
  · rename_i t c hn
    simp only [Prod.mk.injEq, true_and] at h
    subst h
    have le := s.cursor.length_next_le
    rw [hn] at le
    cases hend : t.isEnd
    · simpa [size, hend] using Nat.succ_le_of_lt (Cursor.length_next_lt hn hend)
    · simpa [size, hend] using le
  · simp at h

theorem size_shift_lt {s s' : State} (h : s.shift = (.ok (), s')) (ht : s.lookahead.isEnd = false) :
    s'.size < s.size := by
  have hs : s.size = s.cursor.rest.length + 1 := by simp [size, ht]
  exact hs ▸ Nat.lt_succ_of_le (size_shift_le h)

theorem size_expect {s s' : State} {k : Token.Kind} (h : s.expect k = (.ok (), s')) :
    s'.size ≤ s.size := by
  unfold expect at h
  split at h
  · exact Nat.le_trans (size_shift_le h) (Nat.le_add_right _ _)
  · simp at h

end State

inductive Opening where
  | number (n : Number)
  | group
  | sign (s : Sign)
deriving DecidableEq

def Opening.ofToken? : Token → Option Opening
  | .endOfInput => none
  | .number n => some (.number n)
  | .mark .leftParen => some .group
  | .mark m => (Sign.ofMark? m).map .sign

theorem Opening.isEnd_of_ofToken? {t : Token} {o : Opening} (h : ofToken? t = some o) :
    t.isEnd = false := by
  cases t <;> simp_all [ofToken?, Token.isEnd]

inductive Level where
  | sum
  | product
deriving DecidableEq

def Level.rank : Level → Nat
  | sum => 2
  | product => 1

theorem Level.rank_le (p : Level) : p.rank ≤ 2 := by cases p <;> decide

/-- The operator that continues a chain. -/
def Level.operator? : Level → Token → Option Operator
  | sum, .mark .plus => some .add
  | sum, .mark .minus => some .sub
  | product, .mark .star => some .mul
  | product, .mark .slash => some .div
  | _, _ => none

theorem Level.isEnd_of_operator? {p : Level} {t : Token} {op : Operator}
    (h : p.operator? t = some op) : t.isEnd = false := by
  cases t <;> cases p <;> simp_all [operator?, Token.isEnd]

/-- A success has used up part of the text. -/
def Shrinks (s : State) : Outcome Tree → Prop
  | (.ok _, s') => s'.size < s.size
  | (.error _, _) => True

/-- A success has not gone back in the text. -/
def Keeps (s : State) : Outcome Tree → Prop
  | (.ok _, s') => s'.size ≤ s.size
  | (.error _, _) => True

theorem Keeps.shrinks {s s' : State} {o : Outcome Tree} (h : Keeps s' o) (hs : s'.size < s.size) :
    Shrinks s o := by
  rcases o with ⟨_ | _, _⟩
  · trivial
  · exact Nat.lt_of_le_of_lt h hs

theorem Keeps.trans {s s' : State} {o : Outcome Tree} (h : Keeps s' o) (hs : s'.size ≤ s.size) :
    Keeps s o := by
  rcases o with ⟨_ | _, _⟩
  · trivial
  · exact Nat.le_trans h hs

mutual

def factor (lim : Limits) (s : State) : { o : Outcome Tree // Shrinks s o } :=
  match ho : Opening.ofToken? s.lookahead with
  | none => ⟨(.error (.missingFactor s.lookahead), s), trivial⟩
  | some opening =>
    match hs : s.shift with
    | (.error e, s₁) => ⟨(.error e, s₁), trivial⟩
    | (.ok _, s₁) =>
      have h₁ : s₁.size < s.size := State.size_shift_lt hs (Opening.isEnd_of_ofToken? ho)
      match opening with
      | .number n => ⟨(.ok (.literal n), s₁), h₁⟩
      | .group =>
        match nested lim s₁ with
        | ⟨(.error e, s₂), _⟩ => ⟨(.error e, s₂), trivial⟩
        | ⟨(.ok t, s₂), h₂⟩ =>
          match hx : s₂.expect (.mark .rightParen) with
          | (.error e, s₃) => ⟨(.error e, s₃), trivial⟩
          | (.ok _, s₃) => ⟨(.ok t, s₃), Nat.lt_trans (Nat.lt_of_le_of_lt (State.size_expect hx) h₂) h₁⟩
      | .sign sign =>
        match nested lim s₁ with
        | ⟨(.error e, s₂), _⟩ => ⟨(.error e, s₂), trivial⟩
        | ⟨(.ok t, s₂), h₂⟩ =>
          match t.signed lim sign with
          | .error e => ⟨(.error e, s₂), trivial⟩
          | .ok t => ⟨(.ok t, s₂), Nat.lt_trans h₂ h₁⟩
termination_by 8 * s.size + 1

/-- Reads a sum one level further down, if the nesting allows it. -/
def nested (lim : Limits) (s : State) : { o : Outcome Tree // Shrinks s o } :=
  match room lim.nesting s.nesting with
  | .error e => ⟨(.error e, s), trivial⟩
  | .ok _ =>
    match chain lim .sum s.descend with
    | ⟨(.error e, s₁), _⟩ => ⟨(.error e, s₁.ascend), trivial⟩
    | ⟨(.ok t, s₁), h⟩ => ⟨(.ok t, s₁.ascend), h⟩
termination_by 8 * s.size + 6
decreasing_by exact Nat.add_lt_add_left (by decide) _

def chain (lim : Limits) (p : Level) (s : State) : { o : Outcome Tree // Shrinks s o } :=
  match operand lim p s with
  | ⟨(.error e, s₁), _⟩ => ⟨(.error e, s₁), trivial⟩
  | ⟨(.ok t, s₁), h⟩ =>
    have : s₁.size < s.size := h
    let o := continuation lim p t s₁
    ⟨o.1, o.2.shrinks h⟩
termination_by 8 * s.size + (2 * p.rank + 1)

def operand (lim : Limits) (p : Level) (s : State) : { o : Outcome Tree // Shrinks s o } :=
  match p with
  | .sum => chain lim .product s
  | .product => factor lim s
termination_by 8 * s.size + 2 * p.rank
decreasing_by all_goals exact Nat.add_lt_add_left (by decide) _

/-- Reads the operators and operands that follow the part of a chain already read. -/
def continuation (lim : Limits) (p : Level) (left : Tree) (s : State) :
    { o : Outcome Tree // Keeps s o } :=
  match ho : p.operator? s.lookahead with
  | none => ⟨(.ok left, s), Nat.le_refl _⟩
  | some op =>
    match hs : s.shift with
    | (.error e, s₁) => ⟨(.error e, s₁), trivial⟩
    | (.ok _, s₁) =>
      have h₁ : s₁.size < s.size := State.size_shift_lt hs (Level.isEnd_of_operator? ho)
      have : p.rank ≤ 2 := p.rank_le
      match operand lim p s₁ with
      | ⟨(.error e, s₂), _⟩ => ⟨(.error e, s₂), trivial⟩
      | ⟨(.ok right, s₂), h₂⟩ =>
        match Tree.binary lim op left right with
        | .error e => ⟨(.error e, s₂), trivial⟩
        | .ok t =>
          have h : s₂.size < s.size := Nat.lt_trans h₂ h₁
          let o := continuation lim p t s₂
          ⟨o.1, o.2.trans (Nat.le_of_lt h)⟩
termination_by 8 * s.size

end

def parse (lim : Limits) (c : Cursor) : Except SyntaxError Expr :=
  match State.shift ⟨c, .endOfInput, 0⟩ with
  | (.error e, _) => .error e
  | (.ok _, s) =>
    match (chain lim .sum s).1 with
    | (.error e, _) => .error e
    | (.ok t, s₁) => (s₁.expect .endOfInput).1.map fun _ => t.expr

end Parser

end Abacus
