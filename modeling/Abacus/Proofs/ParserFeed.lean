import Abacus.Proofs.LexerStream
import Abacus.Proofs.ParserRules

/-! # What lies ahead of the reader

A state stands before the tokens that its text still holds, the token ahead among them, and before the
failure that ends them if there is one. A shift takes one token off, or meets the failure. Whatever is
read, the nesting comes back to where it was, and a chain stops only where nothing continues it.
-/
namespace Abacus.Parser

namespace State

/-- The tokens from the token ahead on. -/
def ahead (s : State) : List Token :=
  if s.lookahead.isEnd then [] else s.lookahead :: s.cursor.stream.tokens

/-- What ends these tokens, if not the end of the input. -/
def failure (s : State) : Option LexError :=
  if s.lookahead.isEnd then none else s.cursor.stream.failure

/-- Behind the end of the input there is only the end of the input. -/
def Settled (s : State) : Prop :=
  s.lookahead = .endOfInput → s.cursor.next = (.ok .endOfInput, s.cursor)

@[simp] theorem nesting_ascend (s : State) : s.ascend.nesting = s.nesting - 1 := rfl

theorem ahead_of_token {s : State} (h : s.lookahead.isEnd = false) :
    s.ahead = s.lookahead :: s.cursor.stream.tokens := by simp [ahead, h]

theorem ahead_of_end {s : State} (h : s.lookahead = .endOfInput) : s.ahead = [] := by
  simp [ahead, h, Token.isEnd]

theorem failure_of_end {s : State} (h : s.lookahead = .endOfInput) : s.failure = none := by
  simp [failure, h, Token.isEnd]

theorem lookahead_eq_headD (s : State) : s.lookahead = s.ahead.headD .endOfInput := by
  cases h : s.lookahead.isEnd with
  | false => simp [ahead, h]
  | true =>
    have he := Token.isEnd_eq_true.mp h
    simp [ahead_of_end he, he]

theorem shift_ok {s s₁ : State} (h : s.shift = (.ok (), s₁)) :
    s₁.ahead = s.cursor.stream.tokens ∧ s₁.failure = s.cursor.stream.failure ∧
      s₁.nesting = s.nesting ∧ s₁.Settled := by
  unfold shift at h
  split at h
  · rename_i t c hn
    simp only [Prod.mk.injEq, true_and] at h
    subst h
    cases ht : t.isEnd with
    | true =>
      obtain rfl := Token.isEnd_eq_true.mp ht
      rw [Cursor.stream_of_end hn]
      exact ⟨ahead_of_end rfl, failure_of_end rfl, rfl, fun _ => Cursor.next_of_end hn⟩
    | false =>
      rw [Cursor.stream_of_token hn ht]
      refine ⟨by simp [ahead, ht], by simp [failure, ht], rfl, ?_⟩
      intro he
      simp [show t = .endOfInput from he, Token.isEnd] at ht
  · simp at h

theorem shift_error {s s₁ : State} {e : SyntaxError} (h : s.shift = (.error e, s₁)) :
    s.cursor.stream.tokens = [] ∧ (∃ x, s.cursor.stream.failure = some x ∧ e = .lexical x) ∧
      s₁.nesting = s.nesting ∧ s₁.lookahead = s.lookahead := by
  unfold shift at h
  split at h
  · simp at h
  · rename_i x c hn
    simp only [Prod.mk.injEq, Except.error.injEq] at h
    obtain ⟨rfl, rfl⟩ := h
    rw [Cursor.stream_of_error hn]
    exact ⟨rfl, ⟨x, rfl, rfl⟩, rfl, rfl⟩

theorem ahead_of_shift {s s₁ : State} (ht : s.lookahead.isEnd = false) (h : s.shift = (.ok (), s₁)) :
    s.ahead = s.lookahead :: s₁.ahead ∧ s₁.failure = s.failure := by
  obtain ⟨ha, hf, -, -⟩ := shift_ok h
  refine ⟨by rw [ahead_of_token ht, ha], ?_⟩
  rw [hf]
  simp [failure, ht]

theorem ahead_of_shift_error {s s₁ : State} {e : SyntaxError} (ht : s.lookahead.isEnd = false)
    (h : s.shift = (.error e, s₁)) :
    s.ahead = [s.lookahead] ∧ ∃ x, s.failure = some x ∧ e = .lexical x := by
  obtain ⟨ha, ⟨x, hf, he⟩, -, -⟩ := shift_error h
  refine ⟨by rw [ahead_of_token ht, ha], x, ?_, he⟩
  simp [failure, ht, hf]

/-- The state stands before exactly these tokens and the end of the input, with so much open. -/
structure Holds (s : State) (ts : List Token) (n : Nat) : Prop where
  ahead : s.ahead = ts
  failure : s.failure = none
  nesting : s.nesting = n

theorem Holds.lookahead {s : State} {ts : List Token} {n : Nat} (h : s.Holds ts n) :
    s.lookahead = ts.headD .endOfInput := h.ahead ▸ s.lookahead_eq_headD

theorem Holds.descend {s : State} {ts : List Token} {n : Nat} (h : s.Holds ts n) :
    s.descend.Holds ts (n + 1) := ⟨h.ahead, h.failure, congrArg Nat.succ h.nesting⟩

theorem Holds.ascend {s : State} {ts : List Token} {n : Nat} (h : s.Holds ts (n + 1)) :
    s.ascend.Holds ts n := ⟨h.ahead, h.failure, congrArg Nat.pred h.nesting⟩

theorem Holds.shift {s : State} {t : Token} {ts : List Token} {n : Nat} (h : s.Holds (t :: ts) n) :
    s.lookahead = t ∧ ∃ s₁, s.shift = (.ok (), s₁) ∧ s₁.Holds ts n := by
  have ht : s.lookahead.isEnd = false := by
    cases hend : s.lookahead.isEnd with
    | false => rfl
    | true => simpa [ahead_of_end (Token.isEnd_eq_true.mp hend)] using h.ahead
  rcases hs : s.shift with ⟨r, s₁⟩
  cases r with
  | error e =>
    obtain ⟨-, x, hx, -⟩ := ahead_of_shift_error ht hs
    simp [h.failure] at hx
  | ok u =>
    obtain ⟨hcons, hfail⟩ := ahead_of_shift ht hs
    obtain ⟨rfl, rfl⟩ : t = s.lookahead ∧ ts = s₁.ahead := by simpa [h.ahead] using hcons
    exact ⟨rfl, s₁, rfl, rfl, hfail.trans h.failure, (shift_ok hs).2.2.1.trans h.nesting⟩

theorem expect_ok {k : Token.Kind} {s s₁ : State} (h : s.expect k = (.ok (), s₁)) :
    s.lookahead.kind = k ∧ s.shift = (.ok (), s₁) := by
  unfold expect at h
  split at h
  · exact ⟨by assumption, h⟩
  · simp at h

theorem expect_error {k : Token.Kind} {s s₁ : State} {e : SyntaxError}
    (h : s.expect k = (.error e, s₁)) :
    (s.lookahead.kind = k ∧ s.shift = (.error e, s₁)) ∨
      (s.lookahead.kind ≠ k ∧ e = .unexpected k s.lookahead ∧ s₁ = s) := by
  unfold expect at h
  split at h
  · exact .inl ⟨by assumption, h⟩
  · simp only [Prod.mk.injEq, Except.error.injEq] at h
    exact .inr ⟨by assumption, h.1.symm, h.2.symm⟩

end State

/-! ## Frame -/

/-- However a reading ends, the nesting is what it was. -/
theorem Reads.nesting_eq {lim : Limits} {k : Task} {s : State} {o : Outcome Tree}
    (h : Reads lim k s o) : o.2.nesting = s.nesting := by
  induction h with
  | missing => rfl
  | unreadable _ hs => exact (State.shift_error hs).2.2.1
  | number _ hs => exact (State.shift_ok hs).2.2.1
  | inside _ _ hs _ ih => exact ih.trans (State.shift_ok hs).2.2.1
  | unclosed _ hs _ hx ih =>
    have hn := ih.trans (State.shift_ok hs).2.2.1
    rcases State.expect_error hx with ⟨-, hx⟩ | ⟨-, -, rfl⟩
    · exact (State.shift_error hx).2.2.1.trans hn
    · exact hn
  | group _ hs _ hx ih =>
    exact (State.shift_ok (State.expect_ok hx).2).2.2.1.trans (ih.trans (State.shift_ok hs).2.2.1)
  | sign _ hs _ ih => exact ih.trans (State.shift_ok hs).2.2.1
  | tooDeep => rfl
  | @nested s s₁ _ _ _ ih =>
    have hn : s₁.nesting = s.nesting + 1 := ih
    rw [State.nesting_ascend, hn, Nat.add_sub_cancel]
  | first _ ih => exact ih
  | chain _ _ ih ihc => exact ihc.trans ih
  | product _ ih => exact ih
  | factor _ ih => exact ih
  | stop => rfl
  | halt _ hs => exact (State.shift_error hs).2.2.1
  | right _ hs _ ih => exact ih.trans (State.shift_ok hs).2.2.1
  | tooHigh _ hs _ _ ih => exact ih.trans (State.shift_ok hs).2.2.1
  | extend _ hs _ _ _ ih ihc => exact ihc.trans (ih.trans (State.shift_ok hs).2.2.1)

theorem Reads.settled {lim : Limits} {k : Task} {s : State} {t : Tree} {s' : State}
    (h : Reads lim k s (.ok t, s')) (hs : s.Settled) : s'.Settled := by
  generalize ho : (Except.ok t, s') = o at h
  induction h generalizing t s' with
  | number _ hshift => cases ho; exact (State.shift_ok hshift).2.2.2
  | group _ _ _ hx => cases ho; exact (State.shift_ok (State.expect_ok hx).2).2.2.2
  | sign _ hshift _ ih =>
    obtain ⟨-, rfl⟩ := Prod.mk.inj ho
    exact ih (State.shift_ok hshift).2.2.2 rfl
  | @nested _ s₁ _ _ _ ih =>
    obtain ⟨rfl, rfl⟩ := Prod.mk.inj ho
    have hsettled : s₁.Settled := ih hs rfl
    exact hsettled
  | chain _ _ ih ihc => exact ihc (ih hs rfl) ho
  | product _ ih => exact ih hs ho
  | factor _ ih => exact ih hs ho
  | stop => cases ho; exact hs
  | extend _ hshift _ _ _ ih ihc => exact ihc (ih (State.shift_ok hshift).2.2.2 rfl) ho
  | _ => cases ho

theorem Reads.failure_eq {lim : Limits} {k : Task} {s : State} {t : Tree} {s' : State}
    (h : Reads lim k s (.ok t, s')) : s'.failure = s.failure := by
  generalize ho : (Except.ok t, s') = o at h
  induction h generalizing t s' with
  | number hn hs => cases ho; exact (State.ahead_of_shift (Opening.isEnd_of_ofToken? hn) hs).2
  | group hn hs _ hx ih =>
    cases ho
    obtain ⟨hkind, hshift⟩ := State.expect_ok hx
    have hclose := Token.kind_eq_mark.mp hkind
    have hlast := (State.ahead_of_shift (by simp [hclose, Token.isEnd]) hshift).2
    exact hlast.trans ((ih rfl).trans (State.ahead_of_shift (Opening.isEnd_of_ofToken? hn) hs).2)
  | sign hn hs _ ih =>
    obtain ⟨-, rfl⟩ := Prod.mk.inj ho
    exact (ih rfl).trans (State.ahead_of_shift (Opening.isEnd_of_ofToken? hn) hs).2
  | @nested s s₁ _ _ _ ih =>
    obtain ⟨rfl, rfl⟩ := Prod.mk.inj ho
    have hin : s₁.failure = s.descend.failure := ih rfl
    exact hin
  | chain _ _ ih ihc => exact (ihc ho).trans (ih rfl)
  | product _ ih => exact ih ho
  | factor _ ih => exact ih ho
  | stop => cases ho; rfl
  | extend hop hs _ _ _ ih ihc =>
    exact (ihc ho).trans ((ih rfl).trans (State.ahead_of_shift (Level.isEnd_of_operator? hop) hs).2)
  | _ => cases ho

/-! ## Where a chain stops -/

/-- The token continues no chain of a level below this rank. -/
def Quiet (rank : Nat) (t : Token) : Prop := ∀ p : Level, p.rank < rank → p.operator? t = none

theorem quiet_one (t : Token) : Quiet 1 t := by
  intro p hp
  cases p <;> simp [Level.rank] at hp

theorem Quiet.succ {p : Level} {t : Token} (h : Quiet p.rank t) (hp : p.operator? t = none) :
    Quiet (p.rank + 1) t := by
  intro q hq
  by_cases hlt : q.rank < p.rank
  · exact h q hlt
  · have heq : q = p := by
      cases p <;> cases q <;> simp_all [Level.rank]
    exact heq ▸ hp

/-- The levels that the token before a task must not continue. -/
def Task.entry : Task → Nat
  | continuation p _ => p.rank
  | _ => 1

/-- The levels that the token behind a task does not continue. -/
def Task.exit : Task → Nat
  | factor => 1
  | nested => Level.sum.rank + 1
  | operand p => p.rank
  | chain p => p.rank + 1
  | continuation p _ => p.rank + 1

theorem Reads.quiet {lim : Limits} {k : Task} {s : State} {t : Tree} {s' : State}
    (h : Reads lim k s (.ok t, s')) (hs : Quiet k.entry s.lookahead) : Quiet k.exit s'.lookahead := by
  generalize ho : (Except.ok t, s') = o at h
  induction h generalizing t s' with
  | number => exact quiet_one _
  | group => exact quiet_one _
  | sign => exact quiet_one _
  | @nested _ s₁ _ _ _ ih =>
    obtain ⟨rfl, rfl⟩ := Prod.mk.inj ho
    have hquiet : Quiet (Task.chain .sum).exit s₁.lookahead := ih (quiet_one _) rfl
    exact hquiet
  | chain _ _ ih ihc => exact ihc (ih (quiet_one _) rfl) ho
  | product _ ih => exact ih (quiet_one _) ho
  | factor _ ih => exact ih (quiet_one _) ho
  | stop hp => cases ho; exact hs.succ hp
  | extend _ _ _ _ _ ih ihc => exact ihc (ih (quiet_one _) rfl) ho
  | _ => cases ho

theorem Reads.no_operator {lim : Limits} {k : Task} {s : State} {t : Tree} {s' : State}
    (h : Reads lim k s (.ok t, s')) (hentry : k.entry = 1) (hexit : k.exit = Level.sum.rank + 1)
    (p : Level) : p.operator? s'.lookahead = none := by
  have hquiet := h.quiet (hentry ▸ quiet_one _)
  rw [hexit] at hquiet
  exact hquiet p (Nat.lt_succ_of_le p.rank_le)

/-! ## The whole text -/

/-- What a text spells when the outcome is that of its highest chain: nothing may be left behind it. -/
def conclude : Outcome Tree → Except SyntaxError Expr
  | (.error e, _) => .error e
  | (.ok t, s) =>
    if s.lookahead = .endOfInput then .ok t.expr else .error (.unexpected .endOfInput s.lookahead)

/-- A text fails before its first token, or it is read from a state with all its tokens ahead. Which of
the two, and the state, do not depend on the limits. -/
theorem parse_start (c : Cursor) :
    (∃ e, c.stream.tokens = [] ∧ c.stream.failure = some e ∧ ∀ lim, parse lim c = .error (.lexical e)) ∨
    ∃ s : State, s.ahead = c.stream.tokens ∧ s.failure = c.stream.failure ∧ s.nesting = 0 ∧
      ∀ lim o, Reads lim (.chain .sum) s o → parse lim c = conclude o := by
  rcases hs : State.shift ⟨c, .endOfInput, 0⟩ with ⟨r, s⟩
  cases r with
  | error e =>
    left
    obtain ⟨htokens, ⟨x, hfailure, rfl⟩, -, -⟩ := State.shift_error hs
    exact ⟨x, htokens, hfailure, fun lim => by simp only [parse, hs]⟩
  | ok u =>
    right
    obtain ⟨hahead, hfailure, hnesting, hsettled⟩ := State.shift_ok hs
    refine ⟨s, hahead, hfailure, hnesting, ?_⟩
    intro lim o ho
    have hrun : (chain lim .sum s).1 = o := ho.run_eq
    simp only [parse, hs, hrun]
    rcases o with ⟨r, s₁⟩
    cases r with
    | error e => rfl
    | ok t =>
      simp only [conclude, State.expect, Token.kind_eq_end]
      split
      · rename_i hend
        have hnext := (ho.settled hsettled) hend
        simp only [State.shift, hnext]
        rfl
      · rfl

end Abacus.Parser

namespace Abacus

def parseWithin (lim : Parser.Limits) (text : String) : Except Error Expr := do
  let l ← (Lexer.ofText text).mapError .lexical
  (Parser.parse lim l.cursor).mapError .grammatical

theorem parse_eq_parseWithin (text : String) : parse text = parseWithin .standard text := rfl

theorem parseWithin_empty (lim : Parser.Limits) :
    parseWithin lim "" = .error (.lexical .emptyInput) := rfl

theorem parseWithin_of_ne {text : String} (h : text ≠ "") (lim : Parser.Limits) :
    parseWithin lim text = (Parser.parse lim (.ofText text)).mapError .grammatical := by
  simp [parseWithin, ofText_eq_ok h, Except.mapError, bind, Except.bind]

theorem parseWithin_eq_ok {text : String} {lim : Parser.Limits} {e : Expr} :
    parseWithin lim text = .ok e ↔ text ≠ "" ∧ Parser.parse lim (.ofText text) = .ok e := by
  by_cases h : text = ""
  · subst h
    simp [parseWithin_empty]
  · rw [parseWithin_of_ne h]
    cases Parser.parse lim (.ofText text) <;> simp [Except.mapError, h]

theorem parseWithin_eq_grammatical {text : String} {lim : Parser.Limits} {x : SyntaxError} :
    parseWithin lim text = .error (.grammatical x) ↔
      text ≠ "" ∧ Parser.parse lim (.ofText text) = .error x := by
  by_cases h : text = ""
  · subst h
    simp [parseWithin_empty]
  · rw [parseWithin_of_ne h]
    cases Parser.parse lim (.ofText text) <;> simp [Except.mapError, h]

end Abacus
