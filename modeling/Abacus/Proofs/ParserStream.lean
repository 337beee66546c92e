import Abacus.Proofs.LexerLayout
import Abacus.Proofs.ParserAcceptance

/-! # The tokens decide

Two cursors are alike when the same tokens lie before them and the same end or failure behind these,
wherever they stand in whatever texts. The reader takes its tokens on demand, but it cannot tell alike
cursors apart: readings from alike states go through the same rules and end in alike states. So all
that is read from a text, its tree, its value or its failure, is decided by what reading the text to
the end brings, and a failure of the lexer that the reader reports is the one found there.
-/
namespace Abacus

/-! ## Alike cursors -/

namespace Cursor

theorem skipBlanks_skipBlanks (c : Cursor) : c.skipBlanks.skipBlanks = c.skipBlanks :=
  @skipBlanks_of_bars c.skipBlanks.offset [] _ nofun (bars_dropWhile _ _)

theorem next_of_error {c c' : Cursor} {e : LexError} (h : c.next = (.error e, c')) :
    c'.next = (.error e, c') := by
  have hstart : c.skipBlanks = c' := by
    unfold next at h
    dsimp only at h
    split at h
    · cases h
    · split at h
      · exact (Prod.mk.inj h).2
      · split at h
        · exact (Prod.mk.inj h).2
        · cases h
  have hagain : c'.next = c.next := by
    rw [← hstart]
    unfold next
    rw [skipBlanks_skipBlanks]
  rw [hagain, h]

/-- What comes first when the rest is read: a token, or what ends the tokens. -/
def Stream.first (s : Stream) : Except LexError Token :=
  match s.tokens, s.failure with
  | t :: _, _ => .ok t
  | [], some e => .error e
  | [], none => .ok .endOfInput

/-- One read takes the first token off the rest. At the end of the input and at a failure it takes
nothing. -/
theorem next_eq_first (c : Cursor) :
    c.next.1 = c.stream.first ∧ c.next.2.stream.tokens = c.stream.tokens.tail ∧
      c.next.2.stream.failure = c.stream.failure := by
  rcases hnext : c.next with ⟨e | t, c'⟩
  · rw [stream_of_error hnext, stream_of_error (next_of_error hnext)]
    exact ⟨rfl, rfl, rfl⟩
  · cases ht : t.isEnd with
    | true =>
      obtain rfl := Token.isEnd_eq_true.mp ht
      rw [stream_of_end hnext, stream_of_end (next_of_end hnext)]
      exact ⟨rfl, rfl, rfl⟩
    | false =>
      rw [stream_of_token hnext ht]
      exact ⟨rfl, rfl, rfl⟩

/-- The same is still to be read, in whatever texts the cursors stand. -/
structure Alike (c d : Cursor) : Prop where
  tokens : c.stream.tokens = d.stream.tokens
  failure : c.stream.failure = d.stream.failure

theorem Alike.next {c d : Cursor} (h : c.Alike d) : c.next.1 = d.next.1 ∧ c.next.2.Alike d.next.2 := by
  obtain ⟨hcfirst, hctokens, hcfailure⟩ := c.next_eq_first
  obtain ⟨hdfirst, hdtokens, hdfailure⟩ := d.next_eq_first
  refine ⟨?_, ?_, ?_⟩
  · rw [hcfirst, hdfirst, Stream.first, Stream.first, h.tokens, h.failure]
  · rw [hctokens, hdtokens, h.tokens]
  · rw [hcfailure, hdfailure, h.failure]

end Cursor

/-! ## Alike states -/

namespace Parser

/-- The states differ at most in where their texts stand. -/
structure State.Alike (s u : State) : Prop where
  cursor : s.cursor.Alike u.cursor
  lookahead : s.lookahead = u.lookahead
  nesting : s.nesting = u.nesting

namespace State.Alike
variable {s u : State}

theorem descend (h : s.Alike u) : s.descend.Alike u.descend :=
  ⟨h.cursor, h.lookahead, congrArg (· + 1) h.nesting⟩

theorem ascend (h : s.Alike u) : s.ascend.Alike u.ascend :=
  ⟨h.cursor, h.lookahead, congrArg (· - 1) h.nesting⟩

theorem shift (h : s.Alike u) {r : Except SyntaxError Unit} {s₁ : State} (hs : s.shift = (r, s₁)) :
    ∃ u₁, u.shift = (r, u₁) ∧ s₁.Alike u₁ := by
  obtain ⟨hresult, hcursor⟩ := h.cursor.next
  unfold State.shift at hs ⊢
  rcases hsn : s.cursor.next with ⟨x, c⟩
  rcases hun : u.cursor.next with ⟨y, d⟩
  rw [hsn, hun] at hresult hcursor
  obtain rfl : x = y := hresult
  rw [hsn] at hs
  cases x with
  | error e =>
    cases hs
    exact ⟨_, rfl, hcursor, h.lookahead, h.nesting⟩
  | ok t =>
    cases hs
    exact ⟨_, rfl, hcursor, rfl, h.nesting⟩

theorem expect (h : s.Alike u) {k : Token.Kind} {r : Except SyntaxError Unit} {s₁ : State}
    (hs : s.expect k = (r, s₁)) : ∃ u₁, u.expect k = (r, u₁) ∧ s₁.Alike u₁ := by
  unfold State.expect at hs ⊢
  rw [← h.lookahead]
  split at hs
  · rename_i hkind
    rw [if_pos hkind]
    exact h.shift hs
  · rename_i hkind
    rw [if_neg hkind]
    cases hs
    exact ⟨u, rfl, h⟩

end State.Alike

/-- Readings from alike states bring the same, and the states behind them are alike again. -/
theorem Reads.alike {lim : Limits} {k : Task} {s : State} {o : Outcome Tree} (h : Reads lim k s o)
    {u : State} (hu : s.Alike u) : ∃ u', Reads lim k u (o.1, u') ∧ o.2.Alike u' := by
  -- A rule looks at the token ahead, at the nesting and at what a shift brings. Alike states agree in
  -- these, so the same rule applies to the second state.
  induction h generalizing u with
  | missing ho =>
    rw [hu.lookahead] at ho
    rw [hu.lookahead]
    exact ⟨u, .missing ho, hu⟩
  | unreadable ho hs =>
    obtain ⟨u₁, hs', hu₁⟩ := hu.shift hs
    exact ⟨u₁, .unreadable (hu.lookahead ▸ ho) hs', hu₁⟩
  | number ho hs =>
    obtain ⟨u₁, hs', hu₁⟩ := hu.shift hs
    exact ⟨u₁, .number (hu.lookahead ▸ ho) hs', hu₁⟩
  | inside ho hn hs _ ih =>
    obtain ⟨u₁, hs', hu₁⟩ := hu.shift hs
    obtain ⟨u₂, hin, hu₂⟩ := ih hu₁
    exact ⟨u₂, .inside (hu.lookahead ▸ ho) hn hs' hin, hu₂⟩
  | unclosed ho hs _ hx ih =>
    obtain ⟨u₁, hs', hu₁⟩ := hu.shift hs
    obtain ⟨u₂, hin, hu₂⟩ := ih hu₁
    obtain ⟨u₃, hx', hu₃⟩ := hu₂.expect hx
    exact ⟨u₃, .unclosed (hu.lookahead ▸ ho) hs' hin hx', hu₃⟩
  | group ho hs _ hx ih =>
    obtain ⟨u₁, hs', hu₁⟩ := hu.shift hs
    obtain ⟨u₂, hin, hu₂⟩ := ih hu₁
    obtain ⟨u₃, hx', hu₃⟩ := hu₂.expect hx
    exact ⟨u₃, .group (hu.lookahead ▸ ho) hs' hin hx', hu₃⟩
  | sign ho hs _ ih =>
    obtain ⟨u₁, hs', hu₁⟩ := hu.shift hs
    obtain ⟨u₂, hin, hu₂⟩ := ih hu₁
    exact ⟨u₂, .sign (hu.lookahead ▸ ho) hs' hin, hu₂⟩
  | tooDeep hr => exact ⟨u, .tooDeep (hu.nesting ▸ hr), hu⟩
  | nested hr _ ih =>
    obtain ⟨u₁, hin, hu₁⟩ := ih hu.descend
    exact ⟨u₁.ascend, .nested (hu.nesting ▸ hr) hin, hu₁.ascend⟩
  | first _ ih =>
    obtain ⟨u₁, hin, hu₁⟩ := ih hu
    exact ⟨u₁, .first hin, hu₁⟩
  | chain _ _ ih ihc =>
    obtain ⟨u₁, hin, hu₁⟩ := ih hu
    obtain ⟨u₂, hc, hu₂⟩ := ihc hu₁
    exact ⟨u₂, .chain hin hc, hu₂⟩
  | product _ ih =>
    obtain ⟨u₁, hin, hu₁⟩ := ih hu
    exact ⟨u₁, .product hin, hu₁⟩
  | factor _ ih =>
    obtain ⟨u₁, hin, hu₁⟩ := ih hu
    exact ⟨u₁, .factor hin, hu₁⟩
  | stop ho => exact ⟨u, .stop (hu.lookahead ▸ ho), hu⟩
  | halt ho hs =>
    obtain ⟨u₁, hs', hu₁⟩ := hu.shift hs
    exact ⟨u₁, .halt (hu.lookahead ▸ ho) hs', hu₁⟩
  | right ho hs _ ih =>
    obtain ⟨u₁, hs', hu₁⟩ := hu.shift hs
    obtain ⟨u₂, hin, hu₂⟩ := ih hu₁
    exact ⟨u₂, .right (hu.lookahead ▸ ho) hs' hin, hu₂⟩
  | tooHigh ho hs _ hb ih =>
    obtain ⟨u₁, hs', hu₁⟩ := hu.shift hs
    obtain ⟨u₂, hin, hu₂⟩ := ih hu₁
    exact ⟨u₂, .tooHigh (hu.lookahead ▸ ho) hs' hin hb, hu₂⟩
  | extend ho hs _ hb _ ih ihc =>
    obtain ⟨u₁, hs', hu₁⟩ := hu.shift hs
    obtain ⟨u₂, hin, hu₂⟩ := ih hu₁
    obtain ⟨u₃, hc, hu₃⟩ := ihc hu₂
    exact ⟨u₃, .extend (hu.lookahead ▸ ho) hs' hin hb hc, hu₃⟩

theorem parse_eq_of_alike {c d : Cursor} (h : c.Alike d) (lim : Limits) : parse lim c = parse lim d := by
  have hstart : State.Alike ⟨c, .endOfInput, 0⟩ ⟨d, .endOfInput, 0⟩ := ⟨h, rfl, rfl⟩
  rcases hshift : State.shift ⟨c, .endOfInput, 0⟩ with ⟨e | _, s⟩
  · obtain ⟨u, hshift', -⟩ := hstart.shift hshift
    simp only [parse, hshift, hshift']
  · obtain ⟨u, hshift', hu⟩ := hstart.shift hshift
    obtain ⟨o, hreads⟩ := exists_reads lim (.chain .sum) s
    obtain ⟨u', hreads', hbehind⟩ := hreads.alike hu
    have hrun : (chain lim .sum s).1 = o := hreads.run_eq
    have hrun' : (chain lim .sum u).1 = (o.1, u') := hreads'.run_eq
    rcases o with ⟨e | t, s'⟩
    · simp only [parse, hshift, hshift', hrun, hrun']
    · rcases hx : s'.expect .endOfInput with ⟨r, s₂⟩
      obtain ⟨u₂, hx', -⟩ := hbehind.expect hx
      simp only [parse, hshift, hshift', hrun, hrun', hx, hx']

end Parser

/-! ## Failures of the lexer -/

namespace Scanner

theorem step_ne_lexical (sc : Scanner) (t : Token) (x : LexError) : sc.step t ≠ .error (.lexical x) := by
  intro h
  unfold step at h
  split at h <;> cases h

theorem finish_ne_lexical (sc : Scanner) (x : LexError) : sc.finish ≠ .error (.lexical x) := by
  intro h
  unfold finish at h
  split at h <;> cases h

/-- The only failure of the lexer that a scan reports is the one it is given. -/
theorem failure_of_scan {sc : Scanner} {ts : List Token} {failure : Option LexError} :
    (sc.scan ts failure = .ok () → failure = none) ∧
      ∀ x, sc.scan ts failure = .error (.lexical x) → failure = some x := by
  induction ts generalizing sc with
  | nil =>
    cases failure with
    | none => exact ⟨fun _ => rfl, fun x h => absurd h (sc.finish_ne_lexical x)⟩
    | some e =>
      refine ⟨nofun, fun x h => ?_⟩
      cases h
      rfl
  | cons t ts ih =>
    rw [scan_cons]
    cases hstep : sc.step t with
    | error e =>
      refine ⟨nofun, fun x h => ?_⟩
      obtain rfl : e = .lexical x := by simpa [Except.bind] using h
      exact absurd hstep (sc.step_ne_lexical t x)
    | ok sc' => exact ih

end Scanner

theorem Parser.failure_of_parse {lim : Limits} {c : Cursor} :
    (∀ e, parse lim c = .ok e → c.stream.failure = none) ∧
      ∀ x, parse lim c = .error (.lexical x) → c.stream.failure = some x := by
  constructor
  · intro e he
    have hfree : ∀ limit, parse lim c ≠ .error (.tooDeep limit) := by simp [he]
    have hscan := parse_eq_scan hfree
    rw [he] at hscan
    exact Scanner.failure_of_scan.1 hscan.symm
  · intro x hx
    have hfree : ∀ limit, parse lim c ≠ .error (.tooDeep limit) := by simp [hx]
    have hscan := parse_eq_scan hfree
    rw [hx] at hscan
    exact Scanner.failure_of_scan.2 x hscan.symm

theorem Cursor.failure_ne_emptyInput (text : String) :
    (Cursor.ofText text).stream.failure ≠ some .emptyInput := by
  obtain ⟨qs, tail, rest, hreach⟩ := exists_reach text.toList
  rw [Cursor.ofText, Cursor.stream_of_reach 0 hreach]
  intro h
  unfold verdict at h
  split at h
  · cases h
  · split at h <;> cases h

/-! ## Stages of a calculation -/

theorem tokenize_eq_error_iff {text : String} {err : Error} :
    tokenize text = .error err ↔
      (text = "" ∧ err = .lexical .emptyInput) ∨
        (text ≠ "" ∧ ∃ x, (Cursor.ofText text).stream.failure = some x ∧ err = .lexical x) := by
  by_cases hne : text = ""
  · subst hne
    have hempty : tokenize "" = .error (.lexical .emptyInput) := rfl
    simp [hempty, eq_comm]
  · cases hf : (Cursor.ofText text).stream.failure <;>
      simp [tokenize, ofText_eq_ok hne, Except.mapError, bind, Except.bind, Lexer.allTokens, hf, hne,
        eq_comm]

theorem parse_eq_error_iff {text : String} {err : Error} :
    parse text = .error err ↔
      (text = "" ∧ err = .lexical .emptyInput) ∨
        (text ≠ "" ∧ ∃ x, Parser.parse .standard (.ofText text) = .error x ∧ err = .grammatical x) := by
  rw [parse_eq_parseWithin]
  by_cases hne : text = ""
  · subst hne
    simp [parseWithin_empty, eq_comm]
  · rw [parseWithin_of_ne hne]
    cases Parser.parse .standard (.ofText text) <;> simp [Except.mapError, hne, eq_comm]

theorem evaluate_eq_ok_iff {text : String} {v : Number} :
    evaluate text = .ok v ↔ ∃ e, parse text = .ok e ∧ e.eval = .ok v := by
  cases hparse : parse text with
  | error err => simp [evaluate, hparse, bind, Except.bind]
  | ok e => cases heval : e.eval <;> simp [evaluate, hparse, heval, bind, Except.bind, Except.mapError]

theorem evaluate_eq_error_iff {text : String} {err : Error} :
    evaluate text = .error err ↔
      parse text = .error err ∨ ∃ e x, parse text = .ok e ∧ e.eval = .error x ∧ err = .arithmetic x := by
  cases hparse : parse text with
  | error err' => simp [evaluate, hparse, bind, Except.bind]
  | ok e =>
    cases heval : e.eval <;>
      simp [evaluate, hparse, heval, bind, Except.bind, Except.mapError, eq_comm]

/-- The failure of the lexer behind a failure, if it is one. -/
def Error.lexical? : Error → Option LexError
  | lexical x => some x
  | grammatical (.lexical x) => some x
  | _ => none

theorem parse_of_evaluate_lexical {text : String} {err : Error} {x : LexError}
    (h : evaluate text = .error err) (hx : err.lexical? = some x) : parse text = .error err := by
  rcases evaluate_eq_error_iff.mp h with hparse | ⟨e, y, -, -, rfl⟩
  · exact hparse
  · cases hx

theorem tokenize_of_parse_lexical {text : String} {err : Error} {x : LexError}
    (h : parse text = .error err) (hx : err.lexical? = some x) : tokenize text = .error (.lexical x) := by
  apply tokenize_eq_error_iff.mpr
  rcases parse_eq_error_iff.mp h with ⟨rfl, rfl⟩ | ⟨hne, y, hparse, rfl⟩
  · cases hx
    exact .inl ⟨rfl, rfl⟩
  · cases y <;> cases hx
    exact .inr ⟨hne, x, Parser.failure_of_parse.2 x hparse, rfl⟩

theorem tokenize_isOk_of_parse {text : String} {e : Expr} (h : parse text = .ok e) :
    ∃ ts, tokenize text = .ok ts := by
  obtain ⟨hne, hparse⟩ := parseWithin_eq_ok.mp h
  exact ⟨_, tokenize_eq_ok_iff.mpr ⟨hne, rfl, Parser.failure_of_parse.1 e hparse⟩⟩

theorem parse_eq_of_tokenize {text other : String} {ts : List Token} (h : tokenize text = .ok ts)
    (h' : tokenize other = .ok ts) : parse other = parse text := by
  obtain ⟨hne, htokens, hfailure⟩ := tokenize_eq_ok_iff.mp h
  obtain ⟨hne', htokens', hfailure'⟩ := tokenize_eq_ok_iff.mp h'
  have halike : (Cursor.ofText other).Alike (.ofText text) :=
    ⟨htokens'.trans htokens.symm, hfailure'.trans hfailure.symm⟩
  rw [parse_eq_parseWithin, parse_eq_parseWithin, parseWithin_of_ne hne, parseWithin_of_ne hne',
    Parser.parse_eq_of_alike halike]

theorem parse_eq_lexical_iff {text : String} {x : LexError} :
    parse text = .error (.lexical x) ↔ text = "" ∧ x = .emptyInput := by
  rw [parse_eq_error_iff]
  simp

theorem tokenize_error_cases {text : String} {err : Error} (h : tokenize text = .error err) :
    ∃ x, err = .lexical x := by
  rcases tokenize_eq_error_iff.mp h with ⟨-, herr⟩ | ⟨-, x, -, herr⟩
  · exact ⟨_, herr⟩
  · exact ⟨x, herr⟩

theorem parse_error_cases {text : String} {err : Error} (h : parse text = .error err) :
    (∃ x, err = .lexical x) ∨ ∃ x, err = .grammatical x := by
  rcases parse_eq_error_iff.mp h with ⟨-, herr⟩ | ⟨-, x, -, herr⟩
  · exact .inl ⟨_, herr⟩
  · exact .inr ⟨x, herr⟩

/-- Where the tokens can be collected, reading does not fail at one of them. -/
theorem parse_error_of_tokenize {text : String} {ts : List Token} {err : Error}
    (htokens : tokenize text = .ok ts) (h : parse text = .error err) :
    ∃ x, err = .grammatical x ∧ ∀ y, x ≠ .lexical y := by
  rcases parse_error_cases h with ⟨x, rfl⟩ | ⟨x, rfl⟩
  · simp [tokenize_of_parse_lexical h rfl] at htokens
  · refine ⟨x, rfl, ?_⟩
    rintro y rfl
    simp [tokenize_of_parse_lexical h rfl] at htokens

theorem evaluate_ne_machine (text : String) (x : MachineError) : evaluate text ≠ .error (.machine x) := by
  intro h
  rcases evaluate_eq_error_iff.mp h with hparse | ⟨e, y, -, -, herr⟩
  · rcases parse_error_cases hparse with ⟨y, herr⟩ | ⟨y, herr⟩ <;> cases herr
  · cases herr

/-- Texts with the same tokens have the same tree, value or failure, and this is no failure of the
lexer. A text whose tokens cannot be collected has neither tree nor value, and if its failure is one of
the lexer then it is that of the tokens. Only an empty text fails as empty, and no stage reports a
failure of a later one. -/
theorem tokens_decide_reading (text : String) :
    (∀ ts, tokenize text = .ok ts →
      (∀ other, tokenize other = .ok ts → parse other = parse text ∧ evaluate other = evaluate text) ∧
      ∀ err, parse text = .error err ∨ evaluate text = .error err → err.lexical? = none) ∧
    (∀ err, tokenize text = .error err → ∃ x, err = .lexical x ∧
      (∀ e, parse text ≠ .ok e) ∧ (∀ v, evaluate text ≠ .ok v) ∧
      ∀ y, parse text = .error (.grammatical (.lexical y)) ∨
        evaluate text = .error (.grammatical (.lexical y)) → y = x) ∧
    (∀ x, (parse text = .error (.lexical x) ↔ text = "" ∧ x = .emptyInput) ∧
      (evaluate text = .error (.lexical x) ↔ text = "" ∧ x = .emptyInput)) ∧
    parse text ≠ .error (.grammatical (.lexical .emptyInput)) ∧
    evaluate text ≠ .error (.grammatical (.lexical .emptyInput)) ∧
    (∀ x, parse text ≠ .error (.arithmetic x)) ∧
    ∀ x, parse text ≠ .error (.machine x) ∧ evaluate text ≠ .error (.machine x) := by
  -- A failure of the lexer that either function reports is the failure of the tokens.
  have hlexical : ∀ err x, parse text = .error err ∨ evaluate text = .error err →
      err.lexical? = some x → tokenize text = .error (.lexical x) := by
    rintro err x (hparse | hevaluate) hx
    · exact tokenize_of_parse_lexical hparse hx
    · exact tokenize_of_parse_lexical (parse_of_evaluate_lexical hevaluate hx) hx
  have hempty : ∀ err, parse text = .error err ∨ evaluate text = .error err →
      err ≠ .grammatical (.lexical .emptyInput) := by
    rintro err herr rfl
    have hparse : parse text = .error (.grammatical (.lexical .emptyInput)) :=
      herr.elim id fun h => parse_of_evaluate_lexical h rfl
    obtain ⟨-, hread⟩ := parseWithin_eq_grammatical.mp hparse
    exact Cursor.failure_ne_emptyInput text (Parser.failure_of_parse.2 _ hread)
  refine ⟨?_, ?_, ?_, ?_, ?_, ?_, ?_⟩
  · intro ts htokens
    refine ⟨fun other hother => ?_, fun err herr => ?_⟩
    · have hparse := parse_eq_of_tokenize htokens hother
      exact ⟨hparse, by rw [evaluate, evaluate, hparse]⟩
    · cases hx : err.lexical? with
      | none => rfl
      | some x => simp [hlexical err x herr hx] at htokens
  · intro err herr
    have htree : ∀ e, parse text ≠ .ok e := by
      intro e he
      obtain ⟨ts, hts⟩ := tokenize_isOk_of_parse he
      simp [hts] at herr
    have hvalue : ∀ v, evaluate text ≠ .ok v := by
      intro v hv
      obtain ⟨e, he, -⟩ := evaluate_eq_ok_iff.mp hv
      exact htree e he
    obtain ⟨x, rfl⟩ := tokenize_error_cases herr
    refine ⟨x, rfl, htree, hvalue, fun y hy => ?_⟩
    have htokens := (hlexical _ y hy rfl).symm.trans herr
    simpa using htokens
  · intro x
    refine ⟨parse_eq_lexical_iff, ?_⟩
    rw [← parse_eq_lexical_iff]
    exact ⟨fun h => parse_of_evaluate_lexical h rfl, fun h => evaluate_eq_error_iff.mpr (.inl h)⟩
  · exact fun h => hempty _ (.inl h) rfl
  · exact fun h => hempty _ (.inr h) rfl
  · intro x hx
    rcases parse_error_cases hx with ⟨y, h⟩ | ⟨y, h⟩ <;> cases h
  · intro x
    refine ⟨fun hx => ?_, evaluate_ne_machine text x⟩
    rcases parse_error_cases hx with ⟨y, h⟩ | ⟨y, h⟩ <;> cases h

/-- Zeros in front of an integer, zeros behind a fraction and blanks do not show in the value; and a
text with a dollar sign has no value, wherever the sign stands. -/
theorem same_tokens_same_value :
    (∃ ts, tokenize "007+1.50" = .ok ts ∧ tokenize "\t7 + 1.5\u00a0" = .ok ts ∧
      evaluate "\t7 + 1.5\u00a0" = evaluate "007+1.50") ∧
    tokenize "2 * ) $" = .error (.lexical (.unexpectedChar '$' 6)) ∧ ∀ v, evaluate "2 * ) $" ≠ .ok v := by
  have hplain : tokenize "007+1.50" = .ok [.number (.int 7), .mark .plus, .number (.float 1.5)] := by
    decide +kernel
  have hspaced : tokenize "\t7 + 1.5\u00a0" =
      .ok [.number (.int 7), .mark .plus, .number (.float 1.5)] := by
    decide +kernel
  have hfails : tokenize "2 * ) $" = .error (.lexical (.unexpectedChar '$' 6)) := by decide +kernel
  obtain ⟨hsame, -⟩ := (tokens_decide_reading "007+1.50").1 _ hplain
  obtain ⟨x, -, -, hvalue, -⟩ := (tokens_decide_reading "2 * ) $").2.1 _ hfails
  exact ⟨⟨_, hplain, hspaced, (hsame _ hspaced).2⟩, hfails, hvalue⟩

end Abacus
