import Abacus.Proofs.ParserFeed

/-! # A scanner with one counter

The scanner goes over the tokens once and keeps two things: whether it waits for an operand or for an
operator, and how many groups are open. The reader, with all its functions and frames, accepts what
the scanner accepts and refuses the same token for the same reason, as long as no limit stops it.
-/
namespace Abacus

inductive Mode where
  | operand
  | operator
deriving DecidableEq

structure Scanner where
  mode : Mode
  groups : Nat
deriving DecidableEq

namespace Scanner

def start : Scanner := ⟨.operand, 0⟩

/-- What an operand is followed by when it is not an operator. -/
def closing (groups : Nat) : Token.Kind := if 0 < groups then .mark .rightParen else .endOfInput

def step : Scanner → Token → Except SyntaxError Scanner
  | ⟨.operand, k⟩, .number _ => .ok ⟨.operator, k⟩
  | ⟨.operand, k⟩, .mark .leftParen => .ok ⟨.operand, k + 1⟩
  | ⟨.operand, k⟩, .mark .plus => .ok ⟨.operand, k⟩
  | ⟨.operand, k⟩, .mark .minus => .ok ⟨.operand, k⟩
  | ⟨.operand, _⟩, t => .error (.missingFactor t)
  | ⟨.operator, k⟩, .mark .plus => .ok ⟨.operand, k⟩
  | ⟨.operator, k⟩, .mark .minus => .ok ⟨.operand, k⟩
  | ⟨.operator, k⟩, .mark .star => .ok ⟨.operand, k⟩
  | ⟨.operator, k⟩, .mark .slash => .ok ⟨.operand, k⟩
  | ⟨.operator, k + 1⟩, .mark .rightParen => .ok ⟨.operator, k⟩
  | ⟨.operator, k⟩, t => .error (.unexpected (closing k) t)

def finish : Scanner → Except SyntaxError Unit
  | ⟨.operand, _⟩ => .error (.missingFactor .endOfInput)
  | ⟨.operator, 0⟩ => .ok ()
  | ⟨.operator, k + 1⟩ => .error (.unexpected (closing (k + 1)) .endOfInput)

def advance (sc : Scanner) (ts : List Token) : Except SyntaxError Scanner := ts.foldlM step sc

/-- Takes all tokens, and then the failure or the end of the input. -/
def scan (sc : Scanner) (ts : List Token) (failure : Option LexError) : Except SyntaxError Unit := do
  let sc ← sc.advance ts
  match failure with
  | some e => .error (.lexical e)
  | none => sc.finish

theorem scan_cons (sc : Scanner) (t : Token) (ts : List Token) (failure : Option LexError) :
    sc.scan (t :: ts) failure = (sc.step t).bind fun sc' => sc'.scan ts failure := by
  simp only [scan, advance, List.foldlM_cons, bind]
  cases sc.step t <;> rfl

theorem advance_cons (sc : Scanner) (t : Token) (ts : List Token) :
    sc.advance (t :: ts) = (sc.step t).bind fun sc' => sc'.advance ts := by
  rw [advance, List.foldlM_cons]
  rfl

theorem advance_append (sc : Scanner) (ts us : List Token) :
    sc.advance (ts ++ us) = (sc.advance ts).bind fun sc' => sc'.advance us := by
  rw [advance, List.foldlM_append]
  rfl

theorem scan_append (sc : Scanner) (ts us : List Token) (failure : Option LexError) :
    sc.scan (ts ++ us) failure = (sc.advance ts).bind fun sc' => sc'.scan us failure := by
  induction ts generalizing sc with
  | nil => rfl
  | cons t ts ih =>
    rw [List.cons_append, scan_cons, advance, List.foldlM_cons]
    cases sc.step t with
    | error e => rfl
    | ok sc' => exact ih sc'

theorem scan_nil (sc : Scanner) : sc.scan [] none = sc.finish := rfl

def behind (k : Nat) : Parser.Opening → Scanner
  | .number _ => ⟨.operator, k⟩
  | .group => ⟨.operand, k + 1⟩
  | .sign _ => ⟨.operand, k⟩

theorem step_of_opening {t : Token} {o : Parser.Opening} (h : Parser.Opening.ofToken? t = some o)
    (k : Nat) : step ⟨.operand, k⟩ t = .ok (behind k o) := by
  rcases t with _ | n | m
  · simp [Parser.Opening.ofToken?] at h
  · cases h
    rfl
  · cases m <;> simp [Parser.Opening.ofToken?, Sign.ofMark?] at h <;> subst h <;> rfl

theorem step_of_no_opening {t : Token} (h : Parser.Opening.ofToken? t = none) (k : Nat) :
    step ⟨.operand, k⟩ t = .error (.missingFactor t) := by
  rcases t with _ | n | m
  · rfl
  · simp [Parser.Opening.ofToken?] at h
  · cases m <;> simp [Parser.Opening.ofToken?, Sign.ofMark?] at h <;> rfl

theorem step_of_operator {p : Parser.Level} {t : Token} {op : Operator}
    (h : p.operator? t = some op) (k : Nat) : step ⟨.operator, k⟩ t = .ok ⟨.operand, k⟩ := by
  rcases t with _ | n | m
  · cases p <;> simp [Parser.Level.operator?] at h
  · cases p <;> simp [Parser.Level.operator?] at h
  · cases p <;> cases m <;> first | rfl | simp [Parser.Level.operator?] at h

theorem step_close (k : Nat) : step ⟨.operator, k + 1⟩ (.mark .rightParen) = .ok ⟨.operator, k⟩ := rfl

theorem step_of_no_operator {t : Token} (h : ∀ p : Parser.Level, p.operator? t = none) {k : Nat}
    (hk : t = .mark .rightParen → k = 0) :
    step ⟨.operator, k⟩ t = .error (.unexpected (closing k) t) := by
  have hsum := h .sum
  have hproduct := h .product
  rcases t with _ | n | m
  · rfl
  · rfl
  · cases m with
    | rightParen =>
      obtain rfl := hk rfl
      rfl
    | leftParen => rfl
    | _ => simp [Parser.Level.operator?] at hsum hproduct

theorem finish_eq_of_step {sc : Scanner} {e : SyntaxError} (h : sc.step .endOfInput = .error e)
    (hsc : sc ≠ ⟨.operator, 0⟩) : sc.finish = .error e := by
  rcases sc with ⟨_ | _, _ | k⟩ <;> simp_all [step, finish]

end Scanner

namespace Parser

def State.scan (s : State) (sc : Scanner) : Except SyntaxError Unit := sc.scan s.ahead s.failure

theorem State.scan_of_shift {s s₁ : State} (ht : s.lookahead.isEnd = false)
    (h : s.shift = (.ok (), s₁)) {sc sc' : Scanner} (hsc : sc.step s.lookahead = .ok sc') :
    s.scan sc = s₁.scan sc' := by
  obtain ⟨ha, hf⟩ := State.ahead_of_shift ht h
  rw [State.scan, State.scan, ha, hf, Scanner.scan_cons, hsc]
  rfl

theorem State.scan_of_shift_error {s s₁ : State} {e : SyntaxError} (ht : s.lookahead.isEnd = false)
    (h : s.shift = (.error e, s₁)) {sc sc' : Scanner} (hsc : sc.step s.lookahead = .ok sc') :
    s.scan sc = .error e := by
  obtain ⟨ha, x, hf, rfl⟩ := State.ahead_of_shift_error ht h
  rw [State.scan, ha, hf, Scanner.scan_cons, hsc]
  rfl

theorem State.scan_of_end {s : State} (h : s.lookahead = .endOfInput) (sc : Scanner) :
    s.scan sc = sc.finish := by
  rw [State.scan, State.ahead_of_end h, State.failure_of_end h, Scanner.scan_nil]

/-- A token that the scanner refuses is refused wherever it is the token ahead. -/
theorem State.scan_of_refused {s : State} {sc : Scanner} {e : SyntaxError}
    (hsc : sc.step s.lookahead = .error e) (hend : s.lookahead = .endOfInput → sc ≠ ⟨.operator, 0⟩) :
    s.scan sc = .error e := by
  cases ht : s.lookahead.isEnd with
  | true =>
    have he := Token.isEnd_eq_true.mp ht
    rw [State.scan_of_end he]
    exact Scanner.finish_eq_of_step (he ▸ hsc) (hend he)
  | false =>
    rw [State.scan, State.ahead_of_token ht, Scanner.scan_cons, hsc]
    rfl

def Task.mode : Task → Mode
  | continuation _ _ => .operator
  | _ => .operand

/-- With any number of open groups, the scanner gets from the state before a task to the state behind
it, where it waits for an operator, or it fails as the task does. A task that a limit stops says
nothing about the scanner. -/
def Follows (m : Mode) (s : State) : Outcome Tree → Prop
  | (.ok _, s') => ∀ n, s.scan ⟨m, n⟩ = s'.scan ⟨.operator, n⟩
  | (.error e, _) => (∃ limit, e = .tooDeep limit) ∨ ∀ n, s.scan ⟨m, n⟩ = .error e

theorem Follows.of_scan_eq {m m₁ : Mode} {s s₁ : State} {o : Outcome Tree}
    (h : ∀ n, s.scan ⟨m, n⟩ = s₁.scan ⟨m₁, n⟩) (ho : Follows m₁ s₁ o) : Follows m s o := by
  rcases o with ⟨e | t, s'⟩
  · exact ho.imp_right fun he n => (h n).trans (he n)
  · exact fun n => (h n).trans (ho n)

theorem Reads.follows {lim : Limits} {k : Task} {s : State} {o : Outcome Tree}
    (h : Reads lim k s o) : Follows k.mode s o := by
  induction h with
  | missing ho =>
    refine .inr fun n => State.scan_of_refused (Scanner.step_of_no_opening ho n) ?_
    simp [Task.mode]
  | unreadable ho hs =>
    exact .inr fun n => State.scan_of_shift_error (Opening.isEnd_of_ofToken? ho) hs
      (Scanner.step_of_opening ho n)
  | number ho hs =>
    exact fun n => State.scan_of_shift (Opening.isEnd_of_ofToken? ho) hs (Scanner.step_of_opening ho n)
  | @inside s s₁ s₂ o e ho hn hs _ ih =>
    refine ih.imp_right fun he n => ?_
    have hscan := State.scan_of_shift (Opening.isEnd_of_ofToken? ho) hs (Scanner.step_of_opening ho n)
    cases o with
    | number m => exact absurd rfl (hn m)
    | group => exact hscan.trans (he (n + 1))
    | sign σ => exact hscan.trans (he n)
  | @unclosed s s₁ s₂ s₃ t e ho hs hin hx ih =>
    refine .inr fun n => ?_
    have hscan : s.scan ⟨.operand, n⟩ = s₂.scan ⟨.operator, n + 1⟩ :=
      (State.scan_of_shift (Opening.isEnd_of_ofToken? ho) hs (Scanner.step_of_opening ho n)).trans
        (ih (n + 1))
    refine hscan.trans ?_
    rcases State.expect_error hx with ⟨hkind, hshift⟩ | ⟨hkind, rfl, rfl⟩
    · have hclose := Token.kind_eq_mark.mp hkind
      exact State.scan_of_shift_error (by simp [hclose, Token.isEnd]) hshift
        (hclose ▸ Scanner.step_close n)
    · refine State.scan_of_refused (Scanner.step_of_no_operator ?_ ?_) (by simp)
      · exact hin.no_operator rfl rfl
      · exact fun hclose => absurd (Token.kind_eq_mark.mpr hclose) hkind
  | @group s s₁ s₂ s₃ t ho hs _ hx ih =>
    intro n
    obtain ⟨hkind, hshift⟩ := State.expect_ok hx
    have hclose := Token.kind_eq_mark.mp hkind
    have hscan : s.scan ⟨.operand, n⟩ = s₂.scan ⟨.operator, n + 1⟩ :=
      (State.scan_of_shift (Opening.isEnd_of_ofToken? ho) hs (Scanner.step_of_opening ho n)).trans
        (ih (n + 1))
    exact hscan.trans (State.scan_of_shift (by simp [hclose, Token.isEnd]) hshift
      (hclose ▸ Scanner.step_close n))
  | @sign s s₁ s₂ σ t ho hs _ ih =>
    cases hsign : t.signed lim σ with
    | error e =>
      obtain ⟨most, -, -, he⟩ := Tree.signed_eq_error.mp hsign
      exact .inl ⟨most, he⟩
    | ok u =>
      intro n
      exact (State.scan_of_shift (Opening.isEnd_of_ofToken? ho) hs (Scanner.step_of_opening ho n)).trans
        (ih n)
  | tooDeep hr =>
    obtain ⟨most, -, -, he⟩ := room_eq_error.mp hr
    exact .inl ⟨most, he⟩
  | @nested s s₁ r _ _ ih => cases r <;> exact ih
  | first _ ih => exact ih
  | chain _ _ ih ihc => exact ihc.of_scan_eq ih
  | product _ ih => exact ih
  | factor _ ih => exact ih
  | stop => exact fun n => rfl
  | halt ho hs =>
    exact .inr fun n => State.scan_of_shift_error (Level.isEnd_of_operator? ho) hs
      (Scanner.step_of_operator ho n)
  | right ho hs _ ih =>
    refine ih.imp_right fun he n => ?_
    exact (State.scan_of_shift (Level.isEnd_of_operator? ho) hs (Scanner.step_of_operator ho n)).trans
      (he n)
  | tooHigh _ _ _ hb =>
    obtain ⟨most, -, -, he⟩ := Tree.binary_eq_error.mp hb
    exact .inl ⟨most, he⟩
  | extend ho hs _ _ _ ih ihc =>
    refine ihc.of_scan_eq fun n => ?_
    exact (State.scan_of_shift (Level.isEnd_of_operator? ho) hs (Scanner.step_of_operator ho n)).trans
      (ih n)

/-- Unless a limit stops it, reading a text succeeds or fails as scanning its stream does. -/
theorem parse_eq_scan {lim : Limits} {c : Cursor} (h : ∀ limit, parse lim c ≠ .error (.tooDeep limit)) :
    (parse lim c).map (fun _ => ()) = Scanner.start.scan c.stream.tokens c.stream.failure := by
  rcases parse_start c with ⟨e, htokens, hfailure, hparse⟩ | ⟨s, hahead, hfailure, -, hparse⟩
  · rw [hparse lim, htokens, hfailure]
    rfl
  · obtain ⟨o, hreads⟩ := exists_reads lim (.chain .sum) s
    have hfollows := hreads.follows
    rw [← hahead, ← hfailure]
    change _ = s.scan Scanner.start
    rw [hparse lim _ hreads] at h ⊢
    rcases o with ⟨e | t, s'⟩
    · rcases hfollows with ⟨limit, rfl⟩ | hscan
      · exact absurd rfl (h limit)
      · exact (hscan 0).symm
    · refine Eq.trans ?_ (hfollows 0).symm
      by_cases hend : s'.lookahead = .endOfInput
      · simp only [conclude, if_pos hend, State.scan_of_end hend]
        rfl
      · have hrefuse := Scanner.step_of_no_operator (k := 0) (hreads.no_operator rfl rfl) (fun _ => rfl)
        rw [State.scan_of_refused hrefuse (fun he => absurd he hend)]
        simp only [conclude, if_neg hend]
        rfl

end Parser

def scanText (text : String) : Except SyntaxError Unit :=
  Scanner.start.scan (Cursor.ofText text).stream.tokens (Cursor.ofText text).stream.failure

/-- A text that meets no limit is accepted exactly when the scanner accepts its stream, and fails with
the failure of the scanner. So a token that cannot stand where it stands hides every failure behind
it, and a failure of the stream shows when all tokens before it can stand. -/
theorem parse_agrees_with_scanner {text : String} (hne : text ≠ "")
    (hdeep : ∀ limit, parse text ≠ .error (.grammatical (.tooDeep limit))) :
    ((∃ e, parse text = .ok e) ↔ scanText text = .ok ()) ∧
    (∀ x, scanText text = .error x → parse text = .error (.grammatical x)) ∧
    (∀ before t after sc x, (Cursor.ofText text).stream.tokens = before ++ t :: after →
      Scanner.start.advance before = .ok sc → sc.step t = .error x →
      parse text = .error (.grammatical x)) ∧
    (∀ sc e, Scanner.start.advance (Cursor.ofText text).stream.tokens = .ok sc →
      (Cursor.ofText text).stream.failure = some e →
      parse text = .error (.grammatical (.lexical e))) := by
  simp only [parse_eq_parseWithin] at hdeep ⊢
  have hlimits : ∀ limit, Parser.parse .standard (.ofText text) ≠ .error (.tooDeep limit) :=
    fun limit h => hdeep limit (parseWithin_eq_grammatical.mpr ⟨hne, h⟩)
  have hscan : (Parser.parse .standard (.ofText text)).map (fun _ => ()) = scanText text :=
    Parser.parse_eq_scan hlimits
  have herror : ∀ x, scanText text = .error x →
      parseWithin .standard text = .error (.grammatical x) := by
    intro x hx
    rw [hx] at hscan
    refine parseWithin_eq_grammatical.mpr ⟨hne, ?_⟩
    cases hp : Parser.parse .standard (.ofText text) with
    | error y => simpa [hp, Except.map] using hscan
    | ok e => simp [hp, Except.map] at hscan
  refine ⟨?_, herror, ?_, ?_⟩
  · rw [← hscan]
    constructor
    · rintro ⟨e, he⟩
      rw [(parseWithin_eq_ok.mp he).2]
      rfl
    · intro hok
      cases hp : Parser.parse .standard (.ofText text) with
      | error y => simp [hp, Except.map] at hok
      | ok e => exact ⟨e, parseWithin_eq_ok.mpr ⟨hne, hp⟩⟩
  · intro before t after sc x htokens hbefore ht
    apply herror
    rw [scanText, htokens, Scanner.scan_append, hbefore]
    simp only [Except.bind, Scanner.scan_cons, ht]
  · intro sc e hadvance hfailure
    apply herror
    rw [scanText, hfailure, ← List.append_nil (Cursor.ofText text).stream.tokens, Scanner.scan_append,
      hadvance]
    rfl

/-- The star is found before the dollar sign. -/
theorem parse_hides_later_failure :
    "2*(3+*4) $" ≠ "" ∧
    (∀ limit, parse "2*(3+*4) $" ≠ .error (.grammatical (.tooDeep limit))) ∧
    parse "2*(3+*4) $" = .error (.grammatical (.missingFactor (.mark .star))) := by
  have hparse : parse "2*(3+*4) $" = .error (.grammatical (.missingFactor (.mark .star))) := by
    cbv
  have hdeep : ∀ limit, parse "2*(3+*4) $" ≠ .error (.grammatical (.tooDeep limit)) := by
    intro limit h
    simp [hparse] at h
  have hne : "2*(3+*4) $" ≠ "" := by decide
  refine ⟨hne, hdeep, ?_⟩
  exact (parse_agrees_with_scanner hne hdeep).2.1 _ (by cbv)

end Abacus
