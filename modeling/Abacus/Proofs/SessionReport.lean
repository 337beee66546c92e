import Abacus.Proofs.ListingText
import Abacus.Proofs.ParserStream
import Abacus.Session

/-! # The report on a line

A report goes through all stages of a calculation and stops at the first that fails. It collects the
tokens before it reads the tree, so a failure of the lexer is always reported as such, and reading a
tree, which takes the tokens anew, cannot fail there any more. The machine comes last and only where
the tree has a value, so it cannot fail at all. What is written is known from the functions of the
calculator, stage by stage.
-/
namespace Abacus.Session
variable {text : String} {ts : List Token} {e : Expr} {err : Error}

/-! ## The texts -/

/-- The label of the tokens in cyan, and the tokens with a space behind each. -/
def tokensShown (ts : List Token) : String :=
  "\x1b[36m  tokens\x1b[39m " ++ String.join (ts.map fun t => t.text ++ " ")

/-- The infix text, the S-expression and the listing, with their labels in cyan. -/
def treeShown (e : Expr) : String :=
  "\x1b[36m    tree\x1b[39m " ++ e.text ++ "\n" ++
    ("\x1b[36m    sexp\x1b[39m " ++ (Sexp.ofExpr e).text ++ "\n") ++
    "\x1b[36m program\x1b[39m" ++ "\n" ++ (Program.ofExpr e).listing

theorem apply_bold (content : String) :
    Text.Style.bold.apply content = "\x1b[1m" ++ content ++ "\x1b[0m" := by
  have hoff : "\x1b[0m" = "\x1b[" ++ ("0" ++ "m") := rfl
  rw [hoff, ← String.append_assoc, ← String.append_assoc]
  rfl

/-! ## The stages -/

theorem reportTree_of_error {x : ArithmeticError} (h : e.eval = .error x) :
    reportTree e = ⟨treeShown e, some (.arithmetic x)⟩ := by
  simp only [reportTree, h]
  rfl

/-- The machine has the value of the tree. -/
theorem reportTree_of_ok {v : Number} (h : e.eval = .ok v) :
    reportTree e = ⟨treeShown e ++
      ("\x1b[36m  interp\x1b[39m " ++ ("\x1b[1m" ++ v.text ++ "\x1b[0m") ++ "\n") ++
      ("\x1b[36m      vm\x1b[39m " ++ ("\x1b[1m" ++ v.text ++ "\x1b[0m") ++ "\n"), none⟩ := by
  simp only [reportTree, Machine.run_eq_eval, h, Except.mapError, value, apply_bold]
  rfl

/-- The tokens before a failure are written, and no end of the line. -/
theorem report_of_tokenize_error (h : tokenize text = .error err) :
    report text = ⟨tokensShown (Cursor.ofText text).stream.tokens, some err⟩ := by
  rcases tokenize_eq_error_iff.mp h with ⟨rfl, rfl⟩ | ⟨hne, x, hfailure, rfl⟩
  · have hnothing : (Cursor.ofText "").stream.tokens = [] := by decide +kernel
    rw [hnothing]
    rfl
  · simp only [report, ofText_eq_ok hne, hfailure]
    rfl

theorem report_of_parse_error (htokens : tokenize text = .ok ts) (hparse : parse text = .error err) :
    report text = ⟨tokensShown ts ++ "\n", some err⟩ := by
  obtain ⟨hne, rfl, hfailure⟩ := tokenize_eq_ok_iff.mp htokens
  rcases parse_eq_error_iff.mp hparse with ⟨hempty, -⟩ | ⟨-, x, hread, rfl⟩
  · exact absurd hempty hne
  · simp only [report, ofText_eq_ok hne, hfailure, hread]
    rfl

theorem report_of_tree (htokens : tokenize text = .ok ts) (hparse : parse text = .ok e) :
    report text = ⟨tokensShown ts ++ "\n" ++ (reportTree e).output, (reportTree e).failure⟩ := by
  obtain ⟨hne, rfl, hfailure⟩ := tokenize_eq_ok_iff.mp htokens
  obtain ⟨-, hread⟩ := parseWithin_eq_ok.mp hparse
  simp only [report, ofText_eq_ok hne, hfailure, hread]
  rfl

theorem failure_report (text : String) :
    (report text).failure =
      match tokenize text, evaluate text with
      | .error err, _ => some err
      | .ok _, .error err => some err
      | .ok _, .ok _ => none := by
  cases htokens : tokenize text with
  | error err => rw [report_of_tokenize_error htokens]
  | ok ts =>
    cases hparse : parse text with
    | error err =>
      rw [report_of_parse_error htokens hparse, evaluate_eq_error_iff.mpr (.inl hparse)]
    | ok e =>
      rw [report_of_tree htokens hparse]
      cases heval : e.eval with
      | error x =>
        rw [reportTree_of_error heval, evaluate_eq_error_iff.mpr (.inr ⟨e, x, hparse, heval, rfl⟩)]
      | ok v => rw [reportTree_of_ok heval, evaluate_eq_ok_iff.mpr ⟨e, hparse, heval⟩]

theorem report_before_failure {x : LexError} (h : tokenize text = .error (.lexical x)) :
    ∃ qs tail rest, Reach text.toList qs tail rest ∧
      (text = "" ∨ verdict (byteLength (piecesText qs ++ tail)) rest = some x) ∧
      (report text).output = tokensShown (qs.map Piece.token) := by
  obtain ⟨qs, tail, rest, hreach⟩ := exists_reach text.toList
  have hstream := Cursor.stream_of_reach 0 hreach
  rw [Nat.zero_add] at hstream
  refine ⟨qs, tail, rest, hreach, ?_, ?_⟩
  · rcases tokenize_eq_error_iff.mp h with ⟨hempty, -⟩ | ⟨-, y, hfailure, hy⟩
    · exact .inl hempty
    · cases hy
      rw [Cursor.ofText, hstream] at hfailure
      exact .inr hfailure
  · rw [report_of_tokenize_error h, Cursor.ofText, hstream]

/-- A report succeeds when and only when the line has a value, and shows it twice. A failure of the
lexer is reported as such, whatever reading the tree would report, behind the tokens before it; a
failure of reading behind all tokens, and it is none of the lexer; a failure of the arithmetic behind
the three views of the tree. The machine does not fail. -/
theorem report_follows_calculator (text : String) :
    ((report text).failure = none ↔ ∃ v, evaluate text = .ok v) ∧
    (∀ v, evaluate text = .ok v → ∃ ts e, tokenize text = .ok ts ∧ parse text = .ok e ∧
      (report text).output = tokensShown ts ++ "\n" ++ (treeShown e ++
        ("\x1b[36m  interp\x1b[39m " ++ ("\x1b[1m" ++ v.text ++ "\x1b[0m") ++ "\n") ++
        ("\x1b[36m      vm\x1b[39m " ++ ("\x1b[1m" ++ v.text ++ "\x1b[0m") ++ "\n"))) ∧
    (∀ err, tokenize text = .error err → ∃ x, err = .lexical x ∧
      (report text).failure = some (.lexical x) ∧
      ∃ qs tail rest, Reach text.toList qs tail rest ∧
        (text = "" ∨ verdict (byteLength (piecesText qs ++ tail)) rest = some x) ∧
        (report text).output = tokensShown (qs.map Piece.token)) ∧
    (∀ ts err, tokenize text = .ok ts → parse text = .error err →
      (∃ x, err = .grammatical x ∧ ∀ y, x ≠ .lexical y) ∧ (report text).failure = some err ∧
        (report text).output = tokensShown ts ++ "\n") ∧
    (∀ e x, parse text = .ok e → e.eval = .error x →
      (report text).failure = some (.arithmetic x) ∧
      ∃ ts, tokenize text = .ok ts ∧
        (report text).output = tokensShown ts ++ "\n" ++ treeShown e ∧
        (Program.ofExpr e).listing.toList.count '\n' = e.size) ∧
    ∀ x, (report text).failure ≠ some (.machine x) := by
  refine ⟨?_, ?_, ?_, ?_, ?_, ?_⟩
  · rw [failure_report]
    constructor
    · intro hnone
      cases htokens : tokenize text with
      | error err => simp [htokens] at hnone
      | ok ts =>
        cases hvalue : evaluate text with
        | error err => simp [htokens, hvalue] at hnone
        | ok v => exact ⟨v, rfl⟩
    · rintro ⟨v, hv⟩
      obtain ⟨e, hparse, -⟩ := evaluate_eq_ok_iff.mp hv
      obtain ⟨ts, htokens⟩ := tokenize_isOk_of_parse hparse
      rw [htokens, hv]
  · intro v hv
    obtain ⟨e, hparse, heval⟩ := evaluate_eq_ok_iff.mp hv
    obtain ⟨ts, htokens⟩ := tokenize_isOk_of_parse hparse
    refine ⟨ts, e, htokens, hparse, ?_⟩
    rw [report_of_tree htokens hparse, reportTree_of_ok heval]
  · intro err htokens
    obtain ⟨x, rfl⟩ := tokenize_error_cases htokens
    refine ⟨x, rfl, ?_, report_before_failure htokens⟩
    rw [report_of_tokenize_error htokens]
  · intro ts err htokens hparse
    rw [report_of_parse_error htokens hparse]
    exact ⟨parse_error_of_tokenize htokens hparse, rfl, rfl⟩
  · intro e x hparse heval
    obtain ⟨ts, htokens⟩ := tokenize_isOk_of_parse hparse
    rw [report_of_tree htokens hparse, reportTree_of_error heval]
    refine ⟨rfl, ts, htokens, rfl, ?_⟩
    rw [Program.count_newline_listing, Program.size_ofExpr]
  · intro x hx
    rw [failure_report] at hx
    cases htokens : tokenize text with
    | error err =>
      obtain ⟨y, rfl⟩ := tokenize_error_cases htokens
      simp [htokens] at hx
    | ok ts =>
      cases hvalue : evaluate text with
      | error err =>
        obtain rfl : err = .machine x := by simpa [htokens, hvalue] using hx
        exact evaluate_ne_machine text x hvalue
      | ok v => simp [htokens, hvalue] at hx

/-- A line with a value. In another one reading the tree would fail at the parenthesis, and still the
report fails at the dollar sign, behind the three tokens before it. -/
theorem report_stops_at_dollar :
    (evaluate "8 - -2/4" = .ok (.float (Float.ofBits 0x4021000000000000)) ∧
      (report "8 - -2/4").failure = none ∧
      (report "8 - -2/4").output =
        "\x1b[36m  tokens\x1b[39m 8 - - 2 / 4 \n" ++
        "\x1b[36m    tree\x1b[39m (8 - (-(2 / 4)))\n" ++
        "\x1b[36m    sexp\x1b[39m (- 8 (- (/ 2 4)))\n" ++
        "\x1b[36m program\x1b[39m\n" ++
        "   0  push 8\n" ++
        "   1  push 2\n" ++
        "   2  push 4\n" ++
        "   3  binary /\n" ++
        "   4  unary -\n" ++
        "   5  binary -\n" ++
        "\x1b[36m  interp\x1b[39m \x1b[1m8.5\x1b[0m\n" ++
        "\x1b[36m      vm\x1b[39m \x1b[1m8.5\x1b[0m\n") ∧
    tokenize "2 * ) $" = .error (.lexical (.unexpectedChar '$' 6)) ∧
      parse "2 * ) $" = .error (.grammatical (.missingFactor (.mark .rightParen))) ∧
      (report "2 * ) $").failure = some (.lexical (.unexpectedChar '$' 6)) ∧
      (report "2 * ) $").output = "\x1b[36m  tokens\x1b[39m 2 * ) " := by
  constructor
  · have hvalue : evaluate "8 - -2/4" = .ok (.float (Float.ofBits 0x4021000000000000)) := by
      decide +kernel
    obtain ⟨hsuccess, hshown, -⟩ := report_follows_calculator "8 - -2/4"
    obtain ⟨ts, e, htokens, hparse, houtput⟩ := hshown _ hvalue
    have hparts : tokenize "8 - -2/4" = .ok [.number (.int 8), .mark .minus, .mark .minus,
        .number (.int 2), .mark .slash, .number (.int 4)] ∧
      parse "8 - -2/4" = .ok (.binary .sub (.literal (.int 8)) (.signed .minus
        (.binary .div (.literal (.int 2)) (.literal (.int 4))))) := by decide +kernel
    refine ⟨hvalue, hsuccess.mpr ⟨_, hvalue⟩, ?_⟩
    rw [hparts.1] at htokens
    rw [hparts.2] at hparse
    cases htokens
    cases hparse
    rw [houtput]
    decide +kernel
  · have htokens : tokenize "2 * ) $" = .error (.lexical (.unexpectedChar '$' 6)) := by decide +kernel
    refine ⟨htokens, by decide +kernel, ?_, by decide +kernel⟩
    obtain ⟨-, -, hlexical, -⟩ := report_follows_calculator "2 * ) $"
    obtain ⟨x, hx, hfailure, -⟩ := hlexical _ htokens
    rw [hfailure, hx]

end Abacus.Session
