import Abacus.Proofs.ParserStream
import Abacus.Proofs.PrintedText

/-! # Texts made from texts

A mark joins two texts without changing how either is cut into tokens: the blanks at the end of the
first become the blanks before the mark, and a mark keeps numbers apart. So texts in parentheses, behind
a sign or around an operator have the tokens that one expects, and the grammar makes their tree from the
trees of the parts. A pair of parentheses or a sign adds one to the load whatever the text, a sign or an
operator adds one to the height, and nothing else can stop the reader.
-/
namespace Abacus

/-! ## Tokens -/

/-- The text has a layout with these tokens. -/
def LaidOut (text : List Char) (ts : List Token) : Prop := ∃ L : Layout, L.text = text ∧ L.tokens = ts

theorem laidOut_nil : LaidOut [] [] := ⟨⟨[], [], nofun, .nil⟩, rfl, rfl⟩

theorem LaidOut.mark {text other : List Char} {ts us : List Token} (h : LaidOut text ts) (m : Mark)
    (h' : LaidOut other us) : LaidOut (text ++ m.toChar :: other) (ts ++ .mark m :: us) := by
  obtain ⟨L, rfl, rfl⟩ := h
  obtain ⟨M, rfl, rfl⟩ := h'
  refine ⟨⟨L.pieces ++ .ofMark L.tail L.blank m :: M.pieces, M.tail, M.blank,
    isChain_mark L.blank m L.apart M.apart⟩, ?_, ?_⟩
  · simp [Layout.text, piecesText_append, piecesText_mark]
  · simp [Layout.tokens, Piece.ofMark]

theorem tokenize_eq_ok_iff_laidOut {text : String} {ts : List Token} :
    tokenize text = .ok ts ↔ text ≠ "" ∧ LaidOut text.toList ts := by
  constructor
  · intro htokens
    have hne := (tokenize_eq_ok_iff.mp htokens).1
    rcases exists_layout_or_stopsAt text.toList with ⟨L, hL⟩ | ⟨p, found, rest, hstops⟩
    · rw [tokenize_of_layout hne hL] at htokens
      exact ⟨hne, L, hL, Except.ok.inj htokens⟩
    · rw [tokenize_of_stopsAt hne hstops] at htokens
      cases htokens
  · rintro ⟨hne, L, hL, rfl⟩
    exact tokenize_of_layout hne hL

theorem tokenize_of_laidOut_mark {text : String} {before after : List Char} {m : Mark} {ts : List Token}
    (h : LaidOut (before ++ m.toChar :: after) ts) (htext : text.toList = before ++ m.toChar :: after) :
    tokenize text = .ok ts := by
  refine tokenize_eq_ok_iff_laidOut.mpr ⟨?_, htext ▸ h⟩
  rintro rfl
  simp at htext

abbrev enclosed (ts : List Token) : List Token := .mark .leftParen :: (ts ++ [.mark .rightParen])

section
variable {a b : String} {ts us : List Token}

theorem tokenize_group (ha : tokenize a = .ok ts) : tokenize ("(" ++ a ++ ")") = .ok (enclosed ts) := by
  have hlaid := (tokenize_eq_ok_iff_laidOut.mp ha).2
  refine tokenize_of_laidOut_mark (laidOut_nil.mark .leftParen (hlaid.mark .rightParen laidOut_nil)) ?_
  simp [Mark.toChar]

theorem tokenize_sign (ha : tokenize a = .ok ts) (σ : Sign) :
    tokenize (σ.symbol.toString ++ a) = .ok (.mark σ.mark :: ts) := by
  have hlaid := (tokenize_eq_ok_iff_laidOut.mp ha).2
  refine tokenize_of_laidOut_mark (laidOut_nil.mark σ.mark hlaid) ?_
  simp [Sign.symbol]

theorem tokenize_groups (ha : tokenize a = .ok ts) (hb : tokenize b = .ok us) (op : Operator) :
    tokenize ("(" ++ a ++ ")" ++ op.symbol.toString ++ "(" ++ b ++ ")") =
      .ok (enclosed ts ++ .mark op.mark :: enclosed us) := by
  have hleft := (tokenize_eq_ok_iff_laidOut.mp (tokenize_group ha)).2
  have hright := (tokenize_eq_ok_iff_laidOut.mp (tokenize_group hb)).2
  refine tokenize_of_laidOut_mark (hleft.mark op.mark hright) ?_
  simp [Operator.symbol]

end

/-! ## Load -/

/-- What is open before a derivation adds to its load. -/
theorem Derives.peak_eq {c : Category} {o : Bool} {ts : List Token} {e : Expr}
    (h : Derives .greedy c o ts e) (K : List Opened) :
    Nest.peak ⟨.operand, K⟩ ts = K.length + load ts := by
  change Nest.peak ⟨.operand, K⟩ ts = K.length + Nest.peak ⟨.operand, []⟩ ts
  induction h generalizing K with
  | number n => rw [peak_number, peak_number, List.length_nil, Nat.add_zero]
  | group hin ih =>
    rw [hin.peak_group, hin.peak_group, ih (.group :: K), ih [.group]]
    simp only [List.length_cons, List.length_nil]
    omega
  | sign σ _ ih =>
    rw [peak_sign, peak_sign, ih (.sign :: K), ih [.sign]]
    simp only [List.length_cons, List.length_nil]
    omega
  | single _ ih => exact ih K
  | binary op hl _ ho ihl ihr =>
    obtain rfl := ho rfl
    rw [hl.peak_binary, hl.peak_binary, ihl K, ihr K]
    omega

section
variable {ts us : List Token} {x y : Expr}

theorem load_group (h : Spells .greedy ts x) : load (enclosed ts) = load ts + 1 := by
  obtain ⟨o, hderives⟩ := h
  have hpeak := (hderives.peak_group []).trans (hderives.peak_eq [.group])
  rw [List.length_singleton, Nat.add_comm] at hpeak
  exact hpeak

theorem load_sign (h : Spells .greedy ts x) (σ : Sign) : load (.mark σ.mark :: ts) = load ts + 1 := by
  obtain ⟨o, hderives⟩ := h
  have hpeak := (peak_sign σ ts []).trans (hderives.peak_eq [.sign])
  rw [List.length_singleton, Nat.add_comm] at hpeak
  exact hpeak

theorem load_groups (hx : Spells .greedy ts x) (hy : Spells .greedy us y) (op : Operator) :
    load (enclosed ts ++ .mark op.mark :: enclosed us) = max (load ts + 1) (load us + 1) := by
  rw [← load_group hx, ← load_group hy]
  obtain ⟨o, hderives⟩ := hx
  exact (Derives.group hderives).peak_binary op _ []

/-! ## Trees -/

theorem Spells.factor_group (h : Spells .greedy ts x) :
    Derives .greedy .factor false (enclosed ts) x := by
  obtain ⟨o, hderives⟩ := h
  exact .group hderives

theorem Spells.sign (h : Spells .greedy ts x) (σ : Sign) :
    Spells .greedy (.mark σ.mark :: ts) (.signed σ x) := by
  obtain ⟨o, hderives⟩ := h
  exact ⟨true, (Derives.sign σ hderives).chain_of_factor .sum⟩

end

theorem parse_eq_ok_iff_fits {text : String} {ts : List Token} {e : Expr}
    (htokens : tokenize text = .ok ts) (h : Spells .greedy ts e) :
    parse text = .ok e ↔ load ts ≤ 256 ∧ e.height ≤ 4096 := by
  rw [← fits_standard]
  rcases parseWithin_of_spells htokens within_standard_leaf h with ⟨hok, hfits⟩ | ⟨limit, hdeep, hexceeds⟩
  · exact iff_of_true hok hfits
  · refine iff_of_false (fun hok => ?_) fun hfits => hfits.not_exceeds limit hexceeds
    cases hok.symm.trans hdeep

section
variable {a b : String} {ts us : List Token} {x y : Expr}

theorem parse_group_iff (ha : tokenize a = .ok ts) (hx : Spells .greedy ts x) :
    parse ("(" ++ a ++ ")") = .ok x ↔ load ts ≤ 255 ∧ x.height ≤ 4096 := by
  rw [parse_eq_ok_iff_fits (tokenize_group ha) ⟨false, hx.factor_group.chain_of_factor .sum⟩,
    load_group hx]
  omega

theorem parse_sign_iff (ha : tokenize a = .ok ts) (hx : Spells .greedy ts x) (σ : Sign) :
    parse (σ.symbol.toString ++ a) = .ok (.signed σ x) ↔ load ts ≤ 255 ∧ x.height ≤ 4095 := by
  rw [parse_eq_ok_iff_fits (tokenize_sign ha σ) (hx.sign σ), load_sign hx, Expr.height]
  omega

theorem parse_groups_iff (ha : tokenize a = .ok ts) (hb : tokenize b = .ok us)
    (hx : Spells .greedy ts x) (hy : Spells .greedy us y) (op : Operator) :
    parse ("(" ++ a ++ ")" ++ op.symbol.toString ++ "(" ++ b ++ ")") = .ok (.binary op x y) ↔
      (load ts ≤ 255 ∧ load us ≤ 255) ∧ x.height ≤ 4095 ∧ y.height ≤ 4095 := by
  have hbinary := hx.factor_group.inner_binary op hy.factor_group
  rw [parse_eq_ok_iff_fits (tokenize_groups ha hb op) ⟨false, hbinary⟩, load_groups hx hy op, Expr.height]
  omega

/-! ## Values -/

theorem evaluate_of_parse (hx : parse a = .ok x) : evaluate a = x.eval.mapError .arithmetic := by
  rw [evaluate, hx]
  rfl

theorem evaluate_of_parse_signed {text : String} {σ : Sign} (hx : parse a = .ok x)
    (h : parse text = .ok (.signed σ x)) :
    evaluate text = (do let v ← evaluate a; (σ.apply v).mapError .arithmetic) := by
  rw [evaluate_of_parse h, evaluate_of_parse hx, Expr.eval]
  cases x.eval <;> rfl

theorem evaluate_of_parse_binary {text : String} {op : Operator} (hx : parse a = .ok x)
    (hy : parse b = .ok y) (h : parse text = .ok (.binary op x y)) :
    evaluate text =
      (do let v ← evaluate a; let w ← evaluate b; (op.apply v w).mapError .arithmetic) := by
  rw [evaluate_of_parse h, evaluate_of_parse hx, evaluate_of_parse hy, Expr.eval]
  cases x.eval with
  | error e => rfl
  | ok v => cases y.eval <;> rfl

/-- Two texts that are read can be put in parentheses, behind a sign and around an operator, exactly
while the load and the height leave room for one more. The tree is made from the trees of the texts and
the value from their values, the first failure first; a sign applies to the whole text behind it. -/
theorem texts_compose (hx : parse a = .ok x) (hy : parse b = .ok y) :
    ∃ ts us, tokenize a = .ok ts ∧ tokenize b = .ok us ∧
      ((parse ("(" ++ a ++ ")") = .ok x ↔ load ts ≤ 255) ∧
        (parse ("-" ++ a) = .ok (.signed .minus x) ↔ load ts ≤ 255 ∧ x.height ≤ 4095) ∧
        (parse ("+" ++ a) = .ok (.signed .plus x) ↔ load ts ≤ 255 ∧ x.height ≤ 4095) ∧
        ∀ op : Operator,
          parse ("(" ++ a ++ ")" ++ op.symbol.toString ++ "(" ++ b ++ ")") = .ok (.binary op x y) ↔
            (load ts ≤ 255 ∧ load us ≤ 255) ∧ x.height ≤ 4095 ∧ y.height ≤ 4095) ∧
      (load ts ≤ 255 → evaluate ("(" ++ a ++ ")") = evaluate a) ∧
      (load ts ≤ 255 ∧ x.height ≤ 4095 →
        evaluate ("-" ++ a) = (do let v ← evaluate a; v.neg.mapError .arithmetic) ∧
        evaluate ("+" ++ a) = evaluate a) ∧
      ((load ts ≤ 255 ∧ load us ≤ 255) ∧ x.height ≤ 4095 ∧ y.height ≤ 4095 → ∀ op : Operator,
        evaluate ("(" ++ a ++ ")" ++ op.symbol.toString ++ "(" ++ b ++ ")") =
          (do let v ← evaluate a; let w ← evaluate b; (op.apply v w).mapError .arithmetic)) := by
  obtain ⟨ts, ha, hts, hfits⟩ := fits_of_parseWithin within_standard_leaf hx
  obtain ⟨us, hb, hus, -⟩ := fits_of_parseWithin within_standard_leaf hy
  have hheight := (fits_standard.mp hfits).2
  have hgroup : parse ("(" ++ a ++ ")") = .ok x ↔ load ts ≤ 255 :=
    (parse_group_iff ha hts).trans (and_iff_left hheight)
  have hminus := parse_sign_iff ha hts .minus
  have hplus := parse_sign_iff ha hts .plus
  have hgroups := parse_groups_iff ha hb hts hus
  refine ⟨ts, us, ha, hb, ⟨hgroup, hminus, hplus, hgroups⟩, ?_, ?_, ?_⟩
  · intro hroom
    rw [evaluate_of_parse (hgroup.mpr hroom), evaluate_of_parse hx]
  · intro hroom
    refine ⟨evaluate_of_parse_signed hx (hminus.mpr hroom), ?_⟩
    refine (evaluate_of_parse_signed hx (hplus.mpr hroom)).trans ?_
    cases evaluate a <;> rfl
  · intro hroom op
    exact evaluate_of_parse_binary hx hy ((hgroups op).mpr hroom)

end

/-- The sign in front takes all of `3*-4+5`; the sign inside does not reach over the parenthesis behind
it, and the blanks of the other text stay where they are. -/
theorem signs_keep_to_their_text :
    let a := "3*-4+5"
    let b := " 1-2 "
    let x : Expr := .binary .mul (.literal (.int 3))
      (.signed .minus (.binary .add (.literal (.int 4)) (.literal (.int 5))))
    let y : Expr := .binary .sub (.literal (.int 1)) (.literal (.int 2))
    parse a = .ok x ∧ parse b = .ok y ∧ parse ("-" ++ a) = .ok (.signed .minus x) ∧
      parse ("(" ++ a ++ ")" ++ Operator.sub.symbol.toString ++ "(" ++ b ++ ")") = .ok (.binary .sub x y) ∧
      evaluate ("-" ++ a) = .ok (.int 27) ∧
      evaluate ("(" ++ a ++ ")" ++ Operator.sub.symbol.toString ++ "(" ++ b ++ ")") = .ok (.int (-26)) := by
  intro a b x y
  have hx : parse a = .ok x := by decide +kernel
  have hy : parse b = .ok y := by decide +kernel
  have ha : tokenize a = .ok [.number (.int 3), .mark .star, .mark .minus, .number (.int 4), .mark .plus,
      .number (.int 5)] := by decide +kernel
  have hb : tokenize b = .ok [.number (.int 1), .mark .minus, .number (.int 2)] := by decide +kernel
  have hva : evaluate a = .ok (.int (-27)) := by decide +kernel
  have hvb : evaluate b = .ok (.int (-1)) := by decide +kernel
  obtain ⟨ts, us, hts, hus, ⟨-, hminus, -, hgroups⟩, -, hsigned, hbinary⟩ := texts_compose hx hy
  have hload : load ts ≤ 255 := by
    rw [← Except.ok.inj (ha.symm.trans hts)]
    decide
  have hload' : load us ≤ 255 := by
    rw [← Except.ok.inj (hb.symm.trans hus)]
    decide
  have hheight : x.height ≤ 4095 ∧ y.height ≤ 4095 := by decide
  refine ⟨hx, hy, hminus.mpr ⟨hload, hheight.1⟩, (hgroups .sub).mpr ⟨⟨hload, hload'⟩, hheight⟩, ?_, ?_⟩
  · rw [(hsigned ⟨hload, hheight.1⟩).1, hva]
    decide +kernel
  · rw [hbinary ⟨⟨hload, hload'⟩, hheight⟩ .sub, hva, hvb]
    decide +kernel

end Abacus
