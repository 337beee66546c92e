import Abacus.Proofs.DoubleText
import Abacus.Proofs.LexerLayout
import Abacus.Proofs.ParserLimits

/-! # Reading what is printed

A tree is printed with parentheses around every node but the literals, so each sign and each operator
has a group of its own: the sign's operand ends with it, and no two numbers meet. Read again, the text
gives the same tree while the nesting allows it. A group with a sign in it nests two levels, one with an
operator a single one, and this weight is exact: a heavier tree is refused for its nesting, however
high it is, since a part of it that can be read at all is not high.
-/
namespace Abacus

/-! ## Literals -/

/-- The number is written without a sign and without an exponent. -/
def Number.Plain : Number → Prop
  | int i => 0 ≤ i
  | float x => x = 0.0 ∨ (1e-4 ≤ x ∧ x < 1e16)

instance : DecidablePred Number.Plain
  | .int i => inferInstanceAs (Decidable (0 ≤ i))
  | .float x => inferInstanceAs (Decidable (x = 0.0 ∨ (1e-4 ≤ x ∧ x < 1e16)))

theorem spelling_of_nonneg {i : Int64} (h : 0 ≤ i) :
    Spelling (Number.int i).text.toList (.number (.int i)) := by
  obtain ⟨n, hn⟩ := Int.eq_ofNat_of_zero_le (Int64.le_iff_toInt_le.mp h)
  have htext : (Number.int i).text.toList = Nat.toDigits 10 n := by
    rw [Number.text, hn]
    exact Nat.toList_repr
  have hmost : n ≤ 2 ^ 63 - 1 := by
    have hlt := i.toInt_lt
    omega
  rw [htext]
  exact .integer (isNumeral_toDigits n) (by rwa [digitsValue_toDigits]) (by rw [digitsValue_toDigits, hn])

theorem Number.Plain.spelling {n : Number} (h : n.Plain) : Spelling n.text.toList (.number n) := by
  cases n with
  | int i => exact spelling_of_nonneg h
  | float x =>
    rcases h with rfl | ⟨hlow, hhigh⟩
    · exact spelling_zero
    · exact spelling_of_positional hlow hhigh

namespace Expr

def Plain : Expr → Prop
  | literal n => n.Plain
  | signed _ e => e.Plain
  | binary _ l r => l.Plain ∧ r.Plain

instance decidablePlain : (e : Expr) → Decidable e.Plain
  | literal n => inferInstanceAs (Decidable n.Plain)
  | signed _ e => decidablePlain e
  | binary _ l r => @instDecidableAnd _ _ (decidablePlain l) (decidablePlain r)

/-- How deep the groups and signs of the printed tree nest. -/
def weight : Expr → Nat
  | literal _ => 0
  | signed _ e => 2 + e.weight
  | binary _ l r => 1 + max l.weight r.weight

def printed : Expr → List Token
  | literal n => [.number n]
  | signed s e => .mark .leftParen :: (.mark s.mark :: e.printed ++ [.mark .rightParen])
  | binary op l r =>
    .mark .leftParen :: (l.printed ++ .mark op.mark :: r.printed ++ [.mark .rightParen])

theorem height_le_weight (e : Expr) : e.height ≤ e.weight + 1 := by
  induction e with
  | literal n => exact Nat.le_refl _
  | signed s e ih =>
    simp only [height, weight]
    omega
  | binary op l r ihl ihr =>
    simp only [height, weight]
    omega

theorem toList_text_signed (σ : Sign) (e : Expr) : (signed σ e).text.toList =
    Mark.leftParen.toChar :: σ.mark.toChar :: (e.text.toList ++ [Mark.rightParen.toChar]) := by
  simp [text, Sign.symbol, Mark.toChar]

theorem toList_text_binary (op : Operator) (l r : Expr) : (binary op l r).text.toList =
    Mark.leftParen.toChar :: (l.text.toList ++ ' ' :: op.mark.toChar :: ' ' ::
      (r.text.toList ++ [Mark.rightParen.toChar])) := by
  simp [text, Operator.symbol, Mark.toChar]

end Expr

/-! ## From the text to the tokens -/

def Piece.ofMark (gap : List Char) (hgap : ∀ c ∈ gap, Text.isBlank c = true) (m : Mark) : Piece :=
  ⟨gap, [m.toChar], .mark m, hgap, .mark m⟩

/-- A mark keeps what stands on either side of it apart. -/
theorem isChain_mark {gap : List Char} (hgap : ∀ c ∈ gap, Text.isBlank c = true) (m : Mark)
    {qs rs : List Piece} (hqs : qs.IsChain Piece.Apart) (hrs : rs.IsChain Piece.Apart) :
    (qs ++ Piece.ofMark gap hgap m :: rs).IsChain Piece.Apart := by
  refine List.isChain_append.mpr ⟨hqs, List.isChain_cons.mpr ⟨?_, hrs⟩, ?_⟩
  · intro r _ hmark
    cases hmark
  · rintro q _ r ⟨⟩ _ hmark
    cases hmark

theorem piecesText_nil : piecesText [] = [] := rfl

theorem piecesText_append (qs rs : List Piece) :
    piecesText (qs ++ rs) = piecesText qs ++ piecesText rs := List.flatMap_append

theorem piecesText_mark {gap : List Char} (hgap : ∀ c ∈ gap, Text.isBlank c = true) (m : Mark)
    (qs : List Piece) :
    piecesText (Piece.ofMark gap hgap m :: qs) = gap ++ m.toChar :: piecesText qs :=
  piecesText_cons _ qs

/-- The printed text is cut into the printed tokens. Only the right operand of an operator has a blank
before it, so the blanks before the tree are left open. -/
theorem exists_pieces {e : Expr} (h : e.Plain) {gap : List Char}
    (hgap : ∀ c ∈ gap, Text.isBlank c = true) :
    ∃ qs : List Piece, qs.IsChain Piece.Apart ∧ piecesText qs = gap ++ e.text.toList ∧
      qs.map Piece.token = e.printed := by
  have hnone : ∀ c ∈ ([] : List Char), Text.isBlank c = true := nofun
  have hspace : ∀ c ∈ [' '], Text.isBlank c = true := by
    intro c hc
    rw [List.mem_singleton.mp hc]
    decide
  induction e generalizing gap with
  | literal n =>
    refine ⟨[⟨gap, n.text.toList, .number n, hgap, Number.Plain.spelling h⟩], .singleton _, ?_, rfl⟩
    rw [piecesText_cons, Expr.text]
    simp [piecesText]
  | signed σ e ih =>
    obtain ⟨qs, hchain, htext, htokens⟩ := ih h hnone
    refine ⟨[] ++ .ofMark gap hgap .leftParen :: ([] ++ .ofMark [] hnone σ.mark ::
      (qs ++ .ofMark [] hnone .rightParen :: [])), ?_, ?_, ?_⟩
    · exact isChain_mark _ _ .nil (isChain_mark _ _ .nil (isChain_mark _ _ hchain .nil))
    · simp [piecesText_mark, piecesText_append, piecesText_nil, htext, Expr.toList_text_signed]
    · simp [Piece.ofMark, htokens, Expr.printed]
  | binary op l r ihl ihr =>
    obtain ⟨ls, hlchain, hltext, hltokens⟩ := ihl h.1 hnone
    obtain ⟨rs, hrchain, hrtext, hrtokens⟩ := ihr h.2 hspace
    refine ⟨[] ++ .ofMark gap hgap .leftParen :: (ls ++ .ofMark [' '] hspace op.mark ::
      (rs ++ .ofMark [] hnone .rightParen :: [])), ?_, ?_, ?_⟩
    · exact isChain_mark _ _ .nil (isChain_mark _ _ hlchain (isChain_mark _ _ hrchain .nil))
    · simp [piecesText_mark, piecesText_append, piecesText_nil, hltext, hrtext, Expr.toList_text_binary]
    · simp [Piece.ofMark, hltokens, hrtokens, Expr.printed]

theorem text_ne_empty {e : Expr} (h : e.Plain) : e.text ≠ "" := by
  intro hempty
  have hlist : e.text.toList = [] := by rw [hempty]; rfl
  cases e with
  | literal n =>
    obtain ⟨d, ds, hchars, -⟩ := (Number.Plain.spelling h).number_cons
    exact List.cons_ne_nil d ds (hchars.symm.trans hlist)
  | signed σ e => simp [Expr.toList_text_signed] at hlist
  | binary op l r => simp [Expr.toList_text_binary] at hlist

theorem tokenize_text {e : Expr} (h : e.Plain) : tokenize e.text = .ok e.printed := by
  have hnone : ∀ c ∈ ([] : List Char), Text.isBlank c = true := nofun
  obtain ⟨qs, hchain, htext, htokens⟩ := exists_pieces h hnone
  have hlayout : Layout.text ⟨qs, [], hnone, hchain⟩ = e.text.toList := by
    rw [Layout.text, List.append_nil, htext, List.nil_append]
  rw [tokenize_of_layout (text_ne_empty h) hlayout, Layout.tokens, htokens]

/-! ## The printed tokens spell the tree -/

section
variable {g : Reading} {o : Bool} {ts : List Token} {e : Expr}

theorem Derives.operand_of_factor (h : Derives g .factor o ts e) (p : Parser.Level) :
    Derives g (.operand p) o ts e := by
  cases p with
  | sum => exact .single h
  | product => exact h

theorem Derives.chain_of_factor (h : Derives g .factor o ts e) (p : Parser.Level) :
    Derives g (.chain p) o ts e := .single (h.operand_of_factor p)

theorem Derives.sum_of_chain {p : Parser.Level} (h : Derives g (.chain p) o ts e) :
    Derives g (.chain .sum) o ts e := by
  cases p with
  | sum => exact h
  | product => exact .single h

end

theorem Derives.inner_sign {o : Bool} {ts : List Token} {e : Expr} (σ : Sign)
    (h : Derives .greedy .factor o ts e) :
    Derives .greedy (.chain .sum) true (.mark σ.mark :: ts) (.signed σ e) :=
  .chain_of_factor (.sign σ (h.chain_of_factor .sum)) .sum

theorem Derives.inner_binary {ts us : List Token} {l r : Expr} (op : Operator)
    (hl : Derives .greedy .factor false ts l) (hr : Derives .greedy .factor false us r) :
    Derives .greedy (.chain .sum) false (ts ++ .mark op.mark :: us) (.binary op l r) :=
  .sum_of_chain (.binary op (hl.chain_of_factor _) (hr.operand_of_factor _) fun _ => rfl)

theorem derives_printed (e : Expr) : Derives .greedy .factor false e.printed e := by
  induction e with
  | literal n => exact .number n
  | signed σ e ih => exact .group (ih.inner_sign σ)
  | binary op l r ihl ihr => exact .group (ihl.inner_binary op ihr)

theorem peak_printed (e : Expr) (K : List Opened) :
    Nest.peak ⟨.operand, K⟩ e.printed = K.length + e.weight := by
  induction e generalizing K with
  | literal n => exact peak_number n K
  | signed σ e ih =>
    have hgroup := ((derives_printed e).inner_sign σ).peak_group K
    rw [Expr.printed, hgroup, peak_sign, ih]
    simp only [List.length_cons, Expr.weight]
    omega
  | binary op l r ihl ihr =>
    have hgroup := ((derives_printed l).inner_binary op (derives_printed r)).peak_group K
    rw [Expr.printed, hgroup, (derives_printed l).peak_binary, ihl, ihr]
    simp only [List.length_cons, Expr.weight]
    omega

theorem load_printed (e : Expr) : load e.printed = e.weight :=
  (peak_printed e []).trans (Nat.zero_add _)

/-! ## Trees that nest too deep -/

namespace Parser

section
variable {lim : Limits} {s s' : State} {x : SyntaxError}

theorem Reads.operand_error (h : Reads lim .factor s (.error x, s')) (p : Level) :
    Reads lim (.operand p) s (.error x, s') := by
  cases p with
  | sum => exact .product (.first (.factor h))
  | product => exact .factor h

theorem Reads.sum_error {p : Level} (h : Reads lim (.chain p) s (.error x, s')) :
    Reads lim (.chain .sum) s (.error x, s') := by
  cases p with
  | sum => exact h
  | product => exact .first (.product h)

end

/-- The task ends at the limit on the nesting. -/
def Refuses (lim : Limits) (most : ℕ) (k : Task) (s : State) : Prop :=
  ∃ s', Reads lim k s (.error (.tooDeep most), s')

section
variable {lim : Limits} {most : ℕ} {s : State} {n : ℕ}

theorem Refuses.chain (h : Refuses lim most .factor s) (p : Level) : Refuses lim most (.chain p) s := by
  obtain ⟨s', hreads⟩ := h
  exact ⟨s', .first (hreads.operand_error p)⟩

/-- An opening goes one level down: there is none left, or the sum behind it is refused. -/
theorem Refuses.opening (hlim : lim.nesting = some most) {t : Token} {us : List Token}
    (hs : s.Holds (t :: us) n) {o : Opening} (ho : Opening.ofToken? t = some o)
    (hnumber : ∀ a, o ≠ .number a)
    (h : ∀ s₁ : State, s₁.Holds us (n + 1) → n + 1 ≤ most → Refuses lim most (.chain .sum) s₁) :
    Refuses lim most .factor s := by
  obtain ⟨hlook, s₁, hshift, hs₁⟩ := hs.shift
  rw [← hlook] at ho
  cases hroom : room lim.nesting s₁.nesting with
  | error x =>
    obtain ⟨most', hlim', -, rfl⟩ := room_eq_error.mp hroom
    obtain rfl : most = most' := Option.some.inj (hlim.symm.trans hlim')
    exact ⟨s₁, .inside ho hnumber hshift (.tooDeep hroom)⟩
  | ok u =>
    have hwithin := room_eq_ok.mp hroom most hlim
    rw [hs₁.nesting] at hwithin
    obtain ⟨s₂, hreads⟩ := h s₁.descend hs₁.descend hwithin
    exact ⟨s₂.ascend, .inside ho hnumber hshift (.nested hroom hreads)⟩

theorem Refuses.right {op : Operator} {us : List Token} {load : ℕ} {l : Expr}
    (hl : Completes lim s (.mark op.mark :: us) n load l (.chain op.level))
    (hfits : Fits lim load l)
    (hr : ∀ s₁ : State, s₁.Holds us n → Refuses lim most .factor s₁) :
    Refuses lim most (.chain .sum) s := by
  rcases hl with ⟨t, s', -, hs', hcont, -⟩ | ⟨limit, -, -, hexceeds⟩
  · obtain ⟨hlook, s₁, hshift, hs₁⟩ := hs'.shift
    obtain ⟨s₂, hreads⟩ := hr s₁ hs₁
    have hop := Level.operator?_eq_some.mpr ⟨hlook, rfl⟩
    exact ⟨s₂, (hcont _ (.right hop hshift (hreads.operand_error _))).sum_error⟩
  · exact absurd hexceeds (hfits.not_exceeds limit)

end

section
variable {lim : Limits} {most : ℕ} (hlim : lim.nesting = some most)
  (hheight : Within lim.height (most + 1))
include hlim hheight

theorem fits_of_weight {n : ℕ} {e : Expr} (h : n + e.weight ≤ most) : Fits lim (n + e.weight) e := by
  constructor
  · intro limit hlimit
    rw [hlim] at hlimit
    exact Option.some.inj hlimit ▸ h
  · intro limit hlimit
    have hle := e.height_le_weight
    have hmost := hheight limit hlimit
    omega

/-- A tree that is too heavy for the levels left is refused. What is read before that is not too heavy. -/
theorem refuses_printed {e : Expr} {K : List Opened} {s : State} {rest : List Token}
    (hs : s.Holds (e.printed ++ rest) K.length) (hweight : most < K.length + e.weight)
    (hK : K.length ≤ most) : Refuses lim most .factor s := by
  induction e generalizing K s rest with
  | literal n =>
    rw [Expr.weight] at hweight
    omega
  | signed σ e ih =>
    simp only [Expr.printed, List.cons_append, List.append_assoc] at hs
    rw [Expr.weight] at hweight
    refine .opening hlim hs rfl nofun fun s₁ hs₁ _ => Refuses.chain ?_ .sum
    refine .opening hlim hs₁ (Opening.ofToken?_eq_sign.mpr rfl) nofun fun s₂ hs₂ hK₂ => Refuses.chain ?_ .sum
    have hweight₂ : most < (Opened.sign :: Opened.group :: K).length + e.weight := by
      simp only [List.length_cons]
      omega
    exact ih hs₂ hweight₂ hK₂
  | binary op l r ihl ihr =>
    simp only [Expr.printed, List.cons_append, List.append_assoc] at hs
    rw [Expr.weight] at hweight
    refine .opening hlim hs rfl nofun fun s₁ hs₁ hK₁ => ?_
    have hlength : (Opened.group :: K).length = K.length + 1 := rfl
    rw [← hlength] at hs₁ hK₁
    by_cases hleft : most < (Opened.group :: K).length + l.weight
    · exact (ihl hs₁ hleft hK₁).chain .sum
    · have hright : most < (Opened.group :: K).length + r.weight := by omega
      have hfits := fits_of_weight hlim hheight (Nat.le_of_not_lt hleft)
      have hroom : Within lim.nesting (Opened.group :: K).length :=
        fun limit hlimit => (Nat.le_add_right _ _).trans (hfits.1 limit hlimit)
      have hleaf : Within lim.height 1 :=
        fun limit hlimit => (Nat.le_add_left 1 most).trans (hheight limit hlimit)
      have hcompletes := completes_of_derives ((derives_printed l).chain_of_factor op.level) hleaf hroom
        hs₁ nofun (quiet_operator op)
      rw [peak_printed] at hcompletes
      exact .right hcompletes hfits fun s₂ hs₂ => ihr hs₂ hright hK₁

theorem parse_refuses_printed {c : Cursor} {e : Expr} (htokens : c.stream.tokens = e.printed)
    (hfailure : c.stream.failure = none) (hweight : most < e.weight) :
    parse lim c = .error (.tooDeep most) := by
  rcases parse_start c with ⟨x, -, hx, -⟩ | ⟨s, hahead, hfail, hnesting, hparse⟩
  · simp [hfailure] at hx
  · have hs : s.Holds (e.printed ++ []) ([] : List Opened).length := by
      rw [List.append_nil, ← htokens]
      exact ⟨hahead, hfail.trans hfailure, hnesting⟩
    have hrefuses := refuses_printed hlim hheight hs (by simpa using hweight) (Nat.zero_le _)
    obtain ⟨s', hreads⟩ := hrefuses.chain .sum
    exact hparse lim _ hreads

end

end Parser

/-! ## The whole text -/

theorem within_standard_height : Parser.Within Parser.Limits.standard.height (256 + 1) := by
  rintro limit ⟨⟩
  decide

theorem parse_text {e : Expr} (h : e.Plain) (hweight : e.weight ≤ 256) : parse e.text = .ok e := by
  have hspells : Spells .greedy e.printed e := ⟨false, (derives_printed e).chain_of_factor .sum⟩
  have hfits := Parser.fits_of_weight (n := 0) rfl within_standard_height (by rwa [Nat.zero_add])
  rw [Nat.zero_add, ← load_printed] at hfits
  rcases parseWithin_of_spells (tokenize_text h) within_standard_leaf hspells with
    ⟨hok, -⟩ | ⟨limit, -, hexceeds⟩
  · exact hok
  · exact absurd hexceeds (hfits.not_exceeds limit)

theorem parse_text_tooDeep {e : Expr} (h : e.Plain) (hweight : 256 < e.weight) :
    parse e.text = .error (.grammatical (.tooDeep 256)) := by
  obtain ⟨hne, htokens, hfailure⟩ := tokenize_eq_ok_iff.mp (tokenize_text h)
  exact parseWithin_eq_grammatical.mpr
    ⟨hne, Parser.parse_refuses_printed rfl within_standard_height htokens hfailure hweight⟩

/-- A tree with plain literals is read again from its text, and so has its value, exactly while its
weight keeps the limit on the nesting. -/
theorem printing_reads_back {e : Expr} (h : e.Plain) :
    (e.weight ≤ 256 → parse e.text = .ok e ∧ evaluate e.text = e.eval.mapError .arithmetic) ∧
    (256 < e.weight → parse e.text = .error (.grammatical (.tooDeep 256))) := by
  refine ⟨fun hweight => ?_, parse_text_tooDeep h⟩
  have hparse := parse_text h hweight
  exact ⟨hparse, by rw [evaluate, hparse]; rfl⟩

/-- The heaviest trees that are read and the lightest that are refused, with the least positional double
and one that no decimal of few digits equals among the literals. -/
theorem printed_tree_at_boundary :
    let e : Expr := .binary .mul (.literal (.float 0.1))
      (.binary .add (.literal (.float 1e-4)) (signedOneTree 127))
    e.Plain ∧ e.weight = 256 ∧ (parse e.text = .ok e ∧ evaluate e.text = e.eval.mapError .arithmetic) ∧
      parse (Expr.binary .sub e e).text = .error (.grammatical (.tooDeep 256)) := by
  intro e
  have hplain : e.Plain := by decide +kernel
  have hheavy : e.weight = 256 := by decide +kernel
  have hheavier : 256 < (Expr.binary .sub e e).weight := by
    rw [Expr.weight, hheavy]
    decide
  exact ⟨hplain, hheavy, (printing_reads_back hplain).1 hheavy.le,
    (printing_reads_back (e := .binary .sub e e) ⟨hplain, hplain⟩).2 hheavier⟩

end Abacus
