import Abacus.Proofs.ParserLoad

/-! # Reading what the grammar derives

The reader finds the tree of every greedy derivation, unless the load of the tokens or the height of
the tree exceeds its limit; then it reports a limit that is exceeded. A derivation of a chain grows to
the right while the reader goes from left to right, so what is proved of a chain is that the reader
comes to stand behind it with its tree in hand, ready to continue.
-/
namespace Abacus.Parser

def Fits (lim : Limits) (load : Nat) (e : Expr) : Prop :=
  Within lim.nesting load ∧ Within lim.height e.height

/-- The limit on the nesting is exceeded by the load, or the limit on the height by the height. -/
def Exceeds (lim : Limits) (load : Nat) (e : Expr) (limit : Nat) : Prop :=
  (lim.nesting = some limit ∧ limit < load) ∨ (lim.height = some limit ∧ limit < e.height)

theorem Fits.not_exceeds {lim : Limits} {load : Nat} {e : Expr} (h : Fits lim load e) (limit : Nat) :
    ¬ Exceeds lim load e limit := by
  rintro (⟨hlim, hlt⟩ | ⟨hlim, hlt⟩)
  · exact absurd (h.1 limit hlim) (Nat.not_le.mpr hlt)
  · exact absurd (h.2 limit hlim) (Nat.not_le.mpr hlt)

theorem Exceeds.mono {lim : Limits} {load load' limit : Nat} {e e' : Expr}
    (h : Exceeds lim load e limit) (hload : load ≤ load') (he : e.height ≤ e'.height) :
    Exceeds lim load' e' limit := by
  rcases h with ⟨hlim, hlt⟩ | ⟨hlim, hlt⟩
  · exact .inl ⟨hlim, Nat.lt_of_lt_of_le hlt hload⟩
  · exact .inr ⟨hlim, Nat.lt_of_lt_of_le hlt he⟩

/-- The task ends before the rest with the tree, or at a limit that the load or the tree exceeds. -/
def Delivers (lim : Limits) (k : Task) (s : State) (rest : List Token) (n load : Nat) (e : Expr) :
    Prop :=
  (∃ t s', t.expr = e ∧ s'.Holds rest n ∧ Reads lim k s (.ok t, s') ∧ Fits lim load e) ∨
  ∃ limit s', Reads lim k s (.error (.tooDeep limit), s') ∧ Exceeds lim load e limit

/-- The same of a category, except that a chain may go on behind the tree. -/
def Completes (lim : Limits) (s : State) (rest : List Token) (n load : Nat) (e : Expr) :
    Category → Prop
  | .factor => Delivers lim .factor s rest n load e
  | .chain p =>
    (∃ t s', t.expr = e ∧ s'.Holds rest n ∧
      (∀ out, Reads lim (.continuation p t) s' out → Reads lim (.chain p) s out) ∧ Fits lim load e) ∨
    ∃ limit s', Reads lim (.chain p) s (.error (.tooDeep limit), s') ∧ Exceeds lim load e limit

section
variable {lim : Limits} {s : State} {rest : List Token} {n load : Nat} {e : Expr}

/-- A chain has ended where no operator continues it. -/
theorem Completes.chain {p : Level} (h : Completes lim s rest n load e (.chain p))
    (hstop : p.operator? (rest.headD .endOfInput) = none) : Delivers lim (.chain p) s rest n load e := by
  rcases h with ⟨t, s', ht, hs', hcont, hfits⟩ | hlimit
  · have hlook : p.operator? s'.lookahead = none := by rw [hs'.lookahead, hstop]
    exact .inl ⟨t, s', ht, hs', hcont _ (.stop hlook), hfits⟩
  · exact .inr hlimit

theorem Completes.operand {p : Level} (h : Completes lim s rest n load e (.operand p))
    (hquiet : Quiet p.rank (rest.headD .endOfInput)) : Delivers lim (.operand p) s rest n load e := by
  cases p with
  | sum =>
    rcases Completes.chain h (hquiet .product (by decide)) with
      ⟨t, s', ht, hs', hreads, hfits⟩ | ⟨limit, s', hreads, hexceeds⟩
    · exact .inl ⟨t, s', ht, hs', .product hreads, hfits⟩
    · exact .inr ⟨limit, s', .product hreads, hexceeds⟩
  | product =>
    rcases h with ⟨t, s', ht, hs', hreads, hfits⟩ | ⟨limit, s', hreads, hexceeds⟩
    · exact .inl ⟨t, s', ht, hs', .factor hreads, hfits⟩
    · exact .inr ⟨limit, s', .factor hreads, hexceeds⟩

theorem Delivers.nested (hs : s.nesting = n) (hload : n + 1 ≤ load)
    (h : Within lim.nesting (n + 1) → Delivers lim (.chain .sum) s.descend rest (n + 1) load e) :
    Delivers lim .nested s rest n load e := by
  cases hroom : room lim.nesting s.nesting with
  | error x =>
    obtain ⟨most, hlim, hlt, rfl⟩ := room_eq_error.mp hroom
    exact .inr ⟨most, s, .tooDeep hroom, .inl ⟨hlim, by omega⟩⟩
  | ok u =>
    have hwithin : Within lim.nesting (n + 1) := hs ▸ room_eq_ok.mp hroom
    rcases h hwithin with ⟨t, s', ht, hs', hreads, hfits⟩ | ⟨limit, s', hreads, hexceeds⟩
    · exact .inl ⟨t, s'.ascend, ht, hs'.ascend, .nested hroom hreads, hfits⟩
    · exact .inr ⟨limit, s'.ascend, .nested hroom hreads, hexceeds⟩

theorem Delivers.number {a : Number} (hload : Within lim.nesting n) (hheight : Within lim.height 1)
    (hs : s.Holds (.number a :: rest) n) : Delivers lim .factor s rest n n (.literal a) := by
  obtain ⟨hlook, s₁, hshift, hs₁⟩ := hs.shift
  exact .inl ⟨.literal a, s₁, rfl, hs₁, .number (Opening.ofToken?_eq_number.mpr hlook) hshift,
    hload, hheight⟩

theorem Delivers.group {us : List Token} (hs : s.Holds (.mark .leftParen :: us) n)
    (h : ∀ s₁ : State, s₁.Holds us n → Delivers lim .nested s₁ (.mark .rightParen :: rest) n load e) :
    Delivers lim .factor s rest n load e := by
  obtain ⟨hlook, s₁, hshift, hs₁⟩ := hs.shift
  have hopening := Opening.ofToken?_eq_group.mpr hlook
  rcases h s₁ hs₁ with ⟨t, s₂, ht, hs₂, hreads, hfits⟩ | ⟨limit, s₂, hreads, hexceeds⟩
  · obtain ⟨hclose, s₃, hshift', hs₃⟩ := hs₂.shift
    have hexpect : s₂.expect (.mark .rightParen) = (.ok (), s₃) := by
      rw [State.expect, if_pos (Token.kind_eq_mark.mpr hclose), hshift']
    exact .inl ⟨t, s₃, ht, hs₃, .group hopening hshift hreads hexpect, hfits⟩
  · exact .inr ⟨limit, s₂, .inside hopening (fun n h => by cases h) hshift hreads, hexceeds⟩

theorem Delivers.sign {us : List Token} {σ : Sign} (hs : s.Holds (.mark σ.mark :: us) n)
    (h : ∀ s₁ : State, s₁.Holds us n → Delivers lim .nested s₁ rest n load e) :
    Delivers lim .factor s rest n load (.signed σ e) := by
  obtain ⟨hlook, s₁, hshift, hs₁⟩ := hs.shift
  have hopening := Opening.ofToken?_eq_sign.mpr hlook
  rcases h s₁ hs₁ with ⟨t, s₂, rfl, hs₂, hreads, hfits⟩ | ⟨limit, s₂, hreads, hexceeds⟩
  · have hsign := Reads.sign hopening hshift hreads
    cases hsigned : t.signed lim σ with
    | error x =>
      obtain ⟨most, hlim, hlt, rfl⟩ := Tree.signed_eq_error.mp hsigned
      exact .inr ⟨most, s₂, hsigned ▸ hsign, .inr ⟨hlim, hlt⟩⟩
    | ok u =>
      obtain ⟨hu, hheight⟩ := Tree.signed_eq_ok.mp hsigned
      exact .inl ⟨u, s₂, hu, hs₂, hsigned ▸ hsign, hfits.1, hheight⟩
  · exact .inr ⟨limit, s₂, .inside hopening (fun n h => by cases h) hshift hreads,
      hexceeds.mono (Nat.le_refl _) (Nat.le_succ _)⟩

theorem Delivers.single {p : Level} (h : Delivers lim (.operand p) s rest n load e) :
    Completes lim s rest n load e (.chain p) := by
  rcases h with ⟨t, s', ht, hs', hreads, hfits⟩ | ⟨limit, s', hreads, hexceeds⟩
  · exact .inl ⟨t, s', ht, hs', fun _ hcont => .chain hreads hcont, hfits⟩
  · exact .inr ⟨limit, s', .first hreads, hexceeds⟩

theorem Completes.binary {op : Operator} {us : List Token} {load' : Nat} {a b : Expr}
    (hl : Completes lim s (.mark op.mark :: us) n load a (.chain op.level))
    (hr : ∀ s₁ : State, s₁.Holds us n → Delivers lim (.operand op.level) s₁ rest n load' b) :
    Completes lim s rest n (max load load') (.binary op a b) (.chain op.level) := by
  have hleft : a.height ≤ (Expr.binary op a b).height := Nat.le_succ_of_le (Nat.le_max_left _ _)
  have hright : b.height ≤ (Expr.binary op a b).height := Nat.le_succ_of_le (Nat.le_max_right _ _)
  rcases hl with ⟨t, s', rfl, hs', hcont, hfits⟩ | ⟨limit, s', hreads, hexceeds⟩
  · obtain ⟨hlook, s₁, hshift, hs₁⟩ := hs'.shift
    have hop := Level.operator?_eq_some.mpr ⟨hlook, rfl⟩
    rcases hr s₁ hs₁ with ⟨u, s₂, rfl, hs₂, hreads, hfits'⟩ | ⟨limit, s₂, hreads, hexceeds⟩
    · cases hbinary : Tree.binary lim op t u with
      | error x =>
        obtain ⟨most, hlim, hlt, rfl⟩ := Tree.binary_eq_error.mp hbinary
        exact .inr ⟨most, s₂, hcont _ (.tooHigh hop hshift hreads hbinary), .inr ⟨hlim, hlt⟩⟩
      | ok v =>
        obtain ⟨hv, hheight⟩ := Tree.binary_eq_ok.mp hbinary
        refine .inl ⟨v, s₂, hv, hs₂, fun out h => hcont out (.extend hop hshift hreads hbinary h), ?_, hheight⟩
        exact fun most hlim => Nat.max_le.mpr ⟨hfits.1 most hlim, hfits'.1 most hlim⟩
    · exact .inr ⟨limit, s₂, hcont _ (.right hop hshift hreads),
        hexceeds.mono (Nat.le_max_right _ _) hright⟩
  · exact .inr ⟨limit, s', hreads, hexceeds.mono (Nat.le_max_left _ _) hleft⟩

end

theorem quiet_operator (op : Operator) : Quiet op.level.rank (.mark op.mark) := by
  intro p hp
  cases op <;> cases p <;> simp_all [Operator.level, Level.rank, Operator.mark, Level.operator?]

/-- The lowest rank that the token behind a derivation may have. -/
def bound : Category → Nat
  | .factor => 1
  | .chain p => p.rank

theorem completes_of_derives {c : Category} {o : Bool} {ts : List Token} {e : Expr}
    (h : Derives .greedy c o ts e) {lim : Limits} (hleaf : Within lim.height 1) {K : List Opened}
    (hK : Within lim.nesting K.length) {s : State} {rest : List Token}
    (hs : s.Holds (ts ++ rest) K.length) (hended : Ended o (rest.headD .endOfInput))
    (hquiet : Quiet (bound c) (rest.headD .endOfInput)) :
    Completes lim s rest K.length (Nest.peak ⟨.operand, K⟩ ts) e c := by
  induction h generalizing K s rest with
  | number n =>
    rw [peak_number]
    exact Delivers.number hK hleaf hs
  | @group o ts e hin ih =>
    rw [hin.peak_group]
    refine Delivers.group (by simpa using hs) fun s₁ hs₁ => ?_
    refine Delivers.nested hs₁.nesting (Nest.le_peak ⟨.operand, .group :: K⟩ ts) fun hroom => ?_
    exact (ih (K := .group :: K) hroom hs₁.descend (fun _ p => by cases p <;> rfl)
      (fun p _ => by cases p <;> rfl)).chain rfl
  | @sign o ts e σ _ ih =>
    rw [peak_sign]
    refine Delivers.sign hs fun s₁ hs₁ => ?_
    -- The operand of the sign ends where the factor ends, and there no operator is ahead.
    refine Delivers.nested hs₁.nesting (Nest.le_peak ⟨.operand, .sign :: K⟩ ts) fun hroom => ?_
    exact (ih (K := .sign :: K) hroom hs₁.descend (fun _ => hended rfl)
      (fun p _ => hended rfl p)).chain (hended rfl .sum)
  | @single p o ts e _ ih =>
    refine Delivers.single (Completes.operand (ih hK hs hended ?_) hquiet)
    cases p <;> exact quiet_one _
  | @binary o o' ts us a b op hl _ ho ihl ihr =>
    obtain rfl := ho rfl
    rw [hl.peak_binary]
    -- The left part ends in no open sign, so its operator may stand behind it.
    refine Completes.binary (ihl hK (by simpa using hs) nofun (quiet_operator op)) fun s₁ hs₁ => ?_
    refine Completes.operand (ihr hK hs₁ hended ?_) hquiet
    cases op <;> exact quiet_one _

/-! ## The whole text -/

/-- A text that the greedy grammar derives is read, or it exceeds a limit and that limit is reported. -/
theorem parse_of_spells {lim : Limits} (hleaf : Within lim.height 1) {c : Cursor} {e : Expr}
    (hfailure : c.stream.failure = none) (h : Spells .greedy c.stream.tokens e) :
    (parse lim c = .ok e ∧ Fits lim (load c.stream.tokens) e) ∨
      ∃ limit, parse lim c = .error (.tooDeep limit) ∧
        Exceeds lim (load c.stream.tokens) e limit := by
  rcases parse_start c with ⟨x, -, hx, -⟩ | ⟨s, hahead, hfail, hnesting, hparse⟩
  · simp [hfailure] at hx
  · obtain ⟨o, hderives⟩ := h
    have hs : s.Holds (c.stream.tokens ++ []) 0 := by
      rw [List.append_nil]
      exact ⟨hahead, hfail.trans hfailure, hnesting⟩
    have hcompletes := completes_of_derives hderives hleaf (K := []) (fun _ _ => Nat.zero_le _) hs
      (fun _ p => by cases p <;> rfl) (fun p _ => by cases p <;> rfl)
    rcases hcompletes.chain rfl with ⟨t, s', ht, hs', hreads, hfits⟩ | ⟨limit, s', hreads, hexceeds⟩
    · refine .inl ⟨?_, hfits⟩
      have hend : s'.lookahead = .endOfInput := hs'.lookahead
      rw [hparse lim _ hreads, conclude, if_pos hend, ht]
    · exact .inr ⟨limit, hparse lim _ hreads, hexceeds⟩

theorem Reads.limit_of_tooDeep {lim : Limits} {k : Task} {s s' : State} {limit : Nat}
    (h : Reads lim k s (.error (.tooDeep limit), s')) :
    lim.nesting = some limit ∨ lim.height = some limit := by
  generalize ho : (Except.error (SyntaxError.tooDeep limit), s') = o at h
  induction h generalizing s' with
  | missing => cases ho
  | unreadable _ hs =>
    obtain ⟨-, ⟨x, -, rfl⟩, -⟩ := State.shift_error hs
    cases ho
  | number => cases ho
  | inside _ _ _ _ ih => cases ho; exact ih rfl
  | unclosed _ _ _ hx =>
    rcases State.expect_error hx with ⟨-, hs⟩ | ⟨-, rfl, -⟩
    · obtain ⟨-, ⟨x, -, rfl⟩, -⟩ := State.shift_error hs
      cases ho
    · cases ho
  | group => cases ho
  | sign =>
    obtain ⟨hsigned, -⟩ := Prod.mk.inj ho
    obtain ⟨most, hlim, -, he⟩ := Tree.signed_eq_error.mp hsigned.symm
    cases he
    exact .inr hlim
  | tooDeep hr =>
    cases ho
    obtain ⟨most, hlim, -, he⟩ := room_eq_error.mp hr
    cases he
    exact .inl hlim
  | nested _ _ ih =>
    obtain ⟨rfl, -⟩ := Prod.mk.inj ho
    exact ih rfl
  | first _ ih => cases ho; exact ih rfl
  | chain _ _ _ ihc => exact ihc ho
  | product _ ih => exact ih ho
  | factor _ ih => exact ih ho
  | stop => cases ho
  | halt _ hs =>
    obtain ⟨-, ⟨x, -, rfl⟩, -⟩ := State.shift_error hs
    cases ho
  | right _ _ _ ih => cases ho; exact ih rfl
  | tooHigh _ _ _ hb =>
    cases ho
    obtain ⟨most, hlim, -, he⟩ := Tree.binary_eq_error.mp hb
    cases he
    exact .inr hlim
  | extend _ _ _ _ _ _ ihc => exact ihc ho

theorem limit_of_parse {lim : Limits} {c : Cursor} {limit : Nat}
    (h : parse lim c = .error (.tooDeep limit)) :
    lim.nesting = some limit ∨ lim.height = some limit := by
  rcases parse_start c with ⟨x, -, -, hparse⟩ | ⟨s, -, -, -, hparse⟩
  · simp [hparse lim] at h
  · obtain ⟨⟨x | t, s'⟩, hreads⟩ := exists_reads lim (.chain .sum) s
    · rw [hparse lim _ hreads] at h
      obtain rfl : x = .tooDeep limit := by simpa [conclude] using h
      exact hreads.limit_of_tooDeep
    · rw [hparse lim _ hreads, conclude] at h
      split at h <;> simp at h

theorem parse_unlimited_ne_tooDeep (c : Cursor) (limit : Nat) :
    parse .unlimited c ≠ .error (.tooDeep limit) := by
  intro h
  rcases limit_of_parse h with hlim | hlim <;> cases hlim

theorem parse_unlimited_eq_ok {c : Cursor} {e : Expr} :
    parse .unlimited c = .ok e ↔ c.stream.failure = none ∧ Spells .greedy c.stream.tokens e := by
  constructor
  · exact spells_of_parse
  · rintro ⟨hfailure, h⟩
    have hleaf : Within Limits.unlimited.height 1 := nofun
    rcases parse_of_spells hleaf hfailure h with ⟨hok, -⟩ | ⟨limit, hdeep, -⟩
    · exact hok
    · exact absurd hdeep (parse_unlimited_ne_tooDeep c limit)

/-- A sentence of the grammar, in either reading, takes the scanner to the end, so the reader finds the
greedy tree. -/
theorem parse_unlimited_of_spells {g : Reading} {c : Cursor} {e : Expr}
    (hfailure : c.stream.failure = none) (h : Spells g c.stream.tokens e) :
    ∃ e', parse .unlimited c = .ok e' := by
  obtain ⟨o, hderives⟩ := h
  have hscan : Scanner.start.scan c.stream.tokens none = .ok () := by
    rw [Scanner.scan, Scanner.start, hderives.advance 0]
    rfl
  have hparse := parse_eq_scan (parse_unlimited_ne_tooDeep c)
  rw [hfailure, hscan] at hparse
  cases hc : parse .unlimited c with
  | error x => simp [hc, Except.map] at hparse
  | ok e' => exact ⟨e', rfl⟩

end Abacus.Parser

namespace Abacus

/-! ## Texts that have tokens -/

theorem spells_of_parseWithin {lim : Parser.Limits} {text : String} {e : Expr}
    (h : parseWithin lim text = .ok e) : ∃ ts, tokenize text = .ok ts ∧ Spells .greedy ts e := by
  obtain ⟨hne, hparse⟩ := parseWithin_eq_ok.mp h
  obtain ⟨hfailure, hspells⟩ := Parser.spells_of_parse hparse
  exact ⟨_, tokenize_eq_ok_iff.mpr ⟨hne, rfl, hfailure⟩, hspells⟩

section
variable {text : String} {ts : List Token} (htokens : tokenize text = .ok ts)
include htokens

theorem parseWithin_of_spells {lim : Parser.Limits} (hleaf : Parser.Within lim.height 1) {e : Expr}
    (h : Spells .greedy ts e) :
    (parseWithin lim text = .ok e ∧ Parser.Fits lim (load ts) e) ∨
      ∃ limit, parseWithin lim text = .error (.grammatical (.tooDeep limit)) ∧
        Parser.Exceeds lim (load ts) e limit := by
  obtain ⟨hne, rfl, hfailure⟩ := tokenize_eq_ok_iff.mp htokens
  rcases Parser.parse_of_spells hleaf hfailure h with ⟨hok, hfits⟩ | ⟨limit, hdeep, hexceeds⟩
  · exact .inl ⟨parseWithin_eq_ok.mpr ⟨hne, hok⟩, hfits⟩
  · exact .inr ⟨limit, parseWithin_eq_grammatical.mpr ⟨hne, hdeep⟩, hexceeds⟩

theorem parseWithin_unlimited_eq_ok {e : Expr} :
    parseWithin .unlimited text = .ok e ↔ Spells .greedy ts e := by
  obtain ⟨hne, rfl, hfailure⟩ := tokenize_eq_ok_iff.mp htokens
  rw [parseWithin_eq_ok, Parser.parse_unlimited_eq_ok]
  exact ⟨fun h => h.2.2, fun h => ⟨hne, hfailure, h⟩⟩

theorem spells_unique {e e' : Expr} (h : Spells .greedy ts e) (h' : Spells .greedy ts e') : e' = e := by
  have hok := (parseWithin_unlimited_eq_ok htokens).mpr h
  have hok' := (parseWithin_unlimited_eq_ok htokens).mpr h'
  exact Except.ok.inj (hok'.symm.trans hok)

theorem spells_greedy_of_documented {e : Expr} (h : Spells .documented ts e) :
    ∃ e', Spells .greedy ts e' := by
  obtain ⟨hne, rfl, hfailure⟩ := tokenize_eq_ok_iff.mp htokens
  obtain ⟨e', he'⟩ := Parser.parse_unlimited_of_spells hfailure h
  exact ⟨e', (Parser.spells_of_parse he').2⟩

end

theorem within_standard_leaf : Parser.Within Parser.Limits.standard.height 1 := by
  rintro most ⟨⟩
  decide

/-- On every text that has tokens the reader finds the one tree of the greedy grammar, or the tokens or
the tree exceed the limit it reports. The greedy grammar loses no sentence. -/
theorem parse_finds_greedy_tree {text : String} {ts : List Token} (htokens : tokenize text = .ok ts) :
    (∀ e, parse text = .ok e → Spells .greedy ts e ∧ ∀ e', Spells .greedy ts e' → e' = e) ∧
    (∀ e, Spells .greedy ts e → parse text = .ok e ∨
      ∃ limit, parse text = .error (.grammatical (.tooDeep limit)) ∧
        Parser.Exceeds .standard (load ts) e limit) ∧
    ((∃ e, Spells .documented ts e) ↔ ∃ e, Spells .greedy ts e) := by
  rw [parse_eq_parseWithin]
  refine ⟨?_, ?_, ?_⟩
  · intro e he
    obtain ⟨us, hus, hspells⟩ := spells_of_parseWithin he
    obtain rfl : ts = us := Except.ok.inj (htokens.symm.trans hus)
    exact ⟨hspells, fun e' he' => spells_unique htokens hspells he'⟩
  · intro e he
    rcases parseWithin_of_spells htokens within_standard_leaf he with ⟨hok, -⟩ | hdeep
    · exact .inl hok
    · exact .inr hdeep
  · constructor
    · rintro ⟨e, he⟩
      exact spells_greedy_of_documented htokens he
    · rintro ⟨e, o, he⟩
      exact ⟨e, o, he.documented⟩

/-- In `2*-3+4` the sign takes `3+4`, and no greedy tree has the sum outside. -/
theorem sign_takes_rest_of_text :
    let ts : List Token := [.number (.int 2), .mark .star, .mark .minus, .number (.int 3), .mark .plus,
      .number (.int 4)]
    let product (e : Expr) : Expr := .binary .mul (.literal (.int 2)) (.signed .minus e)
    let sum (e : Expr) : Expr := .binary .add e (.literal (.int 4))
    tokenize "2*-3+4" = .ok ts ∧ Spells .greedy ts (product (sum (.literal (.int 3)))) ∧
      ¬ Spells .greedy ts (sum (product (.literal (.int 3)))) := by
  intro ts product sum
  have htokens : tokenize "2*-3+4" = .ok ts := by cbv
  have hparse : parse "2*-3+4" = .ok (product (sum (.literal (.int 3)))) := by cbv
  obtain ⟨hspells, hunique⟩ := (parse_finds_greedy_tree htokens).1 _ hparse
  refine ⟨htokens, hspells, fun h => ?_⟩
  simpa [product, sum] using hunique _ h

end Abacus
