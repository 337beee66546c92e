import Abacus.Proofs.ParserAcceptance

/-! # The grammar of expressions

A chain is an operand, or a chain with an operator and one more operand behind it; so it leans to the
left. A factor is a number, a sum in parentheses, or a sign before a sum. As it stands the grammar is
ambiguous: in `2*-3+4` the operand of the sign may be `3` or `3+4`. Read greedily, nothing follows an
operand that ends in a sign's operand, unless parentheses close first, and the sign reaches as far as it can.

Every tree that the reader builds is derived by the greedy grammar from the tokens used up.
-/
namespace Abacus

inductive Category where
  | factor
  | chain (p : Parser.Level)

def Category.operand : Parser.Level → Category
  | .sum => .chain .product
  | .product => .factor

def Operator.level : Operator → Parser.Level
  | add => .sum
  | sub => .sum
  | mul => .product
  | div => .product

/-- How the grammar is read: as it stands, or with every sign reaching as far as it can. -/
inductive Reading where
  | documented
  | greedy

/-- The tokens spell the tree. The flag tells whether they end in the operand of a sign that no
parenthesis closes. -/
inductive Derives (g : Reading) : Category → Bool → List Token → Expr → Prop where
  | number (n : Number) : Derives g .factor false [.number n] (.literal n)
  | group {o : Bool} {ts : List Token} {e : Expr} (h : Derives g (.chain .sum) o ts e) :
      Derives g .factor false (.mark .leftParen :: (ts ++ [.mark .rightParen])) e
  | sign {o : Bool} {ts : List Token} {e : Expr} (σ : Sign) (h : Derives g (.chain .sum) o ts e) :
      Derives g .factor true (.mark σ.mark :: ts) (.signed σ e)
  | single {p : Parser.Level} {o : Bool} {ts : List Token} {e : Expr}
      (h : Derives g (.operand p) o ts e) : Derives g (.chain p) o ts e
  | binary {o o' : Bool} {ts us : List Token} {a b : Expr} (op : Operator)
      (hl : Derives g (.chain op.level) o ts a) (hr : Derives g (.operand op.level) o' us b)
      (ho : g = .greedy → o = false) :
      Derives g (.chain op.level) o' (ts ++ .mark op.mark :: us) (.binary op a b)

def Spells (g : Reading) (ts : List Token) (e : Expr) : Prop := ∃ o, Derives g (.chain .sum) o ts e

theorem Derives.documented {g : Reading} {c : Category} {o : Bool} {ts : List Token} {e : Expr}
    (h : Derives g c o ts e) : Derives .documented c o ts e := by
  induction h with
  | number n => exact .number n
  | group _ ih => exact .group ih
  | sign σ _ ih => exact .sign σ ih
  | single _ ih => exact .single ih
  | binary op _ _ _ ihl ihr => exact .binary op ihl ihr nofun

/-- What the grammar derives, in either reading, takes the scanner from an operand to an operator. -/
theorem Derives.advance {g : Reading} {c : Category} {o : Bool} {ts : List Token} {e : Expr}
    (h : Derives g c o ts e) (k : Nat) :
    Scanner.advance ⟨.operand, k⟩ ts = .ok ⟨.operator, k⟩ := by
  induction h generalizing k with
  | number n => rfl
  | @group o ts e _ ih =>
    rw [Scanner.advance_cons]
    change Scanner.advance ⟨.operand, k + 1⟩ (ts ++ [.mark .rightParen]) = .ok ⟨.operator, k⟩
    rw [Scanner.advance_append, ih]
    rfl
  | sign σ _ ih =>
    rw [Scanner.advance_cons]
    cases σ <;> exact ih k
  | single _ ih => exact ih k
  | binary op _ _ _ ihl ihr =>
    rw [Scanner.advance_append, ihl, Except.bind, Scanner.advance_cons]
    cases op <;> exact ihr k

namespace Parser

theorem Opening.ofToken?_eq_number {t : Token} {n : Number} :
    ofToken? t = some (.number n) ↔ t = .number n := by
  rcases t with _ | m | (_ | _ | _ | _ | _ | _) <;> simp [ofToken?, Sign.ofMark?]

theorem Opening.ofToken?_eq_group {t : Token} : ofToken? t = some .group ↔ t = .mark .leftParen := by
  rcases t with _ | m | (_ | _ | _ | _ | _ | _) <;> simp [ofToken?, Sign.ofMark?]

theorem Opening.ofToken?_eq_sign {t : Token} {σ : Sign} :
    ofToken? t = some (.sign σ) ↔ t = .mark σ.mark := by
  cases σ <;> rcases t with _ | m | (_ | _ | _ | _ | _ | _) <;>
    simp [ofToken?, Sign.ofMark?, Sign.mark]

theorem Level.operator?_eq_some {p : Level} {t : Token} {op : Operator} :
    p.operator? t = some op ↔ t = .mark op.mark ∧ p = op.level := by
  cases p <;> cases op <;> rcases t with _ | m | (_ | _ | _ | _ | _ | _) <;>
    simp [operator?, Operator.mark, Operator.level]

/-- The operand of an open sign has ended: no operator is ahead. -/
def Ended (o : Bool) (t : Token) : Prop := o = true → ∀ p : Level, p.operator? t = none

/-- What a task has read, from the first state to the second, spells its tree. A continuation adds to
what spells the part already read. -/
def Spelled (s s' : State) (t : Tree) : Task → Prop
  | .continuation p left => ∀ o ts, Derives .greedy (.chain p) o ts left.expr → Ended o s.lookahead →
      ∃ o' us, s.ahead = us ++ s'.ahead ∧ Derives .greedy (.chain p) o' (ts ++ us) t.expr ∧
        Ended o' s'.lookahead
  | .factor => Found .factor
  | .nested => Found (.chain .sum)
  | .chain p => Found (.chain p)
  | .operand p => Found (.operand p)
where
  Found (c : Category) : Prop := ∃ o us, s.ahead = us ++ s'.ahead ∧ Derives .greedy c o us t.expr ∧
    Ended o s'.lookahead

theorem Reads.spelled {lim : Limits} {k : Task} {s : State} {t : Tree} {s' : State}
    (h : Reads lim k s (.ok t, s')) : Spelled s s' t k := by
  generalize ho : (Except.ok t, s') = o at h
  induction h generalizing t s' with
  | @number s s₁ n hn hs =>
    cases ho
    obtain ⟨ha, -⟩ := State.ahead_of_shift (Opening.isEnd_of_ofToken? hn) hs
    rw [Opening.ofToken?_eq_number.mp hn] at ha
    exact ⟨false, [.number n], ha, .number n, nofun⟩
  | @group s s₁ s₂ s₃ t hn hs _ hx ih =>
    cases ho
    obtain ⟨o, us, hus, hd, -⟩ := ih rfl
    obtain ⟨ha, -⟩ := State.ahead_of_shift (Opening.isEnd_of_ofToken? hn) hs
    obtain ⟨hkind, hshift⟩ := State.expect_ok hx
    have hclose := Token.kind_eq_mark.mp hkind
    obtain ⟨hb, -⟩ := State.ahead_of_shift (by simp [hclose, Token.isEnd]) hshift
    refine ⟨false, _, ?_, .group hd, nofun⟩
    rw [ha, hus, hb, hclose, Opening.ofToken?_eq_group.mp hn]
    simp
  | @sign s s₁ s₂ σ t hn hs hin ih =>
    obtain ⟨hsigned, rfl⟩ := Prod.mk.inj ho
    obtain ⟨o, us, hus, hd, -⟩ := ih rfl
    obtain ⟨ha, -⟩ := State.ahead_of_shift (Opening.isEnd_of_ofToken? hn) hs
    rw [Opening.ofToken?_eq_sign.mp hn, hus] at ha
    refine ⟨true, .mark σ.mark :: us, ha, ?_, fun _ p => ?_⟩
    · rw [(Tree.signed_eq_ok.mp hsigned.symm).1]
      exact .sign σ hd
    · exact hin.no_operator rfl rfl p
  | @nested s s₁ r _ _ ih =>
    obtain ⟨rfl, rfl⟩ := Prod.mk.inj ho
    have hin : Spelled s.descend s₁ t (.chain .sum) := ih rfl
    exact hin
  | chain _ _ ih ihc =>
    obtain ⟨o, us, hus, hd, hended⟩ := ih rfl
    obtain ⟨o', vs, hvs, hd', hended'⟩ := ihc ho o us (.single hd) hended
    exact ⟨o', us ++ vs, by rw [hus, hvs, List.append_assoc], hd', hended'⟩
  | product _ ih => exact ih ho
  | factor _ ih => exact ih ho
  | stop =>
    cases ho
    intro o ts hd hended
    exact ⟨o, [], rfl, by rwa [List.append_nil], hended⟩
  | @extend p s s₁ s₂ left right u op out hop hs _ hb _ ih ihc =>
    intro o ts hd hended
    obtain ⟨hmark, rfl⟩ := Level.operator?_eq_some.mp hop
    -- The operator shows that the part already read does not end in an open sign.
    have hclosed : o = false := by
      cases o with
      | false => rfl
      | true => simp [hended rfl] at hop
    subst hclosed
    obtain ⟨o', us, hus, hd', hended'⟩ := ih rfl
    have hbinary : Derives .greedy (.chain op.level) o' (ts ++ .mark op.mark :: us) u.expr := by
      rw [(Tree.binary_eq_ok.mp hb).1]
      exact .binary op hd hd' fun _ => rfl
    obtain ⟨o'', vs, hvs, hd'', hended''⟩ := ihc ho o' _ hbinary hended'
    refine ⟨o'', .mark op.mark :: us ++ vs, ?_, by simpa using hd'', hended''⟩
    rw [(State.ahead_of_shift (Level.isEnd_of_operator? hop) hs).1, hmark, hus, hvs]
    simp
  | _ => cases ho

/-- A text that is read, within whatever limits, has no failure, and the greedy grammar derives the tree
from its tokens. -/
theorem spells_of_parse {lim : Limits} {c : Cursor} {e : Expr} (h : parse lim c = .ok e) :
    c.stream.failure = none ∧ Spells .greedy c.stream.tokens e := by
  rcases parse_start c with ⟨x, -, -, hparse⟩ | ⟨s, hahead, hfailure, -, hparse⟩
  · simp [hparse lim] at h
  · obtain ⟨⟨x | t, s'⟩, hreads⟩ := exists_reads lim (.chain .sum) s
    · simp [hparse lim _ hreads, conclude] at h
    · rw [hparse lim _ hreads, conclude] at h
      split at h
      · rename_i hend
        cases h
        obtain ⟨o, us, hus, hd, -⟩ := hreads.spelled
        rw [State.ahead_of_end hend, List.append_nil] at hus
        refine ⟨?_, o, ?_⟩
        · rw [← hfailure, ← hreads.failure_eq, State.failure_of_end hend]
        · rwa [← hahead, hus]
      · simp at h

end Parser

end Abacus
