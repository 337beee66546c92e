import Abacus.Expr.Parser
import Mathlib

/-! # The reading functions as rules

Each way in which a reading function can end is one rule. A rule names the tokens it looks at, the
readings it asks for and the state in which it leaves the reader, also when it fails. The rules say
exactly what the functions do, so whatever holds of all readings is proved by one induction over the
rules, and no later proof opens the functions again.
-/
namespace Abacus.Parser

/-! ## Limits -/

/-- The number does not exceed the limit, if there is one. -/
def Within (limit : Option Nat) (n : Nat) : Prop := ∀ most, limit = some most → n ≤ most

theorem room_eq_ok {limit : Option Nat} {depth : Nat} :
    room limit depth = .ok () ↔ Within limit (depth + 1) := by
  cases limit with
  | none => exact ⟨fun _ => nofun, fun _ => rfl⟩
  | some most =>
    rw [room]
    split
    · rename_i h
      exact ⟨fun _ m hm => Option.some.inj hm ▸ h, fun _ => rfl⟩
    · rename_i h
      exact ⟨nofun, fun hw => absurd (hw most rfl) h⟩

theorem room_eq_error {limit : Option Nat} {depth : Nat} {e : SyntaxError} :
    room limit depth = .error e ↔ ∃ most, limit = some most ∧ most < depth + 1 ∧ e = .tooDeep most := by
  constructor
  · intro hroom
    cases limit with
    | none => cases hroom
    | some most =>
      rw [room] at hroom
      split at hroom
      · cases hroom
      · rename_i h
        cases hroom
        exact ⟨most, rfl, Nat.lt_succ_of_le (Nat.le_of_not_lt h), rfl⟩
  · rintro ⟨most, rfl, hlt, rfl⟩
    rw [room, if_neg (Nat.not_lt.mpr (Nat.le_of_lt_succ hlt))]

/-- The height of a tree is not a choice. -/
theorem Tree.eq_of_expr_eq {t u : Tree} (h : t.expr = u.expr) : t = u := by
  rcases t with ⟨e, n, hn⟩
  rcases u with ⟨f, m, hm⟩
  subst h hn hm
  rfl

theorem map_room_eq_ok {limit : Option Nat} {depth : Nat} {node u : Tree}
    (h : node.height = depth + 1) :
    (room limit depth).map (fun _ => node) = .ok u ↔
      u.expr = node.expr ∧ Within limit node.expr.height := by
  rw [← node.height_eq, h]
  cases hr : room limit depth with
  | error e =>
    obtain ⟨most, hlimit, hlt, -⟩ := room_eq_error.mp hr
    have hnot : ¬ Within limit (depth + 1) := fun hw => absurd (hw most hlimit) (Nat.not_le.mpr hlt)
    simp [Except.map, hnot]
  | ok v =>
    have hw := room_eq_ok.mp hr
    simp only [Except.map, Except.ok.injEq, hw, and_true]
    exact ⟨fun hu => hu ▸ rfl, fun hu => Tree.eq_of_expr_eq hu.symm⟩

theorem map_room_eq_error {limit : Option Nat} {depth : Nat} {node : Tree} {e : SyntaxError}
    (h : node.height = depth + 1) :
    (room limit depth).map (fun _ => node) = .error e ↔
      ∃ most, limit = some most ∧ most < node.expr.height ∧ e = .tooDeep most := by
  rw [← node.height_eq, h, ← room_eq_error]
  cases room limit depth <;> simp [Except.map]

theorem Tree.signed_eq_ok {lim : Limits} {σ : Sign} {t u : Tree} :
    t.signed lim σ = .ok u ↔
      u.expr = .signed σ t.expr ∧ Within lim.height (Expr.signed σ t.expr).height :=
  map_room_eq_ok rfl

theorem Tree.signed_eq_error {lim : Limits} {σ : Sign} {t : Tree} {e : SyntaxError} :
    t.signed lim σ = .error e ↔
      ∃ most, lim.height = some most ∧ most < (Expr.signed σ t.expr).height ∧ e = .tooDeep most :=
  map_room_eq_error rfl

theorem Tree.binary_eq_ok {lim : Limits} {op : Operator} {l r u : Tree} :
    Tree.binary lim op l r = .ok u ↔
      u.expr = .binary op l.expr r.expr ∧ Within lim.height (Expr.binary op l.expr r.expr).height :=
  map_room_eq_ok rfl

theorem Tree.binary_eq_error {lim : Limits} {op : Operator} {l r : Tree} {e : SyntaxError} :
    Tree.binary lim op l r = .error e ↔
      ∃ most, lim.height = some most ∧ most < (Expr.binary op l.expr r.expr).height ∧
        e = .tooDeep most :=
  map_room_eq_error rfl

/-! ## Rules -/

inductive Task where
  | factor
  | nested
  | chain (p : Level)
  | operand (p : Level)
  | continuation (p : Level) (left : Tree)

def Task.run (lim : Limits) : Task → State → Outcome Tree
  | factor, s => (Parser.factor lim s).1
  | nested, s => (Parser.nested lim s).1
  | chain p, s => (Parser.chain lim p s).1
  | operand p, s => (Parser.operand lim p s).1
  | continuation p left, s => (Parser.continuation lim p left s).1

/-- The task ends in this state with this result. -/
inductive Reads (lim : Limits) : Task → State → Outcome Tree → Prop where
  | missing {s : State} (ho : Opening.ofToken? s.lookahead = none) :
      Reads lim .factor s (.error (.missingFactor s.lookahead), s)
  | unreadable {s s₁ : State} {o : Opening} {e : SyntaxError}
      (ho : Opening.ofToken? s.lookahead = some o) (hs : s.shift = (.error e, s₁)) :
      Reads lim .factor s (.error e, s₁)
  | number {s s₁ : State} {n : Number} (ho : Opening.ofToken? s.lookahead = some (.number n))
      (hs : s.shift = (.ok (), s₁)) :
      Reads lim .factor s (.ok (.literal n), s₁)
  | inside {s s₁ s₂ : State} {o : Opening} {e : SyntaxError}
      (ho : Opening.ofToken? s.lookahead = some o) (hn : ∀ n, o ≠ .number n)
      (hs : s.shift = (.ok (), s₁)) (h : Reads lim .nested s₁ (.error e, s₂)) :
      Reads lim .factor s (.error e, s₂)
  | unclosed {s s₁ s₂ s₃ : State} {t : Tree} {e : SyntaxError}
      (ho : Opening.ofToken? s.lookahead = some .group) (hs : s.shift = (.ok (), s₁))
      (h : Reads lim .nested s₁ (.ok t, s₂)) (hx : s₂.expect (.mark .rightParen) = (.error e, s₃)) :
      Reads lim .factor s (.error e, s₃)
  | group {s s₁ s₂ s₃ : State} {t : Tree}
      (ho : Opening.ofToken? s.lookahead = some .group) (hs : s.shift = (.ok (), s₁))
      (h : Reads lim .nested s₁ (.ok t, s₂)) (hx : s₂.expect (.mark .rightParen) = (.ok (), s₃)) :
      Reads lim .factor s (.ok t, s₃)
  | sign {s s₁ s₂ : State} {σ : Sign} {t : Tree}
      (ho : Opening.ofToken? s.lookahead = some (.sign σ)) (hs : s.shift = (.ok (), s₁))
      (h : Reads lim .nested s₁ (.ok t, s₂)) :
      Reads lim .factor s (t.signed lim σ, s₂)
  | tooDeep {s : State} {e : SyntaxError} (hr : room lim.nesting s.nesting = .error e) :
      Reads lim .nested s (.error e, s)
  | nested {s s₁ : State} {r : Except SyntaxError Tree} (hr : room lim.nesting s.nesting = .ok ())
      (h : Reads lim (.chain .sum) s.descend (r, s₁)) :
      Reads lim .nested s (r, s₁.ascend)
  | first {p : Level} {s s₁ : State} {e : SyntaxError} (h : Reads lim (.operand p) s (.error e, s₁)) :
      Reads lim (.chain p) s (.error e, s₁)
  | chain {p : Level} {s s₁ : State} {t : Tree} {o : Outcome Tree}
      (h : Reads lim (.operand p) s (.ok t, s₁)) (hc : Reads lim (.continuation p t) s₁ o) :
      Reads lim (.chain p) s o
  | product {s : State} {o : Outcome Tree} (h : Reads lim (.chain .product) s o) :
      Reads lim (.operand .sum) s o
  | factor {s : State} {o : Outcome Tree} (h : Reads lim .factor s o) :
      Reads lim (.operand .product) s o
  | stop {p : Level} {s : State} {left : Tree} (ho : p.operator? s.lookahead = none) :
      Reads lim (.continuation p left) s (.ok left, s)
  | halt {p : Level} {s s₁ : State} {left : Tree} {op : Operator} {e : SyntaxError}
      (ho : p.operator? s.lookahead = some op) (hs : s.shift = (.error e, s₁)) :
      Reads lim (.continuation p left) s (.error e, s₁)
  | right {p : Level} {s s₁ s₂ : State} {left : Tree} {op : Operator} {e : SyntaxError}
      (ho : p.operator? s.lookahead = some op) (hs : s.shift = (.ok (), s₁))
      (h : Reads lim (.operand p) s₁ (.error e, s₂)) :
      Reads lim (.continuation p left) s (.error e, s₂)
  | tooHigh {p : Level} {s s₁ s₂ : State} {left right : Tree} {op : Operator} {e : SyntaxError}
      (ho : p.operator? s.lookahead = some op) (hs : s.shift = (.ok (), s₁))
      (h : Reads lim (.operand p) s₁ (.ok right, s₂)) (hb : Tree.binary lim op left right = .error e) :
      Reads lim (.continuation p left) s (.error e, s₂)
  | extend {p : Level} {s s₁ s₂ : State} {left right t : Tree} {op : Operator} {o : Outcome Tree}
      (ho : p.operator? s.lookahead = some op) (hs : s.shift = (.ok (), s₁))
      (h : Reads lim (.operand p) s₁ (.ok right, s₂)) (hb : Tree.binary lim op left right = .ok t)
      (hc : Reads lim (.continuation p t) s₂ o) :
      Reads lim (.continuation p left) s o

/-! ## The functions without their proofs of progress -/

theorem run_factor (lim : Limits) (s : State) : Task.factor.run lim s =
    match Opening.ofToken? s.lookahead with
    | none => (.error (.missingFactor s.lookahead), s)
    | some opening =>
      match s.shift with
      | (.error e, s₁) => (.error e, s₁)
      | (.ok _, s₁) =>
        match opening with
        | .number n => (.ok (.literal n), s₁)
        | .group =>
          match Task.nested.run lim s₁ with
          | (.error e, s₂) => (.error e, s₂)
          | (.ok t, s₂) =>
            match s₂.expect (.mark .rightParen) with
            | (.error e, s₃) => (.error e, s₃)
            | (.ok _, s₃) => (.ok t, s₃)
        | .sign σ =>
          match Task.nested.run lim s₁ with
          | (.error e, s₂) => (.error e, s₂)
          | (.ok t, s₂) => (t.signed lim σ, s₂) := by
  simp only [Task.run]
  rw [factor]
  split
  · simp_all
  · split
    · simp_all
    · split
      · grind
      · split
        · grind
        · split <;> grind
      · split
        · grind
        · split <;> grind

theorem run_nested (lim : Limits) (s : State) : Task.nested.run lim s =
    match room lim.nesting s.nesting with
    | .error e => (.error e, s)
    | .ok _ => (((Task.chain .sum).run lim s.descend).1, ((Task.chain .sum).run lim s.descend).2.ascend) := by
  simp only [Task.run]
  rw [nested]
  split
  · simp_all
  · split <;> simp_all

theorem run_chain (lim : Limits) (p : Level) (s : State) : (Task.chain p).run lim s =
    match (Task.operand p).run lim s with
    | (.error e, s₁) => (.error e, s₁)
    | (.ok t, s₁) => (Task.continuation p t).run lim s₁ := by
  simp only [Task.run]
  rw [chain]
  split <;> simp_all

theorem run_operand_sum (lim : Limits) (s : State) :
    (Task.operand .sum).run lim s = (Task.chain .product).run lim s := by
  simp only [Task.run]
  rw [operand]

theorem run_operand_product (lim : Limits) (s : State) :
    (Task.operand .product).run lim s = Task.factor.run lim s := by
  simp only [Task.run]
  rw [operand]

theorem run_continuation (lim : Limits) (p : Level) (left : Tree) (s : State) :
    (Task.continuation p left).run lim s =
    match p.operator? s.lookahead with
    | none => (.ok left, s)
    | some op =>
      match s.shift with
      | (.error e, s₁) => (.error e, s₁)
      | (.ok _, s₁) =>
        match (Task.operand p).run lim s₁ with
        | (.error e, s₂) => (.error e, s₂)
        | (.ok right, s₂) =>
          match Tree.binary lim op left right with
          | .error e => (.error e, s₂)
          | .ok t => (Task.continuation p t).run lim s₂ := by
  simp only [Task.run]
  rw [continuation]
  split
  · simp_all
  · split
    · simp_all
    · split
      · simp_all
      · split <;> simp_all

/-! ## Functions and rules agree -/

theorem Reads.run_eq {lim : Limits} {k : Task} {s : State} {o : Outcome Tree}
    (h : Reads lim k s o) : k.run lim s = o := by
  induction h with
  | missing ho => simp only [run_factor, ho]
  | unreadable ho hs => simp only [run_factor, ho, hs]
  | number ho hs => simp only [run_factor, ho, hs]
  | @inside s s₁ s₂ o e ho hn hs _ ih =>
    cases o with
    | number n => exact absurd rfl (hn n)
    | group => simp only [run_factor, ho, hs, ih]
    | sign σ => simp only [run_factor, ho, hs, ih]
  | unclosed ho hs _ hx ih => simp only [run_factor, ho, hs, ih, hx]
  | group ho hs _ hx ih => simp only [run_factor, ho, hs, ih, hx]
  | sign ho hs _ ih => simp only [run_factor, ho, hs, ih]
  | tooDeep hr => simp only [run_nested, hr]
  | nested hr _ ih => simp only [run_nested, hr, ih]
  | first _ ih => simp only [run_chain, ih]
  | chain _ _ ih ihc => simp only [run_chain, ih, ihc]
  | product _ ih => rw [run_operand_sum, ih]
  | factor _ ih => rw [run_operand_product, ih]
  | stop ho => simp only [run_continuation, ho]
  | halt ho hs => simp only [run_continuation, ho, hs]
  | right ho hs _ ih => rw [run_continuation]; simp only [ho, hs, ih]
  | tooHigh ho hs _ hb ih => rw [run_continuation]; simp only [ho, hs, ih, hb]
  | extend ho hs _ hb _ ih ihc => rw [run_continuation]; simp only [ho, hs, ih, hb, ihc]

theorem Reads.run {lim : Limits} {k : Task} {s : State} {o : Outcome Tree} (h : Reads lim k s o) :
    Reads lim k s (k.run lim s) := h.run_eq ▸ h

theorem Reads.of_val {lim : Limits} {k : Task} {s : State} {o : Outcome Tree}
    (h : Reads lim k s (k.run lim s)) (ho : k.run lim s = o) : Reads lim k s o := ho ▸ h

theorem reads_all (lim : Limits) :
    (∀ s, Reads lim .factor s (Task.factor.run lim s)) ∧
    (∀ s, Reads lim .nested s (Task.nested.run lim s)) ∧
    (∀ p s, Reads lim (.chain p) s ((Task.chain p).run lim s)) ∧
    (∀ p left s, Reads lim (.continuation p left) s ((Task.continuation p left).run lim s)) ∧
    (∀ p s, Reads lim (.operand p) s ((Task.operand p).run lim s)) := by
  apply factor.mutual_induct
  case case1 => exact fun s ho => (Reads.missing ho).run
  case case2 => exact fun s o ho e s₁ hs => (Reads.unreadable ho hs).run
  case case3 => exact fun s _ s₁ hs n ho _ _ => (Reads.number ho hs).run
  case case4 =>
    intro s _ s₁ hs ho e s₂ _ hn _ _ ih
    exact (Reads.inside ho (by simp) hs (ih.of_val (congrArg Subtype.val hn))).run
  case case5 =>
    intro s _ s₁ hs ho t s₂ _ hn e s₃ hx _ _ ih
    exact (Reads.unclosed ho hs (ih.of_val (congrArg Subtype.val hn)) hx).run
  case case6 =>
    intro s _ s₁ hs ho t s₂ _ hn _ s₃ hx _ _ ih
    exact (Reads.group ho hs (ih.of_val (congrArg Subtype.val hn)) hx).run
  case case7 =>
    intro s _ s₁ hs σ ho e s₂ _ hn _ _ ih
    exact (Reads.inside ho (by simp) hs (ih.of_val (congrArg Subtype.val hn))).run
  case case8 =>
    intro s _ s₁ hs σ ho t s₂ _ hn _ _ _ _ ih
    exact (Reads.sign ho hs (ih.of_val (congrArg Subtype.val hn))).run
  case case9 =>
    intro s _ s₁ hs σ ho t s₂ _ hn _ _ _ _ ih
    exact (Reads.sign ho hs (ih.of_val (congrArg Subtype.val hn))).run
  case case10 => exact fun s e hr => (Reads.tooDeep hr).run
  case case11 => exact fun s _ hr e s₁ _ _ ih => (Reads.nested hr ih).run
  case case12 => exact fun s _ hr t s₁ _ _ ih => (Reads.nested hr ih).run
  case case13 =>
    intro p s e s₁ _ hn ih
    exact (Reads.first (ih.of_val (congrArg Subtype.val hn))).run
  case case14 =>
    intro p s t s₁ _ hn _ ih ihc
    exact (Reads.chain (ih.of_val (congrArg Subtype.val hn)) ihc).run
  case case15 => exact fun p left s ho => (Reads.stop ho).run
  case case16 => exact fun p left s op ho e s₁ hs => (Reads.halt ho hs).run
  case case17 =>
    intro p left s op ho _ s₁ hs _ _ e s₂ _ hn ih
    exact (Reads.right ho hs (ih.of_val (congrArg Subtype.val hn))).run
  case case18 =>
    intro p left s op ho _ s₁ hs _ _ t s₂ _ hn e hb ih
    exact (Reads.tooHigh ho hs (ih.of_val (congrArg Subtype.val hn)) hb).run
  case case19 =>
    intro p left s op ho _ s₁ hs _ _ t s₂ _ hn u hb _ ih ihc
    exact (Reads.extend ho hs (ih.of_val (congrArg Subtype.val hn)) hb ihc).run
  case case20 => exact fun s ih => (Reads.product ih).run
  case case21 => exact fun s ih => (Reads.factor ih).run

/-- The rules say what the functions do. -/
theorem reads_iff {lim : Limits} {k : Task} {s : State} {o : Outcome Tree} :
    Reads lim k s o ↔ k.run lim s = o := by
  refine ⟨Reads.run_eq, ?_⟩
  rintro rfl
  obtain ⟨hf, hn, hc, ht, ho⟩ := reads_all lim
  cases k with
  | factor => exact hf s
  | nested => exact hn s
  | chain p => exact hc p s
  | operand p => exact ho p s
  | continuation p left => exact ht p left s

theorem exists_reads (lim : Limits) (k : Task) (s : State) : ∃ o, Reads lim k s o :=
  ⟨_, reads_iff.mpr rfl⟩

end Abacus.Parser
