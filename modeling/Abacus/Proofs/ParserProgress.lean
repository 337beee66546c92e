import Abacus.Proofs.LexerSpelling
import Abacus.Proofs.ParserGrammar

/-! # Progress and frame of the reading functions

A reading asks for other readings, from states it has come to. Along these calls the text still to be
used up shrinks, or it stays and the task becomes a smaller one; so no reading calls on without end, and
what the reading functions return is the only solution of their equations. The text is used up from its
front. Nesting grows by one where a group or a sign is entered, and only after the limit has been
checked; so no state that a reading passes through nests deeper than the limit, and each reading leaves
the nesting as it was, whether it succeeds or fails.
-/
namespace Abacus

/-! ## The text is used up from its front -/

theorem Cursor.rest_next_suffix (c : Cursor) : c.next.2.rest <:+ c.rest := by
  have hskip : c.skipBlanks.rest <:+ c.rest := List.dropWhile_suffix Text.isBlank
  unfold next
  dsimp only
  split
  · exact hskip
  · split
    · exact hskip
    · rename_i l rest htake
      split
      · exact hskip
      · have hrest : rest <:+ c.skipBlanks.rest := ⟨l.chars, (Lexeme.take?_eq_some.mp htake).1.symm⟩
        exact hrest.trans hskip

namespace Parser

theorem State.rest_shift_suffix {s s₁ : State} {r : Except SyntaxError Unit} (h : s.shift = (r, s₁)) :
    s₁.cursor.rest <:+ s.cursor.rest := by
  have hnext := s.cursor.rest_next_suffix
  unfold shift at h
  rcases hn : s.cursor.next with ⟨e | t, c⟩ <;> rw [hn] at h hnext <;> cases h <;> exact hnext

theorem State.rest_expect_suffix {k : Token.Kind} {s s₁ : State} {r : Except SyntaxError Unit}
    (h : s.expect k = (r, s₁)) : s₁.cursor.rest <:+ s.cursor.rest := by
  unfold expect at h
  split at h
  · exact rest_shift_suffix h
  · cases h
    exact List.suffix_rfl

theorem Reads.rest_suffix {lim : Limits} {k : Task} {s : State} {o : Outcome Tree}
    (h : Reads lim k s o) : o.2.cursor.rest <:+ s.cursor.rest := by
  induction h with
  | missing => exact List.suffix_rfl
  | unreadable _ hs => exact State.rest_shift_suffix hs
  | number _ hs => exact State.rest_shift_suffix hs
  | inside _ _ hs _ ih => exact ih.trans (State.rest_shift_suffix hs)
  | unclosed _ hs _ hx ih =>
    exact (State.rest_expect_suffix hx).trans (ih.trans (State.rest_shift_suffix hs))
  | group _ hs _ hx ih =>
    exact (State.rest_expect_suffix hx).trans (ih.trans (State.rest_shift_suffix hs))
  | sign _ hs _ ih => exact ih.trans (State.rest_shift_suffix hs)
  | tooDeep => exact List.suffix_rfl
  | nested _ _ ih => exact ih
  | first _ ih => exact ih
  | chain _ _ ih ihc => exact ihc.trans ih
  | product _ ih => exact ih
  | factor _ ih => exact ih
  | stop => exact List.suffix_rfl
  | halt _ hs => exact State.rest_shift_suffix hs
  | right _ hs _ ih => exact ih.trans (State.rest_shift_suffix hs)
  | tooHigh _ hs _ _ ih => exact ih.trans (State.rest_shift_suffix hs)
  | extend _ hs _ _ _ ih ihc => exact ihc.trans (ih.trans (State.rest_shift_suffix hs))

end Parser

theorem Derives.ne_nil {g : Reading} {c : Category} {o : Bool} {ts : List Token} {e : Expr}
    (h : Derives g c o ts e) : ts ≠ [] := by
  induction h with
  | single _ ih => exact ih
  | _ => simp

namespace Parser

/-- Every task but a continuation, which may find nothing to continue with, uses up a token. -/
theorem Reads.exists_used {lim : Limits} {k : Task} {s s' : State} {t : Tree}
    (h : Reads lim k s (.ok t, s')) (hk : ∀ p left, k ≠ .continuation p left) :
    ∃ used, used ≠ [] ∧ s.ahead = used ++ s'.ahead := by
  have hspelled := h.spelled
  cases k with
  | continuation p left => exact absurd rfl (hk p left)
  | factor | nested | chain | operand =>
    obtain ⟨o, us, hus, hderives, -⟩ := hspelled
    exact ⟨us, hderives.ne_nil, hus⟩

/-! ## Calls -/

/-- The first reading asks for the second. -/
inductive Calls (lim : Limits) : Task × State → Task × State → Prop where
  | inside {s s₁ : State} {o : Opening} (ho : Opening.ofToken? s.lookahead = some o)
      (hn : ∀ n, o ≠ .number n) (hs : s.shift = (.ok (), s₁)) : Calls lim (.factor, s) (.nested, s₁)
  | deeper {s : State} (hr : room lim.nesting s.nesting = .ok ()) :
      Calls lim (.nested, s) (.chain .sum, s.descend)
  | first (p : Level) (s : State) : Calls lim (.chain p, s) (.operand p, s)
  | onward {p : Level} {s s₁ : State} {t : Tree} (h : Reads lim (.operand p) s (.ok t, s₁)) :
      Calls lim (.chain p, s) (.continuation p t, s₁)
  | product (s : State) : Calls lim (.operand .sum, s) (.chain .product, s)
  | factor (s : State) : Calls lim (.operand .product, s) (.factor, s)
  | right {p : Level} {s s₁ : State} {left : Tree} {op : Operator}
      (ho : p.operator? s.lookahead = some op) (hs : s.shift = (.ok (), s₁)) :
      Calls lim (.continuation p left, s) (.operand p, s₁)
  | extend {p : Level} {s s₁ s₂ : State} {left right t : Tree} {op : Operator}
      (ho : p.operator? s.lookahead = some op) (hs : s.shift = (.ok (), s₁))
      (h : Reads lim (.operand p) s₁ (.ok right, s₂)) (hb : Tree.binary lim op left right = .ok t) :
      Calls lim (.continuation p left, s) (.continuation p t, s₂)

/-- The work before a reading: a call leaves less of it. -/
def work : Task × State → Nat
  | (.factor, s) => 8 * s.size + 1
  | (.nested, s) => 8 * s.size + 6
  | (.chain p, s) => 8 * s.size + (2 * p.rank + 1)
  | (.operand p, s) => 8 * s.size + 2 * p.rank
  | (.continuation _ _, s) => 8 * s.size

theorem Reads.size_operand_lt {lim : Limits} {p : Level} {s s' : State} {t : Tree}
    (h : Reads lim (.operand p) s (.ok t, s')) : s'.size < s.size := by
  have hshrinks := (operand lim p s).2
  have hrun : (operand lim p s).1 = (.ok t, s') := h.run_eq
  rw [hrun] at hshrinks
  exact hshrinks

theorem Calls.work_lt {lim : Limits} {c c' : Task × State} (h : Calls lim c c') : work c' < work c := by
  cases h with
  | inside ho _ hs =>
    have hsize := State.size_shift_lt hs (Opening.isEnd_of_ofToken? ho)
    simp only [work]
    omega
  | deeper =>
    simp only [work, State.size_descend, Level.rank]
    omega
  | first => simp [work]
  | onward hreads =>
    have hsize := hreads.size_operand_lt
    simp only [work]
    omega
  | product => simp [work, Level.rank]
  | factor => simp [work, Level.rank]
  | @right p _ _ _ _ ho hs =>
    have hsize := State.size_shift_lt hs (Level.isEnd_of_operator? ho)
    have hrank := p.rank_le
    simp only [work]
    omega
  | extend ho hs hreads =>
    have hshift := State.size_shift_lt hs (Level.isEnd_of_operator? ho)
    have hsize := hreads.size_operand_lt
    simp only [work]
    omega

theorem calls_wellFounded (lim : Limits) : WellFounded fun c c' => Calls lim c' c :=
  Subrelation.wf (fun h => h.work_lt) (measure work).wf

/-- What a reading returns when the readings it asks for return this. -/
def Task.outcome (lim : Limits) (f : Task → State → Outcome Tree) : Task → State → Outcome Tree
  | factor, s =>
    match Opening.ofToken? s.lookahead with
    | none => (.error (.missingFactor s.lookahead), s)
    | some opening =>
      match s.shift with
      | (.error e, s₁) => (.error e, s₁)
      | (.ok _, s₁) =>
        match opening with
        | .number n => (.ok (.literal n), s₁)
        | .group =>
          match f .nested s₁ with
          | (.error e, s₂) => (.error e, s₂)
          | (.ok t, s₂) =>
            match s₂.expect (.mark .rightParen) with
            | (.error e, s₃) => (.error e, s₃)
            | (.ok _, s₃) => (.ok t, s₃)
        | .sign σ =>
          match f .nested s₁ with
          | (.error e, s₂) => (.error e, s₂)
          | (.ok t, s₂) => (t.signed lim σ, s₂)
  | nested, s =>
    match room lim.nesting s.nesting with
    | .error e => (.error e, s)
    | .ok _ => ((f (.chain .sum) s.descend).1, (f (.chain .sum) s.descend).2.ascend)
  | chain p, s =>
    match f (.operand p) s with
    | (.error e, s₁) => (.error e, s₁)
    | (.ok t, s₁) => f (.continuation p t) s₁
  | operand .sum, s => f (.chain .product) s
  | operand .product, s => f .factor s
  | continuation p left, s =>
    match p.operator? s.lookahead with
    | none => (.ok left, s)
    | some op =>
      match s.shift with
      | (.error e, s₁) => (.error e, s₁)
      | (.ok _, s₁) =>
        match f (.operand p) s₁ with
        | (.error e, s₂) => (.error e, s₂)
        | (.ok right, s₂) =>
          match Tree.binary lim op left right with
          | .error e => (.error e, s₂)
          | .ok t => f (.continuation p t) s₂

theorem Task.run_eq_outcome (lim : Limits) (k : Task) (s : State) :
    k.run lim s = k.outcome lim (Task.run lim) s := by
  cases k with
  | factor => exact run_factor lim s
  | nested => exact run_nested lim s
  | chain p => exact run_chain lim p s
  | operand p =>
    cases p with
    | sum => exact run_operand_sum lim s
    | product => exact run_operand_product lim s
  | continuation p left => exact run_continuation lim p left s

/-- A reading depends on the readings it calls and on no other. -/
theorem Task.outcome_eq_run {lim : Limits} {f : Task → State → Outcome Tree} {k : Task} {s : State}
    (h : ∀ k' s', Calls lim (k, s) (k', s') → f k' s' = k'.run lim s') :
    k.outcome lim f s = k.run lim s := by
  rw [run_eq_outcome]
  cases k with
  | factor =>
    simp only [outcome]
    cases ho : Opening.ofToken? s.lookahead with
    | none => rfl
    | some o =>
      rcases hs : s.shift with ⟨_ | _, s₁⟩
      · rfl
      · cases o with
        | number n => rfl
        | group => simp only [h _ _ (.inside ho nofun hs)]
        | sign σ => simp only [h _ _ (.inside ho nofun hs)]
  | nested =>
    simp only [outcome]
    cases hr : room lim.nesting s.nesting with
    | error e => rfl
    | ok _ => simp only [h _ _ (.deeper hr)]
  | chain p =>
    simp only [outcome, h _ _ (.first p s)]
    rcases hoperand : (Task.operand p).run lim s with ⟨e | t, s₁⟩
    · rfl
    · exact h _ _ (.onward (reads_iff.mpr hoperand))
  | operand p =>
    cases p with
    | sum => exact h _ _ (.product s)
    | product => exact h _ _ (.factor s)
  | continuation p left =>
    simp only [outcome]
    cases ho : p.operator? s.lookahead with
    | none => rfl
    | some op =>
      rcases hs : s.shift with ⟨_ | _, s₁⟩
      · rfl
      · simp only [h _ _ (.right ho hs)]
        rcases hoperand : (Task.operand p).run lim s₁ with ⟨e | right, s₂⟩
        · rfl
        · cases hb : Tree.binary lim op left right with
          | error e => simp only [hb]
          | ok t => simp only [hb, h _ _ (.extend ho hs (reads_iff.mpr hoperand) hb)]

/-- The equations of the reading functions have no other solution. -/
theorem Task.run_unique {lim : Limits} {f : Task → State → Outcome Tree}
    (hf : ∀ k s, f k s = k.outcome lim f s) : f = Task.run lim := by
  have hall : ∀ c : Task × State, f c.1 c.2 = c.1.run lim c.2 := by
    intro c
    induction c using (calls_wellFounded lim).induction with
    | _ c ih => exact (hf c.1 c.2).trans (outcome_eq_run fun k' s' hcall => ih (k', s') hcall)
  funext k s
  exact hall (k, s)

/-! ## Nesting -/

/-- On its way from the first state a reading comes through the second: it starts or ends there, or a
reading that it calls comes through. Behind a shift a reading ends or calls, and it enters and leaves
groups only around a call, so it comes through no other states. -/
inductive Passes (lim : Limits) : Task → State → State → Prop where
  | start (k : Task) (s : State) : Passes lim k s s
  | finish {k : Task} {s u : State} {r : Except SyntaxError Tree} (h : Reads lim k s (r, u)) :
      Passes lim k s u
  | call {k k' : Task} {s s' u : State} (h : Calls lim (k, s) (k', s')) (hp : Passes lim k' s' u) :
      Passes lim k s u

theorem Calls.within {lim : Limits} {k k' : Task} {s s' : State} (h : Calls lim (k, s) (k', s'))
    (hs : Within lim.nesting s.nesting) : Within lim.nesting s'.nesting := by
  cases h with
  | inside _ _ hshift => exact (State.shift_ok hshift).2.2.1 ▸ hs
  | deeper hr => exact room_eq_ok.mp hr
  | first => exact hs
  | onward hreads => exact hreads.nesting_eq ▸ hs
  | product => exact hs
  | factor => exact hs
  | right _ hshift => exact (State.shift_ok hshift).2.2.1 ▸ hs
  | extend _ hshift hreads =>
    have hnesting := hreads.nesting_eq.trans (State.shift_ok hshift).2.2.1
    exact hnesting ▸ hs

theorem Passes.within {lim : Limits} {k : Task} {s u : State} (h : Passes lim k s u)
    (hs : Within lim.nesting s.nesting) : Within lim.nesting u.nesting := by
  induction h with
  | start => exact hs
  | finish hreads => exact hreads.nesting_eq ▸ hs
  | call hcall _ ih => exact ih (hcall.within hs)

theorem within_standard_nesting {n : Nat} : Within Limits.standard.nesting n ↔ n ≤ 256 := by
  simp [Within, Limits.standard, Limits.maxNesting]

/-- From every state that nests within the limit, whatever token is ahead and whatever text behind it, a
factor, a group, a product or a sum is read to an end, by finitely many calls. On success at least one
token is used up. With or without success the text left is the end of the text before, the nesting is
what it was, and on the way it has never exceeded the limit. -/
theorem readings_progress {k : Task} (hk : ∀ p left, k ≠ .continuation p left) {s : State}
    (hs : s.nesting ≤ 256) :
    (Acc (fun c c' => Calls .standard c' c) (k, s) ∧
      ∀ f, (∀ k s, f k s = Task.outcome .standard f k s) → f k s = k.run .standard s) ∧
    (∀ t s', k.run .standard s = (.ok t, s') →
      (∃ used, used ≠ [] ∧ s.ahead = used ++ s'.ahead) ∧
        s'.cursor.rest <:+ s.cursor.rest ∧ s'.nesting = s.nesting) ∧
    (∀ e s', k.run .standard s = (.error e, s') →
      s'.cursor.rest <:+ s.cursor.rest ∧ s'.nesting = s.nesting) ∧
    ∀ u, Passes .standard k s u → u.nesting ≤ 256 := by
  refine ⟨⟨(calls_wellFounded .standard).apply (k, s), ?_⟩, ?_, ?_, ?_⟩
  · intro f hf
    rw [Task.run_unique hf]
  · intro t s' hrun
    have hreads := reads_iff.mpr hrun
    exact ⟨hreads.exists_used hk, hreads.rest_suffix, hreads.nesting_eq⟩
  · intro e s' hrun
    have hreads := reads_iff.mpr hrun
    exact ⟨hreads.rest_suffix, hreads.nesting_eq⟩
  · intro u hu
    exact within_standard_nesting.mp (hu.within (within_standard_nesting.mpr hs))

/-- With one level left a group is read, and the token behind it is ahead. A group in this group reaches
the limit and is refused there, and the failure leaves the nesting where it was. -/
theorem nesting_restored_at_limit :
    (let s : State := ⟨⟨1, ['2', ')', '*', '3']⟩, .mark .leftParen, 255⟩
      ∃ t s', Task.factor.run .standard s = (.ok t, s') ∧ t.expr = .literal (.int 2) ∧
        s'.cursor.rest <:+ s.cursor.rest ∧ s'.nesting = 255) ∧
    let s : State := ⟨⟨1, ['(', '2', ')', ')']⟩, .mark .leftParen, 255⟩
    (∃ s', Task.factor.run .standard s = (.error (.tooDeep 256), s') ∧ s'.nesting = 255) ∧
      ∃ u, Passes .standard .factor s u ∧ u.nesting = 256 ∧ u.nesting ≤ 256 := by
  constructor
  · intro s
    have hexpr : (Task.factor.run .standard s).1.map Tree.expr = .ok (.literal (.int 2)) := by
      decide +kernel
    rcases hrun : Task.factor.run .standard s with ⟨e | t, s'⟩
    · simp [hrun, Except.map] at hexpr
    · have ht : t.expr = .literal (.int 2) := by simpa [hrun, Except.map] using hexpr
      obtain ⟨-, hok, -⟩ := readings_progress (k := .factor) nofun (s := s) (by decide)
      obtain ⟨-, hrest, hnesting⟩ := hok t s' hrun
      exact ⟨t, s', rfl, ht, hrest, hnesting⟩
  · intro s
    have hexpr : (Task.factor.run .standard s).1.map Tree.expr = .error (.tooDeep 256) := by
      decide +kernel
    obtain ⟨-, -, herror, hpasses⟩ := readings_progress (k := .factor) nofun (s := s) (by decide)
    constructor
    · rcases hrun : Task.factor.run .standard s with ⟨e | t, s'⟩
      · obtain rfl : e = .tooDeep 256 := by simpa [hrun, Except.map] using hexpr
        exact ⟨s', rfl, (herror _ s' hrun).2⟩
      · simp [hrun, Except.map] at hexpr
    · have hdeep : Passes .standard .factor s ⟨⟨2, ['2', ')', ')']⟩, .mark .leftParen, 256⟩ :=
        .call (.inside (o := .group) rfl nofun rfl) (.call (.deeper rfl) (.start _ _))
      exact ⟨_, hdeep, rfl, hpasses _ hdeep⟩

end Parser

end Abacus
