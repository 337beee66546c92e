import Abacus.Proofs.ParserLimits
import Abacus.Proofs.ProgramBalance

/-! # How many operands a run holds

The value of a left operand waits on the stack while the right operand is worked out above it. So the
code of a tree, whatever code follows it and whatever lies below, needs no more room on the stack than
the tree is high, and from its first instruction on it occupies some. This holds of every machine that
a reduction goes through, up to its end or to the instruction where the arithmetic fails. The limit on
the height of trees is thereby a limit on the stack.
-/
namespace Abacus.Machine

/-- The first machine becomes the second by `k` instructions that succeed. -/
inductive Runs : Machine → Nat → Machine → Prop where
  | refl (m : Machine) : Runs m 0 m
  | step {i : Instruction} {rest : List Instruction} {ns ns' : List Number} {k : Nat} {m : Machine}
      (h : Machine.step i ns = .ok ns') (hr : Runs ⟨rest, ns'⟩ k m) : Runs ⟨i :: rest, ns⟩ (k + 1) m

/-- On a stack that held so many operands before there are at most as many more as the tree is high, and
at least one more once an instruction has been taken. -/
structure Occupies (e : Expr) (before : List Number) (k : Nat) (operands : List Number) : Prop where
  low : before.length + min k 1 ≤ operands.length
  high : operands.length ≤ before.length + e.height

variable {i : Instruction} {code rest : List Instruction} {ns ns' : List Number} {k : Nat}
  {m m' : Machine} {e : Expr}

/-! ## Runs -/

theorem Runs.reduce_eq (h : Runs m k m') : m.reduce = m'.reduce := by
  induction h with
  | refl => rfl
  | step hstep _ ih =>
    rw [← ih]
    simp only [reduce, execute, hstep]

theorem Runs.cons_cases (h : Runs ⟨i :: rest, ns⟩ k m') :
    (k = 0 ∧ m'.operands = ns) ∨
      ∃ ns' j, Machine.step i ns = .ok ns' ∧ k = j + 1 ∧ Runs ⟨rest, ns'⟩ j m' := by
  cases h with
  | refl => exact .inl ⟨rfl, rfl⟩
  | step hstep hruns => exact .inr ⟨_, _, hstep, rfl, hruns⟩

theorem exists_runs_last (code : List Instruction) (ns : List Number) :
    ∃ k m', Runs ⟨code, ns⟩ k m' ∧
      (m'.pending = [] ∨ ∃ i rest f, m'.pending = i :: rest ∧ Machine.step i m'.operands = .error f) := by
  induction code generalizing ns with
  | nil => exact ⟨0, _, .refl _, .inl rfl⟩
  | cons i rest ih =>
    cases hstep : Machine.step i ns with
    | error f => exact ⟨0, _, .refl _, .inr ⟨i, rest, f, rfl, hstep⟩⟩
    | ok ns' =>
      obtain ⟨k, m', hruns, hlast⟩ := ih ns'
      exact ⟨k + 1, m', .step hstep hruns, hlast⟩

theorem reduce_of_step_error {f : Fault} (hpending : m.pending = i :: rest)
    (hstep : Machine.step i m.operands = .error f) : m.reduce.1 = .error f.error := by
  simp only [reduce, hpending, execute, hstep]

/-! ## The code of a tree -/

theorem exists_cons_of_map_ok {r : Except Fault Number} (h : r.map (· :: ns) = .ok ns') :
    ∃ v, ns' = v :: ns := by
  cases r with
  | error x => cases h
  | ok v =>
    cases h
    exact ⟨v, rfl⟩

/-- A run that starts with the code of a tree is still inside this code, or it has passed it and left one
operand for the tree. -/
theorem Runs.emit_cases (h : Runs ⟨e.emit code, ns⟩ k m') :
    Occupies e ns k m'.operands ∨ ∃ v j, k = e.size + j ∧ Runs ⟨code, v :: ns⟩ j m' := by
  -- By induction over the tree, for all code behind it and all operands below it: a right operand has
  -- the value of the left one below it.
  induction e generalizing code ns k with
  | literal n =>
    rcases h.cons_cases with ⟨rfl, hns⟩ | ⟨ns', j, hstep, rfl, hruns⟩
    · exact .inl ⟨by simp [hns], by simp [hns]⟩
    · cases hstep
      exact .inr ⟨n, j, Nat.add_comm _ _, hruns⟩
  | signed s e ih =>
    rcases ih h with hin | ⟨a, j, rfl, hsign⟩
    · exact .inl ⟨hin.low, hin.high.trans (by simp [Expr.height])⟩
    · rcases hsign.cons_cases with ⟨rfl, hns⟩ | ⟨ns', i, hstep, rfl, hruns⟩
      · refine .inl ⟨?_, ?_⟩ <;> simp [hns, Expr.height]
      · rw [step_unary] at hstep
        obtain ⟨v, rfl⟩ := exists_cons_of_map_ok hstep
        exact .inr ⟨v, i, by rw [Expr.size]; omega, hruns⟩
  | binary op l r ihl ihr =>
    rcases ihl h with hin | ⟨a, j, rfl, hright⟩
    · exact .inl ⟨hin.low, hin.high.trans (by simp [Expr.height]; omega)⟩
    · rcases ihr hright with ⟨hlow, hhigh⟩ | ⟨b, i, rfl, hop⟩
      · rw [List.length_cons] at hlow hhigh
        refine .inl ⟨by omega, ?_⟩
        rw [Expr.height]
        omega
      · rcases hop.cons_cases with ⟨rfl, hns⟩ | ⟨ns', q, hstep, rfl, hruns⟩
        · have hpos := r.height_pos
          refine .inl ⟨?_, ?_⟩ <;> simp only [hns, Expr.height, List.length_cons] <;> omega
        · rw [step_binary] at hstep
          obtain ⟨v, rfl⟩ := exists_cons_of_map_ok hstep
          exact .inr ⟨v, q, by rw [Expr.size]; omega, hruns⟩

theorem Runs.occupies (h : Runs (m.load (.ofExpr e)) k m') : Occupies e [] k m'.operands := by
  have hload : m.load (.ofExpr e) = ⟨e.emit [], []⟩ := rfl
  rw [hload] at h
  rcases h.emit_cases with hin | ⟨v, j, -, hend⟩
  · exact hin
  · cases hend with
    | refl =>
      have hpos := e.height_pos
      refine ⟨?_, ?_⟩ <;> simp only [List.length_cons, List.length_nil] <;> omega

theorem exists_runs_ofExpr (m : Machine) (e : Expr) : ∃ k m', Runs (m.load (.ofExpr e)) k m' ∧
    (m'.pending = [] ∨
      ∃ i rest x left, m'.pending = i :: rest ∧ step i m'.operands = .error ⟨.arithmetic x, left⟩) := by
  obtain ⟨k, m', hruns, hend | ⟨i, rest, ⟨x, left⟩, hpending, hstep⟩⟩ :=
    exists_runs_last (Program.ofExpr e).code []
  · exact ⟨k, m', hruns, .inl hend⟩
  · refine ⟨k, m', hruns, .inr ⟨i, rest, ?_⟩⟩
    have hload : m.load (.ofExpr e) = ⟨(Program.ofExpr e).code, []⟩ := rfl
    have hfails : e.eval.mapError .arithmetic = .error x := by
      rw [← reduce_load_ofExpr m, hload, hruns.reduce_eq, reduce_of_step_error hpending hstep]
    cases heval : e.eval with
    | ok v => simp [heval, Except.mapError] at hfails
    | error y =>
      obtain rfl : .arithmetic y = x := by simpa [heval, Except.mapError] using hfails
      exact ⟨y, left, hpending, hstep⟩

theorem height_le_of_parse {text : String} (h : parse text = .ok e) : e.height ≤ 4096 := by
  obtain ⟨ts, -, -, hfits⟩ := fits_of_parseWithin within_standard_leaf h
  exact (fits_standard.mp hfits).2

/-- Wherever a reduction of the code of a tree comes, it holds at most as many operands as the tree is
high, and at least one behind its first instruction; it comes to the end of the code or to a failure of
the arithmetic. So a text that is read never needs more than 4096 operands. -/
theorem operands_within_height (m : Machine) (e : Expr) :
    (∀ k m', Runs (m.load (.ofExpr e)) k m' → (m.load (.ofExpr e)).reduce = m'.reduce ∧
      m'.operands.length ≤ e.height ∧ (0 < k → 1 ≤ m'.operands.length)) ∧
    (∃ k m', Runs (m.load (.ofExpr e)) k m' ∧
      (m'.pending = [] ∨
        ∃ i rest x left, m'.pending = i :: rest ∧
          step i m'.operands = .error ⟨.arithmetic x, left⟩)) ∧
    ∀ text, parse text = .ok e →
      ∀ k m', Runs (m.load (.ofExpr e)) k m' → m'.operands.length ≤ 4096 := by
  have hbound : ∀ k m', Runs (m.load (.ofExpr e)) k m' →
      min k 1 ≤ m'.operands.length ∧ m'.operands.length ≤ e.height := by
    intro k m' hruns
    obtain ⟨hlow, hhigh⟩ := hruns.occupies
    rw [List.length_nil, Nat.zero_add] at hlow hhigh
    exact ⟨hlow, hhigh⟩
  refine ⟨?_, exists_runs_ofExpr m e, ?_⟩
  · intro k m' hruns
    obtain ⟨hlow, hhigh⟩ := hbound k m' hruns
    exact ⟨hruns.reduce_eq, hhigh, fun hk => by omega⟩
  · intro text hparse k m' hruns
    exact (hbound k m' hruns).2.trans (height_le_of_parse hparse)

/-- Differences that lean to the right fill the stack: before the first difference is taken there are as
many operands as the tree is high. -/
theorem right_differences_fill_stack :
    let e : Expr := .binary .sub (.literal (.int 1)) (.binary .sub (.literal (.int 2))
      (.binary .sub (.literal (.int 3)) (.literal (.int 4))))
    let m' : Machine := ⟨[.binary .sub, .binary .sub, .binary .sub], [.int 4, .int 3, .int 2, .int 1]⟩
    parse "1-(2-(3-4))" = .ok e ∧ Runs (empty.load (.ofExpr e)) 4 m' ∧
      m'.operands.length = e.height ∧ m'.operands.length ≤ 4096 ∧ m'.reduce.1 = .ok (.int (-2)) := by
  intro e m'
  have hparse : parse "1-(2-(3-4))" = .ok e := by decide +kernel
  have hruns : Runs (empty.load (.ofExpr e)) 4 m' :=
    .step rfl (.step rfl (.step rfl (.step rfl (.refl m'))))
  obtain ⟨hpoints, -, htext⟩ := operands_within_height empty e
  refine ⟨hparse, hruns, rfl, htext _ hparse 4 m' hruns, ?_⟩
  rw [← (hpoints 4 m' hruns).1]
  decide +kernel

end Abacus.Machine
