import Abacus.Machine
import Mathlib

/-! # The machine and the tree agree

Running the code of a tree gives the value of the tree, or the failure that evaluating the tree meets
first, and leaves nothing in the machine. The code of a subtree always stands in front of other code
and works on top of other operands, so both halves are proved for every code behind it and every
stack below it.
-/
namespace Abacus.Machine

theorem step_unary (s : Sign) (a : Number) (ns : List Number) :
    step (.unary s) (a :: ns) =
      ((s.apply a).mapError fun e => ⟨.arithmetic e, ns⟩).map (· :: ns) := by
  simp only [step, pop, bind, Except.bind]
  cases s.apply a <;> rfl

/-- The right operand lies above the left one. -/
theorem step_binary (op : Operator) (a b : Number) (ns : List Number) :
    step (.binary op) (b :: a :: ns) =
      ((op.apply a b).mapError fun e => ⟨.arithmetic e, ns⟩).map (· :: ns) := by
  simp only [step, pop, bind, Except.bind]
  cases op.apply a b <;> rfl

theorem execute_emit_of_ok {e : Expr} {v : Number} (h : e.eval = .ok v) (k : List Instruction)
    (ns : List Number) : execute (e.emit k) ns = execute k (v :: ns) := by
  induction e generalizing v k ns with
  | literal n =>
    cases h
    rfl
  | signed s e ih =>
    rw [Expr.eval] at h
    cases he : e.eval with
    | error x => simp [he, Except.bind] at h
    | ok a =>
      have ha : s.apply a = .ok v := by simpa only [he, Except.bind] using h
      rw [Expr.emit, ih he, execute, step_unary, ha]
      rfl
  | binary op l r ihl ihr =>
    rw [Expr.eval] at h
    cases hl : l.eval with
    | error x => simp [hl, Except.bind] at h
    | ok a =>
      cases hr : r.eval with
      | error x => simp [hl, hr, Except.bind] at h
      | ok b =>
        have hab : op.apply a b = .ok v := by simpa only [hl, hr, Except.bind] using h
        rw [Expr.emit, ihl hl, ihr hr, execute, step_binary, hab]
        rfl

/-- A tree that fails stops the machine with the same failure, whatever code follows. -/
theorem execute_emit_of_error {e : Expr} {x : ArithmeticError} (h : e.eval = .error x)
    (k : List Instruction) (ns : List Number) :
    (execute (e.emit k) ns).1 = .error (.arithmetic x) := by
  induction e generalizing x k ns with
  | literal n => simp [Expr.eval] at h
  | signed s e ih =>
    rw [Expr.eval] at h
    rw [Expr.emit]
    cases he : e.eval with
    | error y =>
      obtain rfl : y = x := by simpa [he, Except.bind] using h
      exact ih he _ _
    | ok a =>
      have ha : s.apply a = .error x := by simpa only [he, Except.bind] using h
      rw [execute_emit_of_ok he, execute, step_unary, ha]
      rfl
  | binary op l r ihl ihr =>
    rw [Expr.eval] at h
    rw [Expr.emit]
    -- The left operand comes first on both sides, so its failure hides that of the right one.
    cases hl : l.eval with
    | error y =>
      obtain rfl : y = x := by simpa [hl, Except.bind] using h
      exact ihl hl _ _
    | ok a =>
      rw [execute_emit_of_ok hl]
      cases hr : r.eval with
      | error y =>
        obtain rfl : y = x := by simpa [hl, hr, Except.bind] using h
        exact ihr hr _ _
      | ok b =>
        have hab : op.apply a b = .error x := by simpa only [hl, hr, Except.bind] using h
        rw [execute_emit_of_ok hr, execute, step_binary, hab]
        rfl

theorem run_eq_eval (m : Machine) (e : Expr) :
    m.run e = (e.eval.mapError .arithmetic, empty) := by
  have hload : m.load (.ofExpr e) = ⟨e.emit [], []⟩ := rfl
  rw [run, reduce, hload]
  cases h : e.eval with
  | ok v =>
    rw [execute_emit_of_ok h, execute]
    rfl
  | error x =>
    have hx := execute_emit_of_error h [] []
    generalize execute (e.emit []) [] = o at hx ⊢
    obtain ⟨r, m'⟩ := o
    cases hx
    rfl

/-- The machine succeeds with the value of the tree and fails with the failure of the tree, and in no
other way; it is drained afterwards. -/
theorem run_agrees_with_eval (m : Machine) (e : Expr) :
    (∀ v, (m.run e).1 = .ok v ↔ e.eval = .ok v) ∧
    (∀ x, (m.run e).1 = .error (.arithmetic x) ↔ e.eval = .error x) ∧
    (∀ symbol needed available, (m.run e).1 ≠ .error (.underflow symbol needed available)) ∧
    (∀ operands, (m.run e).1 ≠ .error (.unbalanced operands)) ∧
    (m.run e).2.isDrained = true := by
  rw [run_eq_eval]
  cases h : e.eval with
  | ok v =>
    simp only [Except.mapError]
    refine ⟨?_, ?_, ?_, ?_, rfl⟩ <;> simp
  | error x =>
    simp only [Except.mapError]
    refine ⟨?_, ?_, ?_, ?_, rfl⟩ <;> simp

end Abacus.Machine
