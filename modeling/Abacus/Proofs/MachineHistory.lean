import Abacus.Machine
import Mathlib

/-! # Histories of a machine

A machine may be asked to load, to reduce and to run, in any order and with any code and trees. No
history leaves operands in it, and nothing is pending but code that the last command has loaded. So
the answer to a command is known from this command and the one before it: whatever was asked earlier,
and however it failed, has left no trace.
-/
namespace Abacus.Machine

inductive Command where
  | load (p : Program)
  | reduce
  | run (e : Expr)
deriving DecidableEq

/-- The answer, which a load does not give, and the machine behind the command. -/
def obey (m : Machine) : Command → Option (Except MachineError Number) × Machine
  | .load p => (none, m.load p)
  | .reduce => (some m.reduce.1, m.reduce.2)
  | .run e => (some (m.run e).1, (m.run e).2)

def behind (m : Machine) (cs : List Command) : Machine := cs.foldl (fun m c => (m.obey c).2) m

def answers (m : Machine) : List Command → List (Option (Except MachineError Number))
  | [] => []
  | c :: cs => (m.obey c).1 :: (m.obey c).2.answers cs

namespace Command

/-- What a command leaves: the code it loads, or nothing. -/
def remainder : Command → Machine
  | .load p => { pending := p.code }
  | _ => empty

/-- The answer of a new machine, or of one that has been given the code right before. -/
def answer (previous : Option Command) : Command → Option (Except MachineError Number)
  | .load _ => none
  | .run e => some (empty.run e).1
  | .reduce =>
    match previous with
    | some (.load p) => some ((empty.load p).reduce).1
    | _ => some (.error (.unbalanced 0))

end Command

/-! ## One command -/

theorem execute_ok {code : List Instruction} {ns : List Number} {v : Number}
    (h : (execute code ns).1 = .ok v) : (execute code ns).2 = empty := by
  fun_induction execute code ns with
  | case1 n => rfl
  | case2 ns => cases h
  | case3 i rest ns ns' hstep ih => exact ih h
  | case4 i rest ns f hstep => cases h

/-- Whatever is in a machine, nothing is left behind a reduction. -/
theorem reduce_snd (m : Machine) : m.reduce.2 = empty := by
  unfold reduce
  rcases hrun : execute m.pending m.operands with ⟨e | v, m'⟩
  · rfl
  · have hok : (execute m.pending m.operands).1 = .ok v := by rw [hrun]
    have hempty := execute_ok hok
    rw [hrun] at hempty
    exact hempty

theorem reduce_of_isDrained {m : Machine} (h : m.isDrained = true) :
    m.reduce = (.error (.unbalanced 0), empty) := by
  obtain ⟨pending, operands⟩ := m
  obtain ⟨rfl, rfl⟩ : pending = [] ∧ operands = [] := by simpa [isDrained] using h
  rfl

theorem obey_snd (m : Machine) (c : Command) : (m.obey c).2 = c.remainder := by
  cases c with
  | load p => rfl
  | reduce => exact m.reduce_snd
  | run e => exact (m.load (.ofExpr e)).reduce_snd

theorem obey_fst (previous : Option Command) (c : Command) :
    (((previous.map Command.remainder).getD empty).obey c).1 = c.answer previous := by
  cases c with
  | load p => rfl
  | run e => rfl
  | reduce => rcases previous with _ | (p | _ | e) <;> rfl

/-! ## Sequences of commands -/

theorem behind_cases (m : Machine) (cs : List Command) :
    (cs = [] ∧ m.behind cs = m) ∨ ∃ before c, cs = before ++ [c] ∧ m.behind cs = c.remainder := by
  rcases cs.eq_nil_or_concat' with rfl | ⟨before, c, rfl⟩
  · exact .inl ⟨rfl, rfl⟩
  · refine .inr ⟨before, c, rfl, ?_⟩
    rw [behind, List.foldl_append]
    exact obey_snd _ c

theorem answers_eq (previous : Option Command) (cs : List Command) :
    ((previous.map Command.remainder).getD empty).answers cs =
      List.zipWith Command.answer (previous :: cs.map some) cs := by
  -- Between two commands the machine is what the earlier one leaves, whatever came before.
  induction cs generalizing previous with
  | nil => rfl
  | cons c cs ih =>
    rw [answers, obey_fst, obey_snd, List.map_cons, List.zipWith_cons_cons]
    exact congrArg _ (ih (some c))

/-- Behind every sequence of commands to a new machine there are no operands, and only code that the
last command has loaded. A reduction or a run leaves nothing, with or without success, and a machine
that holds nothing has no operand to give. Every run, and every reduction right behind a load, brings
what it brings on a new machine. -/
theorem commands_leave_no_trace (cs : List Command) :
    (empty.behind cs).operands = [] ∧
    ((empty.behind cs).pending = [] ∨
      ∃ before p, cs = before ++ [.load p] ∧ (empty.behind cs).pending = p.code) ∧
    ((empty.behind cs).reduce.2.isDrained = true ∧
      ∀ e, ((empty.behind cs).run e).2.isDrained = true) ∧
    ((empty.behind cs).isDrained = true →
      (empty.behind cs).reduce.1 = .error (.unbalanced 0) ∧
        (empty.behind cs).reduce.2.isDrained = true) ∧
    (∀ e, ((empty.behind cs).run e).1 = (empty.run e).1) ∧
    (∀ p, (((empty.behind cs).load p).reduce).1 = ((empty.load p).reduce).1) ∧
    empty.answers cs = List.zipWith Command.answer (none :: cs.map some) cs := by
  have hdrained : ∀ m : Machine, m.reduce.2.isDrained = true := by
    intro m
    rw [reduce_snd]
    rfl
  refine ⟨?_, ?_, ⟨hdrained _, fun e => hdrained _⟩, ?_, fun e => rfl, fun p => rfl, answers_eq none cs⟩
  · rcases empty.behind_cases cs with ⟨-, hm⟩ | ⟨before, c, -, hm⟩
    · rw [hm]
      rfl
    · rw [hm]
      cases c <;> rfl
  · rcases empty.behind_cases cs with ⟨-, hm⟩ | ⟨before, c, rfl, hm⟩
    · rw [hm]
      exact .inl rfl
    · rw [hm]
      cases c with
      | load p => exact .inr ⟨before, p, rfl, rfl⟩
      | reduce => exact .inl rfl
      | run e => exact .inl rfl
  · intro hm
    rw [reduce_of_isDrained hm]
    exact ⟨rfl, rfl⟩

/-- A sum that misses an operand, and a quotient by zero, leave nothing to the next reduction or run. -/
theorem failures_leave_no_trace :
    let failing : Program := ⟨[.push (.int 1), .binary .add, .push (.int 2)]⟩
    let quotient : Expr := .binary .div (.literal (.int 1)) (.literal (.int 0))
    let cs : List Command := [.load failing, .reduce, .run quotient]
    (empty.behind cs).isDrained = true ∧
      (empty.behind cs).reduce.1 = .error (.unbalanced 0) ∧
      (empty.behind cs).reduce.2.isDrained = true ∧
      empty.answers cs = [none, some (.error (.underflow '+' 2 0)),
        some (.error (.arithmetic .divisionByZero))] := by
  intro failing quotient cs
  have hdrained : (empty.behind cs).isDrained = true := by decide +kernel
  obtain ⟨-, -, -, hreduce, -, -, hanswers⟩ := commands_leave_no_trace cs
  refine ⟨hdrained, (hreduce hdrained).1, (hreduce hdrained).2, ?_⟩
  rw [hanswers]
  decide +kernel

end Abacus.Machine
