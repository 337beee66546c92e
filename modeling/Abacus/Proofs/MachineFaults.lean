import Abacus.Proofs.ProgramBalance

/-! # Where and why code fails

Whether an instruction executes is said here without the machine: a number always can be pushed, an
operator or sign needs its operands and a result. Code runs up to the first instruction that does not
execute, and the failure is decided there: operands are missing, or the arithmetic fails. Code that
runs to its end can only leave the wrong number of operands. The number of operands is a count of
instructions, so the numbers in the code have a say in failures only through the arithmetic.
-/
namespace Abacus

namespace Instruction

/-- The stack before and behind an instruction that executes. The right operand is the later one. -/
inductive Executes : Instruction → List Number → List Number → Prop where
  | push (n : Number) (ns : List Number) : Executes (.push n) ns (n :: ns)
  | unary {s : Sign} {a v : Number} (ns : List Number) (h : s.apply a = .ok v) :
      Executes (.unary s) (a :: ns) (v :: ns)
  | binary {op : Operator} {a b v : Number} (ns : List Number) (h : op.apply a b = .ok v) :
      Executes (.binary op) (b :: a :: ns) (v :: ns)

/-- The operands of the instruction are there, and the arithmetic on them fails. -/
inductive Refuses : Instruction → List Number → ArithmeticError → Prop where
  | unary {s : Sign} {a : Number} {x : ArithmeticError} (ns : List Number) (h : s.apply a = .error x) :
      Refuses (.unary s) (a :: ns) x
  | binary {op : Operator} {a b : Number} {x : ArithmeticError} (ns : List Number)
      (h : op.apply a b = .error x) : Refuses (.binary op) (b :: a :: ns) x

def arity : Instruction → Nat
  | push _ => 0
  | unary _ => 1
  | binary _ => 2

def symbol? : Instruction → Option Char
  | push _ => none
  | unary s => some s.symbol
  | binary op => some op.symbol

def isPush : Instruction → Bool
  | push _ => true
  | _ => false

def isBinary : Instruction → Bool
  | binary _ => true
  | _ => false

/-- The instruction without the number that it pushes. -/
def outline : Instruction → Option (Sign ⊕ Operator)
  | push _ => none
  | unary s => some (.inl s)
  | binary op => some (.inr op)

variable {i j : Instruction} {ns ns' : List Number} {x : ArithmeticError}

theorem arity_eq_of_outline (h : i.outline = j.outline) : i.arity = j.arity := by
  cases i <;> cases j <;> simp_all [outline, arity]

theorem symbol?_eq_of_outline (h : i.outline = j.outline) : i.symbol? = j.symbol? := by
  cases i <;> cases j <;> simp_all [outline, symbol?]

theorem Executes.arity_le (h : i.Executes ns ns') : i.arity ≤ ns.length := by
  cases h <;> simp [arity]

theorem Executes.unique {ns'' : List Number} (h : i.Executes ns ns') (h' : i.Executes ns ns'') :
    ns' = ns'' := by
  cases h with
  | push n ns =>
    cases h'
    rfl
  | unary ns hv =>
    cases h' with
    | unary _ hv' => rw [Except.ok.inj (hv.symm.trans hv')]
  | binary ns hv =>
    cases h' with
    | binary _ hv' => rw [Except.ok.inj (hv.symm.trans hv')]

theorem executes_or_refuses (h : i.arity ≤ ns.length) :
    (∃ ns', i.Executes ns ns') ∨ ∃ x, i.Refuses ns x := by
  cases i with
  | push n => exact .inl ⟨_, .push n ns⟩
  | unary s =>
    match ns, h with
    | a :: ns, _ =>
      cases hv : s.apply a with
      | ok v => exact .inl ⟨_, .unary ns hv⟩
      | error x => exact .inr ⟨x, .unary ns hv⟩
  | binary op =>
    match ns, h with
    | b :: a :: ns, _ =>
      cases hv : op.apply a b with
      | ok v => exact .inl ⟨_, .binary ns hv⟩
      | error x => exact .inr ⟨x, .binary ns hv⟩

/-! ## One instruction on the machine -/

theorem Executes.step_eq (h : i.Executes ns ns') : Machine.step i ns = .ok ns' := by
  cases h with
  | push n ns => rfl
  | unary ns hv =>
    rw [Machine.step_unary, hv]
    rfl
  | binary ns hv =>
    rw [Machine.step_binary, hv]
    rfl

/-- The operands are taken before the arithmetic fails. -/
theorem Refuses.step_eq (h : i.Refuses ns x) :
    Machine.step i ns = .error ⟨.arithmetic x, ns.drop i.arity⟩ := by
  cases h with
  | unary ns hv =>
    rw [Machine.step_unary, hv]
    rfl
  | binary ns hv =>
    rw [Machine.step_binary, hv]
    rfl

/-- Where operands are missing, none is reported as available: a binary operator that finds one has
taken it off when it misses the other. -/
theorem step_of_length_lt (h : ns.length < i.arity) :
    ∃ symbol, i.symbol? = some symbol ∧
      Machine.step i ns = .error ⟨.underflow symbol i.arity 0, []⟩ := by
  cases i with
  | push n => exact absurd h (Nat.not_lt_zero _)
  | unary s =>
    match ns, h with
    | [], _ => exact ⟨s.symbol, rfl, rfl⟩
  | binary op =>
    match ns, h with
    | [], _ => exact ⟨op.symbol, rfl, rfl⟩
    | [b], _ => exact ⟨op.symbol, rfl, rfl⟩

end Instruction

/-! ## Code that executes -/

/-- Executed one after the other on an empty stack, the instructions leave these operands. -/
inductive Leaves : List Instruction → List Number → Prop where
  | nil : Leaves [] []
  | snoc {code : List Instruction} {ns ns' : List Number} {i : Instruction} (h : Leaves code ns)
      (hi : i.Executes ns ns') : Leaves (code ++ [i]) ns'

theorem leaves_snoc {code : List Instruction} {i : Instruction} {ns' : List Number} :
    Leaves (code ++ [i]) ns' ↔ ∃ ns, Leaves code ns ∧ i.Executes ns ns' := by
  constructor
  · intro h
    generalize hcode : code ++ [i] = all at h
    cases h with
    | nil => simp at hcode
    | snoc hinit hi =>
      obtain ⟨rfl, hlast⟩ := List.append_inj' hcode rfl
      cases hlast
      exact ⟨_, hinit, hi⟩
  · rintro ⟨ns, hinit, hi⟩
    exact hinit.snoc hi

namespace Leaves
variable {code : List Instruction} {ns ns' : List Number}

theorem unique (h : Leaves code ns) (h' : Leaves code ns') : ns = ns' := by
  induction h generalizing ns' with
  | nil =>
    generalize hcode : ([] : List Instruction) = all at h'
    cases h' with
    | nil => rfl
    | snoc => simp at hcode
  | snoc _ hi ih =>
    obtain ⟨ms, hinit, hi'⟩ := leaves_snoc.mp h'
    obtain rfl := ih hinit
    exact hi.unique hi'

theorem take (h : Leaves code ns) (k : Nat) : ∃ ms, Leaves (code.take k) ms := by
  induction h with
  | nil => exact ⟨[], by simpa using Leaves.nil⟩
  | @snoc code _ _ i hinit hi ih =>
    by_cases hk : k ≤ code.length
    · rw [List.take_append_of_le_length hk]
      exact ih
    · rw [List.take_of_length_le (by simp; omega)]
      exact ⟨_, hinit.snoc hi⟩

theorem eq_nil (h : Leaves code []) : code = [] := by
  generalize hns : ([] : List Number) = ns at h
  cases h with
  | nil => rfl
  | snoc _ hi =>
    subst hns
    cases hi

theorem execute_eq (h : Leaves code ns) (rest : List Instruction) :
    Machine.execute (code ++ rest) [] = Machine.execute rest ns := by
  induction h generalizing rest with
  | nil => rfl
  | snoc _ hi ih => rw [List.append_assoc, ih, List.singleton_append, Machine.execute, hi.step_eq]

end Leaves

namespace Program

/-- Pushed numbers less binary operators among the first `k` instructions. -/
def depth (p : Program) (k : Nat) : Int :=
  (p.code.take k).countP Instruction.isPush - (p.code.take k).countP Instruction.isBinary

def outline (p : Program) : List (Option (Sign ⊕ Operator)) := p.code.map Instruction.outline

/-- The instruction at index `k` is the first one that does not execute, on this stack. -/
structure StuckAt (p : Program) (k : Nat) (i : Instruction) (ns : List Number) : Prop where
  instruction : p.code[k]? = some i
  before : Leaves (p.code.take k) ns
  stuck : ∀ ns', ¬ i.Executes ns ns'

/-- By the count, the instruction at index `k` misses operands. -/
def Lacks (p : Program) (k : Nat) : Prop := ∃ i, p.code[k]? = some i ∧ p.depth k < i.arity

end Program

theorem Leaves.count {code : List Instruction} {ns : List Number} (h : Leaves code ns) :
    (code.countP Instruction.isPush : Int) - code.countP Instruction.isBinary = ns.length := by
  induction h with
  | nil => rfl
  | snoc _ hi ih =>
    rw [List.countP_append, List.countP_append]
    cases hi <;> simp [Instruction.isPush, Instruction.isBinary] at ih ⊢ <;> omega

namespace Program
variable {p q : Program} {k k' : Nat} {i i' : Instruction} {ns ns' : List Number}

theorem depth_eq (h : Leaves (p.code.take k) ns) : p.depth k = ns.length := h.count

theorem depth_size (h : Leaves p.code ns) : p.depth p.size = ns.length :=
  depth_eq (by rwa [size, List.take_length])

theorem take_succ_of_instruction (hi : p.code[k]? = some i) :
    p.code.take (k + 1) = p.code.take k ++ [i] := by
  rw [List.take_add_one, hi, Option.toList_some]

/-! ### What the count says -/

theorem not_lacks_of_leaves (h : Leaves (p.code.take (k + 1)) ns) : ¬ p.Lacks k := by
  rintro ⟨i, hi, hlt⟩
  rw [take_succ_of_instruction hi] at h
  obtain ⟨ms, hbefore, hexecutes⟩ := leaves_snoc.mp h
  have harity := hexecutes.arity_le
  rw [depth_eq hbefore] at hlt
  omega

theorem StuckAt.lacks_iff_depth (h : p.StuckAt k i ns) : p.Lacks k ↔ p.depth k < i.arity := by
  simp [Lacks, h.instruction]

theorem StuckAt.lacks_iff (h : p.StuckAt k i ns) : p.Lacks k ↔ ns.length < i.arity := by
  rw [h.lacks_iff_depth, depth_eq h.before, Nat.cast_lt]

theorem StuckAt.refuses (h : p.StuckAt k i ns) (henough : ¬ p.Lacks k) : ∃ x, i.Refuses ns x := by
  rw [h.lacks_iff, Nat.not_lt] at henough
  rcases Instruction.executes_or_refuses henough with ⟨ns', hexecutes⟩ | hrefuses
  · exact absurd hexecutes (h.stuck ns')
  · exact hrefuses

theorem depth_eq_of_outline (h : p.outline = q.outline) (k : Nat) : p.depth k = q.depth k := by
  have hpush : Instruction.isPush = Option.isNone ∘ Instruction.outline := by
    funext i
    cases i <;> rfl
  have hbinary : Instruction.isBinary = Option.any Sum.isRight ∘ Instruction.outline := by
    funext i
    cases i <;> rfl
  have htake : (p.code.take k).map Instruction.outline = (q.code.take k).map Instruction.outline := by
    rw [List.map_take, List.map_take]
    exact congrArg (List.take k) h
  rw [depth, depth, hpush, hbinary]
  simp only [← List.countP_map, htake]

theorem exists_instruction_of_outline (h : p.outline = q.outline) (hi : p.code[k]? = some i) :
    ∃ j, q.code[k]? = some j ∧ i.outline = j.outline := by
  have hget := congrArg (·[k]?) h
  simp only [outline, List.getElem?_map, hi, Option.map_some] at hget
  obtain ⟨j, hj, hij⟩ := Option.map_eq_some_iff.mp hget.symm
  exact ⟨j, hj, hij.symm⟩

/-- Whether operands are missing by the count does not depend on the numbers in the code. -/
theorem Lacks.of_outline (hlacks : p.Lacks k) (h : p.outline = q.outline) : q.Lacks k := by
  obtain ⟨i, hi, hlt⟩ := hlacks
  obtain ⟨j, hj, hij⟩ := exists_instruction_of_outline h hi
  refine ⟨j, hj, ?_⟩
  rw [← depth_eq_of_outline h, ← Instruction.arity_eq_of_outline hij]
  exact hlt

/-- Where one code executes, another one with the same outline does not miss operands. -/
theorem StuckAt.refuses_of_outline (hstuck : q.StuckAt k i ns) (h : p.outline = q.outline)
    (hpassed : Leaves (p.code.take (k + 1)) ns') : ∃ x, i.Refuses ns x :=
  hstuck.refuses fun hlacks => not_lacks_of_leaves hpassed (hlacks.of_outline h.symm)

/-! ### The first instruction that does not execute -/

theorem StuckAt.not_leaves (h : p.StuckAt k i ns) (hk : k < k') : ¬ Leaves (p.code.take k') ns' := by
  intro hlater
  obtain ⟨ms, hms⟩ := hlater.take (k + 1)
  rw [List.take_take, Nat.min_eq_left hk, take_succ_of_instruction h.instruction] at hms
  obtain ⟨ns₁, hbefore, hexecutes⟩ := leaves_snoc.mp hms
  obtain rfl := h.before.unique hbefore
  exact h.stuck ms hexecutes

theorem StuckAt.unique (h : p.StuckAt k i ns) (h' : p.StuckAt k' i' ns') :
    k = k' ∧ i = i' ∧ ns = ns' := by
  rcases Nat.lt_trichotomy k k' with hlt | rfl | hlt
  · exact absurd h'.before (h.not_leaves hlt)
  · refine ⟨rfl, ?_, h.before.unique h'.before⟩
    exact Option.some.inj (h.instruction.symm.trans h'.instruction)
  · exact absurd h.before (h'.not_leaves hlt)

theorem leaves_or_stuckAt (p : Program) : (∃ ns, Leaves p.code ns) ∨ ∃ k i ns, p.StuckAt k i ns := by
  -- By induction on the number of instructions tried.
  have hprefix : ∀ k, (∃ ns, Leaves (p.code.take k) ns) ∨ ∃ k i ns, p.StuckAt k i ns := by
    intro k
    induction k with
    | zero => exact .inl ⟨[], by simpa using Leaves.nil⟩
    | succ k ih =>
      rcases ih with ⟨ns, hbefore⟩ | hstuck
      · cases hi : p.code[k]? with
        | none =>
          rw [List.take_add_one, hi, Option.toList_none, List.append_nil]
          exact .inl ⟨ns, hbefore⟩
        | some i =>
          rw [take_succ_of_instruction hi]
          by_cases hexecutes : ∃ ns', i.Executes ns ns'
          · obtain ⟨ns', hns'⟩ := hexecutes
            exact .inl ⟨ns', hbefore.snoc hns'⟩
          · exact .inr ⟨k, i, ns, hi, hbefore, fun ns' h => hexecutes ⟨ns', h⟩⟩
      · exact .inr hstuck
  have hall := hprefix p.code.length
  rwa [List.take_length] at hall

end Program

/-! ## What the machine reports -/

namespace Machine
variable {m : Machine} {p q : Program} {k : Nat} {i : Instruction} {ns : List Number}

theorem reduce_load (m : Machine) (p : Program) : ((m.load p).reduce).1 = (execute p.code []).1 := by
  have hload : m.load p = ⟨p.code, []⟩ := rfl
  rw [reduce, hload]
  rcases execute p.code [] with ⟨_ | _, _⟩ <;> rfl

theorem reduce_of_leaves (h : Leaves p.code ns) : ((m.load p).reduce).1 = (execute [] ns).1 := by
  rw [reduce_load, ← h.execute_eq [], List.append_nil]

theorem reduce_of_unbalanced (h : Leaves p.code ns) (hne : ns.length ≠ 1) :
    ((m.load p).reduce).1 = .error (.unbalanced ns.length) := by
  rw [reduce_of_leaves h]
  match ns, hne with
  | [], _ => rfl
  | _ :: _ :: _, _ => rfl

theorem reduce_of_step {f : Fault} (h : p.StuckAt k i ns) (hstep : step i ns = .error f) :
    ((m.load p).reduce).1 = .error f.error := by
  obtain ⟨hk, hget⟩ := List.getElem?_eq_some_iff.mp h.instruction
  have hcode : p.code = p.code.take k ++ i :: p.code.drop (k + 1) := by
    rw [← hget, ← List.drop_eq_getElem_cons hk, List.take_append_drop]
  rw [reduce_load, hcode, h.before.execute_eq, execute, hstep]

theorem reduce_of_refuses {x : ArithmeticError} (h : p.StuckAt k i ns) (hx : i.Refuses ns x) :
    ((m.load p).reduce).1 = .error (.arithmetic x) := reduce_of_step h hx.step_eq

theorem reduce_of_lacks (h : p.StuckAt k i ns) (hlacks : p.Lacks k) :
    ∃ symbol, i.symbol? = some symbol ∧
      ((m.load p).reduce).1 = .error (.underflow symbol i.arity 0) := by
  obtain ⟨symbol, hsymbol, hstep⟩ := Instruction.step_of_length_lt (h.lacks_iff.mp hlacks)
  exact ⟨symbol, hsymbol, reduce_of_step h hstep⟩

theorem reduce_cases (m : Machine) (p : Program) :
    (∃ v, ((m.load p).reduce).1 = .ok v) ∨
    (∃ ns, Leaves p.code ns ∧ ns.length ≠ 1 ∧
      ((m.load p).reduce).1 = .error (.unbalanced ns.length)) ∨
    (∃ k i ns x, p.StuckAt k i ns ∧ ¬ p.Lacks k ∧ i.Refuses ns x ∧
      ((m.load p).reduce).1 = .error (.arithmetic x)) ∨
    ∃ k i ns symbol, p.StuckAt k i ns ∧ p.Lacks k ∧ i.symbol? = some symbol ∧
      ((m.load p).reduce).1 = .error (.underflow symbol i.arity 0) := by
  rcases p.leaves_or_stuckAt with ⟨ns, hleaves⟩ | ⟨k, i, ns, hstuck⟩
  · by_cases hone : ns.length = 1
    · obtain ⟨v, rfl⟩ := List.length_eq_one_iff.mp hone
      exact .inl ⟨v, reduce_of_leaves hleaves⟩
    · exact .inr (.inl ⟨ns, hleaves, hone, reduce_of_unbalanced hleaves hone⟩)
  · by_cases hlacks : p.Lacks k
    · obtain ⟨symbol, hsymbol, hreduce⟩ := reduce_of_lacks (m := m) hstuck hlacks
      exact .inr (.inr (.inr ⟨k, i, ns, symbol, hstuck, hlacks, hsymbol, hreduce⟩))
    · obtain ⟨x, hx⟩ := hstuck.refuses hlacks
      exact .inr (.inr (.inl ⟨k, i, ns, x, hstuck, hlacks, hx, reduce_of_refuses hstuck hx⟩))

/-- Code that differs from failing code only in its numbers fails in the same way, unless its arithmetic
fails at an instruction that the first code has passed. -/
theorem reduce_of_outline {e : MachineError} (h : p.outline = q.outline) (he : ∀ x, e ≠ .arithmetic x)
    (hp : ((m.load p).reduce).1 = .error e) :
    ((m.load q).reduce).1 = .error e ∨
      ∃ k i ns x ms, q.StuckAt k i ns ∧ i.Refuses ns x ∧ Leaves (p.code.take (k + 1)) ms := by
  rcases reduce_cases m p with ⟨v, hv⟩ | ⟨ns, hns, hone, hv⟩ | ⟨k, i, ns, x, -, -, -, hv⟩ |
    ⟨k, i, ns, symbol, hstuck, hlacks, hsymbol, hv⟩
  · simp [hv] at hp
  · -- The first code runs to its end, so the second can only stop at its arithmetic.
    obtain rfl : .unbalanced ns.length = e := Except.error.inj (hv.symm.trans hp)
    rcases q.leaves_or_stuckAt with ⟨ns', hns'⟩ | ⟨k, i, ns', hstuck⟩
    · have hsize : p.size = q.size := by simpa [Program.outline, Program.size] using congrArg List.length h
      have hlength : ns.length = ns'.length := by
        have hdepth := Program.depth_eq_of_outline h p.size
        rw [Program.depth_size hns, hsize, Program.depth_size hns'] at hdepth
        exact_mod_cast hdepth
      left
      rw [hlength] at hone ⊢
      exact reduce_of_unbalanced hns' hone
    · obtain ⟨ms, hms⟩ := hns.take (k + 1)
      obtain ⟨x, hx⟩ := hstuck.refuses_of_outline h hms
      exact .inr ⟨k, i, ns', x, ms, hstuck, hx, hms⟩
  · exact absurd (Except.error.inj (hv.symm.trans hp)).symm (he x)
  · -- By the count the second code misses operands at the same index, and so cannot get past it.
    obtain rfl : .underflow symbol i.arity 0 = e := Except.error.inj (hv.symm.trans hp)
    have hlacks' := hlacks.of_outline h
    rcases q.leaves_or_stuckAt with ⟨ns', hns'⟩ | ⟨k', i', ns', hstuck'⟩
    · obtain ⟨ms, hms⟩ := hns'.take (k + 1)
      exact absurd hlacks' (Program.not_lacks_of_leaves hms)
    · rcases Nat.lt_trichotomy k' k with hlt | rfl | hlt
      · obtain ⟨ms, hms⟩ := hstuck.before.take (k' + 1)
        rw [List.take_take, Nat.min_eq_left hlt] at hms
        obtain ⟨x, hx⟩ := hstuck'.refuses_of_outline h hms
        exact .inr ⟨k', i', ns', x, ms, hstuck', hx, hms⟩
      · obtain ⟨j, hj, hij⟩ := Program.exists_instruction_of_outline h hstuck.instruction
        obtain rfl : i' = j := Option.some.inj (hstuck'.instruction.symm.trans hj)
        obtain ⟨symbol', hsymbol', hreduce⟩ := reduce_of_lacks (m := m) hstuck' hlacks'
        rw [← Instruction.symbol?_eq_of_outline hij, hsymbol] at hsymbol'
        obtain rfl := Option.some.inj hsymbol'
        rw [Instruction.arity_eq_of_outline hij]
        exact .inl hreduce
      · obtain ⟨ms, hms⟩ := hstuck'.before.take (k + 1)
        rw [List.take_take, Nat.min_eq_left hlt] at hms
        exact absurd hlacks' (Program.not_lacks_of_leaves hms)

end Machine

/-- Loaded code fails for missing operands, by its arithmetic or at its end, and each of the three
exactly when the first instruction that does not execute, or the count at the end, says so. There is
one such instruction at most. The numbers in the code matter to the first and the third only where the
arithmetic fails before. -/
theorem faults_are_counted (m : Machine) (p : Program) :
    (∀ k i ns k' i' ns', p.StuckAt k i ns → p.StuckAt k' i' ns' → k = k' ∧ i = i' ∧ ns = ns') ∧
    (∀ symbol needed available,
      ((m.load p).reduce).1 = .error (.underflow symbol needed available) ↔
        ∃ k i ns, p.StuckAt k i ns ∧ p.depth k < i.arity ∧ i.symbol? = some symbol ∧
          needed = i.arity ∧ available = 0) ∧
    (∀ x, ((m.load p).reduce).1 = .error (.arithmetic x) ↔
      ∃ k i ns, p.StuckAt k i ns ∧ i.arity ≤ p.depth k ∧ i.Refuses ns x) ∧
    (∀ n, ((m.load p).reduce).1 = .error (.unbalanced n) ↔
      (∃ ns, Leaves p.code ns) ∧ (n : Int) = p.depth p.size ∧ n ≠ 1) ∧
    (((m.load p).reduce).1 = .error (.unbalanced 0) ↔ p.code = []) ∧
    ∀ q e, p.outline = q.outline → (∀ x, e ≠ .arithmetic x) → ((m.load p).reduce).1 = .error e →
      ((m.load q).reduce).1 = .error e ∨
        ∃ k i ns x ms, q.StuckAt k i ns ∧ i.Refuses ns x ∧ Leaves (p.code.take (k + 1)) ms := by
  have hcases := Machine.reduce_cases m p
  have hunbalanced : ∀ n, ((m.load p).reduce).1 = .error (.unbalanced n) →
      ∃ ns, Leaves p.code ns ∧ ns.length ≠ 1 ∧ n = ns.length := by
    intro n hn
    rcases hcases with ⟨v, hv⟩ | ⟨ns, hns, hone, hv⟩ | ⟨k, i, ns, x, -, -, -, hv⟩ |
      ⟨k, i, ns, symbol, -, -, -, hv⟩ <;> rw [hv] at hn <;> cases hn
    exact ⟨ns, hns, hone, rfl⟩
  refine ⟨fun k i ns k' i' ns' h h' => h.unique h', ?_, ?_, ?_, ?_, ?_⟩
  · intro symbol needed available
    constructor
    · intro hreduce
      rcases hcases with ⟨v, hv⟩ | ⟨ns, -, -, hv⟩ | ⟨k, i, ns, x, -, -, -, hv⟩ |
        ⟨k, i, ns, symbol, hstuck, hlacks, hsymbol, hv⟩ <;> rw [hv] at hreduce <;> cases hreduce
      exact ⟨k, i, ns, hstuck, hstuck.lacks_iff_depth.mp hlacks, hsymbol, rfl, rfl⟩
    · rintro ⟨k, i, ns, hstuck, hdepth, hsymbol, rfl, rfl⟩
      obtain ⟨symbol', hsymbol', hreduce⟩ :=
        Machine.reduce_of_lacks (m := m) hstuck (hstuck.lacks_iff_depth.mpr hdepth)
      obtain rfl := Option.some.inj (hsymbol.symm.trans hsymbol')
      exact hreduce
  · intro x
    constructor
    · intro hreduce
      rcases hcases with ⟨v, hv⟩ | ⟨ns, -, -, hv⟩ | ⟨k, i, ns, x, hstuck, henough, hx, hv⟩ |
        ⟨k, i, ns, symbol, -, -, -, hv⟩ <;> rw [hv] at hreduce <;> cases hreduce
      exact ⟨k, i, ns, hstuck, not_lt.mp (mt hstuck.lacks_iff_depth.mpr henough), hx⟩
    · rintro ⟨k, i, ns, hstuck, -, hx⟩
      exact Machine.reduce_of_refuses hstuck hx
  · intro n
    constructor
    · intro hn
      obtain ⟨ns, hns, hone, rfl⟩ := hunbalanced n hn
      exact ⟨⟨ns, hns⟩, (Program.depth_size hns).symm, hone⟩
    · rintro ⟨⟨ns, hns⟩, hdepth, hone⟩
      rw [Program.depth_size hns, Nat.cast_inj] at hdepth
      subst hdepth
      exact Machine.reduce_of_unbalanced hns hone
  · constructor
    · intro hzero
      obtain ⟨ns, hns, -, hlength⟩ := hunbalanced 0 hzero
      obtain rfl := List.length_eq_zero_iff.mp hlength.symm
      exact hns.eq_nil
    · intro hempty
      rw [Machine.reduce_load, hempty]
      rfl
  · intro q e houtline he hp
    exact Machine.reduce_of_outline houtline he hp

/-- The sum finds one operand and none is reported as available. With a zero for the divisor the same
code fails earlier, at the quotient. -/
theorem missing_operand_behind_quotient :
    let p : Program := ⟨[.push (.int 1), .push (.int 2), .binary .div, .binary .add]⟩
    let q : Program := ⟨[.push (.int 1), .push (.int 0), .binary .div, .binary .add]⟩
    p.outline = q.outline ∧
      ((Machine.empty.load p).reduce).1 = .error (.underflow '+' 2 0) ∧
      ∃ k i ns x ms, q.StuckAt k i ns ∧ i.Refuses ns x ∧ Leaves (p.code.take (k + 1)) ms := by
  intro p q
  have hp : ((Machine.empty.load p).reduce).1 = .error (.underflow '+' 2 0) := by decide +kernel
  have hq : ((Machine.empty.load q).reduce).1 = .error (.arithmetic .divisionByZero) := by
    decide +kernel
  refine ⟨rfl, hp, ?_⟩
  obtain ⟨-, -, -, -, -, houtline⟩ := faults_are_counted Machine.empty p
  rcases houtline q (.underflow '+' 2 0) rfl nofun hp with hsame | hearlier
  · simp [hq] at hsame
  · exact hearlier

end Abacus
