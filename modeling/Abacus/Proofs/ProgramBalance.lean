import Abacus.Proofs.MachineAgreement

/-! # Balanced code

Counting operands tells which code is the code of a tree. The depth is the number of operands on the
stack; code is balanced when no instruction lacks operands and one is left at the end. Run on trees in
place of numbers, balanced code builds the one tree whose code it is. Since a successful run of the
machine keeps the same count, the machine has results for the code of trees and for no other.
-/
namespace Abacus

namespace Instruction

/-- The depth behind the instruction, if it finds the operands it needs. -/
def depth? : Instruction → Nat → Option Nat
  | push _, d => some (d + 1)
  | unary _, d => if 1 ≤ d then some d else none
  | binary _, d => if 2 ≤ d then some (d - 1) else none

/-- What the machine does to numbers, done to trees. -/
def build? : Instruction → List Expr → Option (List Expr)
  | push n, es => some (.literal n :: es)
  | unary s, e :: es => some (.signed s e :: es)
  | binary op, r :: l :: es => some (.binary op l r :: es)
  | _, _ => none

theorem length_build? (i : Instruction) (es : List Expr) :
    (i.build? es).map List.length = i.depth? es.length := by
  cases i with
  | push n => rfl
  | unary s =>
    cases es with
    | nil => rfl
    | cons e es => simp [build?, depth?]
  | binary op =>
    match es with
    | [] => rfl
    | [e] => rfl
    | r :: l :: es => simp [build?, depth?]

theorem depth?_of_step {i : Instruction} {ns ns' : List Number} (h : Machine.step i ns = .ok ns') :
    i.depth? ns.length = some ns'.length := by
  cases i with
  | push n =>
    cases h
    rfl
  | unary s =>
    cases ns with
    | nil => cases h
    | cons a rest =>
      rw [Machine.step_unary] at h
      cases hv : s.apply a with
      | error x => simp [hv, Except.mapError, Except.map] at h
      | ok v =>
        have hns : v :: rest = ns' := by simpa [hv, Except.mapError, Except.map] using h
        simp [← hns, depth?]
  | binary op =>
    match ns with
    | [] => cases h
    | [b] => cases h
    | b :: a :: rest =>
      rw [Machine.step_binary] at h
      cases hv : op.apply a b with
      | error x => simp [hv, Except.mapError, Except.map] at h
      | ok v =>
        have hns : v :: rest = ns' := by simpa [hv, Except.mapError, Except.map] using h
        simp [← hns, depth?]

end Instruction

namespace Program

def depth? (code : List Instruction) (d : Nat) : Option Nat := code.foldlM (fun d i => i.depth? d) d

def Balanced (p : Program) : Prop := depth? p.code 0 = some 1

instance (p : Program) : Decidable p.Balanced := inferInstanceAs (Decidable (_ = _))

def build? (code : List Instruction) (es : List Expr) : Option (List Expr) :=
  code.foldlM (fun es i => i.build? es) es

/-- The code that leaves these trees on the stack, the latest one first. -/
def emitAll : List Expr → List Instruction
  | [] => []
  | e :: es => emitAll es ++ e.emit []

theorem depth?_cons (i : Instruction) (code : List Instruction) (d : Nat) :
    depth? (i :: code) d = (i.depth? d).bind (depth? code) := List.foldlM_cons

theorem build?_cons (i : Instruction) (code : List Instruction) (es : List Expr) :
    build? (i :: code) es = (i.build? es).bind (build? code) := List.foldlM_cons

/-- Trees can be built exactly where the count does not fail. -/
theorem length_build? (code : List Instruction) (es : List Expr) :
    (build? code es).map List.length = depth? code es.length := by
  induction code generalizing es with
  | nil => rfl
  | cons i code ih =>
    rw [build?_cons, depth?_cons, ← Instruction.length_build?]
    cases i.build? es with
    | none => rfl
    | some es' => exact ih es'

/-- The code of a tree builds this tree, whatever code follows and whatever lies below. -/
theorem build?_emit (e : Expr) (k : List Instruction) (es : List Expr) :
    build? (e.emit k) es = build? k (e :: es) := by
  induction e generalizing k es with
  | literal n => rfl
  | signed s e ih =>
    rw [Expr.emit, ih, build?_cons]
    rfl
  | binary op l r ihl ihr =>
    rw [Expr.emit, ihl, ihr, build?_cons]
    rfl

theorem emitAll_of_build?_step {i : Instruction} {es es' : List Expr} (h : i.build? es = some es') :
    emitAll es' = emitAll es ++ [i] := by
  cases i with
  | push n =>
    cases h
    rfl
  | unary s =>
    rcases es with _ | ⟨e, es⟩
    · cases h
    · cases h
      rw [emitAll, emitAll, Expr.emit, Expr.emit_eq_append e [_], List.append_assoc]
  | binary op =>
    rcases es with _ | ⟨r, _ | ⟨l, es⟩⟩
    · cases h
    · cases h
    · cases h
      rw [emitAll, emitAll, emitAll, Expr.emit, Expr.emit_eq_append l, Expr.emit_eq_append r [_]]
      simp only [List.append_assoc]

theorem emitAll_of_build? {code : List Instruction} {es es' : List Expr}
    (h : build? code es = some es') : emitAll es' = emitAll es ++ code := by
  induction code generalizing es with
  | nil =>
    cases h
    exact (List.append_nil _).symm
  | cons i code ih =>
    rw [build?_cons] at h
    obtain ⟨es₁, hstep, hrest⟩ := Option.bind_eq_some_iff.mp h
    rw [ih hrest, emitAll_of_build?_step hstep, List.append_assoc, List.singleton_append]

theorem build?_ofExpr (e : Expr) : build? (ofExpr e).code [] = some [e] := build?_emit e [] []

theorem ofExpr_injective : Function.Injective ofExpr := by
  intro e e' h
  have hbuild := build?_ofExpr e
  rw [h, build?_ofExpr e'] at hbuild
  simpa using hbuild.symm

theorem exists_ofExpr_iff (p : Program) : (∃ e, ofExpr e = p) ↔ p.Balanced := by
  constructor
  · rintro ⟨e, rfl⟩
    have hdepth := length_build? (ofExpr e).code []
    rw [build?_ofExpr] at hdepth
    exact hdepth.symm
  · intro hbalanced
    have hdepth : (build? p.code []).map List.length = some 1 := (length_build? p.code []).trans hbalanced
    obtain ⟨es, hes, hlength⟩ := Option.map_eq_some_iff.mp hdepth
    obtain ⟨e, rfl⟩ := List.length_eq_one_iff.mp hlength
    refine ⟨e, ?_⟩
    have hcode := emitAll_of_build? hes
    exact congrArg Program.mk hcode

theorem length_emit (e : Expr) (k : List Instruction) : (e.emit k).length = e.size + k.length := by
  induction e generalizing k with
  | literal n =>
    rw [Expr.emit, Expr.size, List.length_cons]
    omega
  | signed s e ih =>
    rw [Expr.emit, ih, Expr.size, List.length_cons]
    omega
  | binary op l r ihl ihr =>
    rw [Expr.emit, ihl, ihr, Expr.size, List.length_cons]
    omega

theorem size_ofExpr (e : Expr) : (ofExpr e).size = e.size := length_emit e []

end Program

namespace Machine

theorem depth?_of_execute {code : List Instruction} {ns : List Number} {v : Number}
    (h : (execute code ns).1 = .ok v) : Program.depth? code ns.length = some 1 := by
  induction code generalizing ns with
  | nil =>
    match ns with
    | [] => cases h
    | [n] => rfl
    | _ :: _ :: _ => cases h
  | cons i code ih =>
    rw [execute] at h
    cases hstep : step i ns with
    | error x => simp [hstep] at h
    | ok ns' =>
      rw [hstep] at h
      rw [Program.depth?_cons, Instruction.depth?_of_step hstep]
      exact ih h

theorem balanced_of_reduce_load {m : Machine} {p : Program} {v : Number}
    (h : ((m.load p).reduce).1 = .ok v) : p.Balanced := by
  have hload : m.load p = ⟨p.code, []⟩ := rfl
  rw [reduce, hload] at h
  rcases hrun : execute p.code [] with ⟨x | n, m'⟩
  · simp [hrun] at h
  · have hok : (execute p.code []).1 = .ok n := by rw [hrun]
    exact depth?_of_execute hok

theorem reduce_load_ofExpr (m : Machine) (e : Expr) :
    ((m.load (.ofExpr e)).reduce).1 = e.eval.mapError .arithmetic :=
  congrArg Prod.fst (run_eq_eval m e)

end Machine

/-- Code is the code of a tree when and only when it is balanced. There is one such tree, with as many
nodes as there are instructions, and a loaded machine has a result when and only when this tree has a
value, which is the result. -/
theorem balanced_programs_are_trees (p : Program) :
    ((∃ e, Program.ofExpr e = p) ↔ p.Balanced) ∧
    (∀ e e', Program.ofExpr e = p → Program.ofExpr e' = p → e' = e) ∧
    (∀ e, Program.ofExpr e = p → p.size = e.size) ∧
    ∀ (m : Machine) v, ((m.load p).reduce).1 = .ok v ↔ ∃ e, p = Program.ofExpr e ∧ e.eval = .ok v := by
  refine ⟨Program.exists_ofExpr_iff p, ?_, ?_, ?_⟩
  · intro e e' he he'
    exact Program.ofExpr_injective (he'.trans he.symm)
  · rintro e rfl
    exact Program.size_ofExpr e
  · intro m v
    constructor
    · intro hrun
      obtain ⟨e, rfl⟩ := (Program.exists_ofExpr_iff p).mpr (Machine.balanced_of_reduce_load hrun)
      refine ⟨e, rfl, ?_⟩
      rw [Machine.reduce_load_ofExpr] at hrun
      cases heval : e.eval with
      | error x => simp [heval, Except.mapError] at hrun
      | ok n => simpa [heval, Except.mapError] using hrun
    · rintro ⟨e, rfl, heval⟩
      rw [Machine.reduce_load_ofExpr, heval]
      rfl

/-- Postfix code for `1 - 2 * 3`, whose tree has five nodes, and the same code without its last
instruction, which is the code of no tree. -/
theorem tree_of_postfix_difference :
    let p : Program := ⟨[.push (.int 1), .push (.int 2), .push (.int 3), .binary .mul, .binary .sub]⟩
    let e : Expr := .binary .sub (.literal (.int 1)) (.binary .mul (.literal (.int 2)) (.literal (.int 3)))
    (Program.ofExpr e = p ∧ p.size = 5 ∧ ∀ e', Program.ofExpr e' = p → e' = e) ∧
      ((Machine.empty.load p).reduce).1 = .ok (.int (-5)) ∧ ¬ ∃ e', Program.ofExpr e' = ⟨p.code.take 4⟩ := by
  intro p e
  have he : Program.ofExpr e = p := rfl
  have hp := balanced_programs_are_trees p
  refine ⟨⟨he, hp.2.2.1 e he, fun e' he' => hp.2.1 e e' he he'⟩, ?_, ?_⟩
  · exact (hp.2.2.2 Machine.empty (.int (-5))).mpr ⟨e, he.symm, by decide⟩
  · intro hexists
    have hbalanced := (balanced_programs_are_trees ⟨p.code.take 4⟩).1.mp hexists
    revert hbalanced
    decide

end Abacus
