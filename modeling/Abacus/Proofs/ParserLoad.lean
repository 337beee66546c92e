import Abacus.Proofs.ParserGrammar

/-! # How much is open at once

A parenthesis is open up to its partner, a sign up to the end of the group it stands in. The load of a
list of tokens is the most that is open after one of its prefixes. In a derivation the left part of a
chain closes all that it opens, so the load of a chain is the largest load of its operands, and every
sign on a path of the tree adds to the load.
-/
namespace Abacus

inductive Opened where
  | group
  | sign
deriving DecidableEq

/-- What is open behind some tokens, the latest first, and what may come next. -/
structure Nest where
  mode : Mode
  opened : List Opened
deriving DecidableEq

namespace Nest

def start : Nest := ⟨.operand, []⟩

/-- A closing parenthesis closes its group and all signs in it. A plus or minus is a sign where an
operand may come. -/
def step (n : Nest) : Token → Nest
  | .endOfInput => n
  | .number _ => ⟨.operator, n.opened⟩
  | .mark .leftParen => ⟨.operand, .group :: n.opened⟩
  | .mark .rightParen => ⟨.operator, (n.opened.dropWhile (· = .sign)).tail⟩
  | .mark .star => ⟨.operand, n.opened⟩
  | .mark .slash => ⟨.operand, n.opened⟩
  | .mark _ =>
    match n.mode with
    | .operand => ⟨.operand, .sign :: n.opened⟩
    | .operator => ⟨.operand, n.opened⟩

def after (n : Nest) (ts : List Token) : Nest := ts.foldl step n

/-- The most that is open after a prefix of the tokens. -/
def peak (n : Nest) (ts : List Token) : Nat :=
  (ts.inits.map fun us => (n.after us).opened.length).foldr max 0

theorem after_cons (n : Nest) (t : Token) (ts : List Token) :
    n.after (t :: ts) = (n.step t).after ts := rfl

theorem after_append (n : Nest) (ts us : List Token) :
    n.after (ts ++ us) = (n.after ts).after us := List.foldl_append

theorem peak_nil (n : Nest) : n.peak [] = n.opened.length := by
  simp [peak, after]

theorem peak_cons (n : Nest) (t : Token) (ts : List Token) :
    n.peak (t :: ts) = max n.opened.length ((n.step t).peak ts) := by
  rw [peak, List.inits_cons, List.map_cons, List.foldr_cons, List.map_map]
  rfl

theorem le_peak (n : Nest) (ts : List Token) : n.opened.length ≤ n.peak ts := by
  cases ts with
  | nil => rw [peak_nil]
  | cons t ts =>
    rw [peak_cons]
    exact Nat.le_max_left _ _

theorem peak_append (n : Nest) (ts us : List Token) :
    n.peak (ts ++ us) = max (n.peak ts) ((n.after ts).peak us) := by
  induction ts generalizing n with
  | nil =>
    have h := n.le_peak us
    rw [List.nil_append, peak_nil]
    exact (Nat.max_eq_right h).symm
  | cons t ts ih =>
    rw [List.cons_append, peak_cons, peak_cons, ih, Nat.max_assoc]
    rfl

theorem after_le_peak (n : Nest) (ts : List Token) : (n.after ts).opened.length ≤ n.peak ts := by
  have h := n.peak_append ts []
  rw [List.append_nil, peak_nil] at h
  exact h ▸ Nat.le_max_right _ _

theorem step_close (m : Mode) (j : Nat) (K : List Opened) :
    step ⟨m, List.replicate j .sign ++ .group :: K⟩ (.mark .rightParen) = ⟨.operator, K⟩ := by
  have hdrop : (List.replicate j Opened.sign ++ .group :: K).dropWhile (· = .sign) = .group :: K := by
    induction j with
    | zero => rfl
    | succ j ih => exact ih
  simp [step, hdrop]

theorem step_sign (σ : Sign) (K : List Opened) :
    step ⟨.operand, K⟩ (.mark σ.mark) = ⟨.operand, .sign :: K⟩ := by
  cases σ <;> rfl

theorem step_operator (op : Operator) (K : List Opened) :
    step ⟨.operator, K⟩ (.mark op.mark) = ⟨.operand, K⟩ := by
  cases op <;> rfl

end Nest

def load (ts : List Token) : Nat := Nest.start.peak ts

/-- The most signs on a path from the root to a literal. -/
def Expr.signDepth : Expr → Nat
  | literal _ => 0
  | signed _ e => e.signDepth + 1
  | binary _ l r => max l.signDepth r.signDepth

/-- A derivation leaves open just the signs at its end. -/
theorem Derives.after {c : Category} {o : Bool} {ts : List Token} {e : Expr}
    (h : Derives .greedy c o ts e) (K : List Opened) :
    ∃ j, (o = false → j = 0) ∧
      Nest.after ⟨.operand, K⟩ ts = ⟨.operator, List.replicate j .sign ++ K⟩ := by
  induction h generalizing K with
  | number n => exact ⟨0, fun _ => rfl, rfl⟩
  | @group o ts e _ ih =>
    obtain ⟨j, -, hj⟩ := ih (.group :: K)
    refine ⟨0, fun _ => rfl, ?_⟩
    rw [Nest.after_cons, Nest.after_append]
    change Nest.after (Nest.after ⟨.operand, .group :: K⟩ ts) [.mark .rightParen] = ⟨.operator, K⟩
    rw [hj]
    exact Nest.step_close _ j K
  | sign σ _ ih =>
    obtain ⟨j, -, hj⟩ := ih (.sign :: K)
    refine ⟨j + 1, nofun, ?_⟩
    rw [Nest.after_cons, Nest.step_sign, hj, List.replicate_succ']
    simp
  | single _ ih => exact ih K
  | binary op _ _ ho ihl ihr =>
    obtain ⟨i, hi, hl⟩ := ihl K
    obtain ⟨j, hj, hr⟩ := ihr K
    refine ⟨j, hj, ?_⟩
    rw [Nest.after_append, hl, hi (ho rfl), Nest.after_cons]
    change Nest.after (Nest.step ⟨.operator, K⟩ (.mark op.mark)) _ = _
    rw [Nest.step_operator, hr]

/-! ## The load of a derivation, from the loads of its parts -/

theorem peak_number (n : Number) (K : List Opened) :
    Nest.peak ⟨.operand, K⟩ [.number n] = K.length := by
  rw [Nest.peak_cons, Nest.peak_nil]
  exact Nat.max_self _

theorem Derives.peak_group {o : Bool} {ts : List Token} {e : Expr}
    (h : Derives .greedy (.chain .sum) o ts e) (K : List Opened) :
    Nest.peak ⟨.operand, K⟩ (.mark .leftParen :: (ts ++ [.mark .rightParen])) =
      Nest.peak ⟨.operand, .group :: K⟩ ts := by
  obtain ⟨j, -, hj⟩ := h.after (.group :: K)
  have hlow := Nest.le_peak ⟨.operand, .group :: K⟩ ts
  have hhigh := Nest.after_le_peak ⟨.operand, .group :: K⟩ ts
  have hstep : Nest.step ⟨.operand, K⟩ (.mark .leftParen) = ⟨.operand, .group :: K⟩ := rfl
  rw [Nest.peak_cons, hstep, Nest.peak_append, hj, Nest.peak_cons, Nest.step_close, Nest.peak_nil]
  rw [hj] at hhigh
  simp only [List.length_cons] at hlow hhigh ⊢
  omega

theorem peak_sign (σ : Sign) (ts : List Token) (K : List Opened) :
    Nest.peak ⟨.operand, K⟩ (.mark σ.mark :: ts) = Nest.peak ⟨.operand, .sign :: K⟩ ts := by
  have hlow := Nest.le_peak ⟨.operand, .sign :: K⟩ ts
  rw [Nest.peak_cons, Nest.step_sign]
  simp only [List.length_cons] at hlow ⊢
  omega

theorem Derives.peak_binary {c : Category} {ts : List Token} {e : Expr}
    (h : Derives .greedy c false ts e) (op : Operator) (us : List Token) (K : List Opened) :
    Nest.peak ⟨.operand, K⟩ (ts ++ .mark op.mark :: us) =
      max (Nest.peak ⟨.operand, K⟩ ts) (Nest.peak ⟨.operand, K⟩ us) := by
  obtain ⟨j, hj, hafter⟩ := h.after K
  obtain rfl := hj rfl
  have hlow := Nest.le_peak ⟨.operand, K⟩ us
  rw [Nest.peak_append, hafter, List.replicate_zero, List.nil_append, Nest.peak_cons,
    Nest.step_operator]
  dsimp only at hlow ⊢
  omega

/-- Every sign on a path of the tree is open at some place of the tokens, with all signs above it. -/
theorem Derives.signDepth_le_peak {c : Category} {o : Bool} {ts : List Token} {e : Expr}
    (h : Derives .greedy c o ts e) (K : List Opened) :
    K.length + e.signDepth ≤ Nest.peak ⟨.operand, K⟩ ts := by
  induction h generalizing K with
  | number n => exact Nat.le_of_eq (peak_number n K).symm
  | group hin ih =>
    have h := ih (.group :: K)
    rw [hin.peak_group]
    simp only [List.length_cons] at h
    omega
  | sign σ _ ih =>
    have h := ih (.sign :: K)
    rw [peak_sign]
    simp only [List.length_cons, Expr.signDepth] at h ⊢
    omega
  | single _ ih => exact ih K
  | binary op hl _ ho ihl ihr =>
    obtain rfl := ho rfl
    have hleft := ihl K
    have hright := ihr K
    rw [hl.peak_binary]
    simp only [Expr.signDepth]
    omega

end Abacus
