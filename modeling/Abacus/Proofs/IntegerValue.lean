import Abacus.Expr
import Mathlib

/-! # Exact values

A tree without floats and divisions has a value among all integers. Evaluation computes this value when
it and the values of all subtrees have 64 bits, and otherwise refuses the tree: one subtree out of range
is enough, even where the value of the whole tree is in range again. Nothing wraps.
-/
namespace Abacus

/-! ## Integers in range -/

theorem Number.fits_iff_range {v : Int} : Number.Fits v ↔ -2 ^ 63 ≤ v ∧ v ≤ 2 ^ 63 - 1 := by
  have hmin : Int64.minValue.toInt = -9223372036854775808 := rfl
  have hmax : Int64.maxValue.toInt = 9223372036854775807 := rfl
  rw [Number.Fits, hmin, hmax]
  omega

theorem Number.fits_toInt (i : Int64) : Number.Fits i.toInt := by
  have hlow := i.le_toInt
  have hhigh := i.toInt_lt
  rw [Number.fits_iff_range]
  omega

theorem Number.ofInt_of_fits {v : Int} (h : Number.Fits v) :
    ∃ i : Int64, Number.ofInt v = .ok (.int i) ∧ i.toInt = v := by
  obtain ⟨hlow, hhigh⟩ := Number.fits_iff_range.mp h
  exact ⟨.ofInt v, if_pos h, Int64.toInt_ofInt_of_le hlow (by omega)⟩

theorem Number.ofInt_of_not_fits {v : Int} (h : ¬ Number.Fits v) :
    Number.ofInt v = .error .overflow := if_neg h

theorem Number.ofInt_toInt (i : Int64) : Number.ofInt i.toInt = .ok (.int i) := by
  rw [Number.ofInt, if_pos (Number.fits_toInt i), Int64.ofInt_toInt]

def Sign.onInt : Sign → Int → Int
  | plus, v => v
  | minus, v => -v

/-- What an operator does to two integers. No integer is a quotient. -/
def Operator.onInts? : Operator → Option (Int → Int → Int)
  | add => some (· + ·)
  | sub => some (· - ·)
  | mul => some (· * ·)
  | div => none

theorem Sign.apply_int (s : Sign) (i : Int64) : s.apply (.int i) = Number.ofInt (s.onInt i.toInt) := by
  cases s with
  | plus => exact (Number.ofInt_toInt i).symm
  | minus => rfl

theorem Operator.apply_int {op : Operator} {f : Int → Int → Int} (h : op.onInts? = some f) (i j : Int64) :
    op.apply (.int i) (.int j) = Number.ofInt (f i.toInt j.toInt) := by
  cases op <;> cases h <;> rfl

theorem Operator.onInts?_of_ne {op : Operator} (h : op ≠ .div) : ∃ f, op.onInts? = some f := by
  cases op with
  | div => exact absurd rfl h
  | _ => exact ⟨_, rfl⟩

namespace Expr

/-! ## Integral trees -/

/-- The subtree at each node, the operands of a node before it and from left to right. -/
def subtrees : Expr → List Expr
  | literal n => [literal n]
  | signed s e => e.subtrees ++ [signed s e]
  | binary op l r => l.subtrees ++ r.subtrees ++ [binary op l r]

/-- No float among the literals and no division. -/
def Integral : Expr → Prop
  | literal n => n.isFloat = false
  | signed _ e => e.Integral
  | binary op l r => op ≠ .div ∧ l.Integral ∧ r.Integral

instance decidableIntegral : (e : Expr) → Decidable e.Integral
  | literal n => inferInstanceAs (Decidable (n.isFloat = false))
  | signed _ e => decidableIntegral e
  | binary op l r => @instDecidableAnd _ _ (inferInstanceAs (Decidable (op ≠ .div)))
      (@instDecidableAnd _ _ (decidableIntegral l) (decidableIntegral r))

/-- The value among all integers, which only integral trees have. -/
def exactValue? : Expr → Option Int
  | literal (.int i) => some i.toInt
  | literal (.float _) => none
  | signed s e => e.exactValue?.map s.onInt
  | binary op l r => op.onInts?.bind fun f => l.exactValue?.bind fun i => r.exactValue?.map (f i)

def Fits (e : Expr) : Prop := ∃ v ∈ e.exactValue?, -2 ^ 63 ≤ v ∧ v ≤ 2 ^ 63 - 1

instance (e : Expr) : Decidable e.Fits := inferInstanceAs (Decidable (∃ v ∈ e.exactValue?, _ ∧ _))

theorem fits_iff_of_exactValue {e : Expr} {v : Int} (h : e.exactValue? = some v) : e.Fits ↔ Number.Fits v := by
  rw [Number.fits_iff_range]
  constructor
  · rintro ⟨w, hw, hrange⟩
    rwa [Option.some.inj (h.symm.trans hw)]
  · exact fun hrange => ⟨v, h, hrange⟩

theorem exactValue?_signed {s : Sign} {e : Expr} {v : Int} (h : e.exactValue? = some v) :
    (signed s e).exactValue? = some (s.onInt v) := by
  rw [exactValue?, h, Option.map_some]

theorem exactValue?_binary {op : Operator} {l r : Expr} {f : Int → Int → Int} {v w : Int}
    (hop : op.onInts? = some f) (hl : l.exactValue? = some v) (hr : r.exactValue? = some w) :
    (binary op l r).exactValue? = some (f v w) := by
  rw [exactValue?, hop, hl, hr]
  rfl

theorem Integral.exists_exactValue {e : Expr} (h : e.Integral) : ∃ v, e.exactValue? = some v := by
  induction e with
  | literal n =>
    cases n with
    | int i => exact ⟨_, rfl⟩
    | float x => cases h
  | signed s e ih =>
    obtain ⟨v, hv⟩ := ih h
    exact ⟨_, exactValue?_signed hv⟩
  | binary op l r ihl ihr =>
    obtain ⟨hop, hl, hr⟩ := h
    obtain ⟨f, hf⟩ := Operator.onInts?_of_ne hop
    obtain ⟨v, hv⟩ := ihl hl
    obtain ⟨w, hw⟩ := ihr hr
    exact ⟨_, exactValue?_binary hf hv hw⟩

theorem forall_subtrees_signed {P : Expr → Prop} {s : Sign} {e : Expr} :
    (∀ t ∈ (signed s e).subtrees, P t) ↔ (∀ t ∈ e.subtrees, P t) ∧ P (signed s e) := by
  rw [subtrees, List.forall_mem_append, List.forall_mem_singleton]

theorem forall_subtrees_binary {P : Expr → Prop} {op : Operator} {l r : Expr} :
    (∀ t ∈ (binary op l r).subtrees, P t) ↔
      ((∀ t ∈ l.subtrees, P t) ∧ ∀ t ∈ r.subtrees, P t) ∧ P (binary op l r) := by
  rw [subtrees, List.forall_mem_append, List.forall_mem_append, List.forall_mem_singleton]

/-! ## Evaluation -/

theorem eval_signed_of_ok {s : Sign} {e : Expr} {a : Number} (h : e.eval = .ok a) :
    (signed s e).eval = s.apply a := by
  rw [eval, h]
  rfl

theorem eval_signed_of_error {s : Sign} {e : Expr} {x : ArithmeticError} (h : e.eval = .error x) :
    (signed s e).eval = .error x := by
  rw [eval, h]
  rfl

theorem eval_binary_of_ok {op : Operator} {l r : Expr} {a b : Number} (hl : l.eval = .ok a)
    (hr : r.eval = .ok b) : (binary op l r).eval = op.apply a b := by
  rw [eval, hl, hr]
  rfl

theorem eval_binary_of_left {op : Operator} {l r : Expr} {x : ArithmeticError} (hl : l.eval = .error x) :
    (binary op l r).eval = .error x := by
  rw [eval, hl]
  rfl

theorem eval_binary_of_right {op : Operator} {l r : Expr} {a : Number} {x : ArithmeticError}
    (hl : l.eval = .ok a) (hr : r.eval = .error x) : (binary op l r).eval = .error x := by
  rw [eval, hl, hr]
  rfl

theorem eval_of_fits {e : Expr} (h : ∀ t ∈ e.subtrees, t.Fits) :
    ∃ i : Int64, e.eval = .ok (.int i) ∧ e.exactValue? = some i.toInt := by
  induction e with
  | literal n =>
    cases n with
    | int i => exact ⟨i, rfl, rfl⟩
    | float x =>
      obtain ⟨v, hv, -⟩ := h _ (List.mem_singleton.mpr rfl)
      cases hv
  | signed s e ih =>
    obtain ⟨hin, hfits⟩ := forall_subtrees_signed.mp h
    obtain ⟨i, heval, hexact⟩ := ih hin
    have hvalue := exactValue?_signed (s := s) hexact
    obtain ⟨k, hk, hkv⟩ := Number.ofInt_of_fits ((fits_iff_of_exactValue hvalue).mp hfits)
    refine ⟨k, ?_, by rw [hvalue, hkv]⟩
    rw [eval_signed_of_ok heval, Sign.apply_int, hk]
  | binary op l r ihl ihr =>
    obtain ⟨⟨hleft, hright⟩, hfits⟩ := forall_subtrees_binary.mp h
    obtain ⟨i, hl, hlexact⟩ := ihl hleft
    obtain ⟨j, hr, hrexact⟩ := ihr hright
    obtain ⟨f, hf⟩ : ∃ f, op.onInts? = some f := by
      obtain ⟨v, hv, -⟩ := hfits
      obtain ⟨f, hf, -⟩ := Option.bind_eq_some_iff.mp hv
      exact ⟨f, hf⟩
    have hvalue := exactValue?_binary hf hlexact hrexact
    obtain ⟨k, hk, hkv⟩ := Number.ofInt_of_fits ((fits_iff_of_exactValue hvalue).mp hfits)
    refine ⟨k, ?_, by rw [hvalue, hkv]⟩
    rw [eval_binary_of_ok hl hr, Operator.apply_int hf, hk]

/-- One value out of range makes the whole tree overflow. -/
theorem Integral.eval_of_not_fits {e : Expr} (h : e.Integral) (hout : ¬ ∀ t ∈ e.subtrees, t.Fits) :
    e.eval = .error .overflow := by
  induction e with
  | literal n =>
    cases n with
    | int i =>
      refine absurd (fun t ht => ?_) hout
      rw [List.mem_singleton.mp ht]
      exact (fits_iff_of_exactValue rfl).mpr (Number.fits_toInt i)
    | float x => cases h
  | signed s e ih =>
    rw [forall_subtrees_signed] at hout
    by_cases hin : ∀ t ∈ e.subtrees, t.Fits
    · obtain ⟨i, heval, hexact⟩ := eval_of_fits hin
      have hfits : ¬ Number.Fits (s.onInt i.toInt) := fun hfits =>
        hout ⟨hin, (fits_iff_of_exactValue (exactValue?_signed hexact)).mpr hfits⟩
      rw [eval_signed_of_ok heval, Sign.apply_int, Number.ofInt_of_not_fits hfits]
    · exact eval_signed_of_error (ih h hin)
  | binary op l r ihl ihr =>
    rw [forall_subtrees_binary] at hout
    obtain ⟨hop, hlint, hrint⟩ := h
    -- Where both operands are in range, the value out of range is that of the root.
    by_cases hleft : ∀ t ∈ l.subtrees, t.Fits
    · obtain ⟨i, hl, hlexact⟩ := eval_of_fits hleft
      by_cases hright : ∀ t ∈ r.subtrees, t.Fits
      · obtain ⟨j, hr, hrexact⟩ := eval_of_fits hright
        obtain ⟨f, hf⟩ := Operator.onInts?_of_ne hop
        have hfits : ¬ Number.Fits (f i.toInt j.toInt) := fun hfits =>
          hout ⟨⟨hleft, hright⟩, (fits_iff_of_exactValue (exactValue?_binary hf hlexact hrexact)).mpr hfits⟩
        rw [eval_binary_of_ok hl hr, Operator.apply_int hf, Number.ofInt_of_not_fits hfits]
      · exact eval_binary_of_right hl (ihr hrint hright)
    · exact eval_binary_of_left (ihl hlint hleft)

/-- An integral tree has an exact value. Evaluation gives it when the exact values of all subtrees have
64 bits, and overflows otherwise. -/
theorem integers_exact_or_refused {e : Expr} (h : e.Integral) :
    ∃ v, e.exactValue? = some v ∧
      ((∀ t ∈ e.subtrees, t.Fits) → ∃ i : Int64, e.eval = .ok (.int i) ∧ i.toInt = v) ∧
      (¬ (∀ t ∈ e.subtrees, t.Fits) → e.eval = .error .overflow) := by
  obtain ⟨v, hv⟩ := h.exists_exactValue
  refine ⟨v, hv, fun hfits => ?_, h.eval_of_not_fits⟩
  obtain ⟨i, heval, hexact⟩ := eval_of_fits hfits
  exact ⟨i, heval, Option.some.inj (hexact.symm.trans hv)⟩

end Expr

/-- The least integer is reached from the greatest, and cannot be negated. Where one is added to the
greatest and taken off again, the exact value is in range and still the tree is refused. -/
theorem overflow_is_not_undone :
    let most : Expr := .literal (.int Int64.maxValue)
    let one : Expr := .literal (.int 1)
    let least : Expr := .binary .sub (.signed .minus most) one
    let cancelled : Expr := .binary .sub (.binary .add most one) one
    (least.Integral ∧ ∃ i : Int64, least.eval = .ok (.int i) ∧ i.toInt = -2 ^ 63) ∧
      (Expr.signed .minus least).eval = .error .overflow ∧
      cancelled.Integral ∧ cancelled.Fits ∧ cancelled.eval = .error .overflow := by
  intro most one least cancelled
  have hleast : least.Integral := by decide
  have hcancelled : cancelled.Integral := by decide
  have hexact : least.exactValue? = some (-2 ^ 63) := by decide +kernel
  obtain ⟨v, hv, hok, -⟩ := Expr.integers_exact_or_refused hleast
  obtain ⟨-, -, -, hnegated⟩ := Expr.integers_exact_or_refused (e := .signed .minus least) hleast
  obtain ⟨-, -, -, hrefused⟩ := Expr.integers_exact_or_refused hcancelled
  rw [Option.some.inj (hv.symm.trans hexact)] at hok
  refine ⟨⟨hleast, hok ?_⟩, hnegated ?_, hcancelled, ?_, hrefused ?_⟩ <;> decide +kernel

end Abacus
