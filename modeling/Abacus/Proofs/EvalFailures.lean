import Abacus.Proofs.IntegerValue

/-! # Where evaluation fails

A node fails when its operands have values and its sign or operator refuses them. A tree fails exactly
when one of its nodes does, and the first of these, operands first and from left to right, decides the
failure. The kind of a value is known from the tree alone: it is a float exactly where there is a float
or a division below. So a node that overflows has integers below it only, all in range but for its own
value, and any other node that fails is a division.
-/
namespace Abacus

/-! ## One operation -/

theorem Number.ofInt_cases (v : Int) :
    (∃ i : Int64, Number.ofInt v = .ok (.int i)) ∨ (Number.ofInt v = .error .overflow ∧ ¬ Number.Fits v) := by
  by_cases hfits : Number.Fits v
  · obtain ⟨i, hi, -⟩ := Number.ofInt_of_fits hfits
    exact .inl ⟨i, hi⟩
  · exact .inr ⟨Number.ofInt_of_not_fits hfits, hfits⟩

theorem Number.isFloat_of_ofInt {v : Int} {n : Number} (h : Number.ofInt v = .ok n) :
    n.isFloat = false := by
  rcases Number.ofInt_cases v with ⟨i, hi⟩ | ⟨hoverflow, -⟩
  · cases hi.symm.trans h
    rfl
  · cases hoverflow.symm.trans h

theorem Number.eq_overflow_of_ofInt {v : Int} {x : ArithmeticError} (h : Number.ofInt v = .error x) :
    x = .overflow ∧ ¬ Number.Fits v := by
  rcases Number.ofInt_cases v with ⟨i, hi⟩ | ⟨hoverflow, hfits⟩
  · cases hi.symm.trans h
  · cases hoverflow.symm.trans h
    exact ⟨rfl, hfits⟩

/-- An operation on integers is exact, and one with a float among its operands gives a float. -/
theorem Operator.apply_cases (op : Operator) (a b : Number) :
    (∃ f i j, op.onInts? = some f ∧ a = .int i ∧ b = .int j ∧
      op.apply a b = Number.ofInt (f i.toInt j.toInt)) ∨
    (op = .div ∧ (b.toFloat == 0) = true ∧ op.apply a b = .error .divisionByZero) ∨
    ((op = .div ∨ a.isFloat = true ∨ b.isFloat = true) ∧ ∃ y, op.apply a b = .ok (.float y)) := by
  cases op with
  | div =>
    by_cases hzero : (b.toFloat == 0) = true
    · exact .inr (.inl ⟨rfl, hzero, if_pos hzero⟩)
    · exact .inr (.inr ⟨.inl rfl, _, if_neg hzero⟩)
  | _ =>
    cases a with
    | int i =>
      cases b with
      | int j => exact .inl ⟨_, i, j, rfl, rfl, rfl, rfl⟩
      | float y => exact .inr (.inr ⟨.inr (.inr rfl), _, rfl⟩)
    | float x => exact .inr (.inr ⟨.inr (.inl rfl), _, rfl⟩)

theorem Operator.ne_div_of_onInts? {op : Operator} {f : Int → Int → Int} (h : op.onInts? = some f) :
    op ≠ .div := by
  rintro rfl
  cases h

theorem Sign.apply_cases (s : Sign) (a : Number) :
    (∃ i, a = .int i ∧ s.apply a = Number.ofInt (s.onInt i.toInt)) ∨
      (a.isFloat = true ∧ ∃ y, s.apply a = .ok (.float y)) := by
  cases a with
  | int i => exact .inl ⟨i, rfl, s.apply_int i⟩
  | float x => cases s <;> exact .inr ⟨rfl, _, rfl⟩

theorem Operator.isFloat_apply {op : Operator} {a b v : Number} (h : op.apply a b = .ok v) :
    v.isFloat = true ↔ op = .div ∨ a.isFloat = true ∨ b.isFloat = true := by
  rcases op.apply_cases a b with ⟨f, i, j, hop, rfl, rfl, hresult⟩ | ⟨-, -, hresult⟩ | ⟨hfloat, y, hresult⟩
  · rw [Number.isFloat_of_ofInt (hresult.symm.trans h)]
    simp [Operator.ne_div_of_onInts? hop, Number.isFloat]
  · cases hresult.symm.trans h
  · cases hresult.symm.trans h
    exact iff_of_true rfl hfloat

theorem Sign.isFloat_apply {s : Sign} {a v : Number} (h : s.apply a = .ok v) : v.isFloat = a.isFloat := by
  rcases s.apply_cases a with ⟨i, rfl, hresult⟩ | ⟨hfloat, y, hresult⟩
  · exact Number.isFloat_of_ofInt (hresult.symm.trans h)
  · cases hresult.symm.trans h
    exact hfloat.symm

theorem Operator.apply_eq_error {op : Operator} {a b : Number} {x : ArithmeticError}
    (h : op.apply a b = .error x) :
    (x = .overflow ∧ ∃ f i j, op.onInts? = some f ∧ a = .int i ∧ b = .int j ∧
      ¬ Number.Fits (f i.toInt j.toInt)) ∨
    (x = .divisionByZero ∧ op = .div ∧ (b.toFloat == 0) = true) := by
  rcases op.apply_cases a b with ⟨f, i, j, hop, ha, hb, hresult⟩ | ⟨hdiv, hzero, hresult⟩ | ⟨-, y, hresult⟩
  · obtain ⟨hx, hfits⟩ := Number.eq_overflow_of_ofInt (hresult.symm.trans h)
    exact .inl ⟨hx, f, i, j, hop, ha, hb, hfits⟩
  · cases hresult.symm.trans h
    exact .inr ⟨rfl, hdiv, hzero⟩
  · cases hresult.symm.trans h

theorem Sign.apply_eq_error {s : Sign} {a : Number} {x : ArithmeticError} (h : s.apply a = .error x) :
    x = .overflow ∧ ∃ i, a = .int i ∧ ¬ Number.Fits (s.onInt i.toInt) := by
  rcases s.apply_cases a with ⟨i, ha, hresult⟩ | ⟨-, y, hresult⟩
  · obtain ⟨hx, hfits⟩ := Number.eq_overflow_of_ofInt (hresult.symm.trans h)
    exact ⟨hx, i, ha, hfits⟩
  · cases hresult.symm.trans h

namespace Expr

/-! ## The kind of a value -/

theorem eval_signed_eq_ok {s : Sign} {e : Expr} {v : Number} (h : (signed s e).eval = .ok v) :
    ∃ a, e.eval = .ok a ∧ s.apply a = .ok v := by
  cases he : e.eval with
  | error x => cases (eval_signed_of_error he).symm.trans h
  | ok a => exact ⟨a, rfl, (eval_signed_of_ok he).symm.trans h⟩

theorem eval_binary_eq_ok {op : Operator} {l r : Expr} {v : Number} (h : (binary op l r).eval = .ok v) :
    ∃ a b, l.eval = .ok a ∧ r.eval = .ok b ∧ op.apply a b = .ok v := by
  cases hl : l.eval with
  | error x => cases (eval_binary_of_left hl).symm.trans h
  | ok a =>
    cases hr : r.eval with
    | error x => cases (eval_binary_of_right hl hr).symm.trans h
    | ok b => exact ⟨a, b, rfl, rfl, (eval_binary_of_ok hl hr).symm.trans h⟩

theorem isFloat_of_eval {e : Expr} {v : Number} (h : e.eval = .ok v) :
    v.isFloat = true ↔ ¬ e.Integral := by
  induction e generalizing v with
  | literal n =>
    cases h
    simp [Integral]
  | signed s e ih =>
    obtain ⟨a, he, ha⟩ := eval_signed_eq_ok h
    rw [Sign.isFloat_apply ha, ih he, Integral]
  | binary op l r ihl ihr =>
    obtain ⟨a, b, hl, hr, hab⟩ := eval_binary_eq_ok h
    rw [Operator.isFloat_apply hab, ihl hl, ihr hr, Integral]
    tauto

/-- The root is a float or a division. -/
def MakesFloat : Expr → Prop
  | literal n => n.isFloat = true
  | signed _ _ => False
  | binary op _ _ => op = .div

theorem integral_iff {e : Expr} : e.Integral ↔ ∀ t ∈ e.subtrees, ¬ t.MakesFloat := by
  induction e with
  | literal n => simp [Integral, subtrees, MakesFloat]
  | signed s e ih =>
    rw [forall_subtrees_signed, ← ih, Integral, MakesFloat]
    simp
  | binary op l r ihl ihr =>
    rw [forall_subtrees_binary, ← ihl, ← ihr, Integral, MakesFloat]
    tauto

/-! ## The first node that fails -/

/-- The operands of the root have values, and its sign or operator refuses them. -/
inductive Fails : Expr → ArithmeticError → Prop where
  | signed {s : Sign} {e : Expr} {a : Number} {x : ArithmeticError} (he : e.eval = .ok a)
      (hx : s.apply a = .error x) : Fails (.signed s e) x
  | binary {op : Operator} {l r : Expr} {a b : Number} {x : ArithmeticError} (hl : l.eval = .ok a)
      (hr : r.eval = .ok b) (hx : op.apply a b = .error x) : Fails (.binary op l r) x

theorem Fails.eval_eq {t : Expr} {x : ArithmeticError} (h : t.Fails x) : t.eval = .error x := by
  cases h with
  | signed he hx => rw [eval_signed_of_ok he, hx]
  | binary hl hr hx => rw [eval_binary_of_ok hl hr, hx]

theorem not_fails_of_ok {e : Expr} {v : Number} (h : e.eval = .ok v) (x : ArithmeticError) :
    ¬ e.Fails x := by
  intro hx
  cases h.symm.trans hx.eval_eq

theorem not_fails_of_mem {e : Expr} {v : Number} (h : e.eval = .ok v) :
    ∀ t ∈ e.subtrees, ∀ x, ¬ t.Fails x := by
  induction e generalizing v with
  | literal n =>
    intro t ht
    rw [List.mem_singleton.mp ht]
    exact not_fails_of_ok h
  | signed s e ih =>
    obtain ⟨a, he, -⟩ := eval_signed_eq_ok h
    exact forall_subtrees_signed.mpr ⟨ih he, not_fails_of_ok h⟩
  | binary op l r ihl ihr =>
    obtain ⟨a, b, hl, hr, -⟩ := eval_binary_eq_ok h
    exact forall_subtrees_binary.mpr ⟨⟨ihl hl, ihr hr⟩, not_fails_of_ok h⟩

/-- The tree `t` fails with `x`, and no tree before it in the list fails. -/
def FirstFails (ts : List Expr) (t : Expr) (x : ArithmeticError) : Prop :=
  ∃ before after, ts = before ++ t :: after ∧ (∀ u ∈ before, ∀ y, ¬ u.Fails y) ∧ t.Fails x

section
variable {ts us : List Expr} {t : Expr} {x : ArithmeticError}

theorem FirstFails.mem (h : FirstFails ts t x) : t ∈ ts := by
  obtain ⟨before, after, rfl, -, -⟩ := h
  exact List.mem_append_right before List.mem_cons_self

theorem FirstFails.fails (h : FirstFails ts t x) : t.Fails x := by
  obtain ⟨-, -, -, -, hfails⟩ := h
  exact hfails

theorem FirstFails.append (h : FirstFails ts t x) (us : List Expr) : FirstFails (ts ++ us) t x := by
  obtain ⟨before, after, rfl, hbefore, ht⟩ := h
  exact ⟨before, after ++ us, by simp, hbefore, ht⟩

theorem FirstFails.prepend (h : FirstFails ts t x) (hus : ∀ u ∈ us, ∀ y, ¬ u.Fails y) :
    FirstFails (us ++ ts) t x := by
  obtain ⟨before, after, rfl, hbefore, ht⟩ := h
  exact ⟨us ++ before, after, by simp, List.forall_mem_append.mpr ⟨hus, hbefore⟩, ht⟩

theorem Fails.firstFails (h : t.Fails x) : FirstFails [t] t x := ⟨[], [], rfl, nofun, h⟩

end

/-- A failure comes from the first node that fails. -/
theorem exists_firstFails {e : Expr} {x : ArithmeticError} (h : e.eval = .error x) :
    ∃ t, FirstFails e.subtrees t x := by
  induction e with
  | literal n => cases h
  | signed s e ih =>
    cases he : e.eval with
    | error y =>
      cases (eval_signed_of_error he).symm.trans h
      obtain ⟨t, ht⟩ := ih he
      exact ⟨t, ht.append _⟩
    | ok a =>
      have hfails : (signed s e).Fails x := .signed he ((eval_signed_of_ok he).symm.trans h)
      exact ⟨_, hfails.firstFails.prepend (not_fails_of_mem he)⟩
  | binary op l r ihl ihr =>
    -- A failure on the left hides what stands behind it; otherwise nothing on the left fails.
    cases hl : l.eval with
    | error y =>
      cases (eval_binary_of_left hl).symm.trans h
      obtain ⟨t, ht⟩ := ihl hl
      exact ⟨t, (ht.append _).append _⟩
    | ok a =>
      cases hr : r.eval with
      | error y =>
        cases (eval_binary_of_right hl hr).symm.trans h
        obtain ⟨t, ht⟩ := ihr hr
        exact ⟨t, (ht.prepend (not_fails_of_mem hl)).append _⟩
      | ok b =>
        have hfails : (binary op l r).Fails x := .binary hl hr ((eval_binary_of_ok hl hr).symm.trans h)
        refine ⟨_, hfails.firstFails.prepend ?_⟩
        exact List.forall_mem_append.mpr ⟨not_fails_of_mem hl, not_fails_of_mem hr⟩

theorem exists_fails_iff {e : Expr} :
    (∃ x, e.eval = .error x) ↔ ∃ t ∈ e.subtrees, ∃ x, t.Fails x := by
  constructor
  · rintro ⟨x, hx⟩
    obtain ⟨t, ht⟩ := exists_firstFails hx
    exact ⟨t, ht.mem, x, ht.fails⟩
  · rintro ⟨t, ht, x, hx⟩
    cases he : e.eval with
    | error y => exact ⟨y, rfl⟩
    | ok v => exact absurd hx (not_fails_of_mem he t ht x)

/-! ## What a failing node looks like -/

/-- A tree with an integer as its value is integral, has this exact value, and all values in it are in
range. -/
theorem integral_of_eval_int {e : Expr} {i : Int64} (h : e.eval = .ok (.int i)) :
    e.Integral ∧ e.exactValue? = some i.toInt ∧ ∀ t ∈ e.subtrees, t.Fits := by
  have hintegral : e.Integral := by
    by_contra hnot
    cases (isFloat_of_eval h).mpr hnot
  have hfits : ∀ t ∈ e.subtrees, t.Fits := by
    by_contra hnot
    cases h.symm.trans (hintegral.eval_of_not_fits hnot)
  obtain ⟨j, hj, hvalue⟩ := eval_of_fits hfits
  cases h.symm.trans hj
  exact ⟨hintegral, hvalue, hfits⟩

/-- The tree is integral, its own value is out of range, and all values below are in range. -/
structure Overflows (t : Expr) : Prop where
  integral : t.Integral
  outside : ∃ v, t.exactValue? = some v ∧ ¬ (-2 ^ 63 ≤ v ∧ v ≤ 2 ^ 63 - 1)
  inside : ∀ u ∈ t.subtrees, u ≠ t → u.Fits

theorem Fails.overflows {t : Expr} (h : t.Fails .overflow) : t.Overflows := by
  cases h with
  | @signed s e a _ he hx =>
    obtain ⟨-, i, rfl, hout⟩ := Sign.apply_eq_error hx
    obtain ⟨hintegral, hvalue, hfits⟩ := integral_of_eval_int he
    rw [Number.fits_iff_range] at hout
    refine ⟨hintegral, ⟨_, exactValue?_signed hvalue, hout⟩, ?_⟩
    exact forall_subtrees_signed.mpr ⟨fun u hu _ => hfits u hu, fun hne => absurd rfl hne⟩
  | @binary op l r a b _ hl hr hx =>
    rcases Operator.apply_eq_error hx with ⟨-, f, i, j, hop, rfl, rfl, hout⟩ | ⟨hdiv, -⟩
    · obtain ⟨hlint, hlvalue, hlfits⟩ := integral_of_eval_int hl
      obtain ⟨hrint, hrvalue, hrfits⟩ := integral_of_eval_int hr
      rw [Number.fits_iff_range] at hout
      refine ⟨⟨Operator.ne_div_of_onInts? hop, hlint, hrint⟩,
        ⟨_, exactValue?_binary hop hlvalue hrvalue, hout⟩, ?_⟩
      exact forall_subtrees_binary.mpr
        ⟨⟨fun u hu _ => hlfits u hu, fun u hu _ => hrfits u hu⟩, fun hne => absurd rfl hne⟩
    · cases hdiv

theorem Fails.divides {t : Expr} (h : t.Fails .divisionByZero) :
    ∃ l r b, t = .binary .div l r ∧ r.eval = .ok b ∧ (b.toFloat == 0) = true := by
  cases h with
  | signed he hx =>
    obtain ⟨hx', -⟩ := Sign.apply_eq_error hx
    cases hx'
  | @binary op l r a b _ hl hr hx =>
    rcases Operator.apply_eq_error hx with ⟨hx', -⟩ | ⟨-, rfl, hzero⟩
    · cases hx'
    · exact ⟨l, r, b, rfl, hr, hzero⟩

/-- A value is a float exactly where the tree has a float or a division. A tree fails exactly where one of
its nodes fails, with the failure of the first that does. If this is an overflow, the node is integral
and no value below it is out of range but its own; otherwise it is a division and its divisor equals
zero. -/
theorem failures_are_located (e : Expr) :
    (∀ v, e.eval = .ok v → (v.isFloat = true ↔ ∃ t ∈ e.subtrees, t.MakesFloat)) ∧
    ((∃ x, e.eval = .error x) ↔ ∃ t ∈ e.subtrees, ∃ x, t.Fails x) ∧
    ∀ x, e.eval = .error x → ∃ t, FirstFails e.subtrees t x ∧
      (x = .overflow → t.Overflows) ∧
      (x = .divisionByZero →
        ∃ l r b, t = binary .div l r ∧ r.eval = .ok b ∧ (b.toFloat == 0) = true) := by
  refine ⟨fun v hv => ?_, exists_fails_iff, fun x hx => ?_⟩
  · rw [isFloat_of_eval hv, integral_iff]
    simp
  · obtain ⟨t, ht⟩ := exists_firstFails hx
    refine ⟨t, ht, ?_, ?_⟩
    · rintro rfl
      exact ht.fails.overflows
    · rintro rfl
      exact ht.fails.divides

end Expr

/-- Integers overflow inside a product of floats, before a division by the negative zero is reached. -/
theorem overflow_before_division :
    let sum : Expr := .binary .add (.literal (.int Int64.maxValue)) (.literal (.int 1))
    let quotient : Expr := .binary .div (.literal (.int 1)) (.literal (.float (-0.0)))
    let e : Expr := .binary .sub (.binary .mul (.literal (.float 1.5)) sum) quotient
    e.eval = .error .overflow ∧ quotient.Fails .divisionByZero ∧
      Expr.FirstFails e.subtrees sum .overflow ∧ sum.Overflows := by
  intro sum quotient e
  have heval : e.eval = .error .overflow := by decide +kernel
  have hquotient : quotient.Fails .divisionByZero := .binary rfl rfl (by decide +kernel)
  have honly : ∀ t ∈ e.subtrees, t.Integral → ¬ t.Fits → t = sum := by decide +kernel
  obtain ⟨t, hfirst, hoverflows, -⟩ := (Expr.failures_are_located e).2.2 _ heval
  obtain ⟨hintegral, ⟨v, hv, hout⟩, -⟩ := hoverflows rfl
  have hfits : ¬ t.Fits := by
    rwa [Expr.fits_iff_of_exactValue hv, Number.fits_iff_range]
  obtain rfl := honly t hfirst.mem hintegral hfits
  exact ⟨heval, hquotient, hfirst, hoverflows rfl⟩

end Abacus
