import Abacus.Decimal.Shortest
import Mathlib

/-! # Rounding to a double

A double covers the rationals that round to it. They reach halfway to either neighbour, and the ends
belong to the double with the even mantissa. A mantissa with a round bit and a sticky bit knows enough
of a rational to find the nearest integer, however far it is shifted; so a quotient of two naturals is
rounded to the double that covers it.
-/
namespace Abacus

open Float.Model (Format UnpackedFloat totalExponent)
open Float.Model.UnpackedFloat (Accuracy ExtendedMantissa accuracyOfFraction divCore roundWithAccuracy
  shiftToExponent shiftToTargetExponent)

/-! ## Rounding to an integer -/

/-- The rational rounds to the natural: it is less than a half away, or a half and the natural is even. -/
def RoundsTo (y : ℚ) (k : ℕ) : Prop :=
  (k - 1 / 2 < y ∨ k % 2 = 0 ∧ y = k - 1 / 2) ∧ (y < k + 1 / 2 ∨ k % 2 = 0 ∧ y = k + 1 / 2)

/-- What the two bits behind a mantissa say of a rational with this integral part. -/
def Approximates : ExtendedMantissa → ℚ → Prop
  | ⟨m, false, false⟩, y => y = m
  | ⟨m, false, true⟩, y => m < y ∧ y < m + 1 / 2
  | ⟨m, true, false⟩, y => y = m + 1 / 2
  | ⟨m, true, true⟩, y => m + 1 / 2 < y ∧ y < m + 1

theorem Approximates.bounds {em : ExtendedMantissa} {y : ℚ} (h : Approximates em y) :
    em.mantissa ≤ y ∧ y < em.mantissa + 1 := by
  rcases em with ⟨m, _ | _, _ | _⟩ <;> simp only [Approximates] at h ⊢ <;> constructor <;> linarith

theorem Approximates.shiftRightOne {em : ExtendedMantissa} {y : ℚ} (h : Approximates em y) :
    Approximates em.shiftRightOne (y / 2) := by
  rcases em with ⟨m, round, sticky⟩
  -- The bit shifted out becomes the round bit, and the round bit goes into the sticky bit.
  obtain ⟨bit, hbit, hsplit⟩ : ∃ bit : Bool, (m % 2 != 0) = bit ∧
      ((m / 2 : ℕ) : ℚ) * 2 + (bit.toNat : ℕ) = m := by
    have hhalf : ((m / 2 : ℕ) : ℚ) * 2 + (m % 2 : ℕ) = m := by exact_mod_cast Nat.div_add_mod' m 2
    rcases Nat.mod_two_eq_zero_or_one m with hm | hm
    · exact ⟨false, by simp [hm], by rw [hm] at hhalf; exact hhalf⟩
    · exact ⟨true, by simp [hm], by rw [hm] at hhalf; exact hhalf⟩
  cases bit <;> cases round <;> cases sticky <;>
    simp only [Approximates, ExtendedMantissa.shiftRightOne, hbit, Bool.or_self, Bool.or_true,
      Bool.or_false, Bool.toNat_true, Bool.toNat_false, Nat.cast_one, Nat.cast_zero] at h hsplit ⊢
  all_goals first
    | linarith
    | exact ⟨by linarith, by linarith⟩

theorem Approximates.shiftRight {em : ExtendedMantissa} {y : ℚ} (h : Approximates em y) (n : ℕ) :
    Approximates (em >>> n) (y / 2 ^ n) := by
  induction n with
  | zero =>
    rw [pow_zero, div_one]
    exact h
  | succ n ih =>
    have hstep := ih.shiftRightOne
    rw [div_div, ← pow_succ] at hstep
    exact hstep

theorem le_of_cast_lt_succ {a b : ℕ} (h : (a : ℚ) < b + 1) : a ≤ b := by
  exact Nat.lt_succ_iff.mp (by exact_mod_cast h)

theorem RoundsTo.bounds {y : ℚ} {k : ℕ} (h : RoundsTo y k) : k - 1 / 2 ≤ y ∧ y ≤ k + 1 / 2 := by
  obtain ⟨hlow | ⟨-, hlow⟩, hhigh | ⟨-, hhigh⟩⟩ := h <;> constructor <;> linarith

/-- The bits decide which natural is nearest. -/
theorem Approximates.roundedMantissa {em : ExtendedMantissa} {y : ℚ} (h : Approximates em y) {k : ℕ}
    (hk : RoundsTo y k) : em.roundedMantissa = k := by
  obtain ⟨hlow, hhigh⟩ := hk.bounds
  rcases em with ⟨m, _ | _, _ | _⟩ <;>
    simp only [Approximates, ExtendedMantissa.roundedMantissa, ExtendedMantissa.accuracy,
      Accuracy.roundToNearestEven] at h ⊢
  · have hle : m ≤ k := le_of_cast_lt_succ (by linarith)
    have hge : k ≤ m := le_of_cast_lt_succ (by linarith)
    omega
  · have hle : m ≤ k := le_of_cast_lt_succ (by linarith)
    have hge : k ≤ m := le_of_cast_lt_succ (by linarith)
    omega
  · -- Halfway between two naturals only the even one is left.
    have hle : m ≤ k := le_of_cast_lt_succ (by linarith)
    have hge : k ≤ m + 1 := le_of_cast_lt_succ (by push_cast; linarith)
    rcases Nat.lt_or_ge m k with hlt | hge'
    · obtain rfl : k = m + 1 := by omega
      obtain ⟨hlow | ⟨heven, -⟩, -⟩ := hk
      · push_cast at hlow
        linarith
      · omega
    · obtain rfl : k = m := by omega
      obtain ⟨-, hhigh | ⟨heven, -⟩⟩ := hk
      · linarith
      · omega
  · have hle : m + 1 ≤ k := le_of_cast_lt_succ (by push_cast; linarith)
    have hge : k ≤ m + 1 := le_of_cast_lt_succ (by push_cast; linarith)
    omega

/-! ## The interval of a double -/

theorem two_pow_mul_div_le {v : ℚ} (hv : 0 ≤ v) {n : ℕ} {a b : ℤ} (h : a + n ≤ b) :
    2 ^ n * (v / 2 ^ b) ≤ v / 2 ^ a := by
  have hpow : (2 : ℚ) ^ n * 2 ^ a ≤ 2 ^ b := by
    rw [← zpow_natCast, ← zpow_add₀ (by norm_num)]
    exact zpow_le_zpow_right₀ (by norm_num) (by omega)
  have hunit : (0 : ℚ) < 2 ^ b := by positivity
  rw [le_div_iff₀ (by positivity)]
  calc 2 ^ n * (v / 2 ^ b) * 2 ^ a = v / 2 ^ b * (2 ^ n * 2 ^ a) := by ring
    _ ≤ v / 2 ^ b * 2 ^ b := by gcongr
    _ = v := by field_simp

namespace Binary

def reachBelow (x : Binary) : ℚ := if x.narrowBelow then 1 / 4 else 1 / 2

/-- The rational rounds to this double. It is measured in units of the last place. -/
def Covers (x : Binary) (v : ℚ) : Prop :=
  (x.mantissa - x.reachBelow < v / 2 ^ x.exponent ∨
    x.mantissa % 2 = 0 ∧ v / 2 ^ x.exponent = x.mantissa - x.reachBelow) ∧
  (v / 2 ^ x.exponent < x.mantissa + 1 / 2 ∨
    x.mantissa % 2 = 0 ∧ v / 2 ^ x.exponent = x.mantissa + 1 / 2)

/-- The double has all its bits, with room for the next smaller exponent. -/
structure IsNormal (x : Binary) : Prop where
  low : 2 ^ 52 ≤ x.mantissa
  high : x.mantissa < 2 ^ 53
  narrow : x.narrowBelow = decide (x.mantissa = 2 ^ 52)
  least : -1073 ≤ x.exponent
  most : x.exponent ≤ 971

theorem IsNormal.mantissa_pos {x : Binary} (h : x.IsNormal) : 0 < x.mantissa :=
  Nat.lt_of_lt_of_le (by decide) h.low

theorem IsNormal.cast_low {x : Binary} (h : x.IsNormal) : (2 ^ 52 : ℚ) ≤ x.mantissa := by
  exact_mod_cast h.low

theorem Covers.roundsTo {x : Binary} {v : ℚ} (h : x.Covers v) :
    RoundsTo (v / 2 ^ x.exponent) x.mantissa := by
  have hreach : x.reachBelow ≤ 1 / 2 := by
    rw [reachBelow]
    split <;> norm_num
  refine ⟨?_, h.2⟩
  rcases h.1 with hlt | ⟨heven, heq⟩
  · exact .inl (by linarith)
  · rcases hreach.lt_or_eq with hlt | hhalf
    · exact .inl (by linarith)
    · exact .inr ⟨heven, by rw [heq, hhalf]⟩

theorem Covers.low {x : Binary} (hx : x.IsNormal) {v : ℚ} (hv : x.Covers v) :
    2 ^ x.exponent ≤ v := by
  have hlow := hv.roundsTo.bounds.1
  have hleast := hx.cast_low
  have hone : 1 ≤ v / 2 ^ x.exponent := by linarith
  rwa [le_div_iff₀ (by positivity), one_mul] at hone

theorem Covers.nonneg {x : Binary} (hx : x.IsNormal) {v : ℚ} (hv : x.Covers v) : 0 ≤ v :=
  le_trans (by positivity) (hv.low hx)

/-- A covered rational is found at the exponent of the double, or from just below a power of two at the
exponent before it. -/
theorem Covers.place {x : Binary} (hx : x.IsNormal) {v : ℚ} (h : x.Covers v) {t : ℤ}
    (hlow : 2 ^ 52 ≤ v / 2 ^ t) (hhigh : v / 2 ^ t < 2 ^ 53) :
    (t = x.exponent ∧ RoundsTo (v / 2 ^ t) x.mantissa) ∨
      (t = x.exponent - 1 ∧ x.mantissa = 2 ^ 52 ∧ RoundsTo (v / 2 ^ t) (2 ^ 53)) := by
  have hround := h.roundsTo
  obtain ⟨hbelow, habove⟩ := hround.bounds
  have hm := hx.cast_low
  have hm' : (x.mantissa : ℚ) + 1 ≤ 2 ^ 53 := by exact_mod_cast hx.high
  have hv := h.nonneg hx
  rcases lt_trichotomy t x.exponent with hlt | heq | hgt
  · rcases Int.lt_or_eq_of_le (Int.le_sub_one_of_lt hlt) with hfar | hnear
    · have hscale := two_pow_mul_div_le hv (show t + (2 : ℕ) ≤ x.exponent by omega)
      linarith
    · have hpow : (2 : ℚ) ^ x.exponent = 2 * 2 ^ t := by
        rw [hnear, zpow_sub_one₀ (by norm_num)]
        ring
      have hdouble : v / 2 ^ t = 2 * (v / 2 ^ x.exponent) := by
        rw [hpow]
        field_simp
      have hleast : x.mantissa = 2 ^ 52 := by
        have hle : x.mantissa ≤ 2 ^ 52 := le_of_cast_lt_succ (by push_cast; linarith)
        exact Nat.le_antisymm hle hx.low
      have hreach : x.reachBelow = 1 / 4 := by rw [reachBelow, hx.narrow, hleast]; rfl
      have hcast : (x.mantissa : ℚ) = 2 ^ 52 := by rw [hleast]; norm_num
      refine .inr ⟨hnear, hleast, ?_, ?_⟩
      · rcases h.1 with hlt' | ⟨-, heq⟩
        · left
          push_cast
          linarith
        · right
          refine ⟨by norm_num, ?_⟩
          push_cast
          linarith
      · left
        push_cast
        linarith
  · subst heq
    exact .inl ⟨rfl, hround⟩
  · have hscale := two_pow_mul_div_le hv (show x.exponent + (1 : ℕ) ≤ t by omega)
    linarith

end Binary

/-! ## Rounding lands in the double that covers -/

theorem targetExponent_eq (n : ℤ) : Format.binary64.targetExponent n = max (n - 53) (-1074) := by
  simp only [Format.targetExponent, Format.mantissaBits, Format.minExponent]
  norm_num

theorem shiftToTargetExponent_eq (m : ℕ) (e : ℤ) (acc : Accuracy) {n : ℕ}
    (h : max (m.log2 + e - 52) (-1074) = e + n) :
    shiftToTargetExponent .binary64 m e acc =
      (ExtendedMantissa.ofMantissaAndAccuracy m acc >>> n, e + n) := by
  have htarget : Format.binary64.targetExponent (totalExponent m e) = e + n := by
    rw [targetExponent_eq, totalExponent, ← h]
    congr 1
    omega
  have hshift : (e + n - e : ℤ).toNat = n := by omega
  simp only [shiftToTargetExponent, shiftToExponent, htarget, hshift]

theorem mantissa_ofMantissaAndAccuracy (m : ℕ) (acc : Accuracy) :
    (ExtendedMantissa.ofMantissaAndAccuracy m acc).mantissa = m := by
  rcases acc with _ | (_ | _ | _) <;> rfl

theorem shiftToTargetExponent_normal {m : ℕ} {e : ℤ} (hlow : 2 ^ 52 ≤ m) (hhigh : m < 2 ^ 53)
    (he : -1074 ≤ e) : shiftToTargetExponent .binary64 m e .exact = (⟨m, false, false⟩, e) := by
  have hlog : m.log2 = 52 := (Nat.log2_eq_iff (by omega)).mpr ⟨hlow, hhigh⟩
  rw [shiftToTargetExponent_eq (n := 0) m e .exact (by rw [hlog]; omega), Nat.cast_zero, add_zero]
  rfl

theorem shiftToTargetExponent_carry {e : ℤ} (he : -1074 ≤ e) :
    shiftToTargetExponent .binary64 (2 ^ 53) e .exact = (⟨2 ^ 52, false, false⟩, e + 1) := by
  rw [shiftToTargetExponent_eq (n := 1) (2 ^ 53) e .exact (by rw [Nat.log2_two_pow]; omega)]
  rfl

theorem roundWithAccuracy_of_covers {x : Binary} (hx : x.IsNormal) {v : ℚ} (hv : x.Covers v)
    (s : UnpackedFloat.Sign) {q : ℕ} {t : ℤ} {acc : Accuracy} (hq : 2 ^ 52 ≤ q) (ht : -1074 ≤ t)
    (h : Approximates (.ofMantissaAndAccuracy q acc) (v / 2 ^ t)) :
    roundWithAccuracy .binary64 s q t acc = .finite s x.mantissa x.exponent hx.mantissa_pos := by
  obtain ⟨n, hn⟩ : ∃ n, q.log2 = 52 + n := Nat.exists_eq_add_of_le ((Nat.le_log2 (by omega)).mpr hq)
  obtain ⟨hqlow, hqhigh⟩ := (Nat.log2_eq_iff (by omega)).mp hn
  have hfirst := shiftToTargetExponent_eq (n := n) q t acc (by rw [hn]; push_cast; omega)
  have hscale : v / 2 ^ t / 2 ^ n = v / 2 ^ (t + n) := by
    rw [div_div, zpow_add₀ (by norm_num), zpow_natCast]
  have hround := h.shiftRight n
  obtain ⟨hfloor, hceil⟩ := h.bounds
  rw [mantissa_ofMantissaAndAccuracy] at hfloor hceil
  rw [hscale] at hround
  have hlow : 2 ^ 52 ≤ v / 2 ^ (t + n) := by
    have hcast : (2 ^ (52 + n) : ℚ) ≤ q := by exact_mod_cast hqlow
    rw [← hscale, le_div_iff₀ (by positivity), ← pow_add]
    linarith
  have hhigh : v / 2 ^ (t + n) < 2 ^ 53 := by
    have hcast : (q : ℚ) + 1 ≤ 2 ^ (52 + n + 1) := by exact_mod_cast hqhigh
    have hpow : (2 : ℚ) ^ 53 * 2 ^ n = 2 ^ (52 + n + 1) := by ring
    rw [← hscale, div_lt_iff₀ (by positivity), hpow]
    linarith
  simp only [roundWithAccuracy, hfirst]
  rcases hv.place hx hlow hhigh with ⟨hexp, hk⟩ | ⟨hexp, hm, hk⟩
  · have hsecond := shiftToTargetExponent_normal hx.low hx.high (show -1074 ≤ t + n by omega)
    rw [hexp] at hsecond
    simp only [hround.roundedMantissa hk, hexp, hsecond]
    exact dif_neg hx.mantissa_pos.ne'
  · -- The rounding carries into the next power of two, where the mantissa is shifted once more.
    have hsecond := shiftToTargetExponent_carry (show -1074 ≤ t + n by omega)
    have hcarry : t + n + 1 = x.exponent := by omega
    simp only [hround.roundedMantissa hk, hsecond, hcarry, ← hm]
    exact dif_neg hx.mantissa_pos.ne'

/-! ## Division -/

theorem approximates_quotient (m : ℕ) {d : ℕ} (hd : 0 < d) :
    Approximates (.ofMantissaAndAccuracy (m / d) (accuracyOfFraction (m % d) d)) (m / d) := by
  have hpos : (0 : ℚ) < d := by exact_mod_cast hd
  have hsplit : (m : ℚ) / d = (m / d : ℕ) + (m % d : ℕ) / d := by
    have hnat : ((m / d : ℕ) : ℚ) * d + (m % d : ℕ) = m := by exact_mod_cast Nat.div_add_mod' m d
    rw [← hnat]
    field_simp
  have hrest : ((m % d : ℕ) : ℚ) < d := by exact_mod_cast Nat.mod_lt m hd
  rw [hsplit, accuracyOfFraction]
  generalize m / d = a at *
  generalize m % d = r at *
  split
  · rename_i hzero
    simp [hzero, ExtendedMantissa.ofMantissaAndAccuracy, Approximates]
  · rename_i hzero
    have hr : (0 : ℚ) < r := by exact_mod_cast Nat.pos_of_ne_zero hzero
    have hfraction : (0 : ℚ) < r / d := by positivity
    cases hcompare : compare (2 * r) d with
    | lt =>
      have hlt : (2 * r : ℚ) < d := by exact_mod_cast Nat.compare_eq_lt.mp hcompare
      have hhalf : (r : ℚ) / d < 1 / 2 := by
        rw [div_lt_iff₀ hpos]
        linarith
      constructor <;> linarith
    | eq =>
      have heq : (2 * r : ℚ) = d := by exact_mod_cast Nat.compare_eq_eq.mp hcompare
      have hhalf : (r : ℚ) / d = 1 / 2 := by
        rw [div_eq_iff hpos.ne']
        linarith
      exact congrArg ((a : ℚ) + ·) hhalf
    | gt =>
      have hgt : (d : ℚ) < 2 * r := by exact_mod_cast Nat.compare_eq_gt.mp hcompare
      have hhalf : 1 / 2 < (r : ℚ) / d := by
        rw [lt_div_iff₀ hpos]
        linarith
      have hone : (r : ℚ) / d < 1 := (div_lt_one hpos).mpr hrest
      constructor <;> linarith

theorem Binary.Covers.quotient_low {x : Binary} (hx : x.IsNormal) {v : ℚ} (hv : x.Covers v) {m m' k : ℕ}
    (hm : 0 < m) (hm' : 0 < m') {t : ℤ} (hquotient : ((m <<< k : ℕ) : ℚ) / m' = v / 2 ^ t)
    (ht : 53 + m'.log2 ≤ m.log2 + k ∨ t ≤ -1074) : 2 ^ 52 ≤ m <<< k / m' := by
  rw [Nat.le_div_iff_mul_le hm']
  rcases ht with hlong | hdeep
  · calc 2 ^ 52 * m' ≤ 2 ^ 52 * 2 ^ (m'.log2 + 1) := Nat.mul_le_mul_left _ Nat.lt_log2_self.le
      _ = 2 ^ (53 + m'.log2) := by ring
      _ ≤ 2 ^ (m.log2 + k) := Nat.pow_le_pow_right (by decide) hlong
      _ = 2 ^ m.log2 * 2 ^ k := pow_add _ _ _
      _ ≤ m * 2 ^ k := Nat.mul_le_mul_right _ (Nat.log2_self_le hm.ne')
      _ = m <<< k := (Nat.shiftLeft_eq m k).symm
  · have hlow := hv.roundsTo.bounds.1
    have hleast := hx.cast_low
    have hexponent : t + (1 : ℕ) ≤ x.exponent := by
      have hleast' := hx.least
      omega
    have hscale := two_pow_mul_div_le (hv.nonneg hx) hexponent
    have hfull : (2 ^ 52 : ℚ) ≤ v / 2 ^ t := by linarith
    rw [← hquotient, le_div_iff₀ (by exact_mod_cast hm')] at hfull
    exact_mod_cast hfull

/-- A quotient is rounded to the double that covers it. -/
theorem div_of_covers {x : Binary} (hx : x.IsNormal) {m m' : ℕ} {e e' : ℤ} (hm : 0 < m) (hm' : 0 < m')
    (he : -1074 ≤ e - e') (hv : x.Covers ((m * 2 ^ e) / (m' * 2 ^ e'))) :
    UnpackedFloat.div .binary64 (.finite .positive m e hm) (.finite .positive m' e' hm') =
      .finite .positive x.mantissa x.exponent hx.mantissa_pos := by
  obtain ⟨t, ht⟩ : ∃ t, t = min (e - e') (Format.binary64.targetExponent
    (totalExponent m e - totalExponent m' e')) := ⟨_, rfl⟩
  have htarget := ht
  rw [targetExponent_eq, totalExponent, totalExponent] at htarget
  obtain ⟨k, hk⟩ : ∃ k : ℕ, e - e' - t = k := Int.eq_ofNat_of_zero_le (by omega)
  have hcore : divCore .binary64 m e m' e' = (m <<< k / m', t, accuracyOfFraction (m <<< k % m') m') := by
    simp only [divCore, ← ht, hk, Int.toNat_natCast]
  have hquotient : ((m <<< k : ℕ) : ℚ) / m' = (m * 2 ^ e) / (m' * 2 ^ e') / 2 ^ t := by
    have hpow : (2 : ℚ) ^ e = 2 ^ k * 2 ^ e' * 2 ^ t := by
      rw [← zpow_natCast, ← hk, ← zpow_add₀ (by norm_num), ← zpow_add₀ (by norm_num)]
      congr 1
      omega
    rw [Nat.shiftLeft_eq, hpow]
    push_cast
    field_simp
  have hq := hv.quotient_low hx hm hm' hquotient (by omega)
  have hround := approximates_quotient (m <<< k) hm'
  rw [hquotient] at hround
  simp only [UnpackedFloat.div, hcore]
  exact roundWithAccuracy_of_covers hx hv _ hq (by omega) hround

end Abacus
