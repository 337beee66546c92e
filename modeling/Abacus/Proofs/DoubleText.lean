import Abacus.Number.Text
import Abacus.Proofs.DoubleReading
import Abacus.Proofs.LexerSpelling

/-! # The text of a double reads back

The search for the shortest decimal compares scaled integers, which is to compare rationals; so the
decimal it finds, trimmed or not, is one that the double covers. From `1e-4` up to `1e16` it is written
with a point and with digits on both sides, which spell a decimal of the same value. Read again, this
is the double.
-/
namespace Abacus

open Float.Model (UnpackedFloat)

/-! ## The shortest decimal -/

def Decimal.value (d : Decimal) : ℚ := d.digits * 10 ^ d.exponent

theorem power_eq (base : ℕ) (e : ℤ) (h : base ≠ 0) :
    (power base e : ℚ) = base ^ e * power base (-e) := by
  have hpow : (base : ℚ) ≠ 0 := by exact_mod_cast h
  simp only [power, Nat.pow_eq]
  push_cast
  rw [← zpow_natCast, ← zpow_natCast, ← zpow_add₀ hpow]
  congr 1
  omega

theorem power_pos {base : ℕ} (h : 0 < base) (e : ℤ) : 0 < power base e := Nat.pow_pos h

/-- Two scaled integers compare as the rationals they stand for. -/
theorem compareScaled_eq (a : ℕ) (i : ℤ) (b : ℕ) (j : ℤ) :
    compareScaled a i b j = cmp ((a : ℚ) * 10 ^ i) (b * 2 ^ j) := by
  have hscale : (0 : ℚ) < power 10 (-i) * power 2 (-j) := by
    exact_mod_cast Nat.mul_pos (power_pos (by decide) _) (power_pos (by decide) _)
  have hleft : (a : ℚ) * 10 ^ i * (power 10 (-i) * power 2 (-j)) =
      (a * power 10 i * power 2 (-j) : ℕ) := by
    push_cast
    rw [power_eq 10 i (by decide)]
    push_cast
    ring
  have hright : (b : ℚ) * 2 ^ j * (power 10 (-i) * power 2 (-j)) =
      (b * power 2 j * power 10 (-i) : ℕ) := by
    push_cast
    rw [power_eq 2 j (by decide)]
    push_cast
    ring
  have hmono : StrictMono fun q : ℚ => q * (power 10 (-i) * power 2 (-j)) :=
    fun _ _ hlt => mul_lt_mul_of_pos_right hlt hscale
  have hcmp := hmono.cmp_map_eq ((a : ℚ) * 10 ^ i) (b * 2 ^ j)
  rw [hleft, hright, Nat.strictMono_cast.cmp_map_eq, cmp_eq_compare] at hcmp
  exact hcmp

namespace Binary

theorem readsBack_iff {x : Binary} (hx : 0 < x.mantissa) {d : Decimal} :
    x.readsBack d = true ↔ x.Covers d.value := by
  have hunit : (0 : ℚ) < 2 ^ x.exponent := by positivity
  have hquarter : (2 : ℚ) ^ (x.exponent - 2) = 2 ^ x.exponent / 4 := by
    rw [zpow_sub₀ (by norm_num)]
    norm_num
  have hlower : ((if x.narrowBelow then 4 * x.mantissa - 1 else 4 * x.mantissa - 2 : ℕ) : ℚ) *
      2 ^ (x.exponent - 2) = (x.mantissa - x.reachBelow) * 2 ^ x.exponent := by
    rw [hquarter, reachBelow]
    split
    · rw [Nat.cast_sub (by omega)]
      push_cast
      ring
    · rw [Nat.cast_sub (by omega)]
      push_cast
      ring
  have hupper : ((4 * x.mantissa + 2 : ℕ) : ℚ) * 2 ^ (x.exponent - 2) =
      (x.mantissa + 1 / 2) * 2 ^ x.exponent := by
    rw [hquarter]
    push_cast
    ring
  simp only [readsBack, compareScaled_eq, hlower, hupper, Bool.and_eq_true, Bool.or_eq_true, beq_iff_eq,
    cmp_eq_gt_iff, cmp_eq_eq_iff, cmp_eq_lt_iff]
  rw [Covers, lt_div_iff₀ hunit, div_eq_iff hunit.ne', div_lt_iff₀ hunit, div_eq_iff hunit.ne']
  rfl

theorem readsBack_of_nearestAt {x : Binary} {e : ℤ} {d : Decimal} (h : x.nearestAt e = some d) :
    x.readsBack d = true := by
  unfold nearestAt at h
  dsimp only at h
  split at h
  · rename_i hbelow habove
    split at h
    · cases h
      exact hbelow
    · cases h
      exact habove
  · rename_i hbelow _
    cases h
    exact hbelow
  · rename_i _ habove
    cases h
    exact habove
  · cases h

theorem value_expansion (x : Binary) : x.expansion.value = x.mantissa * 2 ^ x.exponent := by
  rw [Decimal.value, expansion]
  rcases Int.eq_nat_or_neg x.exponent with ⟨n, hn | hn⟩
  · have hfive : (-(n : ℤ)).toNat = 0 := by omega
    simp [hn, power, hfive]
  · have hmin : min (-(n : ℤ)) 0 = -n := by omega
    have htwo : (-(n : ℤ)).toNat = 0 := by omega
    have hten : (10 : ℚ) ^ n = 5 ^ n * 2 ^ n := by rw [← mul_pow]; norm_num
    simp only [hn, power, hmin, htwo, neg_neg, Int.toNat_natCast, Nat.pow_eq, zpow_neg, zpow_natCast, hten]
    push_cast
    field_simp

end Binary

theorem Decimal.value_trim (d : Decimal) : d.trim.value = d.value := by
  fun_induction Decimal.trim d with
  | case1 d h ih =>
    have hsplit : ((d.digits / 10 : ℕ) : ℚ) * 10 = d.digits := by
      exact_mod_cast Nat.div_mul_cancel (Nat.dvd_of_mod_eq_zero h.2)
    rw [ih, Decimal.value, Decimal.value, zpow_add_one₀ (by norm_num), ← hsplit]
    ring
  | case2 d h => rfl

theorem Binary.covers_shortest {x : Binary} (hx : 0 < x.mantissa) : x.Covers x.shortest.value := by
  rw [Binary.shortest, Decimal.value_trim]
  cases hfound : (List.range 17).findSome? fun (n : ℕ) => x.nearestAt (x.magnitude - 1 - n) with
  | none =>
    rw [Option.getD_none, value_expansion]
    exact x.covers_self
  | some d =>
    obtain ⟨n, -, hn⟩ := List.exists_of_findSome?_eq_some hfound
    exact (readsBack_iff hx).mp (readsBack_of_nearestAt hn)

/-! ## Positional notation -/

theorem digitsValue_append (a b : List Char) :
    digitsValue (a ++ b) = 10 ^ b.length * digitsValue a + digitsValue b := by
  rw [digitsValue, Nat.ofDigitChars_append, Nat.ofDigitChars_eq_ofDigitChars_zero]
  rfl

theorem digitsValue_zeros (n : ℕ) : digitsValue (List.replicate n '0') = 0 := by
  rw [digitsValue, Nat.ofDigitChars_replicate_zero, Nat.mul_zero]

theorem isDigit_zeros (n : ℕ) : ∀ d ∈ List.replicate n '0', d.isDigit = true := by
  intro d hd
  rw [List.eq_of_mem_replicate hd]
  rfl

theorem isNumeral_toDigits (n : ℕ) : IsNumeral (Nat.toDigits 10 n) :=
  ⟨Nat.toDigits_ne_nil, fun _ hd => Nat.isDigit_of_mem_toDigits (by decide) (by decide) hd⟩

theorem digitsValue_toDigits (n : ℕ) : digitsValue (Nat.toDigits 10 n) = n :=
  Nat.ofDigitChars_ten_toDigits

namespace Decimal

/-- The text has a point with digits on both sides, which spell a decimal of this value. -/
structure Pointed (text whole fraction : List Char) (v : ℚ) : Prop where
  text_eq : text = whole ++ '.' :: fraction
  whole_numeral : IsNumeral whole
  fraction_numeral : IsNumeral fraction
  value_eq : (ofDigits whole fraction).value = v

theorem value_ofDigits (whole fraction : List Char) :
    (ofDigits whole fraction).value = digitsValue (whole ++ fraction) / 10 ^ fraction.length := by
  rw [value, ofDigits, zpow_neg, zpow_natCast, div_eq_mul_inv]
  rfl

/-- Moving the point keeps the value, whether it falls before, among or behind the digits. -/
theorem pointed_positional {ds : List Char} (hds : IsNumeral ds) (point : ℤ) :
    ∃ whole fraction, Pointed (positional ds point) whole fraction
      (digitsValue ds * 10 ^ (point - ds.length)) := by
  rw [positional]
  split
  · rename_i hpoint
    obtain ⟨k, hk⟩ : ∃ k : ℕ, -point = k := Int.eq_ofNat_of_zero_le (by omega)
    have hshift : point - ds.length = -((k + ds.length : ℕ) : ℤ) := by omega
    refine ⟨['0'], List.replicate k '0' ++ ds, ?_, ⟨nofun, isDigit_zeros 1⟩, ⟨by simp [hds.1], ?_⟩, ?_⟩
    · rw [hk]
      rfl
    · exact List.forall_mem_append.mpr ⟨isDigit_zeros k, hds.2⟩
    · have hdigits : digitsValue (['0'] ++ (List.replicate k '0' ++ ds)) = digitsValue ds := by
        rw [← List.append_assoc, digitsValue_append]
        change 10 ^ ds.length * digitsValue (List.replicate (k + 1) '0') + digitsValue ds = digitsValue ds
        rw [digitsValue_zeros, Nat.mul_zero, Nat.zero_add]
      rw [value_ofDigits, hdigits, hshift, List.length_append, List.length_replicate, zpow_neg, zpow_natCast,
        div_eq_mul_inv]
  · split
    · rename_i hpoint hlt
      have hshift : point - ds.length = -((ds.length - point.toNat : ℕ) : ℤ) := by omega
      refine ⟨ds.take point.toNat, ds.drop point.toNat, rfl, ⟨?_, ?_⟩, ⟨?_, ?_⟩, ?_⟩
      · rw [← List.length_pos_iff, List.length_take]
        omega
      · exact fun d hd => hds.2 d (List.mem_of_mem_take hd)
      · rw [← List.length_pos_iff, List.length_drop]
        omega
      · exact fun d hd => hds.2 d (List.mem_of_mem_drop hd)
      · rw [value_ofDigits, List.take_append_drop, List.length_drop, hshift, zpow_neg, zpow_natCast,
          div_eq_mul_inv]
    · rename_i hpoint hge
      obtain ⟨k, hk⟩ : ∃ k : ℕ, point.toNat = ds.length + k := Nat.exists_eq_add_of_le (by omega)
      have hshift : point - ds.length = k := by omega
      refine ⟨ds ++ List.replicate k '0', ['0'], ?_, ⟨by simp [hds.1], ?_⟩, ⟨nofun, isDigit_zeros 1⟩, ?_⟩
      · rw [hk, Nat.add_sub_cancel_left]
      · exact List.forall_mem_append.mpr ⟨hds.2, isDigit_zeros k⟩
      · have hdigits : digitsValue (ds ++ List.replicate k '0' ++ ['0']) = 10 ^ (k + 1) * digitsValue ds := by
          rw [List.append_assoc, ← List.replicate_succ', digitsValue_append, digitsValue_zeros,
            List.length_replicate, Nat.add_zero]
        rw [value_ofDigits, hdigits, hshift, zpow_natCast]
        push_cast
        rw [List.length_singleton]
        field_simp
        ring

theorem value_bounds {d : Decimal} (hd : 0 < d.digits) :
    10 ^ ((Nat.toDigits 10 d.digits).length + d.exponent - 1) ≤ d.value ∧
      d.value < 10 ^ ((Nat.toDigits 10 d.digits).length + d.exponent) := by
  have hlength : 0 < (Nat.toDigits 10 d.digits).length := Nat.length_toDigits_pos
  obtain ⟨k, hk⟩ : ∃ k, (Nat.toDigits 10 d.digits).length = k + 1 := Nat.exists_eq_add_one.mpr hlength
  have hhigh : d.digits < 10 ^ (k + 1) := (Nat.length_toDigits_le_iff (by decide) (Nat.succ_pos k)).mp hk.le
  have hlow : 10 ^ k ≤ d.digits := by
    rcases Nat.eq_zero_or_pos k with rfl | hpos
    · exact hd
    · by_contra hlt
      have hle := (Nat.length_toDigits_le_iff (b := 10) (by decide) hpos).mpr (Nat.lt_of_not_le hlt)
      omega
  have hunit : (0 : ℚ) < 10 ^ d.exponent := by positivity
  have hplace : ((k + 1 : ℕ) : ℤ) + d.exponent - 1 = k + d.exponent := by omega
  rw [hk, value, hplace, zpow_add₀ (by norm_num), zpow_add₀ (by norm_num), zpow_natCast, zpow_natCast]
  constructor
  · gcongr
    exact_mod_cast hlow
  · gcongr
    exact_mod_cast hhigh

theorem pointed_text {d : Decimal} (hlow : 10 ^ (-4 : ℤ) ≤ d.value) (hhigh : d.value < 10 ^ (16 : ℤ)) :
    ∃ whole fraction, Pointed d.text.toList whole fraction d.value := by
  have hd : 0 < d.digits := by
    rcases Nat.eq_zero_or_pos d.digits with hzero | hpos
    · rw [value, hzero, Nat.cast_zero, zero_mul] at hlow
      norm_num at hlow
    · exact hpos
  obtain ⟨hplace, hplace'⟩ := value_bounds hd
  have habove := (zpow_lt_zpow_iff_right₀ (by norm_num)).mp (hlow.trans_lt hplace')
  have hbelow := (zpow_lt_zpow_iff_right₀ (by norm_num)).mp (hplace.trans_lt hhigh)
  have hpositional : isPositional ((Nat.toDigits 10 d.digits).length + d.exponent - 1) = true := by
    simp only [isPositional, Bool.and_eq_true, decide_eq_true_eq]
    omega
  obtain ⟨whole, fraction, hpointed⟩ := pointed_positional (isNumeral_toDigits d.digits)
    ((Nat.toDigits 10 d.digits).length + d.exponent)
  rw [digitsValue_toDigits, add_sub_cancel_left] at hpointed
  refine ⟨whole, fraction, ?_⟩
  simp only [text, String.toList_ofList, hpositional, if_true]
  exact hpointed

end Decimal

/-! ## Doubles from `1e-4` up to `1e16` -/

/-- The double next to `10 ^ -4`, just above it. -/
def Binary.leastPositional : Binary := ⟨0x1A36E2EB1C432D, -66, false⟩

def Binary.endPositional : Binary := ⟨5000000000000000, 1, false⟩

namespace Binary

theorem isNormal_leastPositional : leastPositional.IsNormal :=
  ⟨by decide, by decide, by decide, by decide, by decide⟩

theorem isNormal_endPositional : endPositional.IsNormal :=
  ⟨by decide, by decide, by decide, by decide, by decide⟩

/-- The double does not come before the first of the range, and comes before its end. -/
structure IsPositional (x : Binary) : Prop where
  low : -66 < x.exponent ∨ x.exponent = -66 ∧ 0x1A36E2EB1C432D ≤ x.mantissa
  high : x.exponent < 1 ∨ x.exponent = 1 ∧ x.mantissa < 5000000000000000

theorem Covers.low_of_le {x : Binary} {v : ℚ} (hv : x.Covers v) {m : ℕ} {e : ℤ} (hm : 0 < m)
    (hle : m ≤ x.mantissa) (he : e ≤ x.exponent) : (m - 1 / 2) * 2 ^ e ≤ v := by
  have hlow := hv.roundsTo.bounds.1
  rw [le_div_iff₀ (by positivity)] at hlow
  have hone : (1 : ℚ) ≤ m := by exact_mod_cast hm
  have hle' : (m : ℚ) ≤ x.mantissa := by exact_mod_cast hle
  have hpow : (2 : ℚ) ^ e ≤ 2 ^ x.exponent := zpow_le_zpow_right₀ (by norm_num) he
  calc (m - 1 / 2 : ℚ) * 2 ^ e ≤ (x.mantissa - 1 / 2) * 2 ^ x.exponent := by
        refine mul_le_mul (by linarith) hpow (by positivity) (by linarith)
    _ ≤ v := hlow

theorem Covers.high_of_le {x : Binary} {v : ℚ} (hv : x.Covers v) {m : ℕ} {e : ℤ}
    (hle : x.mantissa ≤ m) (he : x.exponent ≤ e) : v ≤ (m + 1 / 2) * 2 ^ e := by
  have hhigh := hv.roundsTo.bounds.2
  rw [div_le_iff₀ (by positivity)] at hhigh
  have hle' : (x.mantissa : ℚ) ≤ m := by exact_mod_cast hle
  have hpow : (2 : ℚ) ^ x.exponent ≤ 2 ^ e := zpow_le_zpow_right₀ (by norm_num) he
  calc v ≤ (x.mantissa + 1 / 2) * 2 ^ x.exponent := hhigh
    _ ≤ (m + 1 / 2) * 2 ^ e := by gcongr

theorem IsPositional.lt_end {x : Binary} (hx : x.IsNormal) (h : x.IsPositional) {v : ℚ} (hv : x.Covers v) :
    v < 10 ^ (16 : ℤ) := by
  rcases h.high with hsmall | ⟨hexp, hmantissa⟩
  · have hle := hv.high_of_le (Nat.le_pred_of_lt hx.high) (show x.exponent ≤ 0 by omega)
    norm_num at hle ⊢
    linarith
  · have hle := hv.high_of_le (Nat.le_pred_of_lt hmantissa) hexp.le
    norm_num at hle ⊢
    linarith

/-- The interval of the first double reaches below `10 ^ -4`, but the search finds `10 ^ -4` itself. -/
theorem shortest_leastPositional : leastPositional.shortest = ⟨1, -4⟩ := by decide +kernel

theorem IsPositional.le_shortest {x : Binary} (hx : x.IsNormal) (h : x.IsPositional) :
    10 ^ (-4 : ℤ) ≤ x.shortest.value := by
  have hv : x.Covers x.shortest.value := covers_shortest hx.mantissa_pos
  rcases h.low with hlarge | ⟨hexp, hmantissa⟩
  · have hle := hv.low_of_le (by norm_num) hx.low (show -65 ≤ x.exponent by omega)
    norm_num at hle ⊢
    linarith
  · rcases hmantissa.lt_or_eq with hlt | heq
    · have hle := hv.low_of_le (Nat.succ_pos _) hlt hexp.ge
      norm_num at hle ⊢
      linarith
    · have hfirst : x = leastPositional := by
        have hnarrow := hx.narrow
        rw [← heq] at hnarrow
        rcases x with ⟨m, e, narrow⟩
        subst heq hexp hnarrow
        rfl
      rw [hfirst, shortest_leastPositional]
      norm_num [Decimal.value]

end Binary

theorem toBits_leastPositional : (1e-4 : Float).toBits.toNat = Binary.leastPositional.bits := by
  decide +kernel

theorem toBits_endPositional : (1e16 : Float).toBits.toNat = Binary.endPositional.bits := by
  decide +kernel

theorem le_iff_unpack {x y : Float} :
    x ≤ y ↔ UnpackedFloat.le x.toModel.unpack y.toModel.unpack = true := by
  change decide (x.toModel ≤ y.toModel) = true ↔ _
  rw [decide_eq_true_iff]
  rfl

theorem lt_iff_unpack {x y : Float} :
    x < y ↔ UnpackedFloat.lt x.toModel.unpack y.toModel.unpack = true := by
  change decide (x.toModel < y.toModel) = true ↔ _
  rw [decide_eq_true_iff]
  rfl

/-- Only a positive finite double lies between two positive finite ones, and then exponents decide
before mantissas. -/
theorem exists_positional {x : Float} (hlow : 1e-4 ≤ x) (hhigh : x < 1e16) :
    ∃ b : Binary, b.IsNormal ∧ b.IsPositional ∧ x.toBits.toNat = b.bits := by
  rw [le_iff_unpack, unpack_of_bits Binary.isNormal_leastPositional toBits_leastPositional] at hlow
  rw [lt_iff_unpack, unpack_of_bits Binary.isNormal_endPositional toBits_endPositional] at hhigh
  cases hx : x.toModel.unpack with
  | notANumber => simp [hx, UnpackedFloat.le, UnpackedFloat.compare] at hlow
  | zero s => simp [hx, UnpackedFloat.le, UnpackedFloat.compare] at hlow
  | infinity s =>
    cases s with
    | negative => simp [hx, UnpackedFloat.le, UnpackedFloat.compare] at hlow
    | positive => simp [hx, UnpackedFloat.lt, UnpackedFloat.compare] at hhigh
  | finite s m e hm =>
    cases s with
    | negative => simp [hx, UnpackedFloat.le, UnpackedFloat.compare] at hlow
    | positive =>
      simp only [hx, UnpackedFloat.le, UnpackedFloat.compare, Option.any_some, Ordering.isLE_then_iff_or,
        Int.compare_eq_lt, Int.compare_eq_eq, Nat.isLE_compare] at hlow
      simp only [hx, UnpackedFloat.lt, UnpackedFloat.compare, beq_iff_eq, Option.some.injEq,
        Ordering.then_eq_lt, Int.compare_eq_lt, Int.compare_eq_eq, Nat.compare_eq_lt] at hhigh
      change -66 < e ∨ -66 = e ∧ 0x1A36E2EB1C432D ≤ m at hlow
      change e < 1 ∨ e = 1 ∧ m < 5000000000000000 at hhigh
      obtain ⟨b, hnormal, rfl, rfl, hbits⟩ := exists_normal_of_unpack hx (by omega)
      exact ⟨b, hnormal, ⟨hlow.imp_right (And.imp_left Eq.symm), hhigh⟩, hbits⟩

/-! ## Reading the text -/

theorem toFloat_ofDigits {b : Binary} (hb : b.IsNormal) {x : Float} (hx : x.toBits.toNat = b.bits)
    {whole fraction : List Char} (hfraction : fraction ≠ [])
    (hv : b.Covers (Decimal.ofDigits whole fraction).value) :
    (Decimal.ofDigits whole fraction).toFloat = x := by
  have hlength := List.length_pos_iff.mpr hfraction
  have hexponent : (Decimal.ofDigits whole fraction).exponent = -fraction.length := rfl
  have hnegative : (Decimal.ofDigits whole fraction).exponent < 0 := by omega
  have hplaces : (Decimal.ofDigits whole fraction).exponent.natAbs = fraction.length := by omega
  rw [Decimal.value_ofDigits] at hv
  rw [Decimal.toFloat, decide_eq_true hnegative, hplaces]
  exact ofScientific_of_covers hb hv hlength hx

theorem spelling_of_positional {x : Float} (hlow : 1e-4 ≤ x) (hhigh : x < 1e16) :
    Spelling (Number.float x).text.toList (.number (.float x)) := by
  obtain ⟨b, hb, hrange, hx⟩ := exists_positional hlow hhigh
  have hcovers := Binary.covers_shortest hb.mantissa_pos
  have htext : (Number.float x).text = b.shortest.text := by
    rw [Number.text, Double.ofBits_of_bits hb hx]
    simp [Double.text, Double.signText, hb.mantissa_pos.ne']
  obtain ⟨whole, fraction, hpointed⟩ :=
    Decimal.pointed_text (hrange.le_shortest hb) (hrange.lt_end hb hcovers)
  have hread := toFloat_ofDigits hb hx hpointed.fraction_numeral.1 (hpointed.value_eq ▸ hcovers)
  rw [htext, hpointed.text_eq, ← hread]
  exact .decimal hpointed.whole_numeral hpointed.fraction_numeral.2

theorem spelling_zero : Spelling (Number.float 0.0).text.toList (.number (.float 0.0)) := by
  have htext : (Number.float 0.0).text.toList = ['0'] ++ '.' :: ['0'] := by decide +kernel
  have hzero : (Decimal.ofDigits ['0'] ['0']).toFloat = 0.0 := rfl
  rw [htext, ← hzero]
  exact .decimal ⟨nofun, isDigit_zeros 1⟩ (isDigit_zeros 1)

end Abacus
