import Abacus.Proofs.DoubleRounding

/-! # Reading a decimal as a double

The bits of a normal double are its exponent and its mantissa. A decimal fraction is read by dividing
its digits by a power of ten; both are first made doubles where both fit, and left as they are where
not. Either way the quotient is rounded once, so what is read is the double that covers the fraction.
-/
namespace Abacus

open Float.Model (Format UnpackedFloat totalExponent)
open Float.Model.UnpackedFloat (ExtendedMantissa decreaseExponent)

/-! ## The bits of a double -/

/-- The bits of the double: the mantissa fills up to the place of the exponent, so its leading bit
counts as one more in the exponent. -/
def Binary.bits (x : Binary) : ℕ := (x.exponent + 1074).toNat * 2 ^ 52 + x.mantissa

theorem exponentBias_binary64 : Format.binary64.exponentBias = 1023 :=
  rfl

theorem toNat_append {a b : ℕ} (u : BitVec a) (w : BitVec b) :
    (u ++ w).toNat = u.toNat * 2 ^ b + w.toNat := by
  rw [BitVec.toNat_append, ← Nat.shiftLeft_add_eq_or_of_lt w.isLt, Nat.shiftLeft_eq]

theorem Binary.IsNormal.log2 {x : Binary} (hx : x.IsNormal) : x.mantissa.log2 = 52 :=
  (Nat.log2_eq_iff hx.mantissa_pos.ne').mpr ⟨hx.low, hx.high⟩

theorem pack_eq {x : Binary} (hx : x.IsNormal) (s : UnpackedFloat.Sign) :
    UnpackedFloat.pack .binary64 (.finite s x.mantissa x.exponent hx.mantissa_pos) =
      UnpackedFloat.packComponents .binary64 s (BitVec.ofNat 11 (x.exponent + 1075).toNat)
        (BitVec.ofNat 52 x.mantissa) := by
  have hbias : x.exponent + Format.binary64.exponentBias + (52 : ℕ) = x.exponent + 1075 := by
    rw [exponentBias_binary64]
    omega
  have hfits : ¬ 2 ^ 11 ≤ (x.exponent + 1075).toNat + 1 := by
    have hmost := hx.most
    omega
  have hfull : x.mantissa.log2 + 1 = Format.binary64.mantissaBits := by rw [hx.log2]; rfl
  simp only [UnpackedFloat.pack, hbias, hfull, if_neg hfits, if_true]

theorem toBits_pack {x : Binary} (hx : x.IsNormal) :
    (Float.Model.pack (.finite .positive x.mantissa x.exponent hx.mantissa_pos)).toBits.toNat = x.bits := by
  have hlow := hx.low
  have hhigh := hx.high
  have hleast := hx.least
  have hmost := hx.most
  change (UnpackedFloat.pack .binary64 (.finite .positive x.mantissa x.exponent hx.mantissa_pos)).toNat = _
  rw [pack_eq hx, UnpackedFloat.packComponents, toNat_append, toNat_append, BitVec.toNat_ofNat,
    BitVec.toNat_ofNat, Binary.bits]
  change (0 * 2 ^ 11 + (x.exponent + 1075).toNat % 2 ^ 11) * 2 ^ 52 + x.mantissa % 2 ^ 52 = _
  omega

theorem toNat_unpackMantissa (b : BitVec 64) :
    (@UnpackedFloat.unpackMantissa .binary64 b).toNat = b.toNat % 2 ^ 52 := by
  simp [UnpackedFloat.unpackMantissa, BitVec.extractLsb_toNat]

theorem toNat_unpackExponent (b : BitVec 64) :
    (@UnpackedFloat.unpackExponent .binary64 b).toNat = b.toNat / 2 ^ 52 % 2 ^ 11 := by
  simp [UnpackedFloat.unpackExponent, BitVec.extractLsb_toNat, Nat.shiftRight_eq_div_pow]

theorem toNat_unpackSign (b : BitVec 64) :
    (@UnpackedFloat.unpackSign .binary64 b).toNat = b.toNat / 2 ^ 63 := by
  have hlt := b.isLt
  simp only [UnpackedFloat.unpackSign, BitVec.toNat_cast, BitVec.extractLsb_toNat,
    Nat.shiftRight_eq_div_pow]
  omega

theorem unpack_of_bits {x : Binary} (hx : x.IsNormal) {y : Float.Model} (h : y.toBits.toNat = x.bits) :
    y.unpack = .finite .positive x.mantissa x.exponent hx.mantissa_pos := by
  have ⟨hlow, hhigh, _, hleast, hmost⟩ := hx
  have hbits : y.toBits.toBitVec.toNat = x.bits := h
  rw [Binary.bits] at hbits
  have hsign : @UnpackedFloat.unpackSign .binary64 y.toBits.toBitVec = 0#1 := by
    rw [← BitVec.toNat_inj, toNat_unpackSign, hbits, BitVec.toNat_ofNat]
    omega
  have hexp : (@UnpackedFloat.unpackExponent .binary64 y.toBits.toBitVec).toNat =
      (x.exponent + 1075).toNat := by
    rw [toNat_unpackExponent, hbits]
    omega
  have hfinite : @UnpackedFloat.unpackExponent .binary64 y.toBits.toBitVec ≠ -1#_ := by
    rw [ne_eq, ← BitVec.toNat_inj, hexp]
    change (x.exponent + 1075).toNat ≠ 2047
    omega
  have hnormal : @UnpackedFloat.unpackExponent .binary64 y.toBits.toBitVec ≠ 0#_ := by
    rw [ne_eq, ← BitVec.toNat_inj, hexp]
    change (x.exponent + 1075).toNat ≠ 0
    omega
  have hmantissa : (1#1 ++ @UnpackedFloat.unpackMantissa .binary64 y.toBits.toBitVec).toNat =
      x.mantissa := by
    rw [toNat_append, toNat_unpackMantissa, hbits]
    change 1 * 2 ^ 52 + _ = _
    omega
  have hexponent : ((x.exponent + 1075).toNat : ℤ) - (Format.binary64.exponentBias + (52 : ℕ)) =
      x.exponent := by
    rw [exponentBias_binary64]
    omega
  simp only [Float.Model.unpack, UnpackedFloat.unpack, if_neg hfinite, if_neg hnormal, hexp, hsign,
    hmantissa, hexponent]
  rfl

theorem exists_normal_of_unpack {y : Float.Model} {m : ℕ} {e : ℤ} {hm : 0 < m}
    (h : y.unpack = .finite .positive m e hm) (he : -1073 ≤ e) :
    ∃ x : Binary, x.IsNormal ∧ x.mantissa = m ∧ x.exponent = e ∧ y.toBits.toNat = x.bits := by
  have hlt := y.toBits.toBitVec.isLt
  have hE := toNat_unpackExponent y.toBits.toBitVec
  have hF := toNat_unpackMantissa y.toBits.toBitVec
  have hS := toNat_unpackSign y.toBits.toBitVec
  have hbits : y.toBits.toBitVec.toNat = y.toBits.toNat := rfl
  simp only [Float.Model.unpack, UnpackedFloat.unpack] at h
  rw [exponentBias_binary64] at h
  split at h
  · split at h <;> cases h
  · rename_i hfinite
    rw [← BitVec.toNat_inj, hE] at hfinite
    split at h
    · -- Without a leading bit the exponent is the least one.
      rename_i hzero
      rw [← BitVec.toNat_inj, hE] at hzero
      split at h
      · cases h
      · rw [UnpackedFloat.finite.injEq, hE] at h
        change _ = 0 at hzero
        omega
    · rename_i hnormal
      rw [← BitVec.toNat_inj, hE] at hnormal
      rw [UnpackedFloat.finite.injEq, hE, toNat_append, hF] at h
      obtain ⟨hsign, hmantissa, hexponent⟩ := h
      have hpositive : y.toBits.toBitVec.toNat / 2 ^ 63 = 0 := by
        rw [UnpackedFloat.Sign.ofBitVec] at hsign
        split at hsign
        · rename_i hbit
          rw [← hS, hbit]
          rfl
        · cases hsign
      change _ ≠ 2047 at hfinite
      change _ ≠ 0 at hnormal
      change 1 * 2 ^ 52 + _ = m at hmantissa
      refine ⟨⟨m, e, decide (m = 2 ^ 52)⟩, ⟨?_, ?_, rfl, he, ?_⟩, rfl, rfl, ?_⟩
      · dsimp only
        omega
      · dsimp only
        omega
      · dsimp only
        omega
      · rw [← hbits, Binary.bits]
        dsimp only
        omega

/-- The bits determine the double, and they are those of its packed form. -/
theorem ofModel_pack_of_bits {x : Binary} (hx : x.IsNormal) {y : Float} (h : y.toBits.toNat = x.bits) :
    Float.ofModel (.pack (.finite .positive x.mantissa x.exponent hx.mantissa_pos)) = y := by
  have hbits : (Float.Model.pack (.finite .positive x.mantissa x.exponent hx.mantissa_pos)).toBits =
      y.toModel.toBits := UInt64.toNat_inj.mp ((toBits_pack hx).trans h.symm)
  rcases y with ⟨bits, valid⟩
  rw [Float.ofModel.injEq, Float.Model.mk.injEq]
  exact hbits

theorem Double.ofBits_of_bits {x : Binary} (hx : x.IsNormal) {bits : UInt64} (h : bits.toNat = x.bits) :
    Double.ofBits bits = .finite false x := by
  have ⟨hlow, hhigh, hnarrow, hleast, hmost⟩ := hx
  rw [Binary.bits] at h
  have hnegative : (bits >>> 63 == 1) = false := by
    rw [beq_eq_false_iff_ne, ne_eq, ← UInt64.toNat_inj, UInt64.toNat_shiftRight, Nat.shiftRight_eq_div_pow]
    change ¬ bits.toNat / 2 ^ 63 = 1
    omega
  have hexponent : (bits >>> 52 &&& 0x7FF).toNat = (x.exponent + 1075).toNat := by
    rw [UInt64.toNat_and, UInt64.toNat_shiftRight, Nat.shiftRight_eq_div_pow]
    have hmod := Nat.and_two_pow_sub_one_eq_mod (bits.toNat / 2 ^ 52) 11
    change bits.toNat / 2 ^ 52 &&& (2 ^ 11 - 1) = _
    omega
  have hfraction : (bits &&& 0xFFFFFFFFFFFFF).toNat = x.mantissa - 2 ^ 52 := by
    have hmod := Nat.and_two_pow_sub_one_eq_mod bits.toNat 52
    rw [UInt64.toNat_and]
    change bits.toNat &&& (2 ^ 52 - 1) = _
    omega
  have hfinite : (x.exponent + 1075).toNat ≠ 0x7FF := by omega
  have hnormal : (x.exponent + 1075).toNat ≠ 0 := by omega
  have hwhole : 0x10000000000000 + (x.mantissa - 2 ^ 52) = x.mantissa := by omega
  have hvalue : ((x.exponent + 1075).toNat : ℤ) - 1075 = x.exponent := by omega
  have hbelow : (decide (x.mantissa - 2 ^ 52 = 0) && decide (1 < (x.exponent + 1075).toNat)) =
      x.narrowBelow := by
    rw [hnarrow, decide_eq_true (show 1 < (x.exponent + 1075).toNat by omega), Bool.and_true]
    exact decide_eq_decide.mpr (by omega)
  simp only [Double.ofBits, hnegative, hexponent, hfraction, if_neg hfinite, if_neg hnormal, hwhole, hvalue,
    hbelow]

/-! ## Naturals that are doubles -/

/-- The double `a · 2 ^ j` with its mantissa at full length. -/
def Binary.scaled (a : ℕ) (j : ℤ) : Binary :=
  ⟨a * 2 ^ (52 - a.log2), j - (52 - a.log2 : ℕ), decide (a * 2 ^ (52 - a.log2) = 2 ^ 52)⟩

theorem Binary.isNormal_scaled {a : ℕ} (ha : 0 < a) (hsmall : a < 2 ^ 53) {j : ℤ} (hj : -1000 ≤ j)
    (hj' : j ≤ 900) : (Binary.scaled a j).IsNormal := by
  obtain ⟨n, hn⟩ : ∃ n, a.log2 + n = 52 :=
    ⟨52 - a.log2, by have := (Nat.log2_lt ha.ne').mpr hsmall; omega⟩
  have hshift : 52 - a.log2 = n := by omega
  obtain ⟨hlow, hhigh⟩ := (Nat.log2_eq_iff ha.ne').mp (rfl : a.log2 = a.log2)
  have hpow : 2 ^ a.log2 * 2 ^ n = 2 ^ 52 := by rw [← pow_add, hn]
  refine ⟨?_, ?_, rfl, ?_, ?_⟩ <;> simp only [Binary.scaled, hshift]
  · rw [← hpow]
    exact Nat.mul_le_mul_right _ hlow
  · calc a * 2 ^ n < 2 ^ (a.log2 + 1) * 2 ^ n := Nat.mul_lt_mul_of_pos_right hhigh (by positivity)
      _ = 2 * (2 ^ a.log2 * 2 ^ n) := by ring
      _ = 2 ^ 53 := by rw [hpow]; norm_num
  · omega
  · omega

theorem Binary.value_scaled (a : ℕ) (j : ℤ) :
    ((Binary.scaled a j).mantissa : ℚ) * 2 ^ (Binary.scaled a j).exponent = a * 2 ^ j := by
  simp only [Binary.scaled]
  push_cast
  rw [zpow_sub₀ (by norm_num), zpow_natCast]
  field_simp

theorem Binary.covers_self (x : Binary) : x.Covers (x.mantissa * 2 ^ x.exponent) := by
  have hself : (x.mantissa : ℚ) * 2 ^ x.exponent / 2 ^ x.exponent = x.mantissa := by field_simp
  have hreach : 0 < x.reachBelow := by
    rw [Binary.reachBelow]
    split <;> norm_num
  rw [Binary.Covers, hself]
  exact ⟨.inl (by linarith), .inl (by linarith)⟩

theorem ofNat_eq {n : ℕ} (hn : 0 < n) (hsmall : n < 2 ^ 53) :
    ∃ hnormal : (Binary.scaled n 0).IsNormal, UnpackedFloat.ofNat .binary64 n =
      .finite .positive (Binary.scaled n 0).mantissa (Binary.scaled n 0).exponent
        hnormal.mantissa_pos := by
  have hnormal := Binary.isNormal_scaled hn hsmall (j := 0) (by decide) (by decide)
  have hlog := (Nat.log2_lt hn.ne').mpr hsmall
  have hsign : compare (n : ℤ) 0 = .gt := Int.compare_eq_gt.mpr (by omega)
  have htarget : Format.binary64.targetExponent (totalExponent n 0) = -((52 - n.log2 : ℕ) : ℤ) := by
    rw [targetExponent_eq, totalExponent]
    omega
  have hshift : decreaseExponent n 0 (-((52 - n.log2 : ℕ) : ℤ)) =
      ((Binary.scaled n 0).mantissa, (Binary.scaled n 0).exponent) := by
    have hamount : (0 - -((52 - n.log2 : ℕ) : ℤ)).toNat = 52 - n.log2 := by omega
    simp only [decreaseExponent, hamount, Nat.shiftLeft_eq, Binary.scaled]
  have hexact : Approximates (.ofMantissaAndAccuracy (Binary.scaled n 0).mantissa .exact)
      ((Binary.scaled n 0).mantissa * 2 ^ (Binary.scaled n 0).exponent /
        2 ^ (Binary.scaled n 0).exponent) := by
    have hself : ((Binary.scaled n 0).mantissa : ℚ) * 2 ^ (Binary.scaled n 0).exponent /
        2 ^ (Binary.scaled n 0).exponent = (Binary.scaled n 0).mantissa := by field_simp
    rw [hself]
    rfl
  have hround := roundWithAccuracy_of_covers hnormal (Binary.covers_self _) .positive hnormal.low
    (by have := hnormal.least; omega) hexact
  refine ⟨hnormal, ?_⟩
  simp only [UnpackedFloat.ofNat, UnpackedFloat.ofInt, UnpackedFloat.normalize, hsign, Int.toNat_natCast,
    UnpackedFloat.round, htarget, hshift, hround]

theorem unpack_toFloat {n : ℕ} (hn : 0 < n) (hsmall : n < 2 ^ 53) :
    ∃ hnormal : (Binary.scaled n 0).IsNormal, n.toUInt64.toFloat.toModel.unpack =
      .finite .positive (Binary.scaled n 0).mantissa (Binary.scaled n 0).exponent
        hnormal.mantissa_pos := by
  obtain ⟨hnormal, hofNat⟩ := ofNat_eq hn hsmall
  refine ⟨hnormal, unpack_of_bits hnormal ?_⟩
  have hword : n.toUInt64.toNat = n := UInt64.toNat_ofNat_of_lt (hsmall.trans (by decide))
  change (Float.Model.pack (UnpackedFloat.ofNat .binary64 n.toUInt64.toNat)).toBits.toNat = _
  rw [hword, hofNat, toBits_pack hnormal]

/-- The powers of ten that have a place in the table are doubles, since the powers of five are short. -/
theorem toBits_powers (k : ℕ) (hk : k < Float.exactlyRepresentablePowersOfTen.size) :
    5 ^ k < 2 ^ 53 ∧
      Float.exactlyRepresentablePowersOfTen[k].toBits.toNat = (Binary.scaled (5 ^ k) k).bits := by
  revert k
  decide +kernel

/-! ## Decimal fractions -/

section
variable {x : Binary} (hx : x.IsNormal) {m k : ℕ} (hv : x.Covers (m / 10 ^ k))
include hx hv

theorem digits_pos_of_covers : 0 < m := by
  have hlow := hv.low hx
  have hunit : (0 : ℚ) < 2 ^ x.exponent := by positivity
  rcases Nat.eq_zero_or_pos m with rfl | hpos
  · rw [Nat.cast_zero, zero_div] at hlow
    linarith
  · exact hpos

/-- A fraction that a normal double covers is not too small to be divided out. -/
theorem places_le_of_covers : k ≤ 1074 + m.log2 := by
  have hlow := hv.low hx
  have hleast : (2 : ℚ) ^ (-1073 : ℤ) ≤ 2 ^ x.exponent := zpow_le_zpow_right₀ (by norm_num) hx.least
  have hprod : (10 : ℚ) ^ k ≤ m * 2 ^ 1073 := by
    have h := hleast.trans hlow
    rw [zpow_neg, le_div_iff₀ (by positivity), inv_mul_le_iff₀ (by positivity)] at h
    rw [mul_comm]
    exact_mod_cast h
  have hnat : 10 ^ k ≤ m * 2 ^ 1073 := by exact_mod_cast hprod
  have hpow : 2 ^ k < 2 ^ (m.log2 + 1 + 1073) := by
    calc 2 ^ k ≤ 10 ^ k := Nat.pow_le_pow_left (by decide) k
      _ ≤ m * 2 ^ 1073 := hnat
      _ < 2 ^ (m.log2 + 1) * 2 ^ 1073 := Nat.mul_lt_mul_of_pos_right Nat.lt_log2_self (by positivity)
      _ = 2 ^ (m.log2 + 1 + 1073) := (pow_add _ _ _).symm
  have hlt := (Nat.pow_lt_pow_iff_right (by decide)).mp hpow
  omega

theorem unpacked_ofScientific (hk : 0 < k) :
    UnpackedFloat.ofScientific .binary64 m (Int.negOfNat k) =
      .finite .positive x.mantissa x.exponent hx.mantissa_pos := by
  have hm := digits_pos_of_covers hx hv
  have hplaces := places_le_of_covers hx hv
  have hneg : Int.negOfNat k = -(k : ℤ) := Int.negOfNat_eq
  have hten : ((-(-(k : ℤ))).toNat) = k := by omega
  have hnotlarge : ¬ -(k : ℤ) > 2 ^ Format.binary64.exponentBits := by
    change ¬ -(k : ℤ) > 2 ^ 11
    omega
  have hnotsmall : ¬ -(k : ℤ) < -((2 ^ Format.binary64.exponentBits : ℤ) + m.log2) := by
    change ¬ -(k : ℤ) < -((2 ^ 11 : ℤ) + m.log2)
    omega
  have hpower : 0 < 10 ^ k := Nat.pow_pos (by decide)
  have hdiv : UnpackedFloat.div .binary64 (.finite .positive m 0 hm) (.finite .positive (10 ^ k) 0 hpower) =
      .finite .positive x.mantissa x.exponent hx.mantissa_pos :=
    div_of_covers hx hm hpower (by decide) (by simpa using hv)
  rw [hneg, UnpackedFloat.ofScientific, dif_neg hm.ne', if_neg hnotlarge, if_neg hnotsmall,
    if_neg (show ¬ 0 ≤ -(k : ℤ) by omega)]
  simp only [hten]
  exact hdiv

theorem ofScientific_of_covers (hk : 0 < k) {y : Float} (hy : y.toBits.toNat = x.bits) :
    Float.ofScientific m true k = y := by
  rw [← ofModel_pack_of_bits hx hy, Float.ofScientific]
  split
  · rename_i hfast
    obtain ⟨hsmall, hshort⟩ := hfast
    have hm := digits_pos_of_covers hx hv
    have hk : k < Float.exactlyRepresentablePowersOfTen.size := Nat.lt_succ_of_le hshort
    obtain ⟨hfive, hbits⟩ := toBits_powers k hk
    obtain ⟨hnormal, hdigits⟩ := unpack_toFloat hm hsmall
    have hnormal' := Binary.isNormal_scaled (a := 5 ^ k) (j := k) (by positivity) hfive (by omega) (by omega)
    have hpower := unpack_of_bits hnormal' hbits
    have hquotient : (((Binary.scaled m 0).mantissa : ℚ) * 2 ^ (Binary.scaled m 0).exponent) /
        ((Binary.scaled (5 ^ k) k).mantissa * 2 ^ (Binary.scaled (5 ^ k) k).exponent) = m / 10 ^ k := by
      rw [Binary.value_scaled, Binary.value_scaled, zpow_zero, mul_one, zpow_natCast]
      push_cast
      rw [← mul_pow]
      norm_num
    have hexponents : -1074 ≤ (Binary.scaled m 0).exponent - (Binary.scaled (5 ^ k) k).exponent := by
      simp only [Binary.scaled]
      omega
    rw [← hquotient] at hv
    have hdiv := div_of_covers hx hnormal.mantissa_pos hnormal'.mantissa_pos hexponents hv
    rw [← hdigits, ← hpower] at hdiv
    exact congrArg (fun u => Float.ofModel (.pack u)) hdiv
  · simp only [if_true, Float.Model.ofScientific, unpacked_ofScientific hx hv hk]

end

end Abacus
