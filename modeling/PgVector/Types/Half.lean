import PgVector.Foundation.BinaryFormat
import PgVector.Types.Vector

/-!
# Converting half-precision numbers

A half that is neither infinite nor NaN converts to a finite `float4`, which is
zero exactly when the half is.
-/

namespace PgVector.Types

open Foundation
open Float.Model (Format UnpackedFloat)
open Float.Model.UnpackedFloat

theorem getLsbD_of_lt {w n i : ℕ} {b : BitVec w} (hb : b.toNat < 2 ^ n) (hi : n ≤ i) :
    b.getLsbD i = false :=
  Nat.testBit_lt_two_pow (hb.trans_le (Nat.pow_le_pow_right (by omega) hi))

theorem getLsbD_signMask {i : ℕ} (hi : i < 8) : (32768#32).getLsbD (23 + i - 16) = false := by
  revert i
  decide

def halfBits (num : Half) (exponent mantissa : UInt32) : BitVec Format.binary32.numBits :=
  ((num &&& 0x8000).toUInt32 <<< 16 ||| exponent <<< 23 ||| mantissa <<< 13).toBitVec

variable {mantissa : UInt32} (num : Half)

theorem unpackExponent_halfBits (exponent : UInt32) (hm : mantissa.toNat < 2 ^ 10) :
    unpackExponent (halfBits num exponent mantissa) = exponent.toBitVec.setWidth 8 := by
  ext i hi
  have hi : i < 8 := hi
  have hbits : 23 + i < Format.binary32.numBits := Nat.add_lt_add_left hi 23 |>.trans_le (by decide)
  have hmantissa : mantissa.toBitVec.getLsbD (23 + i - 13) = false :=
    getLsbD_of_lt hm (by omega)
  simp [halfBits, unpackExponent, BitVec.extractLsb]
  rw [getLsbD_signMask hi, hmantissa]
  simp only [hbits, decide_true, Bool.and_false, Bool.false_or, Bool.true_and, Bool.or_false]

theorem unpack_halfBits {exponent : UInt32} (hm : mantissa.toNat < 2 ^ 10)
    (hpos : 0 < exponent.toNat) (hlt : exponent.toNat < 255) :
    ∃ s m e h, unpack .binary32 (halfBits num exponent mantissa) = .finite s m e h := by
  have htoNat : (exponent.toBitVec.setWidth 8).toNat = exponent.toNat := by
    rw [BitVec.toNat_setWidth, UInt32.toNat_toBitVec, Nat.mod_eq_of_lt (by omega)]
  refine unpack_of_normal ?_ ?_ <;> rw [unpackExponent_halfBits num exponent hm] <;> intro h
  · have := congrArg BitVec.toNat h
    rw [htoNat] at this
    have : exponent.toNat = 255 := this
    omega
  · have := congrArg BitVec.toNat h
    rw [htoNat] at this
    have : exponent.toNat = 0 := this
    omega

/-- The numbers of half precision in units of the smallest number of single precision;
infinity takes the place of the next power of two. -/
def halfUnits (n : Nat) : Nat := units 10 n * 2 ^ 125

theorem halfUnits_strictMono : StrictMono halfUnits :=
  fun _ _ h => Nat.mul_lt_mul_of_pos_right (units_strictMono 10 h) (Nat.two_pow_pos 125)

theorem shiftSubnormal_units (n : Fin 1024) (hn : n ≠ 0) :
    let (exponent, mantissa) := shiftSubnormal 10 (-14) (.ofNat n)
    mantissa.toNat < 2 ^ 10 ∧ 0 < (exponent + 127).toNat ∧ (exponent + 127).toNat < 255 ∧
      units 23 ((exponent + 127).toNat * 2 ^ 23 + mantissa.toNat * 2 ^ 13) = halfUnits n := by
  revert n
  decide +kernel

theorem and_exponentMask (n : ℕ) : n &&& 0x7C00 = n / 2 ^ 10 % 32 * 2 ^ 10 := by
  have hdiv : (n &&& 0x7C00) / 2 ^ 10 = n / 2 ^ 10 % 32 := by
    rw [← Nat.shiftRight_eq_div_pow, ← Nat.shiftRight_eq_div_pow, Nat.shiftRight_and_distrib]
    exact Nat.and_two_pow_sub_one_eq_mod _ 5
  have hmod : (n &&& 0x7C00) % 2 ^ 10 = 0 := by
    rw [← Nat.and_two_pow_sub_one_eq_mod, Nat.and_assoc]
    exact Nat.and_zero n
  omega

theorem toNat_halfExponent :
    ((num &&& 0x7C00) >>> 10).toUInt32.toNat = num.toNat / 2 ^ 10 % 32 := by
  have h := and_exponentMask num.toNat
  simp only [UInt16.toNat_toUInt32, UInt16.toNat_shiftRight, UInt16.toNat_and, UInt16.reduceToNat]
  rw [h, Nat.shiftRight_eq_div_pow]
  simp

theorem half_exponent_ne {num : Half} (hnan : halfIsNan num = false)
    (hinf : halfIsInf num = false) : num.toNat / 2 ^ 10 % 32 ≠ 31 := by
  intro h
  have hmask : num &&& 0x7C00 = 0x7C00 := by
    refine UInt16.toNat_inj.mp ?_
    rw [UInt16.toNat_and]
    change num.toNat &&& 0x7C00 = _
    rw [and_exponentMask, h]
    rfl
  simp only [halfIsInf, beq_eq_false_iff_ne] at hinf
  simp [halfIsNan, hmask, hinf] at hnan

theorem halfIsZero_iff {num : Half} : halfIsZero num = true ↔ num.toNat % 2 ^ 15 = 0 := by
  rw [halfIsZero, beq_iff_eq, ← UInt16.toNat_inj, UInt16.toNat_and]
  change num.toNat &&& (2 ^ 15 - 1) = 0 ↔ _
  rw [Nat.and_two_pow_sub_one_eq_mod]

theorem unpack_ofBits_halfBits {exponent : UInt32} (hm : mantissa.toNat < 2 ^ 10)
    (hpos : 0 < exponent.toNat) (hlt : exponent.toNat < 255) :
    ∃ s m e h, (Float32.Model.ofBits ((num &&& 0x8000).toUInt32 <<< 16 |||
      exponent <<< 23 ||| mantissa <<< 13)).unpack = .finite s m e h := by
  obtain ⟨s, m, e, h, hunpack⟩ := unpack_halfBits num hm hpos hlt
  refine ⟨s, m, e, h, ?_⟩
  rw [unpack_ofBits] <;> exact hunpack ▸ rfl

theorem unpack_ofBits_sign :
    ∃ s, (Float32.Model.ofBits ((num &&& 0x8000).toUInt32 <<< 16)).unpack = .zero s := by
  have hand : num &&& 0x8000 = 0 ∨ num &&& 0x8000 = 0x8000 := by
    simp only [← UInt16.toNat_inj, UInt16.toNat_and]
    change num.toNat &&& 2 ^ 15 = 0 ∨ num.toNat &&& 2 ^ 15 = 2 ^ 15
    rw [Nat.and_two_pow]
    cases num.toNat.testBit 15 <;> simp
  cases hand with
  | inl h =>
    rw [h]
    exact ⟨.positive, rfl⟩
  | inr h =>
    rw [h]
    exact ⟨.negative, rfl⟩

theorem halfToFloat4_fields {num : Half} (hnan : halfIsNan num = false)
    (hinf : halfIsInf num = false) :
    ∃ exponent mantissa : UInt32,
      halfToFloat4 num = .ofBits ((num &&& 0x8000).toUInt32 <<< 16 ||| exponent <<< 23 |||
        mantissa <<< 13) ∧
      mantissa.toNat < 2 ^ 10 ∧ exponent.toNat < 255 ∧
      units 23 (exponent.toNat * 2 ^ 23 + mantissa.toNat * 2 ^ 13) =
        halfUnits (num.toNat % 2 ^ 15) := by
  have hne := half_exponent_ne hnan hinf
  have hexponent := toNat_halfExponent num
  have hmantissa : (num &&& 0x03FF).toUInt32.toNat = num.toNat % 2 ^ 10 := by
    rw [UInt16.toNat_toUInt32, UInt16.toNat_and]
    exact Nat.and_two_pow_sub_one_eq_mod _ 10
  simp only [halfToFloat4]
  generalize ((num &&& 0x7C00) >>> 10).toUInt32 = exponent at *
  generalize (num &&& 0x03FF).toUInt32 = mantissa at *
  have hfields : num.toNat % 2 ^ 15 = exponent.toNat * 2 ^ 10 + mantissa.toNat := by omega
  have hmax : (exponent == 31) = false := by
    simp only [beq_eq_false_iff_ne, ne_eq, ← UInt32.toNat_inj, hexponent]
    exact hne
  simp only [hmax, Bool.false_eq_true, ↓reduceIte]
  by_cases hzero : exponent = 0
  · have hexp : exponent.toNat = 0 := by rw [hzero]; rfl
    simp only [hzero, beq_self_eq_true, ↓reduceIte]
    by_cases hm : mantissa = 0
    · refine ⟨0, 0, by simp [hm], by decide, by decide, ?_⟩
      rw [hfields, hexp, hm]
      decide +kernel
    · have hlow : mantissa.toNat ≠ 0 := fun h => hm (UInt32.toNat_inj.mp h)
      have hbounds := shiftSubnormal_units ⟨mantissa.toNat, by omega⟩
        (fun h => hlow (congrArg Fin.val h))
      rw [UInt32.ofNat_toNat] at hbounds
      rw [if_pos (bne_iff_ne.mpr hm), hfields, hexp, Nat.zero_mul, Nat.zero_add]
      generalize shiftSubnormal 10 (-14) mantissa = shifted at hbounds ⊢
      exact ⟨_, _, rfl, hbounds.1, hbounds.2.2.1, hbounds.2.2.2⟩
  · have hexp : exponent.toNat ≠ 0 := fun h => hzero (UInt32.toNat_inj.mp h)
    have hbiased : (exponent - 15 + 127).toNat = exponent.toNat + 112 := by
      rw [UInt32.toNat_add, UInt32.toNat_sub]
      change ((2 ^ 32 - 15 + exponent.toNat) % 2 ^ 32 + 127) % 2 ^ 32 = _
      omega
    have hbeq : (exponent == 0) = false := beq_eq_false_iff_ne.mpr hzero
    have hpow : exponent.toNat + 112 - 1 = exponent.toNat - 1 + 112 := by omega
    simp only [hbeq, Bool.false_eq_true, ↓reduceIte]
    refine ⟨_, _, rfl, by omega, by omega, ?_⟩
    rw [hfields, hbiased, units_fields (by omega) (by omega), halfUnits,
      units_fields (by omega) (by omega), hpow, pow_add]
    ring

theorem unpack_halfToFloat4 {num : Half} (hnan : halfIsNan num = false)
    (hinf : halfIsInf num = false) :
    if halfIsZero num then ∃ s, (halfToFloat4 num).unpack = .zero s
    else ∃ s m e h, (halfToFloat4 num).unpack = .finite s m e h := by
  obtain ⟨exponent, mantissa, hbits, hm, hlt, hunits⟩ := halfToFloat4_fields hnan hinf
  simp only [halfIsZero_iff, hbits]
  by_cases hn : num.toNat % 2 ^ 15 = 0
  · have hzero : halfUnits 0 = units 23 0 := by decide +kernel
    rw [hn, hzero] at hunits
    have hsum := (units_strictMono 23).injective hunits
    have hexponent : exponent = 0 := UInt32.toNat_inj.mp (by rw [UInt32.toNat_zero]; omega)
    have hmantissa : mantissa = 0 := UInt32.toNat_inj.mp (by rw [UInt32.toNat_zero]; omega)
    rw [if_pos hn, hexponent, hmantissa]
    simpa using unpack_ofBits_sign num
  · rw [if_neg hn]
    refine unpack_ofBits_halfBits num hm (Nat.pos_of_ne_zero fun hexponent => ?_) hlt
    have hone : halfUnits 1 ≤ halfUnits (num.toNat % 2 ^ 15) :=
      halfUnits_strictMono.monotone (Nat.pos_of_ne_zero hn)
    have hsmall : units 23 (exponent.toNat * 2 ^ 23 + mantissa.toNat * 2 ^ 13) <
        units 23 (2 ^ 23) := units_strictMono 23 (by omega)
    have hle : units 23 (2 ^ 23) ≤ halfUnits 1 := by decide +kernel
    omega

theorem isFinite_halfToFloat4 {num : Half} (hnan : halfIsNan num = false)
    (hinf : halfIsInf num = false) : (halfToFloat4 num).isFinite = true := by
  have h := unpack_halfToFloat4 hnan hinf
  rw [Float32.Model.isFinite]
  split at h
  · obtain ⟨s, h⟩ := h
    rw [h]
    rfl
  · obtain ⟨s, m, e, hpos, h⟩ := h
    rw [h]
    rfl

theorem isZero_halfToFloat4 {num : Half} (hnan : halfIsNan num = false)
    (hinf : halfIsInf num = false) : isZero (halfToFloat4 num) = halfIsZero num := by
  have h := unpack_halfToFloat4 hnan hinf
  split at h
  · rename_i hzero
    rw [hzero, isZero_iff]
    exact h
  · rename_i hzero
    obtain ⟨s, m, e, hpos, h⟩ := h
    rw [Bool.eq_false_iff.mpr hzero, Bool.eq_false_iff, ne_eq, isZero_iff, h]
    simp

/-! ## Vectors of either type -/

def vectorSize (dim : Nat) : Int := 8 + 4 * dim

structure DenseType where
  name : String
  maxDim : Nat
  size : Nat → Int

namespace DenseType

def vector : DenseType := ⟨"vector", vectorMaxDim, vectorSize⟩

def halfvec : DenseType := ⟨"halfvec", halfvecMaxDim, fun dim => 8 + 2 * dim⟩

variable (T : DenseType)

def tooFew : PgError where
  errcode := .dataException
  errmsg := T.name ++ " must have at least 1 dimension"

def tooMany : PgError where
  errcode := .programLimitExceeded
  errmsg := s!"{T.name} cannot have more than {T.maxDim} dimensions"

def checkDim (dim : Int) : Except PgError Unit := do
  errorIf (dim < 1) T.tooFew
  errorIf (dim > T.maxDim) T.tooMany

end DenseType

/-! ## Converting a half vector -/

def vectorCheckDim : Int → Except PgError Unit := DenseType.vector.checkDim

def halfvecToVector (vec : HalfVector) (typmod : Int) : Except PgError Vector := do
  vectorCheckDim vec.x.length
  checkExpectedDim typmod vec.x.length
  palloc (toInt32 (vectorSize vec.x.length))
  return {
    x := vec.x.map halfToFloat4
    dim_pos := by simpa using vec.dim_pos
    dim_le := by
      rw [List.length_map]
      exact vec.dim_le
    finite := by
      intro v hv
      obtain ⟨num, hnum, rfl⟩ := List.mem_map.mp hv
      exact isFinite_halfToFloat4 (vec.finite num hnum).1 (vec.finite num hnum).2 }

end PgVector.Types
