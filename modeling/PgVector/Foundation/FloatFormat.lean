import PgVector.Foundation.FloatOrder

/-!
# Packed floating-point numbers

What packing and unpacking keep of a number, what rounding makes of a positive
one, and the conversions between two formats.
-/

namespace PgVector.Foundation

open Float.Model (Format UnpackedFloat totalExponent)
open Float.Model.UnpackedFloat

/-! ## The three fields -/

section Fields

variable {spec : Format}

@[simp]
theorem unpackSign_packComponents (s : Sign) (e : BitVec spec.exponentBits)
    (m : BitVec spec.mantissaBitsWithoutImplicit) :
    unpackSign (packComponents spec s e m) = s.toBitVec := by
  ext i hi
  have hi : i = 0 := by omega
  subst hi
  simp [unpackSign, packComponents, BitVec.extractLsb, BitVec.getLsbD_append, BitVec.getElem_append]

theorem sign_toBitVec_ofBitVec (b : BitVec 1) : (Sign.ofBitVec b).toBitVec = b := by
  revert b
  decide

@[simp]
theorem sign_ofBitVec_toBitVec (s : Sign) : Sign.ofBitVec s.toBitVec = s := by
  cases s <;> rfl

theorem packComponents_unpack (b : BitVec spec.numBits) :
    packComponents spec (Sign.ofBitVec (unpackSign b)) (unpackExponent b)
      (unpackMantissa b) = b := by
  have hm := spec.hm
  have he := spec.he
  ext i hi
  simp only [packComponents, sign_toBitVec_ofBitVec, unpackSign, unpackExponent,
    unpackMantissa, BitVec.getElem_append, BitVec.getElem_cast, BitVec.extractLsb,
    BitVec.getElem_extractLsb']
  rw [← BitVec.getLsbD_eq_getElem hi]
  split
  · rw [Nat.zero_add]
  · split <;> congr 1 <;> omega

theorem ofNat_ne_allOnes {n : ℕ} (h : n + 1 < 2 ^ spec.exponentBits) :
    BitVec.ofNat spec.exponentBits n ≠ -1#_ := by
  intro heq
  have hn := congrArg BitVec.toNat heq
  rw [BitVec.toNat_ofNat, Nat.mod_eq_of_lt (by omega), BitVec.neg_one_eq_allOnes,
    BitVec.toNat_allOnes] at hn
  omega

theorem zero_ne_allOnes : (0#_ : BitVec spec.exponentBits) ≠ -1#_ :=
  ofNat_ne_allOnes (Nat.one_lt_two_pow spec.he.ne')

theorem toNat_append_one {f : ℕ} (m : BitVec f) : (1#1 ++ m).toNat = 2 ^ f + m.toNat := by
  rw [BitVec.toNat_append, BitVec.toNat_ofNat, ← Nat.shiftLeft_add_eq_or_of_lt m.isLt]
  simp [Nat.shiftLeft_eq]

theorem unpack_packComponents (s : Sign) (e : BitVec spec.exponentBits)
    (m : BitVec spec.mantissaBitsWithoutImplicit) :
    unpack spec (packComponents spec s e m) =
      if e = -1#_ then
        if m = 0#_ then .infinity s else .notANumber
      else if e = 0#_ then
        if h : m = 0#_ then .zero s
        else .finite s m.toNat
          ((e.toNat : ℤ) - (spec.exponentBias + spec.mantissaBitsWithoutImplicit) + 1)
          (by simpa [BitVec.toNat_pos, BitVec.pos_iff_ne_zero] using h)
      else .finite s (2 ^ spec.mantissaBitsWithoutImplicit + m.toNat)
        ((e.toNat : ℤ) - (spec.exponentBias + spec.mantissaBitsWithoutImplicit))
        (by positivity) := by
  simp only [unpack, unpackExponent_packComponents, unpackMantissa_packComponents,
    unpackSign_packComponents, sign_ofBitVec_toBitVec, toNat_append_one]

variable {b : BitVec spec.numBits}

theorem unpack_of_normal (hinf : unpackExponent b ≠ -1#_) (hzero : unpackExponent b ≠ 0#_) :
    ∃ s m e h, unpack spec b = .finite s m e h := by
  rw [unpack, if_neg hinf, if_neg hzero]
  exact ⟨_, _, _, _, rfl⟩

theorem fields_eq_of_unpack_eq {s s' : Sign} {e e' : BitVec spec.exponentBits}
    {m m' : BitVec spec.mantissaBitsWithoutImplicit}
    (hnan : (unpack spec (packComponents spec s e m)).isNaN = false)
    (h : unpack spec (packComponents spec s e m) =
      unpack spec (packComponents spec s' e' m')) : s = s' ∧ e = e' ∧ m = m' := by
  have hm := m.isLt
  have hm' := m'.isLt
  rw [unpack_packComponents] at hnan
  rw [unpack_packComponents, unpack_packComponents] at h
  split_ifs at h hnan with h₁ h₂ h₃ h₄ <;> simp only [infinity.injEq, zero.injEq, finite.injEq] at h
  · exact ⟨h, h₁.trans h₃.symm, h₂.trans h₄.symm⟩
  · simp [UnpackedFloat.isNaN] at hnan
  · rename_i he hm₀ _ he' hm₀'
    exact ⟨h, he.trans he'.symm, hm₀.trans hm₀'.symm⟩
  · rename_i he _ _ he' _
    exact ⟨h.1, he.trans he'.symm, BitVec.eq_of_toNat_eq h.2.1⟩
  · omega
  · omega
  · exact ⟨h.1, BitVec.eq_of_toNat_eq (by omega), BitVec.eq_of_toNat_eq (by omega)⟩

theorem unpack_injective {b' : BitVec spec.numBits} (hnan : (unpack spec b).isNaN = false)
    (h : unpack spec b = unpack spec b') : b = b' := by
  rw [← packComponents_unpack b, ← packComponents_unpack b'] at h
  rw [← packComponents_unpack b] at hnan
  obtain ⟨hs, he, hm⟩ := fields_eq_of_unpack_eq hnan h
  rw [← packComponents_unpack b, ← packComponents_unpack b', hs, he, hm]

theorem minExponent_eq :
    spec.minExponent = 1 - (spec.exponentBias : ℤ) - spec.mantissaBitsWithoutImplicit := by
  have hp : 1 ≤ 2 ^ (spec.exponentBits - 1) := Nat.one_le_two_pow
  simp only [Format.minExponent, Format.exponentBias, Format.mantissaBits]
  push_cast [hp]
  ring

theorem log2_lt_of_lt_two_pow {m n : ℕ} (hpos : 0 < m) (h : m < 2 ^ n) : m.log2 < n :=
  (Nat.log2_lt hpos.ne').mpr h

theorem unpack_finite_bounds {s : Sign} {m : ℕ} {e : ℤ} {hpos : 0 < m}
    (h : unpack spec b = .finite s m e hpos) :
    m.log2 < spec.mantissaBits ∧ spec.minExponent ≤ e ∧
      e + spec.exponentBias + spec.mantissaBitsWithoutImplicit < 2 ^ spec.exponentBits := by
  have hlt := (unpackMantissa b).isLt
  have hltExp : ((unpackExponent b).toNat : ℤ) < 2 ^ spec.exponentBits := by
    exact_mod_cast (unpackExponent b).isLt
  rw [← packComponents_unpack b, unpack_packComponents] at h
  rw [minExponent_eq, Format.mantissaBits]
  split_ifs at h with h₁ h₂ h₃ h₄ <;> simp only [finite.injEq] at h
  · obtain ⟨_, rfl, rfl⟩ := h
    have hzero : (unpackExponent b).toNat = 0 := by
      rw [h₃, BitVec.toNat_ofNat, Nat.zero_mod]
    have hone : (1 : ℤ) < 2 ^ spec.exponentBits := one_lt_pow₀ (by omega) spec.he.ne'
    have hlog := log2_lt_of_lt_two_pow hpos hlt
    omega
  · obtain ⟨_, rfl, rfl⟩ := h
    have : (unpackExponent b).toNat ≠ 0 := by
      simpa [← BitVec.toNat_inj] using h₃
    refine ⟨log2_lt_of_lt_two_pow hpos ?_, by omega, by omega⟩
    rw [Nat.pow_add, Nat.pow_one]
    omega

end Fields

/-! ## What packing keeps -/

section Packing

variable {spec : Format}

theorem isNaN_unpack_pack (u : UnpackedFloat) : (unpack spec (pack spec u)).isNaN = u.isNaN := by
  cases u with
  | notANumber =>
    have hne : (1#_ : BitVec spec.mantissaBitsWithoutImplicit) <<<
        (spec.mantissaBitsWithoutImplicit - 1) ≠ 0#_ := by
      have hm := spec.hm
      intro h
      have := congrArg (fun x => x.getLsbD (spec.mantissaBitsWithoutImplicit - 1)) h
      simp at this
      omega
    simp [pack, packedNaN, unpack_packComponents, hne]
  | infinity s => simp [pack, packedInfinity, unpack_packComponents]
  | zero s =>
    simp only [pack, packedZero, BitVec.ofNat_eq_ofNat, unpack_packComponents,
      if_neg zero_ne_allOnes]
    rfl
  | finite s m e h =>
    simp only [pack]
    split_ifs with hlarge hnormal
    · simp [packedInfinity, unpack_packComponents, UnpackedFloat.isNaN]
    · rw [unpack_packComponents, if_neg (ofNat_ne_allOnes (by omega))]
      split_ifs <;> rfl
    · rw [unpack_packComponents, if_neg zero_ne_allOnes]
      split_ifs <;> rfl

theorem toNat_ofNat_normal {m : ℕ} (hm : m.log2 + 1 = spec.mantissaBits) (hpos : 0 < m) :
    2 ^ spec.mantissaBitsWithoutImplicit +
      (BitVec.ofNat spec.mantissaBitsWithoutImplicit m).toNat = m := by
  have hlog : m.log2 = spec.mantissaBitsWithoutImplicit := by
    rw [Format.mantissaBits] at hm
    omega
  have hle : 2 ^ spec.mantissaBitsWithoutImplicit ≤ m := by
    rw [← hlog]
    exact Nat.log2_self_le hpos.ne'
  have hlt : m < 2 ^ (spec.mantissaBitsWithoutImplicit + 1) := by
    rw [← hlog]
    exact Nat.lt_log2_self
  rw [Nat.pow_succ] at hlt
  rw [BitVec.toNat_ofNat, Nat.mod_eq_sub_mod hle, Nat.mod_eq_of_lt (by omega)]
  omega

theorem unpack_pack_normal (s : Sign) {m : ℕ} {e : ℤ} (hpos : 0 < m)
    (hm : m.log2 + 1 = spec.mantissaBits) (hmin : spec.minExponent ≤ e)
    (hmax : e + spec.exponentBias + spec.mantissaBitsWithoutImplicit + 1 < 2 ^ spec.exponentBits) :
    unpack spec (pack spec (.finite s m e hpos)) = .finite s m e hpos := by
  rw [minExponent_eq] at hmin
  obtain ⟨n, hn⟩ : ∃ n : ℕ, e + spec.exponentBias + spec.mantissaBitsWithoutImplicit = n :=
    ⟨_, (Int.toNat_of_nonneg (by omega)).symm⟩
  have hlt : n + 1 < 2 ^ spec.exponentBits := by
    rw [hn] at hmax
    exact_mod_cast hmax
  have htoNat : (BitVec.ofNat spec.exponentBits n).toNat = n := by
    rw [BitVec.toNat_ofNat, Nat.mod_eq_of_lt (by omega)]
  have hne : BitVec.ofNat spec.exponentBits n ≠ 0#_ := by
    intro h
    rw [h, BitVec.toNat_ofNat, Nat.zero_mod] at htoNat
    omega
  simp only [pack, hn, Int.toNat_natCast, if_neg (Nat.not_le.mpr hlt), if_pos hm]
  rw [unpack_packComponents, if_neg (ofNat_ne_allOnes hlt), if_neg hne]
  simp only [htoNat, toNat_ofNat_normal hm hpos, finite.injEq, true_and]
  omega

theorem log2_two_pow_add {n m : ℕ} (h : m < 2 ^ n) : (2 ^ n + m).log2 = n := by
  have hpos : 2 ^ n + m ≠ 0 := by positivity
  rw [Nat.log2_eq_iff hpos, Nat.pow_succ]
  omega

theorem pack_unpack (hspec : 2 ≤ spec.exponentBits) {b : BitVec spec.numBits}
    (hnan : (unpack spec b).isNaN = false) : pack spec (unpack spec b) = b := by
  have hfour : 4 ≤ 2 ^ spec.exponentBits :=
    (Nat.pow_le_pow_right (by omega) hspec : 2 ^ 2 ≤ 2 ^ spec.exponentBits)
  have hm := (unpackMantissa b).isLt
  have he := (unpackExponent b).isLt
  rw [← packComponents_unpack b] at hnan ⊢
  generalize Sign.ofBitVec (unpackSign b) = s at *
  generalize unpackExponent b = e at *
  generalize unpackMantissa b = m at *
  rw [unpack_packComponents] at hnan ⊢
  split_ifs at hnan ⊢ with h₁ h₂ h₃ h₄
  · simp only [pack, packedInfinity, h₁, h₂, BitVec.ofNat_eq_ofNat]
  · simp [UnpackedFloat.isNaN] at hnan
  · simp only [pack, packedZero, h₃, h₄, BitVec.ofNat_eq_ofNat]
  · have hpos : 0 < m.toNat := by
      simpa [BitVec.toNat_pos, BitVec.pos_iff_ne_zero] using h₄
    have hbiased : (((e.toNat : ℤ) -
        (spec.exponentBias + spec.mantissaBitsWithoutImplicit) + 1) +
        spec.exponentBias + spec.mantissaBitsWithoutImplicit).toNat = 1 := by
      rw [h₃, BitVec.toNat_ofNat, Nat.zero_mod]
      omega
    have hlog := log2_lt_of_lt_two_pow hpos hm
    have hsub : m.toNat.log2 + 1 ≠ spec.mantissaBits := by
      rw [Format.mantissaBits]
      omega
    have hsmall : ¬ 2 ^ spec.exponentBits ≤ 1 + 1 := by omega
    simp only [pack, hbiased, if_neg hsub, if_neg hsmall, BitVec.ofNat_toNat, BitVec.setWidth_eq]
    rw [h₃]
  · have hbiased : (((e.toNat : ℤ) -
        (spec.exponentBias + spec.mantissaBitsWithoutImplicit)) +
        spec.exponentBias + spec.mantissaBitsWithoutImplicit).toNat = e.toNat := by
      omega
    have hsmall : ¬ 2 ^ spec.exponentBits ≤ e.toNat + 1 := by
      intro hle
      refine h₁ (BitVec.eq_of_toNat_eq ?_)
      rw [BitVec.neg_one_eq_allOnes, BitVec.toNat_allOnes]
      omega
    have hlog : (2 ^ spec.mantissaBitsWithoutImplicit + m.toNat).log2 + 1 = spec.mantissaBits := by
      rw [log2_two_pow_add hm, Format.mantissaBits, Nat.add_comm]
    have hmantissa : BitVec.ofNat spec.mantissaBitsWithoutImplicit
        (2 ^ spec.mantissaBitsWithoutImplicit + m.toNat) = m := by
      refine BitVec.eq_of_toNat_eq ?_
      rw [BitVec.toNat_ofNat, Nat.add_mod_left, Nat.mod_eq_of_lt hm]
    simp only [pack, hbiased, if_neg hsmall, if_pos hlog, hmantissa, BitVec.ofNat_toNat,
      BitVec.setWidth_eq]

/-- A number that is greater than zero, `+∞` included. -/
inductive IsPositive : UnpackedFloat → Prop where
  | infinity : IsPositive (.infinity .positive)
  | finite (m : ℕ) (e : ℤ) (h : 0 < m) : IsPositive (.finite .positive m e h)

theorem IsPositive.zero_lt {u : UnpackedFloat} (h : IsPositive u) (s : Sign) :
    (UnpackedFloat.zero s).lt u = true := by
  cases h <;> rfl

theorem isPositive_unpack_pack {m : ℕ} {e : ℤ} (hpos : 0 < m)
    (hm : m.log2 < spec.mantissaBits) (he : spec.minExponent ≤ e) :
    IsPositive (unpack spec (pack spec (.finite .positive m e hpos))) := by
  by_cases hlarge : 2 ^ spec.exponentBits ≤
      (e + spec.exponentBias + spec.mantissaBitsWithoutImplicit).toNat + 1
  · simp only [pack, if_pos hlarge, packedInfinity, unpack_packComponents,
      BitVec.ofNat_eq_ofNat, ↓reduceIte]
    exact .infinity
  · by_cases hnormal : m.log2 + 1 = spec.mantissaBits
    · rw [unpack_pack_normal _ hpos hnormal he]
      · exact .finite ..
      · have : (2 ^ spec.exponentBits : ℤ) = ((2 ^ spec.exponentBits : ℕ) : ℤ) := by
          push_cast
          rfl
        omega
    · have hne : BitVec.ofNat spec.mantissaBitsWithoutImplicit m ≠ 0#_ := by
        intro h
        have hzero := congrArg BitVec.toNat h
        rw [BitVec.toNat_ofNat, BitVec.toNat_ofNat, Nat.zero_mod, Nat.mod_eq_of_lt] at hzero
        · omega
        · rw [← Nat.log2_lt hpos.ne']
          rw [Format.mantissaBits] at hm hnormal
          omega
      simp only [pack, if_neg hlarge, if_neg hnormal, unpack_packComponents,
        if_neg zero_ne_allOnes, ↓reduceIte, dif_neg hne]
      exact .finite ..

end Packing

/-! ## What rounding keeps -/

section Rounding

variable {spec : Format}

theorem shiftRight_mantissa (em : ExtendedMantissa) (k : ℕ) :
    (em >>> k).mantissa = em.mantissa / 2 ^ k := by
  induction k with
  | zero => simp [HShiftRight.hShiftRight, Nat.repeat]
  | succ k ih =>
    change (em >>> k).mantissa / 2 = _
    rw [ih, Nat.div_div_eq_div_mul, Nat.pow_succ]

theorem mantissa_le_roundedMantissa (em : ExtendedMantissa) : em.mantissa ≤ em.roundedMantissa := by
  obtain ⟨m, r, s⟩ := em
  cases r <;> cases s <;>
    simp [ExtendedMantissa.roundedMantissa, ExtendedMantissa.accuracy, Accuracy.roundToNearestEven]

theorem mantissa_ofMantissaAndAccuracy (m : ℕ) (acc : Accuracy) :
    (ExtendedMantissa.ofMantissaAndAccuracy m acc).mantissa = m := by
  cases acc with
  | exact => rfl
  | inexact o => cases o <;> rfl

theorem mantissaBits_pos : 0 < spec.mantissaBits := by
  rw [Format.mantissaBits]
  omega

theorem shiftToTargetExponent_spec {m : ℕ} {e : ℤ} (acc : Accuracy) (hpos : 0 < m)
    (he : spec.minExponent ≤ m.log2 + e) :
    0 < (shiftToTargetExponent spec m e acc).1.mantissa ∧
      (shiftToTargetExponent spec m e acc).1.mantissa.log2 < spec.mantissaBits ∧
      spec.minExponent ≤ (shiftToTargetExponent spec m e acc).2 := by
  have hbits : 0 < spec.mantissaBits := mantissaBits_pos
  simp only [shiftToTargetExponent, shiftToExponent, Format.targetExponent,
    totalExponent, shiftRight_mantissa, mantissa_ofMantissaAndAccuracy]
  generalize hk : (max ((m.log2 : ℤ) + 1 + e - spec.mantissaBits) spec.minExponent - e).toNat = k
  have hmantissa : 0 < m / 2 ^ k := by
    have hle : 2 ^ k ≤ 2 ^ m.log2 := Nat.pow_le_pow_right (by omega) (by omega)
    exact Nat.div_pos (hle.trans (Nat.log2_self_le hpos.ne')) (by positivity)
  refine ⟨hmantissa, log2_lt_of_lt_two_pow hmantissa ?_, by omega⟩
  rw [Nat.div_lt_iff_lt_mul (by positivity), ← Nat.pow_add, ← Nat.log2_lt hpos.ne']
  omega

variable (s : Sign)

theorem roundWithAccuracy_spec {m : ℕ} {e : ℤ} (acc : Accuracy) (hpos : 0 < m)
    (he : spec.minExponent ≤ m.log2 + e) :
    ∃ m' e' h, roundWithAccuracy spec s m e acc = .finite s m' e' h ∧
      m'.log2 < spec.mantissaBits ∧ spec.minExponent ≤ e' := by
  obtain ⟨hfirst, _, hexp⟩ := shiftToTargetExponent_spec acc hpos he
  generalize hshift : shiftToTargetExponent spec m e acc = shifted at hfirst hexp
  have hrounded : 0 < shifted.1.roundedMantissa :=
    hfirst.trans_le (mantissa_le_roundedMantissa _)
  -- rounding up may need one more shift
  have he' : spec.minExponent ≤ shifted.1.roundedMantissa.log2 + shifted.2 := by omega
  obtain ⟨hsecond, hlog, hexp'⟩ := shiftToTargetExponent_spec .exact hrounded he'
  refine ⟨_, _, hsecond, ?_, hlog, hexp'⟩
  simp only [roundWithAccuracy, hshift, dif_neg hsecond.ne']

theorem roundWithAccuracy_isNaN (m : ℕ) (e : ℤ) (acc : Accuracy) :
    (roundWithAccuracy spec s m e acc).isNaN = false := by
  simp only [roundWithAccuracy]
  split_ifs <;> rfl

theorem round_isNaN (m : ℕ) (e : ℤ) : (UnpackedFloat.round spec s m e).isNaN = false :=
  roundWithAccuracy_isNaN ..

theorem log2_shiftLeft {m : ℕ} (hpos : 0 < m) (k : ℕ) : (m <<< k).log2 = m.log2 + k := by
  induction k with
  | zero => rfl
  | succ k ih =>
    have hne : m <<< k ≠ 0 := by
      rw [Nat.shiftLeft_eq]
      positivity
    rw [Nat.shiftLeft_succ, Nat.log2_two_mul hne, ih, Nat.add_assoc]

theorem round_spec {m : ℕ} {e : ℤ} (hpos : 0 < m) (he : spec.minExponent ≤ m.log2 + e) :
    ∃ m' e' h, UnpackedFloat.round spec s m e = .finite s m' e' h ∧
      m'.log2 < spec.mantissaBits ∧ spec.minExponent ≤ e' := by
  simp only [UnpackedFloat.round, decreaseExponent]
  refine roundWithAccuracy_spec s .exact ?_ ?_
  · rw [Nat.shiftLeft_eq]
    positivity
  · rw [log2_shiftLeft hpos]
    push_cast
    omega

end Rounding

end PgVector.Foundation
