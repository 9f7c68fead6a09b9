import PgVector.Foundation.FloatFormat

/-!
# Single and double precision

The conversions between the two formats of a program, and the sign of the
results of double-precision arithmetic on positive numbers.
-/

namespace PgVector.Foundation

open Float.Model (Format UnpackedFloat totalExponent)
open Float.Model.UnpackedFloat

/-- A number of any format, rounded to the nearest one of `spec`. -/
def convertFormat (spec : Format) : UnpackedFloat → UnpackedFloat
  | .finite s m e _ => UnpackedFloat.round spec s m e
  | u => u

def widen (x : Float32.Model) : Float.Model :=
  .pack (convertFormat .binary64 x.unpack)

def narrow (x : Float.Model) : Float32.Model :=
  .pack (convertFormat .binary32 x.unpack)

theorem float64_unpack_pack (u : UnpackedFloat) :
    (Float.Model.pack u).unpack = unpack .binary64 (pack .binary64 u) :=
  rfl

theorem float32_unpack_pack (u : UnpackedFloat) :
    (Float32.Model.pack u).unpack = unpack .binary32 (pack .binary32 u) :=
  rfl

variable {x : Float32.Model} {spec : Format} {m : ℕ} {e : ℤ} {s : Sign} {y : Float.Model}

theorem float32_unpack_injective {y : Float32.Model} (hnan : x.isNaN = false)
    (h : x.unpack = y.unpack) : x = y := by
  obtain ⟨⟨a⟩, _⟩ := x
  obtain ⟨⟨b⟩, _⟩ := y
  have hbits : a = b := @unpack_injective .binary32 a b hnan h
  subst hbits
  rfl

theorem unpack_ofBits {b : UInt32}
    (hnan : (unpack .binary32 b.toBitVec).isNaN = false) :
    (Float32.Model.ofBits b).unpack = unpack .binary32 b.toBitVec := by
  rw [Float32.Model.ofBits, float32_unpack_pack, pack_unpack (by decide) hnan]

theorem ofBits_toBits (hnan : x.isNaN = false) : Float32.Model.ofBits x.toBits = x := by
  refine (float32_unpack_injective hnan ?_).symm
  rw [unpack_ofBits hnan, Float32.Model.unpack]

theorem toBits_ofBits {b : UInt32} (hnan : (Float32.Model.ofBits b).isNaN = false) :
    (Float32.Model.ofBits b).toBits = b := by
  have hunpack : (unpack .binary32 b.toBitVec).isNaN = false := by
    rwa [Float32.Model.isNaN, Float32.Model.ofBits, float32_unpack_pack, isNaN_unpack_pack] at hnan
  exact UInt32.toBitVec_inj.mp (pack_unpack (by decide) hunpack)

theorem convertFormat_isNaN (spec : Format) (u : UnpackedFloat) :
    (convertFormat spec u).isNaN = u.isNaN := by
  cases u with
  | finite s m e h => exact round_isNaN s m e
  | notANumber => rfl
  | infinity s => rfl
  | zero s => rfl

theorem narrow_isNaN (x : Float.Model) : (narrow x).isNaN = x.isNaN := by
  rw [narrow, Float32.Model.isNaN, float32_unpack_pack, isNaN_unpack_pack,
    convertFormat_isNaN, Float.Model.isNaN]

/-! ## Widening is exact -/

theorem shiftToTargetExponent_of_le (acc : Accuracy)
    (h : spec.targetExponent (totalExponent m e) ≤ e) :
    shiftToTargetExponent spec m e acc = (ExtendedMantissa.ofMantissaAndAccuracy m acc, e) := by
  have hzero : (spec.targetExponent (totalExponent m e) - e).toNat = 0 := by omega
  simp [shiftToTargetExponent, shiftToExponent, hzero, HShiftRight.hShiftRight, Nat.repeat]

theorem round_of_fits (s : Sign) {k : ℕ} (hpos : 0 < m)
    (ht : spec.targetExponent (totalExponent m e) = e - k) :
    ∃ hpos', UnpackedFloat.round spec s m e = .finite s (m <<< k) (e - k) hpos' := by
  have hpos' : 0 < m <<< k := by
    rw [Nat.shiftLeft_eq]
    positivity
  have hk : (e - (e - k)).toNat = k := by omega
  -- a shift to the left does not move the leading digit
  have hsame : totalExponent (m <<< k) (e - k) = totalExponent m e := by
    simp only [totalExponent, log2_shiftLeft hpos]
    push_cast
    ring
  have htarget : spec.targetExponent (totalExponent (m <<< k) (e - k)) = e - k := by
    rw [hsame, ht]
  refine ⟨hpos', ?_⟩
  simp only [UnpackedFloat.round, decreaseExponent, ht, hk, roundWithAccuracy,
    shiftToTargetExponent_of_le _ htarget.le, ExtendedMantissa.ofMantissaAndAccuracy,
    ExtendedMantissa.roundedMantissa, ExtendedMantissa.accuracy,
    Accuracy.roundToNearestEven, dif_neg hpos'.ne']

theorem unpack_widen {h : 0 < m} (hx : x.unpack = .finite s m e h) :
    ∃ h', (widen x).unpack = .finite s (m <<< (52 - m.log2)) (e - (52 - m.log2 : ℕ)) h' := by
  obtain ⟨hlog, hmin, hmax⟩ := unpack_finite_bounds hx
  have hmin : -149 ≤ e := hmin
  have hlog : m.log2 < 24 := hlog
  have hmax : e + 127 + 23 < 256 := hmax
  have ht : Format.binary64.targetExponent (totalExponent m e) = e - (52 - m.log2 : ℕ) := by
    change max ((m.log2 : ℤ) + 1 + e - 53) (-1074) = _
    omega
  obtain ⟨hpos, hround⟩ := round_of_fits s h ht
  refine ⟨hpos, ?_⟩
  rw [widen, hx, convertFormat, hround, float64_unpack_pack]
  refine unpack_pack_normal s hpos ?_ ?_ ?_
  · rw [log2_shiftLeft h]
    change m.log2 + (52 - m.log2) + 1 = 53
    omega
  · change (-1074 : ℤ) ≤ _
    omega
  · change e - (52 - m.log2 : ℕ) + 1023 + 52 + 1 < 2048
    omega

theorem unpack_widen_zero (hx : x.unpack = .zero s) : (widen x).unpack = .zero s := by
  rw [widen, hx]
  cases s <;> rfl

theorem widen_isFinite (hx : x.isFinite = true) : (widen x).isFinite = true := by
  rw [Float32.Model.isFinite] at hx
  rw [Float.Model.isFinite]
  generalize hu : x.unpack = u at hx
  cases u with
  | notANumber => simp [UnpackedFloat.isFinite] at hx
  | infinity s => simp [UnpackedFloat.isFinite] at hx
  | zero s =>
    rw [unpack_widen_zero hu]
    rfl
  | finite s m e h =>
    obtain ⟨_, hwide⟩ := unpack_widen hu
    rw [hwide]
    rfl

/-! ## Arithmetic on positive numbers -/

def Positive (x : Float.Model) : Prop := IsPositive x.unpack

theorem Positive.zero_lt {x : Float.Model} (hx : Positive x) : (Float.Model.ofNat 0).lt x = true :=
  IsPositive.zero_lt hx .positive

theorem positive_pack_infinity : Positive (.pack (.infinity .positive)) := by
  rw [Positive, float64_unpack_pack]
  simp only [pack, packedInfinity, unpack_packComponents, BitVec.ofNat_eq_ofNat, ↓reduceIte]
  exact .infinity

theorem positive_mul_self {h : 0 < m} (hx : x.unpack = .finite s m e h) :
    Positive (widen x * widen x) := by
  obtain ⟨hpos, hwide⟩ := unpack_widen hx
  obtain ⟨hlog, hmin, _⟩ := unpack_finite_bounds hx
  have hmin : -149 ≤ e := hmin
  have hsign : s * s = .positive := by cases s <;> rfl
  have hmul : 0 < m <<< (52 - m.log2) * m <<< (52 - m.log2) := Nat.mul_pos hpos hpos
  have hlarge : Format.binary64.minExponent ≤
      (m <<< (52 - m.log2) * m <<< (52 - m.log2)).log2 +
        (e - (52 - m.log2 : ℕ) + (e - (52 - m.log2 : ℕ))) := by
    change (-1074 : ℤ) ≤ _
    omega
  obtain ⟨m', e', h', hround, hbits, hexp⟩ :=
    roundWithAccuracy_spec .positive .exact hmul hlarge
  change IsPositive (Float.Model.pack (UnpackedFloat.mul _ _ _)).unpack
  rw [hwide, UnpackedFloat.mul, hsign, hround, float64_unpack_pack]
  exact isPositive_unpack_pack h' hbits hexp

theorem Positive.zero_add {x : Float.Model} (hx : x.unpack = .zero s) (hy : Positive y) :
    Positive (x + y) := by
  change IsPositive (Float.Model.pack (UnpackedFloat.add _ _ _)).unpack
  rw [hx]
  rw [Positive] at hy
  generalize hu : y.unpack = u at hy
  cases hy with
  | infinity => exact positive_pack_infinity
  | finite m e h =>
    obtain ⟨hbits, hexp, _⟩ := unpack_finite_bounds hu
    exact isPositive_unpack_pack h hbits hexp

theorem normalize_natCast {n : ℕ} (h : 0 < n) (e : ℤ) (zeroSign : Sign) :
    UnpackedFloat.normalize spec n e zeroSign = UnpackedFloat.round spec .positive n e := by
  have hgt : compare (n : ℤ) 0 = .gt := compare_gt_iff_gt.mpr (by omega)
  simp only [UnpackedFloat.normalize, hgt, Int.toNat_natCast]

theorem Positive.add {x : Float.Model} (hx : Positive x) (hy : Positive y) : Positive (x + y) := by
  change IsPositive (Float.Model.pack (UnpackedFloat.add _ _ _)).unpack
  rw [Positive] at hx hy
  generalize hu : x.unpack = u at hx
  generalize hv : y.unpack = v at hy
  cases hx with
  | infinity =>
    cases hy with
    | infinity => exact positive_pack_infinity
    | finite m e h => exact positive_pack_infinity
  | finite m e h =>
    cases hy with
    | infinity => exact positive_pack_infinity
    | finite m' e' h' =>
      obtain ⟨_, hexp, _⟩ := unpack_finite_bounds hu
      obtain ⟨_, hexp', _⟩ := unpack_finite_bounds hv
      have hpos : 0 < m <<< (e - min e e').toNat + m' <<< (e' - min e e').toNat := by
        rw [Nat.shiftLeft_eq]
        positivity
      have hlarge : Format.binary64.minExponent ≤
          (m <<< (e - min e e').toNat + m' <<< (e' - min e e').toNat).log2 + min e e' := by
        omega
      obtain ⟨m'', e'', h'', hround, hbits, hmin⟩ :=
        round_spec .positive hpos hlarge
      simp only [UnpackedFloat.add, decreaseExponent, Sign.apply]
      rw [← Nat.cast_add, normalize_natCast hpos, hround, float64_unpack_pack]
      exact isPositive_unpack_pack h'' hbits hmin

theorem sqrtCore_spec (hpos : 0 < m) (he : -1074 ≤ e) :
    ∃ root e' acc, sqrtCore .binary64 m e = (root, e', acc) ∧ 0 < root ∧
      Format.binary64.minExponent ≤ root.log2 + e' := by
  refine ⟨_, _, _, rfl, ?_, ?_⟩
  · rw [Nat.sqrt_pos, Nat.shiftLeft_eq]
    positivity
  · have hmin : Format.binary64.minExponent = -1074 := rfl
    have hediv : e.ediv 2 = e / 2 := rfl
    simp only [Format.targetExponent, hmin, hediv]
    omega

theorem Positive.sqrt {x : Float.Model} (hx : Positive x) : Positive x.sqrt := by
  change IsPositive (Float.Model.pack (UnpackedFloat.sqrt _ _)).unpack
  rw [Positive] at hx
  generalize hu : x.unpack = u at hx
  cases hx with
  | infinity => exact positive_pack_infinity
  | finite m e h =>
    obtain ⟨_, hexp, _⟩ := unpack_finite_bounds hu
    have hexp : -1074 ≤ e := hexp
    obtain ⟨root, e', acc, hcore, hroot, hmin⟩ := sqrtCore_spec h hexp
    obtain ⟨m', e'', h', hround, hbits, hmin'⟩ :=
      roundWithAccuracy_spec .positive acc hroot hmin
    simp only [UnpackedFloat.sqrt, hcore, hround]
    exact isPositive_unpack_pack h' hbits hmin'

theorem div_isNaN {x : Float.Model} (hx : x.isFinite = true) (hy : Positive y) :
    (x / y).isNaN = false := by
  change (Float.Model.pack (UnpackedFloat.div _ _ _)).unpack.isNaN = false
  rw [float64_unpack_pack, isNaN_unpack_pack]
  rw [Float.Model.isFinite] at hx
  rw [Positive] at hy
  generalize x.unpack = u at hx
  generalize y.unpack = v at hy
  cases hy with
  | infinity => cases u <;> first | rfl | simp [UnpackedFloat.isFinite] at hx
  | finite m e h =>
    cases u with
    | notANumber => simp [UnpackedFloat.isFinite] at hx
    | infinity s => simp [UnpackedFloat.isFinite] at hx
    | zero s => rfl
    | finite s m' e' h' => exact roundWithAccuracy_isNaN ..

end PgVector.Foundation
