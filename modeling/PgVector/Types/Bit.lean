import PgVector.Types.Subvector

/-!
# Bit strings and binary quantization

The bytes of a bit string hold eight bits each, the most significant first, and the
bits that are left over in the last byte are zero.  `binary_quantize` fills whole
bytes in one loop and what is left in another.
-/

namespace PgVector.Types

def bitAt (bits : List UInt8) (i : Nat) : Bool :=
  (bits.getD (i / 8) 0).toNat.testBit (7 - i % 8)

structure VarBit where
  bitLen : Nat
  bits : List UInt8
  length_bits : bits.length = (bitLen + 7) / 8
  /-- `VARBITMAXLEN` -/
  bitLen_le : bitLen ≤ 2147483640
  padding : ∀ i, bitLen ≤ i → bitAt bits i = false

/-- `VARBITLEN` and `VARBITS`. -/
def initBitVector (dim : Nat) : Nat × List UInt8 := (dim, List.replicate ((dim + 7) / 8) 0)

def setByte (rx : List UInt8) (i : Nat) (byte : UInt8) : Except Fault (List UInt8) :=
  if i < rx.length then .ok (rx.set i byte) else .error .outOfBounds

section Quantize

variable {α : Type} (positive : α → Bool) (ax : List α)

/-- `(ax[i] > 0) << k` -/
def signBit (i k : Nat) : Except Fault UInt8 := do
  let v ← readAt ax i
  return (if positive v then 1 else 0) <<< UInt8.ofNat k

def orSigns (i : Nat) : List Nat → UInt8 → Except Fault UInt8
  | [], resultByte => .ok resultByte
  | j :: js, resultByte => do
    let bit ← signBit positive ax (i + j) (7 - j)
    orSigns i js (resultByte ||| bit)

def quantizeBytes : Nat → Nat → List UInt8 → Except Fault (List UInt8)
  | 0, _, rx => .ok rx
  | turns + 1, i, rx => do
    let resultByte ← orSigns positive ax i (List.range 8) 0
    let rx ← setByte rx (i / 8) resultByte
    quantizeBytes turns (i + 8) rx

def quantizeTail : Nat → Nat → List UInt8 → Except Fault (List UInt8)
  | 0, _, rx => .ok rx
  | turns + 1, i, rx => do
    let byte ← readAt rx (i / 8 : Nat)
    let bit ← signBit positive ax i (7 - i % 8)
    let rx ← setByte rx (i / 8) (byte ||| bit)
    quantizeTail turns (i + 1) rx

def quantize : Except Fault (Nat × List UInt8) := do
  let (bitLen, rx) := initBitVector ax.length
  let count := ax.length / 8 * 8
  let rx ← quantizeBytes positive ax (ax.length / 8) 0 rx
  let rx ← quantizeTail positive ax (ax.length - count) count rx
  return (bitLen, rx)

end Quantize

def isPositive (x : Float4) : Bool := (Float32.Model.ofNat 0).lt x

def binaryQuantize (a : Vector) : Except Fault (Nat × List UInt8) := quantize isPositive a.x

def halfvecBinaryQuantize (a : HalfVector) : Except Fault (Nat × List UInt8) :=
  quantize (fun num => isPositive (halfToFloat4 num)) a.x

/-! ## The two loops -/

theorem testBit_signBit (p : Bool) {k t : Nat} (hk : k < 8) (ht : t < 8) :
    ((if p then 1 else 0 : UInt8) <<< UInt8.ofNat k).toNat.testBit t = (p && k == t) := by
  have hall : ∀ (p : Bool) (k t : Fin 8),
      ((if p then 1 else 0 : UInt8) <<< UInt8.ofNat k).toNat.testBit t =
        (p && k.val == t.val) := by decide
  exact hall p ⟨k, hk⟩ ⟨t, ht⟩

theorem bitAt_set {rx : List UInt8} {b : Nat} (hb : b < rx.length) (byte : UInt8) (k : Nat) :
    bitAt (rx.set b byte) k =
      if k / 8 = b then byte.toNat.testBit (7 - k % 8) else bitAt rx k := by
  unfold bitAt
  split
  · next h => simp [List.getD, h, hb]
  · next h => simp [List.getD, List.getElem?_set_ne (Ne.symm h)]

section Quantize

variable {α : Type} {positive : α → Bool} {ax : List α}

/-- The first `i` bits are those of the elements, and the others are zero. -/
structure Quantized (positive : α → Bool) (ax : List α) (i : Nat) (rx : List UInt8) : Prop where
  length_eq : rx.length = (ax.length + 7) / 8
  bitAt_eq : ∀ k, bitAt rx k = (decide (k < i) && ax[k]?.any positive)

theorem signBit_eq {i : Nat} (hi : i < ax.length) (k : Nat) :
    signBit positive ax i k = .ok ((if ax[i]?.any positive then 1 else 0) <<< UInt8.ofNat k) := by
  simp [signBit, readAt, hi, bind, Except.bind, pure, Except.pure]

variable (positive) in
theorem orSigns_eq {i : Nat} {js : List Nat} (hjs : ∀ j ∈ js, j < 8 ∧ i + j < ax.length)
    (byte : UInt8) :
    ∃ result, orSigns positive ax i js byte = .ok result ∧ ∀ m < 8,
      result.toNat.testBit (7 - m) =
        (byte.toNat.testBit (7 - m) || decide (m ∈ js) && ax[i + m]?.any positive) := by
  induction js generalizing byte with
  | nil => exact ⟨byte, rfl, by simp⟩
  | cons j js ih =>
    obtain ⟨hj, hlt⟩ := hjs j (List.mem_cons_self ..)
    obtain ⟨result, hresult, hbits⟩ :=
      ih (fun j' h => hjs j' (.tail _ h)) (byte ||| _)
    refine ⟨result, ?_, fun m hm => ?_⟩
    · rw [orSigns, signBit_eq hlt]
      exact hresult
    · rw [hbits m hm, UInt8.toNat_or, Nat.testBit_or, testBit_signBit _ (by omega) (by omega)]
      by_cases hmj : m = j
      · subst hmj
        cases byte.toNat.testBit (7 - m) <;> cases ax[i + m]?.any positive <;> simp
      · have hne : (7 - j == 7 - m) = false := by simp; omega
        simp [hne, hmj]

theorem Quantized.bytes {turns i : Nat} {rx : List UInt8} (h : Quantized positive ax (8 * i) rx)
    (hle : 8 * (i + turns) ≤ ax.length) :
    ∃ rx', quantizeBytes positive ax turns (8 * i) rx = .ok rx' ∧
      Quantized positive ax (8 * (i + turns)) rx' := by
  induction turns generalizing i rx with
  | zero => exact ⟨rx, rfl, h⟩
  | succ turns ih =>
    have hjs : ∀ j ∈ List.range 8, j < 8 ∧ 8 * i + j < ax.length := by
      intro j hj
      have hj : j < 8 := List.mem_range.mp hj
      omega
    obtain ⟨byte, hbyte, hbits⟩ := orSigns_eq positive hjs 0
    have hi : i < rx.length := by
      have := h.length_eq
      omega
    have hset : Quantized positive ax (8 * (i + 1)) (rx.set i byte) := by
      refine ⟨by rw [List.length_set, h.length_eq], fun k => ?_⟩
      rw [bitAt_set hi]
      split
      · next hk =>
        have hsum : 8 * i + k % 8 = k := by omega
        rw [hbits (k % 8) (by omega), hsum]
        simp [show k % 8 < 8 by omega, show k < 8 * (i + 1) by omega]
      · next hk =>
        have hlt : k < 8 * i ↔ k < 8 * (i + 1) := by omega
        rw [h.bitAt_eq, decide_eq_decide.mpr hlt]
    obtain ⟨rx', hrx', hquantized⟩ := ih hset (by omega)
    refine ⟨rx', ?_, ?_⟩
    · rw [quantizeBytes, hbyte]
      simp only [bind, Except.bind, setByte, Nat.mul_div_cancel_left i (by omega : 0 < 8),
        if_pos hi]
      exact hrx'
    · rwa [show i + (turns + 1) = i + 1 + turns by omega]

theorem Quantized.tail {turns i : Nat} {rx : List UInt8} (h : Quantized positive ax i rx)
    (hle : i + turns = ax.length) :
    ∃ rx', quantizeTail positive ax turns i rx = .ok rx' ∧ Quantized positive ax ax.length rx' := by
  induction turns generalizing i rx with
  | zero => exact ⟨rx, rfl, by rwa [← hle]⟩
  | succ turns ih =>
    have hi : i / 8 < rx.length := by
      have := h.length_eq
      omega
    have hset : Quantized positive ax (i + 1) (rx.set (i / 8) (rx[i / 8] |||
        (if ax[i]?.any positive then 1 else 0) <<< UInt8.ofNat (7 - i % 8))) := by
      refine ⟨by rw [List.length_set, h.length_eq], fun k => ?_⟩
      rw [bitAt_set hi]
      split
      · next hk =>
        have hold : rx[i / 8].toNat.testBit (7 - k % 8) = bitAt rx k := by
          rw [bitAt, hk, List.getD_eq_getElem _ _ hi]
        have hsame : (7 - i % 8 == 7 - k % 8) = (k == i) := by
          rw [Bool.eq_iff_iff, beq_iff_eq, beq_iff_eq]
          omega
        rw [UInt8.toNat_or, Nat.testBit_or, testBit_signBit _ (by omega) (by omega), hold,
          hsame, h.bitAt_eq]
        rcases lt_trichotomy k i with hlt | rfl | hgt
        · simp [hlt, hlt.ne, Nat.lt_succ_of_lt hlt]
        · simp
        · simp [hgt.ne', Nat.not_lt_of_gt hgt, show ¬ k < i + 1 by omega]
      · next hk =>
        have hlt : k < i ↔ k < i + 1 := by
          have : k ≠ i := fun heq => hk (by rw [heq])
          omega
        rw [h.bitAt_eq, decide_eq_decide.mpr hlt]
    obtain ⟨rx', hrx', hquantized⟩ := ih hset (by omega)
    refine ⟨rx', ?_, hquantized⟩
    have hread : readAt rx (i / 8 : Nat) = .ok rx[i / 8] := by
      simp [readAt, hi]
    rw [quantizeTail, hread, signBit_eq (by omega)]
    simp only [bind, Except.bind, setByte, if_pos hi]
    exact hrx'

theorem quantize_eq (hmax : ax.length ≤ 2147483640) :
    ∃ v : VarBit, quantize positive ax = .ok (v.bitLen, v.bits) ∧ v.bitLen = ax.length ∧
      ∀ i, bitAt v.bits i = ax[i]?.any positive := by
  have hstart : Quantized positive ax (8 * 0) (initBitVector ax.length).2 := by
    refine ⟨List.length_replicate, fun k => ?_⟩
    have hzero : (initBitVector ax.length).2.getD (k / 8) 0 = 0 := by
      simp only [initBitVector, List.getD, List.getElem?_replicate]
      split <;> rfl
    rw [bitAt, hzero]
    simp
  have hwhole : ∃ rx, quantizeBytes positive ax (ax.length / 8) 0 (initBitVector ax.length).2 =
      .ok rx ∧ Quantized positive ax (8 * (0 + ax.length / 8)) rx :=
    hstart.bytes (by omega)
  obtain ⟨rx, hrx, hbytes⟩ := hwhole
  rw [show 8 * (0 + ax.length / 8) = ax.length / 8 * 8 by omega] at hbytes
  have htail : ∃ rx', quantizeTail positive ax (ax.length - ax.length / 8 * 8)
      (ax.length / 8 * 8) rx = .ok rx' ∧ Quantized positive ax ax.length rx' :=
    hbytes.tail (by omega)
  obtain ⟨rx', hrx', hquantized⟩ := htail
  refine ⟨⟨ax.length, rx', hquantized.length_eq, hmax, fun i hi => ?_⟩, ?_, rfl, fun i => ?_⟩
  · rw [hquantized.bitAt_eq, decide_eq_false (by omega), Bool.false_and]
  · rw [quantize]
    simp only [initBitVector] at hrx ⊢
    rw [hrx]
    simp only [bind, Except.bind, hrx']
    rfl
  · rw [hquantized.bitAt_eq]
    by_cases hi : i < ax.length <;> simp [hi]

end Quantize

/--
Bit `i` of the result is whether element `i` is greater than zero; the bits of the last
byte beyond the elements are zero.
-/
theorem binary_quantize_signs :
    (∀ a : Vector, ∃ v : VarBit, binaryQuantize a = .ok (v.bitLen, v.bits) ∧
      v.bitLen = a.x.length ∧ ∀ i, bitAt v.bits i = a.x[i]?.any isPositive) ∧
    ∀ a : HalfVector, ∃ v : VarBit, halfvecBinaryQuantize a = .ok (v.bitLen, v.bits) ∧
      v.bitLen = a.x.length ∧
      ∀ i, bitAt v.bits i = a.x[i]?.any fun num => isPositive (halfToFloat4 num) := by
  constructor
  · intro a
    exact quantize_eq (a.dim_le.trans (by decide))
  · intro a
    exact quantize_eq (a.dim_le.trans (by decide))

end PgVector.Types
