import PgVector.Foundation.FloatConvert

/-!
# Vectors and half vectors

The dense types, the conversion of a half-precision number by its bits, and the
comparison behind the btree operators.  A `float4` is a number of single
precision with one NaN; a `half` is its sixteen bits.
-/

namespace PgVector.Types

open Foundation
open Float.Model (UnpackedFloat)

abbrev Float4 := Float32.Model

abbrev Float8 := Float.Model

abbrev Half := UInt16

inductive Errcode where
  | dataException
  | programLimitExceeded
  | invalidTextRepresentation
  | numericValueOutOfRange
  | nullValueNotAllowed
  | protocolViolation
  | internalError
  deriving DecidableEq, Repr

structure PgError where
  errcode : Errcode
  errmsg : String
  errdetail : Option String := none
  deriving DecidableEq, Repr

def errorIf (condition : Prop) [Decidable condition] (error : PgError) : Except PgError Unit :=
  if condition then .error error else .ok ()

@[simp]
theorem errorIf_eq_ok {condition : Prop} [Decidable condition] {error : PgError} {u : Unit} :
    errorIf condition error = .ok u ↔ ¬ condition := by
  unfold errorIf
  split <;> simp_all

theorem bind_eq_ok {α β : Type} {x : Except PgError α} {f : α → Except PgError β} {b : β} :
    x >>= f = .ok b ↔ ∃ a, x = .ok a ∧ f a = .ok b := by
  cases x <;> simp [bind, Except.bind]

def checkExpectedDim (typmod dim : Int) : Except PgError Unit :=
  errorIf (typmod ≠ -1 ∧ typmod ≠ dim)
    { errcode := .dataException
      errmsg := s!"expected {typmod} dimensions, not {dim}" }

/-- A C `int` holds what is left modulo `2 ^ 32`. -/
def toInt32 (n : Int) : Int := n.bmod (2 ^ 32)

def maxAllocSize : Int := 0x3fffffff

/-- `palloc`, which takes its argument as an unsigned number of 64 bits. -/
def palloc (size : Int) : Except PgError Unit :=
  let request := size % 2 ^ 64
  errorIf (request > maxAllocSize)
    { errcode := .internalError
      errmsg := s!"invalid memory alloc request size {request}" }

theorem palloc_toInt32 {size : Int} (hpos : 0 ≤ size) (hmax : size ≤ maxAllocSize) :
    palloc (toInt32 size) = .ok () := by
  have hlimit : maxAllocSize = 0x3fffffff := rfl
  rw [toInt32, Int.bmod_eq_of_le (by omega) (by omega), palloc, errorIf_eq_ok,
    Int.emod_eq_of_lt hpos (by omega)]
  exact not_lt.mpr hmax

/-- `x == 0` in C: both zeros are equal to `0`. -/
def isZero (x : Float4) : Bool := x.beq (.ofNat 0)

theorem isZero_iff {x : Float4} : isZero x = true ↔ ∃ s, x.unpack = .zero s :=
  beq_zero_iff

/-! ## Dense vectors -/

def vectorMaxDim : Nat := 16000

def halfvecMaxDim : Nat := 16000

/-- A `vector`: every way to build one checks these bounds and every element. -/
structure Vector where
  x : List Float4
  dim_pos : 1 ≤ x.length
  dim_le : x.length ≤ vectorMaxDim
  finite : ∀ v ∈ x, v.isFinite = true

def halfIsNan (num : Half) : Bool :=
  num &&& 0x7C00 == 0x7C00 && num &&& 0x7FFF != 0x7C00

def halfIsInf (num : Half) : Bool := num &&& 0x7FFF == 0x7C00

def halfIsZero (num : Half) : Bool := num &&& 0x7FFF == 0x0000

structure HalfVector where
  x : List Half
  dim_pos : 1 ≤ x.length
  dim_le : x.length ≤ halfvecMaxDim
  finite : ∀ v ∈ x, halfIsNan v = false ∧ halfIsInf v = false

/-- The loop that shifts the mantissa of a subnormal half to its leading bit. -/
def shiftSubnormal : Nat → UInt32 → UInt32 → UInt32 × UInt32
  | 0, exponent, mantissa => (exponent, mantissa)
  | turns + 1, exponent, mantissa =>
    let mantissa := mantissa <<< 1
    let exponent := exponent - 1
    if (mantissa >>> 10) % 2 == 1 then (exponent, mantissa &&& 0x03ff)
    else shiftSubnormal turns exponent mantissa

/-- `HalfToFloat4`, as it is compiled without hardware conversion. -/
def halfToFloat4 (num : Half) : Float4 :=
  let exponent : UInt32 := ((num &&& 0x7C00) >>> 10).toUInt32
  let mantissa : UInt32 := (num &&& 0x03FF).toUInt32
  let result : UInt32 := (num &&& 0x8000).toUInt32 <<< 16
  if exponent == 31 then
    let result :=
      if mantissa == 0 then result ||| 0x7F800000 else result ||| 0x7FC00000
    .ofBits (result ||| mantissa <<< 13)
  else if exponent == 0 then
    if mantissa != 0 then
      let (exponent, mantissa) := shiftSubnormal 10 (-14) mantissa
      .ofBits (result ||| (exponent + 127) <<< 23 ||| mantissa <<< 13)
    else .ofBits (result ||| mantissa <<< 13)
  else .ofBits (result ||| (exponent - 15 + 127) <<< 23 ||| mantissa <<< 13)

/-! ## Comparison -/

/-- The loop over the common dimensions: the result if it returns one. -/
def cmpElements {α : Type} (toFloat4 : α → Float4) : List α → List α → Option Int
  | x :: xs, y :: ys =>
    if (toFloat4 x).lt (toFloat4 y) then some (-1)
    else if (toFloat4 y).lt (toFloat4 x) then some 1
    else cmpElements toFloat4 xs ys
  | _, _ => none

def cmpDims (aDim bDim : Int) : Int :=
  if aDim < bDim then -1 else if bDim < aDim then 1 else 0

def cmpInternal {α : Type} (toFloat4 : α → Float4) (a b : List α) : Int :=
  match cmpElements toFloat4 a b with
  | some result => result
  | none => cmpDims a.length b.length

def vectorCmpInternal (a b : Vector) : Int := cmpInternal id a.x b.x

def halfvecCmpInternal (a b : HalfVector) : Int := cmpInternal halfToFloat4 a.x b.x

/-! ## What a conversion keeps -/

theorem isFinite_cases {u : UnpackedFloat} (h : u.isFinite = true) :
    (∃ s, u = .zero s) ∨ ∃ s m e hpos, u = .finite s m e hpos := by
  cases u with
  | notANumber => simp [UnpackedFloat.isFinite] at h
  | infinity s => simp [UnpackedFloat.isFinite] at h
  | zero s => exact .inl ⟨s, rfl⟩
  | finite s m e hpos => exact .inr ⟨s, m, e, hpos, rfl⟩

theorem isNaN_eq_false_of_isFinite {u : UnpackedFloat} (h : u.isFinite = true) :
    u.isNaN = false := by
  obtain ⟨s, rfl⟩ | ⟨s, m, e, hpos, rfl⟩ := isFinite_cases h <;> rfl

end PgVector.Types
