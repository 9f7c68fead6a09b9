import PgVector.Types.Sparsevec

/-!
# Conversions of sparse vectors

The binary codec, the conversions from vectors, half vectors and arrays, the
normalization, and the comparison of sparse vectors.
-/

namespace PgVector.Types

open Foundation

/-! ## Binary format -/

def pqSendint (n : BitVec 32) : List UInt8 :=
  [.ofBitVec (n.extractLsb' 24 8), .ofBitVec (n.extractLsb' 16 8),
    .ofBitVec (n.extractLsb' 8 8), .ofBitVec (n.extractLsb' 0 8)]

def pqGetmsgint : List UInt8 → Except PgError (BitVec 32 × List UInt8)
  | a :: b :: c :: d :: buf =>
    .ok (a.toBitVec ++ b.toBitVec ++ c.toBitVec ++ d.toBitVec, buf)
  | _ => .error
      { errcode := .protocolViolation
        errmsg := "insufficient data left in message" }

def recvIndices (dim : Int) :
    Nat → Option Int → List UInt8 → Except PgError (List Int × List UInt8)
  | 0, _, buf => .ok ([], buf)
  | turns + 1, previous, buf => do
    let (index, buf) ← pqGetmsgint buf
    checkIndex previous index.toInt dim
    let (indices, buf) ← recvIndices dim turns (some index.toInt) buf
    return (index.toInt :: indices, buf)

/-- The values, and the bytes behind them. -/
def recvValuesFrom : Nat → List UInt8 → Except PgError (List Float4 × List UInt8)
  | 0, buf => .ok ([], buf)
  | turns + 1, buf => do
    let (bits, buf) ← pqGetmsgint buf
    let value := Float32.Model.ofBits (.ofBitVec bits)
    checkElement value
    errorIf (isZero value = true)
      { errcode := .dataException
        errmsg := "binary representation of sparsevec cannot contain zero values" }
    let (values, buf) ← recvValuesFrom turns buf
    return (value :: values, buf)

/-- `sparsevec_recv`, with the bytes that it leaves in the message. -/
def sparsevecRecvFrom (buf : List UInt8) (typmod : Int) :
    Except PgError (SparseVector × List UInt8) := do
  let (dim, buf) ← pqGetmsgint buf
  let (nnz, buf) ← pqGetmsgint buf
  let (unused, buf) ← pqGetmsgint buf
  checkDim dim.toInt
  checkNnz nnz.toInt dim.toInt
  checkExpectedDim typmod dim.toInt
  let received := unused.toInt
  errorIf (received ≠ 0)
    { errcode := .dataException
      errmsg := s!"expected unused to be 0, not {received}" }
  let result ← initSparseVector dim.toInt nnz.toInt.toNat
  let (indices, buf) ← recvIndices dim.toInt nnz.toInt.toNat none buf
  let (values, buf) ← recvValuesFrom nnz.toInt.toNat buf
  return ({ result with elements := List.zipWith SparseInputElement.mk indices values }, buf)

def sparsevecRecv (buf : List UInt8) (typmod : Int) : Except PgError SparseVector :=
  Prod.fst <$> sparsevecRecvFrom buf typmod

theorem sparsevecRecv_eq_ok {buf : List UInt8} {typmod : Int} {v : SparseVector} :
    sparsevecRecv buf typmod = .ok v ↔ ∃ rest, sparsevecRecvFrom buf typmod = .ok (v, rest) := by
  unfold sparsevecRecv
  cases sparsevecRecvFrom buf typmod with
  | error error => simp
  | ok received => simp [Prod.ext_iff]

def sparsevecSend (v : SparseVector) : List UInt8 :=
  pqSendint (.ofInt 32 v.dim) ++ pqSendint (.ofInt 32 v.elements.length) ++
    pqSendint (.ofInt 32 v.unused) ++
    v.elements.flatMap (fun e => pqSendint (.ofInt 32 e.index)) ++
    v.elements.flatMap (fun e => pqSendint e.value.toBits.toBitVec)

/-! ## Conversions -/

def safetyCheckFailed : PgError where
  errcode := .internalError
  errmsg := "safety check failed"

/--
The loop that copies what is not zero into a vector allocated for `nnz` elements;
`element i x` is what item `i` of the source becomes.
-/
def copyNonzero {α : Type} (nonzero : α → Bool) (element : Nat → α → SparseInputElement)
    (nnz : Nat) : Nat → List α → List SparseInputElement → Except PgError (List SparseInputElement)
  | _, [], copied => .ok copied
  | i, x :: xs, copied =>
    if nonzero x then
      if copied.length ≥ nnz then .error safetyCheckFailed
      else copyNonzero nonzero element nnz (i + 1) xs (copied ++ [element i x])
    else copyNonzero nonzero element nnz (i + 1) xs copied

def denseToSparsevec {α : Type} (nonzero : α → Bool) (toFloat4 : α → Float4)
    (x : List α) (typmod : Int) : Except PgError SparseVector := do
  checkDim x.length
  checkExpectedDim typmod x.length
  let nnz := x.countP nonzero
  let result ← initSparseVector x.length nnz
  let elements ← copyNonzero nonzero (fun i v => ⟨i, toFloat4 v⟩) nnz 0 x []
  return { result with elements := elements }

def vectorToSparsevec (vec : Vector) (typmod : Int) : Except PgError SparseVector :=
  denseToSparsevec (fun v => !isZero v) id vec.x typmod

def halfvecToSparsevec (vec : HalfVector) (typmod : Int) : Except PgError SparseVector :=
  denseToSparsevec (fun v => !halfIsZero v) halfToFloat4 vec.x typmod

/-- The elements of an array, by `ARR_ELEMTYPE`; a null is `none`. -/
inductive ArrayElements (Numeric : Type) where
  | int4 (elems : List (Option Int32))
  | float8 (elems : List (Option Float8))
  | float4 (elems : List (Option Float4))
  | numeric (elems : List (Option Numeric))
  | unsupported (elems : List (Option Unit))

def ArrayElements.length {Numeric : Type} : ArrayElements Numeric → Nat
  | .int4 elems => elems.length
  | .float8 elems => elems.length
  | .float4 elems => elems.length
  | .numeric elems => elems.length
  | .unsupported elems => elems.length

def ArrayElements.containsNulls {Numeric : Type} : ArrayElements Numeric → Bool
  | .int4 elems => elems.any Option.isNone
  | .float8 elems => elems.any Option.isNone
  | .float4 elems => elems.any Option.isNone
  | .numeric elems => elems.any Option.isNone
  | .unsupported elems => elems.any Option.isNone

def maxArraySize : Nat := 134217727

structure ArrayType (Numeric : Type) where
  ndim : Nat
  elements : ArrayElements Numeric
  length_le : elements.length ≤ maxArraySize

/-- The elements as `float4`, by the cast or the function for their type. -/
def ArrayElements.float4s {Numeric : Type} (numericFloat4 : Numeric → Except PgError Float4) :
    ArrayElements Numeric → Except PgError (List Float4)
  | .int4 elems => .ok (elems.reduceOption.map fun v => .ofInt32 v)
  | .float8 elems => .ok (elems.reduceOption.map narrow)
  | .float4 elems => .ok elems.reduceOption
  | .numeric elems => elems.reduceOption.mapM numericFloat4
  | .unsupported _ => .error
      { errcode := .dataException
        errmsg := "unsupported array type" }

def isNotZero (v : Float4) : Bool := !isZero v

/--
The first loop of `array_to_sparsevec`.  The test of a `numeric` is applied to the
datum that `numeric_float4` returns, which is zero when the bits of the number are.
-/
def ArrayElements.countNonzero {Numeric : Type} (elements : ArrayElements Numeric)
    (floats : List Float4) : Nat :=
  match elements with
  | .numeric _ => floats.countP fun v => v.toBits != 0
  | _ => floats.countP isNotZero

def arrayToSparsevec {Numeric : Type} (numericFloat4 : Numeric → Except PgError Float4)
    (array : ArrayType Numeric) (typmod : Int) : Except PgError SparseVector := do
  errorIf (array.ndim > 1)
    { errcode := .dataException
      errmsg := "array must be 1-D" }
  errorIf (array.elements.containsNulls = true)
    { errcode := .nullValueNotAllowed
      errmsg := "array must not contain nulls" }
  checkDim array.elements.length
  checkExpectedDim typmod array.elements.length
  let floats ← array.elements.float4s numericFloat4
  let nnz := array.elements.countNonzero floats
  let result ← initSparseVector array.elements.length nnz
  let elements ← copyNonzero isNotZero (fun i v => ⟨i, v⟩) nnz 0 floats []
  errorIf (elements.length ≠ nnz)
    { errcode := .internalError
      errmsg := "correctness check failed" }
  checkElements elements
  return { result with elements := elements }

/-! ## Normalization -/

def l2Norm (elements : List SparseInputElement) : Float8 :=
  (elements.foldl (fun norm e => norm + widen e.value * widen e.value) (Float.Model.ofNat 0)).sqrt

def divideElements (norm : Float8) :
    List SparseInputElement → Except PgError (List SparseInputElement)
  | [] => .ok []
  | e :: elements => do
    let value := narrow (widen e.value / norm)
    errorIf (value.isInf = true)
      { errcode := .numericValueOutOfRange
        errmsg := "value out of range: overflow" }
    let rest ← divideElements norm elements
    return ⟨e.index, value⟩ :: rest

def sparsevecL2Normalize (a : SparseVector) : Except PgError SparseVector := do
  let result ← initSparseVector a.dim a.elements.length
  let norm := l2Norm a.elements
  -- a vector of norm zero gives the zeros that were allocated
  if (Float.Model.ofNat 0).lt norm then
    let elements ← divideElements norm a.elements
    let zeros := elements.countP fun e => isZero e.value
    if zeros > 0 then
      let newResult ← initSparseVector a.dim (elements.length - zeros)
      let kept ← copyNonzero (fun e => !isZero e.value) (fun _ e => e)
        (elements.length - zeros) 0 elements []
      return { newResult with elements := kept }
    else return { result with elements := elements }
  else return result

/-! ## Validity -/

structure SparseVector.Valid (v : SparseVector) : Prop where
  dim_pos : 1 ≤ v.dim
  dim_le : v.dim ≤ sparsevecMaxDim
  nnz_le_dim : v.elements.length ≤ v.dim
  nnz_le : v.elements.length ≤ sparsevecMaxNnz
  sorted : v.elements.Pairwise fun a b => a.index < b.index
  bounds : ∀ e ∈ v.elements, 0 ≤ e.index ∧ e.index < v.dim
  finite : ∀ e ∈ v.elements, e.value.isFinite = true
  nonzero : ∀ e ∈ v.elements, isZero e.value = false

abbrev ValidSparsevec := {v : SparseVector // v.Valid}

/-! ## Comparison -/

def sparsevecCmpLoop (aDim bDim : Int) :
    List SparseInputElement → List SparseInputElement → Int
  | a :: as, b :: bs =>
    if a.index < b.index then if a.value.lt (.ofNat 0) then -1 else 1
    else if b.index < a.index then if b.value.lt (.ofNat 0) then 1 else -1
    else if a.value.lt b.value then -1
    else if b.value.lt a.value then 1
    else sparsevecCmpLoop aDim bDim as bs
  | [], b :: _ =>
    -- an entry beyond the other vector is left to the dimensions
    if b.index < aDim then if b.value.lt (.ofNat 0) then 1 else -1
    else cmpDims aDim bDim
  | a :: _, [] =>
    if a.index < bDim then if a.value.lt (.ofNat 0) then -1 else 1
    else cmpDims aDim bDim
  | [], [] => cmpDims aDim bDim

def sparsevecCmpInternal (a b : SparseVector) : Int :=
  sparsevecCmpLoop a.dim b.dim a.elements b.elements

end PgVector.Types
