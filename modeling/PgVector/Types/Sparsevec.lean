import PgVector.Types.Vector

/-!
# Sparse vectors

The functions that build a `sparsevec`, its two codecs and its comparison.  The
arrays of indices and values are one list of pairs.  Reading and printing a
`float4` as text belong to the C library and the server; they enter as a pair of
functions with the properties that are documented for them.
-/

namespace PgVector.Types

open Foundation

def sparsevecMaxDim : Int := 1000000000

def sparsevecMaxNnz : Nat := 16000

structure SparseInputElement where
  /-- Numbered from zero. -/
  index : Int
  value : Float4
  deriving DecidableEq

structure SparseVector where
  dim : Int
  /-- Reserved, always zero. -/
  unused : Int
  elements : List SparseInputElement
  deriving DecidableEq

/-! ## Checks -/

def checkDim (dim : Int) : Except PgError Unit := do
  errorIf (dim < 1)
    { errcode := .dataException
      errmsg := "sparsevec must have at least 1 dimension" }
  errorIf (dim > sparsevecMaxDim)
    { errcode := .programLimitExceeded
      errmsg := s!"sparsevec cannot have more than {sparsevecMaxDim} dimensions" }

def tooManyNonzero : PgError where
  errcode := .programLimitExceeded
  errmsg := s!"sparsevec cannot have more than {sparsevecMaxNnz} non-zero elements"

def checkNnz (nnz dim : Int) : Except PgError Unit := do
  errorIf (nnz < 0)
    { errcode := .dataException
      errmsg := "sparsevec cannot have negative number of elements" }
  errorIf (nnz > sparsevecMaxNnz) tooManyNonzero
  errorIf (nnz > dim)
    { errcode := .programLimitExceeded
      errmsg := "sparsevec cannot have more elements than dimensions" }

/-- `CheckIndex`; `previous` is the index before it, if there is one. -/
def checkIndex (previous : Option Int) (index dim : Int) : Except PgError Unit := do
  errorIf (index < 0 ∨ index ≥ dim)
    { errcode := .dataException
      errmsg := "sparsevec index out of bounds" }
  errorIf (∃ i ∈ previous, index < i)
    { errcode := .dataException
      errmsg := "sparsevec indices must be in ascending order" }
  errorIf (∃ i ∈ previous, index = i)
    { errcode := .dataException
      errmsg := "sparsevec indices must not contain duplicates" }

def checkElement (value : Float4) : Except PgError Unit := do
  errorIf (value.isNaN = true)
    { errcode := .dataException
      errmsg := "NaN not allowed in sparsevec" }
  errorIf (value.isInf = true)
    { errcode := .dataException
      errmsg := "infinite value not allowed in sparsevec" }

def checkElements : List SparseInputElement → Except PgError Unit
  | [] => .ok ()
  | e :: elements => do
    checkElement e.value
    checkElements elements

/-! ## Allocation -/

def sparsevecSize (nnz : Nat) : Int := 16 + nnz * 4 + nnz * 4

def initSparseVector (dim : Int) (nnz : Nat) : Except PgError SparseVector := do
  palloc (toInt32 (sparsevecSize nnz))
  return { dim := dim, unused := 0, elements := List.replicate nnz ⟨0, .ofNat 0⟩ }

/-! ## Text -/

/-- `strtof` and `float_to_shortest_decimal_bufn`, with what is known of them. -/
structure FloatText where
  /-- The value, whether `errno` is `ERANGE`, and what follows the number. -/
  strtof : List Char → Option (Float4 × Bool × List Char)
  shortestDecimal : Float4 → List Char
  strtof_length : ∀ {pt value erange stringEnd},
    strtof pt = some (value, erange, stringEnd) → stringEnd.length < pt.length
  strtof_shortestDecimal : ∀ {value : Float4}, value.isFinite = true →
    ∀ c ∈ [',', '\x7d'], ∀ rest, ∃ erange,
      strtof (shortestDecimal value ++ c :: rest) = some (value, erange, c :: rest)
  comma_notMem_shortestDecimal : ∀ {value : Float4}, value.isFinite = true →
    ',' ∉ shortestDecimal value
  space_notMem_shortestDecimal : ∀ {value : Float4}, value.isFinite = true →
    ∀ c ∈ shortestDecimal value, c ≠ ' ' ∧ c ≠ '\t' ∧ c ≠ '\n' ∧ c ≠ '\r' ∧ c ≠ '\x0b' ∧ c ≠ '\x0c'

def sparsevecIsspace (ch : Char) : Bool :=
  ch == ' ' || ch == '\t' || ch == '\n' || ch == '\r' || ch == '\x0b' || ch == '\x0c'

def skipSpace (pt : List Char) : List Char := pt.dropWhile sparsevecIsspace

def clamp (low high n : Int) : Int :=
  if n > high then high else if n < low then low else n

def splitSign : List Char → Bool × List Char
  | '-' :: rest => (true, rest)
  | '+' :: rest => (false, rest)
  | rest => (false, rest)

/-- `strtol` with base 10; nothing when there are no digits. -/
def strtol (pt : List Char) : Option (Int × List Char) :=
  let (negative, rest) := splitSign (skipSpace pt)
  let digits := rest.takeWhile Char.isDigit
  let magnitude : Int := Nat.ofDigitChars 10 digits 0
  if digits.isEmpty then none
  else some (clamp (-2 ^ 63) (2 ^ 63 - 1) (if negative then -magnitude else magnitude),
    rest.dropWhile Char.isDigit)

def invalidSyntax (lit : List Char) (detail : Option String) : PgError :=
  let text := String.ofList lit
  { errcode := .invalidTextRepresentation
    errmsg := s!"invalid input syntax for type sparsevec: \"{text}\""
    errdetail := detail }

def ranOutOfBuffer (lit : List Char) : PgError :=
  let text := String.ofList lit
  { errcode := .invalidTextRepresentation
    errmsg := s!"ran out of buffer: \"{text}\"" }

/-- The error of a number whose text is the part of `pt` before `stringEnd`. -/
def outOfRange (pt stringEnd : List Char) : PgError :=
  let text := String.ofList (pt.take (pt.length - stringEnd.length))
  { errcode := .numericValueOutOfRange
    errmsg := s!"\"{text}\" is out of range for type sparsevec" }

def readIndex (lit pt : List Char) : Except PgError (Int × List Char) :=
  let pt := skipSpace pt
  if pt.isEmpty then .error (invalidSyntax lit none)
  else
    match strtol pt with
    | none => .error (invalidSyntax lit none)
    | some (index, stringEnd) =>
      match skipSpace stringEnd with
      -- the index is kept in the range of `int` for the error message
      | ':' :: pt => .ok (clamp (-2 ^ 31 + 1) (2 ^ 31 - 1) index, pt)
      | _ => .error (invalidSyntax lit none)

def readValue (T : FloatText) (lit pt : List Char) : Except PgError (Float4 × List Char) :=
  let pt := skipSpace pt
  match T.strtof pt with
  | none => .error (invalidSyntax lit none)
  | some (value, erange, stringEnd) => do
    errorIf (erange = true ∧ (isZero value = true ∨ value.isInf = true)) (outOfRange pt stringEnd)
    checkElement value
    return (value, stringEnd)

theorem skipSpace_length_le (pt : List Char) : (skipSpace pt).length ≤ pt.length :=
  (List.dropWhile_suffix _).length_le

theorem splitSign_length_le (pt : List Char) : (splitSign pt).2.length ≤ pt.length := by
  unfold splitSign
  split <;> simp

variable {pt rest lit : List Char}

theorem strtol_length_le {n : Int} (h : strtol pt = some (n, rest)) : rest.length ≤ pt.length := by
  simp only [strtol] at h
  split at h <;> simp only [Option.some.injEq, Prod.mk.injEq, reduceCtorEq] at h
  rw [← h.2]
  exact ((List.dropWhile_suffix _).length_le.trans (splitSign_length_le _)).trans
    (skipSpace_length_le _)

theorem readIndex_length_lt {index : Int} (h : readIndex lit pt = .ok (index, rest)) :
    rest.length < pt.length := by
  simp only [readIndex] at h
  split at h
  · simp at h
  · split at h
    · simp at h
    · rename_i stringEnd hindex
      split at h
      · rename_i hcolon
        simp only [Except.ok.injEq, Prod.mk.injEq] at h
        have hlong := skipSpace_length_le stringEnd
        rw [hcolon, h.2, List.length_cons] at hlong
        have hindex := strtol_length_le hindex
        have hpt := skipSpace_length_le pt
        omega
      · simp at h

theorem readValue_eq_ok {T : FloatText} {stringEnd : List Char} {value : Float4}
    (h : readValue T lit pt = .ok (value, stringEnd)) :
    (∃ erange, T.strtof (skipSpace pt) = some (value, erange, stringEnd)) ∧
      checkElement value = .ok () := by
  simp only [readValue] at h
  split at h
  · simp at h
  · rename_i hvalue
    simp only [bind_eq_ok, pure, Except.pure, Except.ok.injEq, Prod.mk.injEq] at h
    obtain ⟨_, _, _, hcheck, rfl, rfl⟩ := h
    exact ⟨⟨_, hvalue⟩, hcheck⟩

theorem readValue_length_lt {T : FloatText} {value : Float4}
    (h : readValue T lit pt = .ok (value, rest)) : rest.length < pt.length := by
  obtain ⟨⟨_, hvalue⟩, _⟩ := readValue_eq_ok h
  exact (T.strtof_length hvalue).trans_le (skipSpace_length_le pt)

/--
The loop of `sparsevec_in`, from a position where an entry begins: the entries
that are not zero, and what follows the closing brace.
-/
def readElements (T : FloatText) (lit : List Char) (maxNnz : Nat)
    (elements : List SparseInputElement) (pt : List Char) :
    Except PgError (List SparseInputElement × List Char) :=
  if elements.length = maxNnz then .error (ranOutOfBuffer lit)
  else
    match _hindex : readIndex lit pt with
    | .error error => .error error
    | .ok (index, rest) =>
      match _hvalue : readValue T lit rest with
      | .error error => .error error
      | .ok (value, stringEnd) =>
        -- zeros are not stored, and the numbering of SQL starts at one
        let elements :=
          if isZero value then elements else elements ++ [⟨index - 1, value⟩]
        match _hnext : skipSpace stringEnd with
        | ',' :: pt => readElements T lit maxNnz elements pt
        | '\x7d' :: pt => .ok (elements, pt)
        | _ => .error (invalidSyntax lit none)
termination_by pt.length
decreasing_by
  have hlong := skipSpace_length_le stringEnd
  rw [_hnext, List.length_cons] at hlong
  have hindex := readIndex_length_lt _hindex
  have hvalue := readValue_length_lt _hvalue
  omega

def checkIndices (dim : Int) : Option Int → List SparseInputElement → Except PgError Unit
  | _, [] => .ok ()
  | previous, e :: elements => do
    checkIndex previous e.index dim
    checkIndices dim (some e.index) elements

def compareIndices (a b : SparseInputElement) : Bool := decide (a.index ≤ b.index)

/-- The end of `sparsevec_in`, with the entries and the dimensions read. -/
def makeSparsevec (typmod dim : Int) (elements : List SparseInputElement) :
    Except PgError SparseVector := do
  checkDim dim
  checkExpectedDim typmod dim
  let elements := elements.mergeSort compareIndices
  let result ← initSparseVector dim elements.length
  checkIndices dim none elements
  return { result with elements := elements }

def readDim (lit pt : List Char) : Except PgError Int :=
  match skipSpace pt with
  | '/' :: pt =>
    match strtol (skipSpace pt) with
    | none => .error (invalidSyntax lit none)
    | some (dim, stringEnd) =>
      if (skipSpace stringEnd).isEmpty then .ok (clamp (-2 ^ 31) (2 ^ 31 - 1) dim)
      else .error (invalidSyntax lit (some "Junk after closing."))
  | _ => .error (invalidSyntax lit (some "Unexpected end of input."))

def readEntries (T : FloatText) (lit pt : List Char) (maxNnz : Nat) :
    Except PgError (List SparseInputElement × List Char) :=
  match skipSpace pt with
  | '\x7d' :: pt => .ok ([], pt)
  | pt => readElements T lit maxNnz [] pt

def sparsevecIn (T : FloatText) (lit : List Char) (typmod : Int) :
    Except PgError SparseVector := do
  -- a literal has at most one entry more than commas
  let maxNnz := lit.count ',' + 1
  errorIf (maxNnz > sparsevecMaxNnz) tooManyNonzero
  match skipSpace lit with
  | '\x7b' :: pt => do
    let (elements, pt) ← readEntries T lit pt maxNnz
    let dim ← readDim lit pt
    makeSparsevec typmod dim elements
  | _ => .error (invalidSyntax lit (some "Vector contents must start with \"\x7b\"."))

def pgLtoa (value : Int) : List Char :=
  if value < 0 then '-' :: Nat.toDigits 10 value.natAbs else Nat.toDigits 10 value.natAbs

def elementText (T : FloatText) (e : SparseInputElement) : List Char :=
  pgLtoa (toInt32 (e.index + 1)) ++ ':' :: T.shortestDecimal e.value

def sparsevecOut (T : FloatText) (v : SparseVector) : Except PgError (List Char) := do
  -- `FLOAT_SHORTEST_DECIMAL_LEN` is 16
  palloc (toInt32 ((11 + 16) * v.elements.length + 13))
  return '\x7b' :: List.intercalate [','] (v.elements.map (elementText T)) ++
    '\x7d' :: '/' :: pgLtoa v.dim

end PgVector.Types
