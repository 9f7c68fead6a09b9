import PgVector.Types.SparsevecCodec

/-!
# The representation invariant of sparse vectors

Every constructor in one place.  What they return is valid and survives both
codecs, except that an array may have more elements other than zero than a
sparse vector can hold.
-/

namespace PgVector.Types

open Foundation

inductive SparsevecCall (Numeric : Type) where
  | sparsevecIn (lit : List Char) (typmod : Int)
  | sparsevecRecv (buf : List UInt8) (typmod : Int)
  | vectorToSparsevec (vec : Vector) (typmod : Int)
  | halfvecToSparsevec (vec : HalfVector) (typmod : Int)
  | arrayToSparsevec (array : ArrayType Numeric) (typmod : Int)
  | sparsevecL2Normalize (a : ValidSparsevec)

section Calls

variable {Numeric : Type} (T : FloatText) (numericFloat4 : Numeric → Except PgError Float4)

def SparsevecCall.result : SparsevecCall Numeric → Except PgError SparseVector
  | .sparsevecIn lit typmod => Types.sparsevecIn T lit typmod
  | .sparsevecRecv buf typmod => Types.sparsevecRecv buf typmod
  | .vectorToSparsevec vec typmod => Types.vectorToSparsevec vec typmod
  | .halfvecToSparsevec vec typmod => Types.halfvecToSparsevec vec typmod
  | .arrayToSparsevec array typmod =>
    Types.arrayToSparsevec numericFloat4 array typmod
  | .sparsevecL2Normalize a => Types.sparsevecL2Normalize a.1

/-- An array has at most as many elements other than zero as a sparse vector may. -/
def SparsevecCall.FewNonzero : SparsevecCall Numeric → Prop
  | .arrayToSparsevec array _ => ∀ floats, array.elements.float4s numericFloat4 = .ok floats →
      floats.countP isNotZero ≤ sparsevecMaxNnz
  | _ => True

def SparseVector.Survives (v : SparseVector) : Prop :=
  ∃ text, sparsevecOut T v = .ok text ∧ ∀ typmod, typmod = -1 ∨ typmod = v.dim →
    sparsevecIn T text typmod = .ok v ∧ sparsevecRecv (sparsevecSend v) typmod = .ok v

theorem SparseVector.Valid.survives {v : SparseVector} (h : v.Valid) (hunused : v.unused = 0) :
    v.Survives T := by
  obtain ⟨text, hout, hin⟩ := sparsevecIn_out T h hunused
  exact ⟨text, hout, fun typmod htypmod =>
    ⟨hin typmod htypmod, sparsevecRecv_send h hunused htypmod⟩⟩

theorem arrayToSparsevec_valid_iff {array : ArrayType Numeric} {typmod : Int} {v : SparseVector}
    (h : arrayToSparsevec numericFloat4 array typmod = .ok v) :
    v.unused = 0 ∧ (v.Valid ↔ ∀ floats, array.elements.float4s numericFloat4 = .ok floats →
      floats.countP isNotZero ≤ sparsevecMaxNnz) := by
  obtain ⟨floats, hfloats, rfl, hpos, hmax, hfinite⟩ := arrayToSparsevec_eq_ok h
  refine ⟨rfl, ?_, ?_⟩
  · intro hvalid floats' hfloats'
    rw [hfloats, Except.ok.injEq] at hfloats'
    rw [← hfloats', ← length_nonzeroEntries isNotZero (fun i x => ⟨i, id x⟩) 0]
    exact hvalid.nnz_le
  · intro hfew
    refine valid_nonzeroEntries hpos hmax (hfew floats hfloats) ?_
    intro x hx hnz
    exact ⟨hfinite x hx hnz, by simpa [isNotZero] using hnz⟩

/--
A vector that a constructor returns satisfies the invariant, and survives both
codecs, exactly when the array it is made of, if any, has few enough elements
other than zero.
-/
theorem constructed_valid_iff (call : SparsevecCall Numeric) (v : SparseVector)
    (h : call.result T numericFloat4 = .ok v) :
    v.Valid ∧ v.Survives T ↔ call.FewNonzero numericFloat4 := by
  have hvalid : v.Valid ∧ v.unused = 0 → (v.Valid ∧ v.Survives T ↔ True) :=
    fun ⟨hv, hunused⟩ => iff_true_intro ⟨hv, hv.survives T hunused⟩
  cases call with
  | sparsevecIn lit typmod => exact hvalid (sparsevecIn_valid h)
  | sparsevecRecv buf typmod => exact hvalid (sparsevecRecv_valid h)
  | vectorToSparsevec vec typmod =>
    exact hvalid ⟨vectorToSparsevec_valid h, by rw [denseToSparsevec_eq_ok h]⟩
  | halfvecToSparsevec vec typmod =>
    exact hvalid ⟨halfvecToSparsevec_valid h, by rw [denseToSparsevec_eq_ok h]⟩
  | sparsevecL2Normalize a => exact hvalid (sparsevecL2Normalize_valid a.2 h)
  | arrayToSparsevec array typmod =>
    obtain ⟨hunused, hiff⟩ := arrayToSparsevec_valid_iff numericFloat4 h
    constructor
    · exact fun hv => hiff.mp hv.1
    · intro hfew
      exact ⟨hiff.mpr hfew, (hiff.mpr hfew).survives T hunused⟩

end Calls

/-! ## A text format and two arrays -/

/-- The bits of the numbers 1 and 2 change places with those that read 1 and 2. -/
def wholeBits : Equiv.Perm UInt32 := Equiv.swap 1 0x3f800000 * Equiv.swap 2 0x40000000

def digitsValue (digits : List Char) : Float4 :=
  .ofBits (wholeBits (.ofNat (Nat.ofDigitChars 10 digits 0)))

def strtofDigits (pt : List Char) : Option (Float4 × Bool × List Char) :=
  let digits := pt.takeWhile Char.isDigit
  if digits.isEmpty then none
  else some (digitsValue digits, false, pt.dropWhile Char.isDigit)

theorem strtofDigits_append {digits rest : List Char} (hne : digits ≠ [])
    (hdigits : ∀ c ∈ digits, c.isDigit = true) (hrest : ∀ c ∈ rest.head?, c.isDigit = false) :
    strtofDigits (digits ++ rest) = some (digitsValue digits, false, rest) := by
  obtain ⟨htake, hdrop⟩ := digits_takeWhile hdigits hrest
  simp [strtofDigits, htake, hdrop, hne]

theorem strtofDigits_eq_some {pt stringEnd : List Char} {value : Float4} {erange : Bool}
    (h : strtofDigits pt = some (value, erange, stringEnd)) :
    ∃ digits ≠ [], (∀ c ∈ digits, c.isDigit = true) ∧ pt = digits ++ stringEnd ∧
      value = digitsValue digits ∧ erange = false := by
  simp only [strtofDigits] at h
  split at h
  · simp at h
  · rename_i hne
    simp only [Option.some.injEq, Prod.mk.injEq] at h
    obtain ⟨rfl, rfl, rfl⟩ := h
    exact ⟨_, by simpa using hne, fun _ hc => List.mem_takeWhile_imp hc,
      List.takeWhile_append_dropWhile.symm, rfl, rfl⟩

/--
A number as the digits of its bits, but 0, 1 and 2 as the server prints them: the laws of
`FloatText` can be met.
-/
def decimalText : FloatText where
  strtof := strtofDigits
  shortestDecimal value := Nat.toDigits 10 (wholeBits.symm value.toBits).toNat
  strtof_length := by
    intro pt value erange stringEnd h
    obtain ⟨digits, hne, -, rfl, -⟩ := strtofDigits_eq_some h
    simpa using List.length_pos_iff.mpr hne
  strtof_shortestDecimal := by
    intro value hfinite c hc rest
    have hrest : ∀ d ∈ (c :: rest).head?, d.isDigit = false := by
      intro d hd
      simp only [List.head?_cons, Option.mem_def, Option.some.injEq] at hd
      simp only [List.mem_cons, List.not_mem_nil, or_false] at hc
      cases hc with
      | inl h => rw [← hd, h]; rfl
      | inr h => rw [← hd, h]; rfl
    refine ⟨false, ?_⟩
    rw [strtofDigits_append Nat.toDigits_ne_nil
      (fun c hc => Nat.isDigit_of_mem_toDigits (by decide) (by decide) hc) hrest, digitsValue,
      Nat.ofDigitChars_ten_toDigits, UInt32.ofNat_toNat, Equiv.apply_symm_apply,
      ofBits_toBits (isNaN_eq_false_of_isFinite hfinite)]
  comma_notMem_shortestDecimal _ := comma_notMem_toDigits _
  space_notMem_shortestDecimal := by
    intro value _ c hc
    have hdigit := Nat.isDigit_of_mem_toDigits (by decide) (by decide) hc
    refine ⟨?_, ?_, ?_, ?_, ?_, ?_⟩ <;> exact ne_of_isDigit hdigit (by decide)

def onesArray (n : Nat) (h : n ≤ maxArraySize) : ArrayType Empty where
  ndim := 1
  elements := .float4 (List.replicate n (some (.ofNat 1)))
  length_le := by simpa [ArrayElements.length] using h

def noNumeric (n : Empty) : Except PgError Float4 := nomatch n

theorem countP_ones (n : Nat) :
    (List.replicate n (Float32.Model.ofNat 1)).countP isNotZero = n := by
  have hone : isNotZero (Float32.Model.ofNat 1) = true := by decide +kernel
  rw [List.countP_replicate, if_pos hone]

theorem float4s_onesArray (n : Nat) (h : n ≤ maxArraySize) :
    (onesArray n h).elements.float4s noNumeric = .ok (List.replicate n (.ofNat 1)) := by
  simp only [onesArray, ArrayElements.float4s, List.reduceOption,
    List.filterMap_replicate_of_some (rfl : id (some (Float32.Model.ofNat 1)) = some _)]

theorem arrayToSparsevec_onesArray (n : Nat) (h : n ≤ maxArraySize) (hpos : 1 ≤ n)
    (hsize : sparsevecSize n ≤ maxAllocSize) :
    arrayToSparsevec noNumeric (onesArray n h) (-1) = .ok ⟨n, 0,
      nonzeroEntries isNotZero (fun i x => ⟨i, x⟩) 0 (List.replicate n (.ofNat 1))⟩ := by
  have hlength : (onesArray n h).elements.length = n := List.length_replicate
  have hnulls : (onesArray n h).elements.containsNulls = false := by
    simp [onesArray, ArrayElements.containsNulls]
  have hcount : (onesArray n h).elements.countNonzero (List.replicate n (.ofNat 1)) = n :=
    countP_ones n
  have hdim : (n : ℤ) ≤ sparsevecMaxDim := by
    change n ≤ 134217727 at h
    change (n : ℤ) ≤ 1000000000
    omega
  have hfinite : (Float32.Model.ofNat 1).isFinite = true := by decide +kernel
  simp only [arrayToSparsevec, bind_eq_ok, pure, Except.pure, Except.ok.injEq, hlength, hnulls]
  refine ⟨(), ?_, (), ?_, (), checkDim_eq_ok.mpr ⟨by omega, hdim⟩, (),
    checkExpectedDim_eq_ok.mpr (.inl rfl), _, float4s_onesArray n h, ?_⟩
  · rw [errorIf_eq_ok]
    exact Nat.lt_irrefl 1
  · rw [errorIf_eq_ok]
    decide
  · rw [hcount]
    refine ⟨_, initSparseVector_of_size _ hsize, _, copyNonzero_of_le _ _ ?_, (), ?_, (), ?_, ?_⟩
    · simp [countP_ones]
    · rw [errorIf_eq_ok, List.nil_append, length_nonzeroEntries, countP_ones]
      simp
    · rw [checkElements_eq_ok]
      intro e he
      obtain ⟨i, x, _, _, hx, _, rfl⟩ := mem_nonzeroEntries _ _ he
      rw [List.eq_of_mem_replicate hx]
      exact hfinite
    · rfl

theorem constructed_valid_two :
    ∃ v, (SparsevecCall.arrayToSparsevec (onesArray 2 (by decide)) (-1)).result decimalText
        noNumeric = .ok v ∧ sparsevecOut decimalText v = .ok "\x7b1:1,2:1\x7d/2".toList ∧
      v.Valid ∧ v.Survives decimalText := by
  have hcall := arrayToSparsevec_onesArray 2 (by decide) (by decide) (by decide)
  refine ⟨_, hcall, ?_, ?_⟩
  · decide +kernel
  · refine (constructed_valid_iff decimalText noNumeric
      (.arrayToSparsevec (onesArray 2 (by decide)) (-1)) _ hcall).mpr ?_
    intro floats hfloats
    rw [float4s_onesArray, Except.ok.injEq] at hfloats
    rw [← hfloats, countP_ones]
    decide

/-- `array_to_sparsevec` accepts 16001 ones. -/
theorem constructed_not_valid :
    ∃ v, (SparsevecCall.arrayToSparsevec (onesArray 16001 (by decide)) (-1)).result decimalText
        noNumeric = .ok v ∧ v.elements.length = 16001 ∧ ¬ v.Valid := by
  have hlength : ∀ v : SparseVector, v.elements.length = 16001 → ¬ v.Valid := by
    intro v hv hvalid
    have hnnz : v.elements.length ≤ 16000 := hvalid.nnz_le
    omega
  have hcount : (nonzeroEntries isNotZero (fun i x => ⟨i, x⟩) 0
      (List.replicate 16001 (Float32.Model.ofNat 1))).length = 16001 := by
    rw [length_nonzeroEntries, countP_ones]
  have hsize : sparsevecSize 16001 ≤ maxAllocSize := by
    rw [sparsevecSize, maxAllocSize]
    omega
  have hcall := arrayToSparsevec_onesArray 16001 (by decide) (Nat.le_add_left 1 16000) hsize
  exact ⟨_, hcall, hcount, hlength _ hcount⟩

end PgVector.Types
