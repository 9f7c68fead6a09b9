import PgVector.Types.Half
import PgVector.Types.SparsevecConvert

/-!
# What the constructors of sparse vectors guarantee

Each function that returns a `sparsevec` is taken through its checks.  Every
constructor but one returns a valid vector; `array_to_sparsevec` bounds the
number of entries only by the number of dimensions.
-/

namespace PgVector.Types

open Foundation
open Float.Model (UnpackedFloat)

/-! ## Checks -/

variable {dim : Int} {u : Unit} {previous : Option Int} {elements : List SparseInputElement}
  {buf : List UInt8} {divided : List SparseInputElement}

@[simp]
theorem checkDim_eq_ok : checkDim dim = .ok u ↔ 1 ≤ dim ∧ dim ≤ sparsevecMaxDim := by
  simp [checkDim, bind_eq_ok]

@[simp]
theorem checkExpectedDim_eq_ok {typmod : Int} :
    checkExpectedDim typmod dim = .ok u ↔ typmod = -1 ∨ typmod = dim := by
  simp [checkExpectedDim]
  tauto

@[simp]
theorem checkNnz_eq_ok {nnz : Int} :
    checkNnz nnz dim = .ok u ↔ 0 ≤ nnz ∧ nnz ≤ sparsevecMaxNnz ∧ nnz ≤ dim := by
  simp [checkNnz, bind_eq_ok]

@[simp]
theorem checkIndex_eq_ok {index : Int} :
    checkIndex previous index dim = .ok u ↔
      (0 ≤ index ∧ index < dim) ∧ ∀ i ∈ previous, i < index := by
  simp only [checkIndex, bind_eq_ok, errorIf_eq_ok, exists_and_right, exists_const]
  cases previous with
  | none => simp
  | some i =>
    simp
    omega

theorem isFinite_iff {x : Float4} : x.isFinite = true ↔ x.isNaN = false ∧ x.isInf = false := by
  rw [Float32.Model.isFinite, Float32.Model.isNaN, Float32.Model.isInf]
  cases x.unpack <;> simp [UnpackedFloat.isFinite, UnpackedFloat.isNaN, UnpackedFloat.isInf]

@[simp]
theorem checkElement_eq_ok {value : Float4} :
    checkElement value = .ok u ↔ value.isFinite = true := by
  simp [checkElement, bind_eq_ok, isFinite_iff]

@[simp]
theorem checkElements_eq_ok :
    checkElements elements = .ok u ↔ ∀ e ∈ elements, e.value.isFinite = true := by
  induction elements with
  | nil => simp [checkElements]
  | cons e elements ih => simp [checkElements, bind_eq_ok, ih]

theorem checkIndices_eq_ok :
    checkIndices dim previous elements = .ok u ↔
      elements.Pairwise (fun a b => a.index < b.index) ∧
      (∀ e ∈ elements, 0 ≤ e.index ∧ e.index < dim) ∧
      ∀ e ∈ elements, ∀ i ∈ previous, i < e.index := by
  induction elements generalizing previous with
  | nil => simp [checkIndices]
  | cons e elements ih =>
    simp only [checkIndices, bind_eq_ok, checkIndex_eq_ok, exists_and_right, exists_const,
      ih, List.pairwise_cons, List.mem_cons, forall_eq_or_imp, Option.mem_def,
      Option.some.injEq, forall_eq']
    constructor
    · rintro ⟨⟨hbounds, hprevious⟩, hsorted, hrest, habove⟩
      exact ⟨⟨habove, hsorted⟩, ⟨hbounds, hrest⟩, hprevious,
        fun e' he' i hi => (hprevious i hi).trans (habove e' he')⟩
    · rintro ⟨⟨habove, hsorted⟩, ⟨hbounds, hrest⟩, hprevious, _⟩
      exact ⟨⟨hbounds, hprevious⟩, hsorted, hrest, habove⟩

theorem initSparseVector_eq_ok {nnz : Nat} {v : SparseVector}
    (h : initSparseVector dim nnz = .ok v) : v = ⟨dim, 0, List.replicate nnz ⟨0, .ofNat 0⟩⟩ := by
  simp only [initSparseVector, bind_eq_ok, pure, Except.pure, Except.ok.injEq] at h
  obtain ⟨_, _, rfl⟩ := h
  rfl

theorem initSparseVector_of_size {nnz : Nat} (dim : Int)
    (h : sparsevecSize nnz ≤ maxAllocSize) :
    initSparseVector dim nnz = .ok ⟨dim, 0, List.replicate nnz ⟨0, .ofNat 0⟩⟩ := by
  have hsize : sparsevecSize nnz = 16 + nnz * 4 + nnz * 4 := rfl
  rw [initSparseVector, palloc_toInt32 (by omega) h]
  rfl

theorem initSparseVector_of_le {nnz : Nat} (dim : Int) (h : nnz ≤ sparsevecMaxNnz) :
    initSparseVector dim nnz = .ok ⟨dim, 0, List.replicate nnz ⟨0, .ofNat 0⟩⟩ := by
  have h : nnz ≤ 16000 := h
  refine initSparseVector_of_size dim ?_
  rw [sparsevecSize, maxAllocSize]
  omega

theorem length_le_of_sorted (hdim : 0 ≤ dim)
    (hsorted : elements.Pairwise fun a b => a.index < b.index)
    (hbounds : ∀ e ∈ elements, 0 ≤ e.index ∧ e.index < dim) : elements.length ≤ dim := by
  have hnodup : (elements.map SparseInputElement.index).Nodup :=
    List.pairwise_map.mpr (hsorted.imp fun h => h.ne)
  have hsubset : (elements.map SparseInputElement.index).toFinset ⊆ Finset.Ico 0 dim := by
    intro i hi
    simp only [List.mem_toFinset, List.mem_map] at hi
    obtain ⟨e, he, rfl⟩ := hi
    exact Finset.mem_Ico.mpr (hbounds e he)
  have hcard := Finset.card_le_card hsubset
  rw [List.toFinset_card_of_nodup hnodup, List.length_map, Int.card_Ico] at hcard
  omega

/-! ## Copying what is not zero -/

section Copy

variable {α : Type} (nonzero : α → Bool) (element : Nat → α → SparseInputElement)

def nonzeroEntries : Nat → List α → List SparseInputElement
  | _, [] => []
  | i, x :: xs =>
    if nonzero x then element i x :: nonzeroEntries (i + 1) xs
    else nonzeroEntries (i + 1) xs

theorem length_nonzeroEntries (i : Nat) (xs : List α) :
    (nonzeroEntries nonzero element i xs).length = xs.countP nonzero := by
  induction xs generalizing i with
  | nil => rfl
  | cons x xs ih =>
    by_cases hx : nonzero x = true <;> simp [nonzeroEntries, hx, ih]

variable {xs : List α} {copied : List SparseInputElement}

theorem mem_nonzeroEntries {i : Nat} {e : SparseInputElement}
    (he : e ∈ nonzeroEntries nonzero element i xs) :
    ∃ j x, i ≤ j ∧ j < i + xs.length ∧ x ∈ xs ∧ nonzero x = true ∧ e = element j x := by
  induction xs generalizing i with
  | nil => simp [nonzeroEntries] at he
  | cons x xs ih =>
    have hrest : e ∈ nonzeroEntries nonzero element (i + 1) xs →
        ∃ j y, i ≤ j ∧ j < i + (x :: xs).length ∧ y ∈ x :: xs ∧ nonzero y = true ∧
          e = element j y := by
      intro h
      obtain ⟨j, y, hij, hj, hy, hnz, heq⟩ := ih h
      refine ⟨j, y, by omega, ?_, List.mem_cons_of_mem _ hy, hnz, heq⟩
      rw [List.length_cons]
      omega
    rw [nonzeroEntries] at he
    split at he
    · rename_i hx
      cases List.mem_cons.mp he with
      | inl heq => exact ⟨i, x, le_rfl, by simp, List.mem_cons_self, hx, heq⟩
      | inr h => exact hrest h
    · exact hrest he

theorem exists_mem_nonzeroEntries (i : Nat) {x : α} (hx : x ∈ xs) (hnz : nonzero x = true) :
    ∃ j, element j x ∈ nonzeroEntries nonzero element i xs := by
  induction xs generalizing i with
  | nil => simp at hx
  | cons y xs ih =>
    rw [nonzeroEntries]
    cases List.mem_cons.mp hx with
    | inl heq =>
      subst heq
      rw [if_pos hnz]
      exact ⟨i, List.mem_cons_self⟩
    | inr hmem =>
      obtain ⟨j, hj⟩ := ih (i + 1) hmem
      split
      · exact ⟨j, List.mem_cons_of_mem _ hj⟩
      · exact ⟨j, hj⟩

theorem copyNonzero_eq_ok {nnz i : Nat} {elements : List SparseInputElement}
    (h : copyNonzero nonzero element nnz i xs copied = .ok elements) :
    elements = copied ++ nonzeroEntries nonzero element i xs := by
  induction xs generalizing i copied with
  | nil =>
    simp only [copyNonzero, Except.ok.injEq] at h
    rw [← h, nonzeroEntries, List.append_nil]
  | cons x xs ih =>
    rw [copyNonzero] at h
    rw [nonzeroEntries]
    split at h
    · split at h
      · simp at h
      · rw [if_pos ‹_›, ih h, List.append_assoc]
        rfl
    · rw [if_neg ‹_›, ih h]

theorem copyNonzero_of_le {nnz i : Nat} (h : copied.length + xs.countP nonzero ≤ nnz) :
    copyNonzero nonzero element nnz i xs copied =
      .ok (copied ++ nonzeroEntries nonzero element i xs) := by
  induction xs generalizing i copied with
  | nil => simp [copyNonzero, nonzeroEntries]
  | cons x xs ih =>
    rw [copyNonzero, nonzeroEntries]
    by_cases hx : nonzero x = true
    · rw [List.countP_cons_of_pos hx] at h
      rw [if_pos hx, if_pos hx, if_neg (by omega), ih (by simp; omega), List.append_assoc]
      rfl
    · rw [List.countP_cons_of_neg hx] at h
      rw [if_neg hx, if_neg hx, ih h]

end Copy

/-! ## Conversions from dense vectors -/

section Dense

variable {α : Type} {nonzero : α → Bool} {toFloat4 : α → Float4}

theorem sorted_nonzeroEntries (i : Nat) (xs : List α) :
    (nonzeroEntries nonzero (fun i x => ⟨i, toFloat4 x⟩) i xs).Pairwise
      fun a b => a.index < b.index := by
  induction xs generalizing i with
  | nil => exact List.Pairwise.nil
  | cons x xs ih =>
    rw [nonzeroEntries]
    split
    · refine List.pairwise_cons.mpr ⟨fun e he => ?_, ih (i + 1)⟩
      obtain ⟨j, y, hj, _, _, _, rfl⟩ := mem_nonzeroEntries _ _ he
      simp only [Nat.cast_lt]
      omega
    · exact ih (i + 1)

theorem valid_nonzeroEntries {xs : List α} (hdim : 1 ≤ (xs.length : ℤ))
    (hmax : (xs.length : ℤ) ≤ sparsevecMaxDim)
    (hnnz : xs.countP nonzero ≤ sparsevecMaxNnz)
    (hvalue : ∀ x ∈ xs, nonzero x = true →
      (toFloat4 x).isFinite = true ∧ isZero (toFloat4 x) = false) :
    (SparseVector.mk xs.length 0
      (nonzeroEntries nonzero (fun i x => ⟨i, toFloat4 x⟩) 0 xs)).Valid where
  dim_pos := hdim
  dim_le := hmax
  nnz_le_dim := by
    simp only [length_nonzeroEntries, Nat.cast_le]
    exact List.countP_le_length
  nnz_le := by rwa [length_nonzeroEntries]
  sorted := sorted_nonzeroEntries 0 xs
  bounds e he := by
    obtain ⟨j, x, _, hj, _, _, rfl⟩ := mem_nonzeroEntries _ _ he
    simp only [Nat.cast_nonneg, Nat.cast_lt, true_and]
    omega
  finite e he := by
    obtain ⟨j, x, _, _, hx, hnz, rfl⟩ := mem_nonzeroEntries _ _ he
    exact (hvalue x hx hnz).1
  nonzero e he := by
    obtain ⟨j, x, _, _, hx, hnz, rfl⟩ := mem_nonzeroEntries _ _ he
    exact (hvalue x hx hnz).2

theorem denseToSparsevec_eq_ok {xs : List α} {typmod : Int} {v : SparseVector}
    (h : denseToSparsevec nonzero toFloat4 xs typmod = .ok v) :
    v = ⟨xs.length, 0, nonzeroEntries nonzero (fun i x => ⟨i, toFloat4 x⟩) 0 xs⟩ := by
  simp only [denseToSparsevec, bind_eq_ok, pure, Except.pure, Except.ok.injEq] at h
  obtain ⟨_, _, _, _, result, hinit, elements, hcopy, rfl⟩ := h
  rw [initSparseVector_eq_ok hinit, copyNonzero_eq_ok _ _ hcopy]
  rfl

theorem denseToSparsevec_eq {xs : List α} (h : (SparseVector.mk xs.length 0
      (nonzeroEntries nonzero (fun i x => ⟨i, toFloat4 x⟩) 0 xs)).Valid) (typmod : Int) :
    denseToSparsevec nonzero toFloat4 xs typmod = do
      checkExpectedDim typmod xs.length
      return ⟨xs.length, 0, nonzeroEntries nonzero (fun i x => ⟨i, toFloat4 x⟩) 0 xs⟩ := by
  have hdim : checkDim xs.length = .ok () := checkDim_eq_ok.mpr ⟨h.dim_pos, h.dim_le⟩
  have hnnz : xs.countP nonzero ≤ sparsevecMaxNnz := by
    rw [← length_nonzeroEntries nonzero fun i x => ⟨i, toFloat4 x⟩]
    exact h.nnz_le
  have hcopy := copyNonzero_of_le nonzero (fun i x => ⟨i, toFloat4 x⟩)
    (show ([] : List SparseInputElement).length + xs.countP nonzero ≤ _ from (Nat.zero_add _).le)
    (i := 0)
  simp only [denseToSparsevec, hdim, initSparseVector_of_le _ hnnz, hcopy]
  rfl

end Dense

theorem vector_valid (vec : Vector) :
    (SparseVector.mk vec.x.length 0
      (nonzeroEntries (fun v => !isZero v) (fun i x => ⟨i, id x⟩) 0 vec.x)).Valid := by
  have hpos := vec.dim_pos
  have hle : vec.x.length ≤ 16000 := vec.dim_le
  refine valid_nonzeroEntries (by omega) ?_ (List.countP_le_length.trans vec.dim_le) ?_
  · change (vec.x.length : ℤ) ≤ 1000000000
    omega
  · intro x hx hnz
    exact ⟨vec.finite x hx, by simpa using hnz⟩

theorem vectorToSparsevec_valid {vec : Vector} {typmod : Int} {v : SparseVector}
    (h : vectorToSparsevec vec typmod = .ok v) : v.Valid := by
  rw [denseToSparsevec_eq_ok h]
  exact vector_valid vec

theorem vectorToSparsevec_eq (vec : Vector) (typmod : Int) :
    vectorToSparsevec vec typmod = do
      checkExpectedDim typmod vec.x.length
      return ⟨vec.x.length, 0,
        nonzeroEntries (fun v => !isZero v) (fun i x => ⟨i, id x⟩) 0 vec.x⟩ :=
  denseToSparsevec_eq (vector_valid vec) typmod

theorem halfvec_valid (vec : HalfVector) :
    (SparseVector.mk vec.x.length 0
      (nonzeroEntries (fun v => !halfIsZero v) (fun i x => ⟨i, halfToFloat4 x⟩) 0
        vec.x)).Valid := by
  have hpos := vec.dim_pos
  have hle : vec.x.length ≤ 16000 := vec.dim_le
  refine valid_nonzeroEntries (by omega) ?_ (List.countP_le_length.trans vec.dim_le) ?_
  · change (vec.x.length : ℤ) ≤ 1000000000
    omega
  · intro num hnum hnz
    obtain ⟨hnan, hinf⟩ := vec.finite num hnum
    refine ⟨isFinite_halfToFloat4 hnan hinf, ?_⟩
    rw [isZero_halfToFloat4 hnan hinf]
    simpa using hnz

theorem halfvecToSparsevec_valid {vec : HalfVector} {typmod : Int} {v : SparseVector}
    (h : halfvecToSparsevec vec typmod = .ok v) : v.Valid := by
  rw [denseToSparsevec_eq_ok h]
  exact halfvec_valid vec

/-! ## Conversion from arrays -/

section Array

variable {Numeric : Type} {numericFloat4 : Numeric → Except PgError Float4}
  {array : ArrayType Numeric} {typmod : Int} {v : SparseVector}

theorem length_reduceOption_of_all {α : Type} {elems : List (Option α)}
    (h : elems.any Option.isNone = false) : elems.reduceOption.length = elems.length := by
  rw [List.reduceOption_length_eq_iff]
  intro o ho
  simp only [List.any_eq_false] at h
  simpa [Option.isSome_iff_ne_none] using h o ho

theorem length_mapM_ok {α β : Type} {f : α → Except PgError β} {xs : List α} {ys : List β}
    (h : xs.mapM f = .ok ys) : ys.length = xs.length := by
  induction xs generalizing ys with
  | nil =>
    simp only [List.mapM_nil, pure, Except.pure, Except.ok.injEq] at h
    rw [← h]
    rfl
  | cons x xs ih =>
    simp only [List.mapM_cons, bind_eq_ok, pure, Except.pure, Except.ok.injEq] at h
    obtain ⟨y, _, ys', hrest, rfl⟩ := h
    rw [List.length_cons, List.length_cons, ih hrest]

theorem length_float4s {elements : ArrayElements Numeric} {floats : List Float4}
    (hnulls : elements.containsNulls = false)
    (h : elements.float4s numericFloat4 = .ok floats) :
    floats.length = elements.length := by
  cases elements with
  | int4 elems =>
    simp only [ArrayElements.float4s, Except.ok.injEq] at h
    rw [← h, List.length_map]
    exact length_reduceOption_of_all hnulls
  | float8 elems =>
    simp only [ArrayElements.float4s, Except.ok.injEq] at h
    rw [← h, List.length_map]
    exact length_reduceOption_of_all hnulls
  | float4 elems =>
    simp only [ArrayElements.float4s, Except.ok.injEq] at h
    rw [← h]
    exact length_reduceOption_of_all hnulls
  | numeric elems =>
    rw [length_mapM_ok h]
    exact length_reduceOption_of_all hnulls
  | unsupported elems => simp [ArrayElements.float4s] at h

theorem arrayToSparsevec_eq_ok (h : arrayToSparsevec numericFloat4 array typmod = .ok v) :
    ∃ floats, array.elements.float4s numericFloat4 = .ok floats ∧
      v = ⟨floats.length, 0, nonzeroEntries isNotZero (fun i x => ⟨i, id x⟩) 0 floats⟩ ∧
      1 ≤ (floats.length : ℤ) ∧ (floats.length : ℤ) ≤ sparsevecMaxDim ∧
      ∀ x ∈ floats, isNotZero x = true → x.isFinite = true := by
  simp only [arrayToSparsevec, bind_eq_ok, pure, Except.pure, Except.ok.injEq,
    errorIf_eq_ok, checkDim_eq_ok, checkElements_eq_ok] at h
  obtain ⟨_, _, _, hnulls, _, ⟨hpos, hmax⟩, _, _, floats, hfloats, result, hinit, elements,
    hcopy, _, _, _, hfinite, rfl⟩ := h
  have hlength := length_float4s (by simpa using hnulls) hfloats
  have hcopied := copyNonzero_eq_ok _ _ hcopy
  rw [List.nil_append] at hcopied
  refine ⟨floats, hfloats, ?_, by rwa [hlength], by rwa [hlength], ?_⟩
  · rw [initSparseVector_eq_ok hinit, hcopied, hlength]
    rfl
  · intro x hx hnz
    rw [hcopied] at hfinite
    obtain ⟨i, hi⟩ := exists_mem_nonzeroEntries isNotZero (fun i v => ⟨i, v⟩) 0 hx hnz
    have hvalue := hfinite _ hi
    exact hvalue

end Array

/-! ## Text input -/

section Text

variable {T : FloatText} {lit : List Char}

structure Read (maxNnz : Nat) (elements : List SparseInputElement) : Prop where
  length_le : elements.length ≤ maxNnz
  finite : ∀ e ∈ elements, e.value.isFinite = true
  nonzero : ∀ e ∈ elements, isZero e.value = false

variable {maxNnz : Nat} {elements read : List SparseInputElement}

theorem Read.next (index : Int) {value : Float4} (h : Read maxNnz elements)
    (hfull : elements.length ≠ maxNnz) (hvalue : value.isFinite = true) :
    Read maxNnz (if isZero value then elements else elements ++ [⟨index, value⟩]) := by
  have hlength := h.length_le
  split
  · exact h
  · rename_i hzero
    constructor
    · rw [List.length_append, List.length_singleton]
      omega
    · simp only [List.forall_mem_append, List.forall_mem_singleton]
      exact ⟨h.finite, hvalue⟩
    · simp only [List.forall_mem_append, List.forall_mem_singleton]
      exact ⟨h.nonzero, by simpa using hzero⟩

theorem readElements_read {pt rest : List Char}
    (h : readElements T lit maxNnz elements pt = .ok (read, rest)) (hread : Read maxNnz elements) :
    Read maxNnz read := by
  have hfinite : ∀ {pt value stringEnd}, readValue T lit pt = .ok (value, stringEnd) →
      value.isFinite = true := fun hvalue =>
    checkElement_eq_ok.mp (readValue_eq_ok hvalue).2
  fun_induction readElements T lit maxNnz elements pt with
  | case1 => simp at h
  | case2 => simp at h
  | case3 => simp at h
  | case4 elements pt hfull index after hindex value stringEnd hvalue elements' pt' hnext ih =>
    exact ih h (hread.next _ hfull (hfinite hvalue))
  | case5 elements pt hfull index after hindex value stringEnd hvalue elements' pt' hnext =>
    simp only [Except.ok.injEq, Prod.mk.injEq] at h
    rw [← h.1]
    exact hread.next _ hfull (hfinite hvalue)
  | case6 => simp at h

theorem readEntries_read {pt rest : List Char}
    (h : readEntries T lit pt maxNnz = .ok (read, rest)) : Read maxNnz read := by
  have hnil : Read maxNnz [] := ⟨Nat.zero_le _, by simp, by simp⟩
  rw [readEntries] at h
  split at h
  · simp only [Except.ok.injEq, Prod.mk.injEq] at h
    rw [← h.1]
    exact hnil
  · exact readElements_read h hnil

theorem makeSparsevec_valid {typmod dim : Int} {v : SparseVector} (hread : Read maxNnz elements)
    (hmax : maxNnz ≤ sparsevecMaxNnz) (h : makeSparsevec typmod dim elements = .ok v) :
    v.Valid ∧ v.unused = 0 := by
  simp only [makeSparsevec, bind_eq_ok, pure, Except.pure, Except.ok.injEq, checkDim_eq_ok,
    checkIndices_eq_ok] at h
  obtain ⟨_, ⟨hpos, hle⟩, _, _, result, hinit, _, ⟨hsorted, hbounds, _⟩, rfl⟩ := h
  rw [initSparseVector_eq_ok hinit]
  refine ⟨⟨hpos, hle, ?_, ?_, hsorted, hbounds, ?_, ?_⟩, rfl⟩
  · exact length_le_of_sorted (by dsimp only; omega) hsorted hbounds
  · rw [List.length_mergeSort]
    exact hread.length_le.trans hmax
  · simpa using hread.finite
  · simpa using hread.nonzero

theorem sparsevecIn_valid {typmod : Int} {v : SparseVector}
    (h : sparsevecIn T lit typmod = .ok v) : v.Valid ∧ v.unused = 0 := by
  simp only [sparsevecIn, bind_eq_ok, errorIf_eq_ok] at h
  obtain ⟨_, hmax, h⟩ := h
  split at h
  · simp only [bind_eq_ok] at h
    obtain ⟨⟨elements, pt⟩, hentries, dim, _, hmake⟩ := h
    exact makeSparsevec_valid (readEntries_read hentries) (by omega) hmake
  · simp at h

end Text

/-! ## Binary input -/

theorem recvIndices_eq_ok {turns : Nat} {rest : List UInt8} {indices : List Int}
    (h : recvIndices dim turns previous buf = .ok (indices, rest)) :
    indices.length = turns ∧ indices.Pairwise (· < ·) ∧
      (∀ i ∈ indices, 0 ≤ i ∧ i < dim) ∧ ∀ i ∈ indices, ∀ j ∈ previous, j < i := by
  induction turns generalizing previous buf indices rest with
  | zero =>
    simp only [recvIndices, Except.ok.injEq, Prod.mk.injEq] at h
    simp [← h.1]
  | succ turns ih =>
    simp only [recvIndices, bind_eq_ok, checkIndex_eq_ok, pure, Except.pure,
      Except.ok.injEq, Prod.mk.injEq] at h
    obtain ⟨⟨index, buf⟩, _, _, ⟨hbounds, hprevious⟩, ⟨tail, buf'⟩, htail, rfl, _⟩ := h
    obtain ⟨hlength, hsorted, hrest, habove⟩ := ih htail
    simp only [Option.mem_def, Option.some.injEq, forall_eq'] at habove
    refine ⟨by simp [hlength], List.pairwise_cons.mpr ⟨habove, hsorted⟩, ?_, ?_⟩
    · exact List.forall_mem_cons.mpr ⟨hbounds, hrest⟩
    · exact List.forall_mem_cons.mpr ⟨hprevious,
        fun i hi j hj => (hprevious j hj).trans (habove i hi)⟩

theorem recvValuesFrom_eq_ok {turns : Nat} {rest : List UInt8} {values : List Float4}
    (h : recvValuesFrom turns buf = .ok (values, rest)) :
    values.length = turns ∧ ∀ x ∈ values, x.isFinite = true ∧ isZero x = false := by
  induction turns generalizing buf values with
  | zero =>
    simp only [recvValuesFrom, Except.ok.injEq, Prod.mk.injEq] at h
    simp [← h.1]
  | succ turns ih =>
    simp only [recvValuesFrom, bind_eq_ok, checkElement_eq_ok, errorIf_eq_ok, pure,
      Except.pure, Except.ok.injEq, Prod.mk.injEq] at h
    obtain ⟨⟨bits, buf⟩, _, _, hfinite, _, hzero, ⟨tail, _⟩, htail, rfl, rfl⟩ := h
    obtain ⟨hlength, hvalues⟩ := ih htail
    exact ⟨by simp [hlength], List.forall_mem_cons.mpr ⟨⟨hfinite, by simpa using hzero⟩, hvalues⟩⟩

theorem map_zipWith_mk {indices : List Int} {values : List Float4}
    (h : indices.length = values.length) :
    (List.zipWith SparseInputElement.mk indices values).map SparseInputElement.index =
        indices ∧
      (List.zipWith SparseInputElement.mk indices values).map SparseInputElement.value =
        values := by
  induction indices generalizing values with
  | nil =>
    cases values with
    | nil => simp
    | cons x values => simp at h
  | cons i indices ih =>
    cases values with
    | nil => simp at h
    | cons x values => simpa using ih (by simpa using h)

theorem sparsevecRecv_valid {typmod : Int} {v : SparseVector}
    (h : sparsevecRecv buf typmod = .ok v) : v.Valid ∧ v.unused = 0 := by
  obtain ⟨rest, h⟩ := sparsevecRecv_eq_ok.mp h
  simp only [sparsevecRecvFrom, bind_eq_ok, checkDim_eq_ok, checkNnz_eq_ok, errorIf_eq_ok, pure,
    Except.pure, Except.ok.injEq, Prod.mk.injEq] at h
  obtain ⟨⟨dim, _⟩, _, ⟨nnz, _⟩, _, ⟨unused, _⟩, _, _, ⟨hpos, hle⟩, _, ⟨hnneg, hnnz, hdim⟩, _,
    _, _, _, result, hinit, ⟨indices, _⟩, hindices, ⟨values, _⟩, hvalues, rfl, rfl⟩ := h
  obtain ⟨hlength, hsorted, hbounds, _⟩ := recvIndices_eq_ok hindices
  obtain ⟨hlength', hfinite⟩ := recvValuesFrom_eq_ok hvalues
  obtain ⟨hmap, hmap'⟩ := map_zipWith_mk (hlength.trans hlength'.symm)
  have hindex : ∀ e ∈ List.zipWith SparseInputElement.mk indices values,
      e.index ∈ indices := fun e he => hmap ▸ List.mem_map_of_mem he
  have hvalue : ∀ e ∈ List.zipWith SparseInputElement.mk indices values,
      e.value ∈ values := fun e he => hmap' ▸ List.mem_map_of_mem he
  have hcount : (List.zipWith SparseInputElement.mk indices values).length = nnz.toInt.toNat := by
    rw [List.length_zipWith, hlength, hlength', min_self]
  dsimp only at hpos hnneg hnnz hdim
  rw [initSparseVector_eq_ok hinit]
  refine ⟨⟨hpos, hle, ?_, ?_, ?_, ?_, ?_, ?_⟩, rfl⟩
  · simp only [hcount]
    omega
  · simp only [hcount]
    omega
  · rw [← hmap, List.pairwise_map] at hsorted
    exact hsorted
  · exact fun e he => hbounds _ (hindex e he)
  · exact fun e he => (hfinite _ (hvalue e he)).1
  · exact fun e he => (hfinite _ (hvalue e he)).2

/-! ## Normalization -/

theorem positive_foldl {norm : Float8}
    (hvalue : ∀ e ∈ elements, ∃ s m x h, e.value.unpack = .finite s m x h) (hnorm : Positive norm) :
    Positive (elements.foldl (fun norm e => norm + widen e.value * widen e.value) norm) := by
  induction elements generalizing norm with
  | nil => exact hnorm
  | cons e elements ih =>
    obtain ⟨_, _, _, _, he⟩ := hvalue e (.head _)
    exact ih (fun e' he' => hvalue e' (.tail _ he')) (hnorm.add (positive_mul_self he))

theorem exists_unpack_finite {x : Float4} (hfinite : x.isFinite = true)
    (hzero : isZero x = false) : ∃ s m e h, x.unpack = .finite s m e h := by
  cases isFinite_cases hfinite with
  | inl h => simp [isZero_iff.mpr h] at hzero
  | inr h => exact h

theorem positive_l2Norm (hne : elements ≠ []) (hfinite : ∀ e ∈ elements, e.value.isFinite = true)
    (hzero : ∀ e ∈ elements, isZero e.value = false) : Positive (l2Norm elements) := by
  have hvalue : ∀ e ∈ elements, ∃ s m x h, e.value.unpack = .finite s m x h :=
    fun e he => exists_unpack_finite (hfinite e he) (hzero e he)
  cases elements with
  | nil => exact absurd rfl hne
  | cons e elements =>
    obtain ⟨_, _, _, _, he⟩ := hvalue e (.head _)
    have hunpack : (Float.Model.ofNat 0).unpack = .zero .positive := rfl
    exact (positive_foldl (fun e' he' => hvalue e' (.tail _ he'))
      (Positive.zero_add hunpack (positive_mul_self he))).sqrt

theorem divideElements_eq_ok {norm : Float8} (hnorm : Positive norm)
    (hfinite : ∀ e ∈ elements, e.value.isFinite = true)
    (h : divideElements norm elements = .ok divided) :
    divided.map SparseInputElement.index = elements.map SparseInputElement.index ∧
      ∀ e ∈ divided, e.value.isFinite = true := by
  induction elements generalizing divided with
  | nil =>
    simp only [divideElements, Except.ok.injEq] at h
    simp [← h]
  | cons e elements ih =>
    simp only [divideElements, bind_eq_ok, errorIf_eq_ok, pure, Except.pure, Except.ok.injEq] at h
    obtain ⟨_, hinf, rest, hrest, rfl⟩ := h
    simp only [List.mem_cons, forall_eq_or_imp] at hfinite
    obtain ⟨hindex, hvalues⟩ := ih hfinite.2 hrest
    have hnan : (narrow (widen e.value / norm)).isNaN = false := by
      rw [narrow_isNaN]
      exact div_isNaN (widen_isFinite hfinite.1) hnorm
    refine ⟨by simp [hindex], List.forall_mem_cons.mpr ⟨?_, hvalues⟩⟩
    exact isFinite_iff.mpr ⟨hnan, by simpa using hinf⟩

theorem nonzeroEntries_eq_filter (nonzero : SparseInputElement → Bool) (i : Nat)
    (xs : List SparseInputElement) :
    nonzeroEntries nonzero (fun _ e => e) i xs = xs.filter nonzero := by
  induction xs generalizing i with
  | nil => rfl
  | cons x xs ih => rw [nonzeroEntries, ih, List.filter_cons]

theorem SparseVector.Valid.replace {a : SparseVector} (ha : a.Valid)
    (hindex : divided.map SparseInputElement.index = a.elements.map SparseInputElement.index)
    (hsub : elements.Sublist divided) (hfinite : ∀ e ∈ elements, e.value.isFinite = true)
    (hzero : ∀ e ∈ elements, isZero e.value = false) :
    (SparseVector.mk a.dim 0 elements).Valid := by
  have hlength : divided.length = a.elements.length := by
    simpa using congrArg List.length hindex
  have hsorted : divided.Pairwise fun a b => a.index < b.index := by
    have := List.pairwise_map.mpr ha.sorted
    rw [← hindex] at this
    exact List.pairwise_map.mp this
  have hbounds : ∀ e ∈ divided, 0 ≤ e.index ∧ e.index < a.dim := by
    intro e he
    have hmem := List.mem_map_of_mem (f := SparseInputElement.index) he
    rw [hindex] at hmem
    obtain ⟨e', he', heq⟩ := List.mem_map.mp hmem
    exact heq ▸ ha.bounds e' he'
  have hle := hsub.length_le
  have hnnz := ha.nnz_le
  have hdim := ha.nnz_le_dim
  exact ⟨ha.dim_pos, ha.dim_le, by dsimp only; omega, by dsimp only; omega,
    hsorted.sublist hsub, fun e he => hbounds e (hsub.subset he), hfinite, hzero⟩

theorem sparsevecL2Normalize_valid {a v : SparseVector} (ha : a.Valid)
    (h : sparsevecL2Normalize a = .ok v) : v.Valid ∧ v.unused = 0 := by
  simp only [sparsevecL2Normalize, bind_eq_ok] at h
  obtain ⟨result, hinit, h⟩ := h
  have hresult := initSparseVector_eq_ok hinit
  by_cases hempty : a.elements = []
  · -- the norm is zero, and nothing was allocated
    have hnorm : (Float.Model.ofNat 0).lt (l2Norm a.elements) = false := by
      rw [hempty]
      decide +kernel
    rw [hnorm, if_neg (by decide)] at h
    simp only [pure, Except.pure, Except.ok.injEq] at h
    rw [← h, hresult, hempty]
    exact ⟨ha.replace rfl (List.nil_sublist _) (by simp) (by simp), rfl⟩
  · have hnorm := positive_l2Norm hempty ha.finite ha.nonzero
    rw [if_pos hnorm.zero_lt] at h
    simp only [bind_eq_ok] at h
    obtain ⟨divided, hdivide, h⟩ := h
    obtain ⟨hindex, hfinite⟩ := divideElements_eq_ok hnorm ha.finite hdivide
    split at h
    · simp only [bind_eq_ok, pure, Except.pure, Except.ok.injEq] at h
      obtain ⟨newResult, hinit', kept, hcopy, rfl⟩ := h
      have hkept := copyNonzero_eq_ok _ _ hcopy
      rw [List.nil_append, nonzeroEntries_eq_filter] at hkept
      rw [initSparseVector_eq_ok hinit']
      refine ⟨ha.replace hindex (hkept ▸ List.filter_sublist) ?_ ?_, rfl⟩
      · exact fun e he => hfinite e (List.mem_of_mem_filter (hkept ▸ he))
      · intro e he
        rw [hkept, List.mem_filter] at he
        simpa using he.2
    · rename_i hzeros
      simp only [pure, Except.pure, Except.ok.injEq] at h
      rw [← h, hresult]
      refine ⟨ha.replace hindex (List.Sublist.refl _) hfinite ?_, rfl⟩
      simpa [List.countP_eq_zero] using hzeros

end PgVector.Types
