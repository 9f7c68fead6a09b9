import PgVector.Types.SparsevecValid

/-!
# The codecs of sparse vectors

A valid vector comes back from its binary and from its text representation.
-/

namespace PgVector.Types

open Foundation

/-! ## Binary representation -/

theorem pqGetmsgint_pqSendint (n : BitVec 32) (buf : List UInt8) :
    pqGetmsgint (pqSendint n ++ buf) = .ok (n, buf) := by
  simp only [pqSendint, List.cons_append, List.nil_append, pqGetmsgint, Except.ok.injEq,
    Prod.mk.injEq, and_true]
  ext i hi
  simp only [BitVec.getElem_append, BitVec.getElem_extractLsb']
  rw [← BitVec.getLsbD_eq_getElem hi]
  split
  · congr 1
    omega
  · split
    · congr 1
      omega
    · split <;> congr 1 <;> omega

theorem toInt_ofInt32 {n : Int} (hmin : -2 ^ 31 ≤ n) (hmax : n < 2 ^ 31) :
    (BitVec.ofInt 32 n).toInt = n := by
  rw [BitVec.toInt_ofInt, Int.bmod_eq_of_le (by omega) (by omega)]

variable {elements : List SparseInputElement} {v : SparseVector} {typmod : Int}
  {buf rest : List UInt8} {c : Char}

theorem recvIndices_send {dim : Int} (hdim : dim ≤ sparsevecMaxDim) {previous : Option Int}
    (buf : List UInt8) (h : checkIndices dim previous elements = .ok ()) :
    recvIndices dim elements.length previous
        (elements.flatMap (fun e => pqSendint (.ofInt 32 e.index)) ++ buf) =
      .ok (elements.map SparseInputElement.index, buf) := by
  have hdim : dim ≤ 1000000000 := hdim
  induction elements generalizing previous with
  | nil => rfl
  | cons e elements ih =>
    simp only [checkIndices, bind_eq_ok] at h
    obtain ⟨_, hindex, hrest⟩ := h
    have hbounds := (checkIndex_eq_ok.mp hindex).1
    have hint : (BitVec.ofInt 32 e.index).toInt = e.index :=
      toInt_ofInt32 (by omega) (by omega)
    rw [List.flatMap_cons, List.append_assoc, List.length_cons, recvIndices]
    simp only [bind_eq_ok]
    refine ⟨_, pqGetmsgint_pqSendint _ _, (), ?_,
      (elements.map SparseInputElement.index, buf), ?_, ?_⟩
    · dsimp only
      rw [hint]
      exact hindex
    · dsimp only
      rw [hint]
      exact ih hrest
    · simp [pure, Except.pure, hint]

theorem recvValuesFrom_send (buf : List UInt8) (hfinite : ∀ e ∈ elements, e.value.isFinite = true)
    (hzero : ∀ e ∈ elements, isZero e.value = false) :
    recvValuesFrom elements.length
        (elements.flatMap (fun e => pqSendint e.value.toBits.toBitVec) ++ buf) =
      .ok (elements.map SparseInputElement.value, buf) := by
  induction elements with
  | nil => rfl
  | cons e elements ih =>
    simp only [List.mem_cons, forall_eq_or_imp] at hfinite hzero
    have hbits : Float32.Model.ofBits (.ofBitVec e.value.toBits.toBitVec) = e.value :=
      ofBits_toBits (isNaN_eq_false_of_isFinite hfinite.1)
    rw [List.flatMap_cons, List.append_assoc, List.length_cons, recvValuesFrom]
    simp only [bind_eq_ok]
    refine ⟨_, pqGetmsgint_pqSendint _ _, (), ?_, (), ?_, _, ih hfinite.2 hzero.2, ?_⟩
    · rw [hbits]
      exact checkElement_eq_ok.mpr hfinite.1
    · rw [hbits, errorIf_eq_ok, hzero.1]
      decide
    · simp [pure, Except.pure, hbits]

theorem zipWith_map (elements : List SparseInputElement) :
    List.zipWith SparseInputElement.mk (elements.map SparseInputElement.index)
      (elements.map SparseInputElement.value) = elements := by
  induction elements with
  | nil => rfl
  | cons e elements ih => rw [List.map_cons, List.map_cons, List.zipWith_cons_cons, ih]

theorem SparseVector.Valid.checkIndices (h : v.Valid) :
    Types.checkIndices v.dim none v.elements = .ok () :=
  checkIndices_eq_ok.mpr ⟨h.sorted, h.bounds, by simp⟩

theorem sparsevecRecvFrom_send (h : v.Valid) (hunused : v.unused = 0)
    (htypmod : typmod = -1 ∨ typmod = v.dim) (buf : List UInt8) :
    sparsevecRecvFrom (sparsevecSend v ++ buf) typmod = .ok (v, buf) := by
  have hpos := h.dim_pos
  have hmax : v.dim ≤ 1000000000 := h.dim_le
  have hnnz : v.elements.length ≤ 16000 := h.nnz_le
  have hdim : (BitVec.ofInt 32 v.dim).toInt = v.dim := toInt_ofInt32 (by omega) (by omega)
  have hlength : (BitVec.ofInt 32 v.elements.length).toInt = v.elements.length :=
    toInt_ofInt32 (by omega) (by omega)
  have hzero : (BitVec.ofInt 32 v.unused).toInt = 0 := by
    rw [hunused]
    rfl
  simp only [sparsevecRecvFrom, sparsevecSend, bind_eq_ok, List.append_assoc]
  refine ⟨_, pqGetmsgint_pqSendint _ _, _, pqGetmsgint_pqSendint _ _, _,
    pqGetmsgint_pqSendint _ _, (), ?_, (), ?_, (), ?_, (), ?_,
    ⟨v.dim, 0, List.replicate v.elements.length ⟨0, .ofNat 0⟩⟩, ?_,
    (v.elements.map SparseInputElement.index,
      v.elements.flatMap (fun e => pqSendint e.value.toBits.toBitVec) ++ buf), ?_,
    (v.elements.map SparseInputElement.value, buf), ?_, ?_⟩
  · rw [hdim]
    exact checkDim_eq_ok.mpr ⟨h.dim_pos, h.dim_le⟩
  · rw [hdim, hlength]
    exact checkNnz_eq_ok.mpr ⟨by omega, by exact_mod_cast h.nnz_le, h.nnz_le_dim⟩
  · rw [hdim]
    exact checkExpectedDim_eq_ok.mpr htypmod
  · rw [errorIf_eq_ok, hzero]
    decide
  · rw [hdim, hlength, Int.toNat_natCast]
    exact initSparseVector_of_le _ h.nnz_le
  · rw [hdim, hlength, Int.toNat_natCast]
    exact recvIndices_send h.dim_le _ h.checkIndices
  · rw [hlength, Int.toNat_natCast]
    exact recvValuesFrom_send _ h.finite h.nonzero
  · dsimp only
    rw [zipWith_map, ← hunused]
    rfl

theorem sparsevecRecv_send (h : v.Valid) (hunused : v.unused = 0)
    (htypmod : typmod = -1 ∨ typmod = v.dim) :
    sparsevecRecv (sparsevecSend v) typmod = .ok v := by
  have hfrom := sparsevecRecvFrom_send h hunused htypmod []
  rw [List.append_nil] at hfrom
  exact sparsevecRecv_eq_ok.mpr ⟨_, hfrom⟩

/-! ## What a message is read as -/

theorem pqGetmsgint_eq_ok {n : BitVec 32} (h : pqGetmsgint buf = .ok (n, rest)) :
    pqSendint n ++ rest = buf := by
  match buf with
  | [] | [_] | [_, _] | [_, _, _] => simp [pqGetmsgint] at h
  | a :: b :: c :: d :: buf =>
    simp only [pqGetmsgint, Except.ok.injEq, Prod.mk.injEq] at h
    obtain ⟨rfl, rfl⟩ := h
    simp only [pqSendint, List.cons_append, List.nil_append, List.cons.injEq, and_true,
      ← UInt8.toBitVec_inj]
    refine ⟨?_, ?_, ?_, ?_⟩ <;>
    · ext i hi
      simp only [BitVec.getElem_extractLsb', BitVec.getLsbD_append]
      grind

theorem recvIndices_bytes {dim : Int} {turns : Nat} {previous : Option Int} {indices : List Int}
    (h : recvIndices dim turns previous buf = .ok (indices, rest)) :
    indices.flatMap (fun i => pqSendint (.ofInt 32 i)) ++ rest = buf := by
  induction turns generalizing previous buf indices with
  | zero =>
    simp only [recvIndices, Except.ok.injEq, Prod.mk.injEq] at h
    simp [← h.1, h.2]
  | succ turns ih =>
    simp only [recvIndices, bind_eq_ok] at h
    obtain ⟨⟨index, buf'⟩, hindex, _, _, ⟨indices', rest'⟩, hrest, heq⟩ := h
    simp only [pure, Except.pure, Except.ok.injEq, Prod.mk.injEq] at heq
    obtain ⟨rfl, rfl⟩ := heq
    rw [List.flatMap_cons, BitVec.ofInt_toInt, List.append_assoc, ih hrest,
      pqGetmsgint_eq_ok hindex]

theorem recvValuesFrom_bytes {turns : Nat} {values : List Float4}
    (h : recvValuesFrom turns buf = .ok (values, rest)) :
    values.flatMap (fun x => pqSendint x.toBits.toBitVec) ++ rest = buf := by
  induction turns generalizing buf values with
  | zero =>
    simp only [recvValuesFrom, Except.ok.injEq, Prod.mk.injEq] at h
    simp [← h.1, h.2]
  | succ turns ih =>
    simp only [recvValuesFrom, bind_eq_ok] at h
    obtain ⟨⟨bits, buf'⟩, hbits, _, hcheck, _, _, ⟨values', rest'⟩, hrest, heq⟩ := h
    simp only [pure, Except.pure, Except.ok.injEq, Prod.mk.injEq] at heq
    obtain ⟨rfl, rfl⟩ := heq
    -- the bits of a number that is not NaN are those that were sent
    have hnan := (isFinite_iff.mp (checkElement_eq_ok.mp hcheck)).1
    rw [List.flatMap_cons, toBits_ofBits hnan, UInt32.toBitVec_ofBitVec, List.append_assoc,
      ih hrest, pqGetmsgint_eq_ok hbits]

theorem sparsevecRecvFrom_bytes (h : sparsevecRecvFrom buf typmod = .ok (v, rest)) :
    sparsevecSend v ++ rest = buf := by
  simp only [sparsevecRecvFrom, bind_eq_ok] at h
  obtain ⟨⟨dim, _⟩, hdim, ⟨nnz, _⟩, hnnz, ⟨unused, _⟩, hunused, _, _, _, hcheck, _, _, _, hzero,
    result, hresult, ⟨indices, _⟩, hindices, ⟨values, _⟩, hvalues, heq⟩ := h
  simp only [pure, Except.pure, Except.ok.injEq, Prod.mk.injEq] at heq
  obtain ⟨rfl, rfl⟩ := heq
  obtain rfl := initSparseVector_eq_ok hresult
  have hpos : 0 ≤ nnz.toInt := (checkNnz_eq_ok.mp hcheck).1
  have hunusedEq : unused = .ofInt 32 0 := by
    rw [errorIf_eq_ok, not_not] at hzero
    rw [← hzero, BitVec.ofInt_toInt]
  have hlength : indices.length = nnz.toInt.toNat := (recvIndices_eq_ok hindices).1
  have hvaluesLength : values.length = nnz.toInt.toNat := (recvValuesFrom_eq_ok hvalues).1
  obtain ⟨hindex, hvalue⟩ := map_zipWith_mk (hlength.trans hvaluesLength.symm)
  have hcount : ((List.zipWith SparseInputElement.mk indices values).length : ℤ) = nnz.toInt := by
    rw [← List.length_map SparseInputElement.index, hindex, hlength, Int.toNat_of_nonneg hpos]
  -- the two arrays stand one after the other
  have hsplit := List.flatMap_map SparseInputElement.index
    (fun i => pqSendint (.ofInt 32 i)) (List.zipWith SparseInputElement.mk indices values)
  have hsplit' := List.flatMap_map SparseInputElement.value
    (fun x => pqSendint x.toBits.toBitVec) (List.zipWith SparseInputElement.mk indices values)
  rw [hindex] at hsplit
  rw [hvalue] at hsplit'
  rw [sparsevecSend, ← hsplit, ← hsplit', hcount, BitVec.ofInt_toInt, BitVec.ofInt_toInt,
    ← hunusedEq]
  simp only [List.append_assoc]
  rw [recvValuesFrom_bytes hvalues, recvIndices_bytes hindices, pqGetmsgint_eq_ok hunused,
    pqGetmsgint_eq_ok hnnz, pqGetmsgint_eq_ok hdim]

/--
Every valid vector is received as it was sent, whatever follows it; and what is
received from any message is valid and was sent in the bytes that were taken.
-/
theorem sparsevec_message_codec :
    (∀ v : SparseVector, v.Valid → v.unused = 0 → ∀ typmod, typmod = -1 ∨ typmod = v.dim →
      sparsevecRecv (sparsevecSend v) typmod = .ok v ∧
      ∀ rest, sparsevecRecvFrom (sparsevecSend v ++ rest) typmod = .ok (v, rest)) ∧
    ∀ buf typmod v, sparsevecRecv buf typmod = .ok v →
      (v.Valid ∧ v.unused = 0) ∧
      ∃ rest, sparsevecRecvFrom buf typmod = .ok (v, rest) ∧ sparsevecSend v ++ rest = buf := by
  constructor
  · intro v h hunused typmod htypmod
    exact ⟨sparsevecRecv_send h hunused htypmod, sparsevecRecvFrom_send h hunused htypmod⟩
  · intro buf typmod v h
    obtain ⟨rest, hfrom⟩ := sparsevecRecv_eq_ok.mp h
    exact ⟨sparsevecRecv_valid h, rest, hfrom, sparsevecRecvFrom_bytes hfrom⟩

/-! ## Text representation -/

theorem ne_of_isDigit {d : Char} (h : c.isDigit = true) (hd : d.isDigit = false) : c ≠ d := by
  rintro rfl
  rw [h] at hd
  exact absurd hd (by decide)

theorem skipSpace_cons (h : sparsevecIsspace c = false) (rest : List Char) :
    skipSpace (c :: rest) = c :: rest := by
  rw [skipSpace, List.dropWhile_cons_of_neg (by simp [h])]

theorem sparsevecIsspace_of_isDigit (h : c.isDigit = true) : sparsevecIsspace c = false := by
  simp only [sparsevecIsspace, Bool.or_eq_false_iff, beq_eq_false_iff_ne, ne_eq]
  refine ⟨⟨⟨⟨⟨?_, ?_⟩, ?_⟩, ?_⟩, ?_⟩, ?_⟩ <;> exact ne_of_isDigit h (by decide)

theorem splitSign_of_isDigit (h : c.isDigit = true) (rest : List Char) :
    splitSign (c :: rest) = (false, c :: rest) := by
  unfold splitSign
  split
  · rename_i heq
    exact absurd (List.cons.inj heq).1 (ne_of_isDigit h (by decide))
  · rename_i heq
    exact absurd (List.cons.inj heq).1 (ne_of_isDigit h (by decide))
  · rfl

theorem digits_takeWhile {digits rest : List Char} (hd : ∀ c ∈ digits, c.isDigit = true)
    (hr : ∀ c ∈ rest.head?, c.isDigit = false) :
    (digits ++ rest).takeWhile Char.isDigit = digits ∧
      (digits ++ rest).dropWhile Char.isDigit = rest := by
  have hrest : rest.takeWhile Char.isDigit = [] ∧ rest.dropWhile Char.isDigit = rest := by
    cases rest with
    | nil => simp
    | cons c rest => simp [hr c rfl]
  rw [List.takeWhile_append_of_pos hd, List.dropWhile_append_of_pos hd]
  simp [hrest]

theorem strtol_toDigits {n : Nat} (hn : n < 2 ^ 63) {rest : List Char}
    (hr : ∀ c ∈ rest.head?, c.isDigit = false) :
    strtol (Nat.toDigits 10 n ++ rest) = some ((n : ℤ), rest) := by
  have hdigits : ∀ c ∈ Nat.toDigits 10 n, c.isDigit = true :=
    fun c hc => Nat.isDigit_of_mem_toDigits (by decide) (by decide) hc
  obtain ⟨htake, hdrop⟩ := digits_takeWhile hdigits hr
  have hstart : splitSign (skipSpace (Nat.toDigits 10 n ++ rest)) =
      (false, Nat.toDigits 10 n ++ rest) := by
    cases hl : Nat.toDigits 10 n with
    | nil => exact absurd hl Nat.toDigits_ne_nil
    | cons c digits =>
      have hc := hdigits c (hl ▸ List.mem_cons_self)
      rw [List.cons_append, skipSpace_cons (sparsevecIsspace_of_isDigit hc),
        splitSign_of_isDigit hc]
  have hclamp : clamp (-2 ^ 63) (2 ^ 63 - 1) (n : ℤ) = n := by
    rw [clamp, if_neg (by omega), if_neg (by omega)]
  simp only [strtol, hstart, htake, hdrop, Nat.ofDigitChars_ten_toDigits,
    List.isEmpty_iff, Nat.toDigits_ne_nil, Bool.false_eq_true, ↓reduceIte, hclamp]

theorem pgLtoa_of_nonneg {n : Int} (hn : 0 ≤ n) : pgLtoa n = Nat.toDigits 10 n.toNat := by
  have habs : n.natAbs = n.toNat := by omega
  rw [pgLtoa, if_neg (by omega), habs]

section Element

variable (T : FloatText) {e : SparseInputElement} {dim : Int}

theorem elementText_eq (hpos : 0 ≤ e.index) (hlt : e.index < sparsevecMaxDim) :
    elementText T e = Nat.toDigits 10 (e.index + 1).toNat ++ ':' :: T.shortestDecimal e.value := by
  have hlt : e.index < 1000000000 := hlt
  rw [elementText, toInt32, Int.bmod_eq_of_le (by omega) (by omega), pgLtoa_of_nonneg (by omega)]

theorem elementText_head (hpos : 0 ≤ e.index) (hlt : e.index < sparsevecMaxDim) :
    ∃ c text, c.isDigit = true ∧ elementText T e = c :: text := by
  rw [elementText_eq T hpos hlt]
  cases hl : Nat.toDigits 10 (e.index + 1).toNat with
  | nil => exact absurd hl Nat.toDigits_ne_nil
  | cons c digits =>
    exact ⟨c, _, Nat.isDigit_of_mem_toDigits (by decide) (by decide) (hl ▸ List.mem_cons_self), rfl⟩

theorem readIndex_elementText (hpos : 0 ≤ e.index) (hlt : e.index < sparsevecMaxDim)
    (lit more : List Char) :
    readIndex lit (elementText T e ++ more) =
      .ok (e.index + 1, T.shortestDecimal e.value ++ more) := by
  have hmax : e.index < 1000000000 := hlt
  have hread : strtol (elementText T e ++ more) =
      some (e.index + 1, ':' :: (T.shortestDecimal e.value ++ more)) := by
    have hcast : (((e.index + 1).toNat : ℕ) : ℤ) = e.index + 1 := by omega
    rw [elementText_eq T hpos hlt, List.append_assoc, ← hcast, List.cons_append]
    exact strtol_toDigits (by omega) (by simp)
  have hskip : skipSpace (elementText T e ++ more) = elementText T e ++ more := by
    obtain ⟨c, text, hc, htext⟩ := elementText_head T hpos hlt
    rw [htext]
    exact skipSpace_cons (sparsevecIsspace_of_isDigit hc) _
  have hne : (elementText T e ++ more).isEmpty = false := by
    rw [elementText]
    simp
  have hclamp : clamp (-2 ^ 31 + 1) (2 ^ 31 - 1) (e.index + 1) = e.index + 1 := by
    rw [clamp, if_neg (by omega), if_neg (by omega)]
  simp only [readIndex, hskip, hne, Bool.false_eq_true, ↓reduceIte, hread,
    skipSpace_cons (by decide : sparsevecIsspace ':' = false), hclamp]

theorem readValue_shortestDecimal (hfinite : e.value.isFinite = true)
    (hzero : isZero e.value = false) {c : Char} (hc : c ∈ [',', '\x7d'])
    (lit rest : List Char) :
    readValue T lit (T.shortestDecimal e.value ++ c :: rest) = .ok (e.value, c :: rest) := by
  obtain ⟨erange, hstrtof⟩ := T.strtof_shortestDecimal hfinite c hc rest
  have hskip : skipSpace (T.shortestDecimal e.value ++ c :: rest) =
      T.shortestDecimal e.value ++ c :: rest := by
    have hlength := T.strtof_length hstrtof
    cases hl : T.shortestDecimal e.value with
    | nil => simp [hl] at hlength
    | cons d text =>
      have hd := T.space_notMem_shortestDecimal hfinite d (hl ▸ List.mem_cons_self)
      refine skipSpace_cons ?_ _
      simp [sparsevecIsspace, hd]
  simp only [readValue, hskip, hstrtof, bind_eq_ok, pure, Except.pure, and_true, exists_and_right]
  refine ⟨⟨(), ?_⟩, (), checkElement_eq_ok.mpr hfinite⟩
  rw [errorIf_eq_ok, hzero, (isFinite_iff.mp hfinite).2]
  simp

end Element

theorem intercalate_cons_cons (x y : List Char) (l : List (List Char)) :
    List.intercalate [','] (x :: y :: l) = x ++ ',' :: List.intercalate [','] (y :: l) := by
  simp [List.intercalate]

theorem intercalate_cons (x : List Char) (l : List (List Char)) :
    List.intercalate [','] (x :: l) = x ++ l.flatMap fun y => ',' :: y := by
  induction l generalizing x with
  | nil => simp
  | cons y l ih => rw [intercalate_cons_cons, ih, List.flatMap_cons, List.cons_append]

section Elements

variable (T : FloatText)

variable {lit rest : List Char} {maxNnz : Nat} {elements : List SparseInputElement}

theorem readElements_of_read {pt stringEnd : List Char} {index : Int} {value : Float4}
    (hfull : elements.length ≠ maxNnz) (hindex : readIndex lit pt = .ok (index, rest))
    (hvalue : readValue T lit rest = .ok (value, stringEnd)) :
    readElements T lit maxNnz elements pt =
      match skipSpace stringEnd with
      | ',' :: pt => readElements T lit maxNnz
          (if isZero value then elements else elements ++ [⟨index - 1, value⟩]) pt
      | '\x7d' :: pt =>
        .ok (if isZero value then elements else elements ++ [⟨index - 1, value⟩], pt)
      | _ => .error (invalidSyntax lit none) := by
  rw [readElements, if_neg hfull]
  split
  · rename_i heq
    rw [hindex] at heq
    simp at heq
  · rename_i heq
    rw [hindex, Except.ok.injEq, Prod.mk.injEq] at heq
    obtain ⟨rfl, rfl⟩ := heq
    split
    · rename_i heq
      rw [hvalue] at heq
      simp at heq
    · rename_i heq
      rw [hvalue, Except.ok.injEq, Prod.mk.injEq] at heq
      obtain ⟨rfl, rfl⟩ := heq
      dsimp only
      split <;> simp_all only

theorem exists_read_of_readElements {pt : List Char}
    {result : List SparseInputElement × List Char}
    (h : readElements T lit maxNnz elements pt = .ok result) :
    ∃ index rest value stringEnd, readIndex lit pt = .ok (index, rest) ∧
      readValue T lit rest = .ok (value, stringEnd) := by
  rw [readElements] at h
  split at h
  · simp at h
  · split at h
    · simp at h
    · rename_i hindex
      split at h
      · simp at h
      · rename_i hvalue
        exact ⟨_, _, _, _, hindex, hvalue⟩

structure Printable (e : SparseInputElement) : Prop where
  nonneg : 0 ≤ e.index
  lt : e.index < sparsevecMaxDim
  finite : e.value.isFinite = true
  nonzero : isZero e.value = false

theorem SparseVector.Valid.printable {v : SparseVector} (h : v.Valid) :
    ∀ e ∈ v.elements, Printable e :=
  fun e he => ⟨(h.bounds e he).1, (h.bounds e he).2.trans_le h.dim_le, h.finite e he,
    h.nonzero e he⟩

theorem readElements_text {read : List SparseInputElement} (hne : elements ≠ [])
    (hprint : ∀ e ∈ elements, Printable e) (hroom : read.length + elements.length ≤ maxNnz) :
    readElements T lit maxNnz read
        (List.intercalate [','] (elements.map (elementText T)) ++ '\x7d' :: rest) =
      .ok (read ++ elements, rest) := by
  induction elements generalizing read with
  | nil => exact absurd rfl hne
  | cons e elements ih =>
    simp only [List.mem_cons, forall_eq_or_imp] at hprint
    obtain ⟨he, hprint⟩ := hprint
    rw [List.length_cons] at hroom
    have hfull : read.length ≠ maxNnz := by omega
    have hindex := readIndex_elementText T he.nonneg he.lt lit
    have hvalue := fun {c} (hc : c ∈ [',', '\x7d']) =>
      readValue_shortestDecimal T he.finite he.nonzero hc lit
    cases elements with
    | nil =>
      have htext : List.intercalate [','] ([e].map (elementText T)) = elementText T e := by
        simp
      rw [htext, readElements_of_read T hfull (hindex _) (hvalue (by simp) rest),
        skipSpace_cons (by decide)]
      simp [he.nonzero]
    | cons e' elements =>
      rw [List.map_cons, List.map_cons, intercalate_cons_cons, List.append_assoc,
        List.cons_append, readElements_of_read T hfull (hindex _) (hvalue (by simp) _),
        skipSpace_cons (by decide)]
      simp only [he.nonzero, Bool.false_eq_true, ↓reduceIte, add_sub_cancel_right]
      have hlength : (read ++ [e]).length + (e' :: elements).length ≤ maxNnz := by
        simp at hroom ⊢
        omega
      have hrest := ih (by simp) hprint hlength
      rw [List.append_assoc, List.singleton_append, List.map_cons] at hrest
      exact hrest

theorem comma_notMem_toDigits (n : Nat) : ',' ∉ Nat.toDigits 10 n := by
  intro h
  have := Nat.isDigit_of_mem_toDigits (by decide) (by decide) h
  exact absurd this (by decide)

theorem comma_notMem_elementText {e : SparseInputElement} (he : Printable e) :
    ',' ∉ elementText T e := by
  rw [elementText_eq T he.nonneg he.lt]
  simp only [List.mem_append, List.mem_cons, not_or]
  exact ⟨comma_notMem_toDigits _, by decide, T.comma_notMem_shortestDecimal he.finite⟩

theorem count_comma_text (hprint : ∀ e ∈ elements, Printable e) :
    (List.intercalate [','] (elements.map (elementText T))).count ',' = elements.length - 1 := by
  induction elements with
  | nil => rfl
  | cons e elements ih =>
    simp only [List.mem_cons, forall_eq_or_imp] at hprint
    have hcount := List.count_eq_zero.mpr (comma_notMem_elementText T hprint.1)
    cases elements with
    | nil => simpa using hcount
    | cons e' elements =>
      have hrest := ih hprint.2
      rw [List.map_cons] at hrest
      rw [List.map_cons, List.map_cons, intercalate_cons_cons, List.count_append, hcount,
        List.count_cons_self, hrest]
      simp

theorem readEntries_text (hprint : ∀ e ∈ elements, Printable e) (hroom : elements.length ≤ maxNnz) :
    readEntries T lit
        (List.intercalate [','] (elements.map (elementText T)) ++ '\x7d' :: rest) maxNnz =
      .ok (elements, rest) := by
  cases elements with
  | nil =>
    have htext : List.intercalate [','] (([] : List SparseInputElement).map (elementText T)) ++
        '\x7d' :: rest = '\x7d' :: rest := rfl
    rw [htext, readEntries, skipSpace_cons (by decide)]
    rfl
  | cons e elements =>
    have he := hprint e (.head _)
    have hroom : ([] : List SparseInputElement).length + (e :: elements).length ≤ maxNnz := by
      simpa using hroom
    have hloop : readElements T lit maxNnz [] _ = .ok (_, rest) :=
      readElements_text T (by simp) hprint hroom
    -- the text begins with a digit, not with the closing brace
    obtain ⟨c, text, hc, htext⟩ := elementText_head T he.nonneg he.lt
    rw [List.map_cons, intercalate_cons, htext, List.cons_append, List.cons_append] at hloop ⊢
    rw [readEntries, skipSpace_cons (sparsevecIsspace_of_isDigit hc)]
    split
    · rename_i heq
      exact absurd (List.cons.inj heq).1 (ne_of_isDigit hc (by decide))
    · exact hloop

theorem readDim_text {dim : Int} (hpos : 1 ≤ dim) (hmax : dim ≤ sparsevecMaxDim)
    (lit : List Char) : readDim lit ('/' :: pgLtoa dim) = .ok dim := by
  have hmax : dim ≤ 1000000000 := hmax
  have hcast : ((dim.toNat : ℕ) : ℤ) = dim := by omega
  have hstrtol : strtol (Nat.toDigits 10 dim.toNat ++ []) = some ((dim.toNat : ℤ), []) :=
    strtol_toDigits (by omega) (by simp)
  have hskip : skipSpace (Nat.toDigits 10 dim.toNat) = Nat.toDigits 10 dim.toNat := by
    cases hl : Nat.toDigits 10 dim.toNat with
    | nil => rfl
    | cons c digits =>
      refine skipSpace_cons (sparsevecIsspace_of_isDigit ?_) _
      exact Nat.isDigit_of_mem_toDigits (by decide) (by decide) (hl ▸ List.mem_cons_self)
  have hclamp : clamp (-2 ^ 31) (2 ^ 31 - 1) dim = dim := by
    rw [clamp, if_neg (by omega), if_neg (by omega)]
  rw [List.append_nil, hcast] at hstrtol
  rw [pgLtoa_of_nonneg (by omega), readDim, skipSpace_cons (by decide)]
  simp only [hskip, hstrtol, hclamp]
  rfl

end Elements

theorem SparseVector.Valid.makeSparsevec (h : v.Valid) (hunused : v.unused = 0)
    (htypmod : typmod = -1 ∨ typmod = v.dim) :
    Types.makeSparsevec typmod v.dim v.elements = .ok v := by
  have hsort : v.elements.mergeSort compareIndices = v.elements := by
    refine List.mergeSort_of_pairwise (h.sorted.imp ?_)
    intro a b hab
    simpa [compareIndices] using hab.le
  simp only [Types.makeSparsevec, hsort, bind_eq_ok, pure, Except.pure, Except.ok.injEq]
  refine ⟨(), checkDim_eq_ok.mpr ⟨h.dim_pos, h.dim_le⟩, (),
    checkExpectedDim_eq_ok.mpr htypmod, _, initSparseVector_of_le _ h.nnz_le, (),
    h.checkIndices, ?_⟩
  rw [← hunused]

theorem sparsevecOut_eq (T : FloatText) (h : v.Valid) :
    sparsevecOut T v = .ok ('\x7b' :: List.intercalate [','] (v.elements.map (elementText T)) ++
      '\x7d' :: '/' :: pgLtoa v.dim) := by
  have hnnz : v.elements.length ≤ 16000 := h.nnz_le
  rw [sparsevecOut, palloc_toInt32 (by omega) (by rw [maxAllocSize]; omega)]
  rfl

theorem sparsevecIn_out (T : FloatText) (h : v.Valid) (hunused : v.unused = 0) :
    ∃ text, sparsevecOut T v = .ok text ∧
      ∀ typmod, typmod = -1 ∨ typmod = v.dim → sparsevecIn T text typmod = .ok v := by
  have hnnz : v.elements.length ≤ 16000 := h.nnz_le
  refine ⟨_, sparsevecOut_eq T h, fun typmod htypmod => ?_⟩
  have hcommas := count_comma_text T h.printable
  have hdim : pgLtoa v.dim = Nat.toDigits 10 v.dim.toNat :=
    pgLtoa_of_nonneg (by have := h.dim_pos; omega)
  have hmax : ('\x7b' :: List.intercalate [','] (v.elements.map (elementText T)) ++
      '\x7d' :: '/' :: pgLtoa v.dim).count ',' + 1 =
      v.elements.length - 1 + 1 := by
    rw [List.count_append, List.count_cons_of_ne (by decide), hcommas,
      List.count_cons_of_ne (by decide), List.count_cons_of_ne (by decide), hdim,
      List.count_eq_zero.mpr (comma_notMem_toDigits _)]
  rw [sparsevecIn]
  simp only [bind_eq_ok, errorIf_eq_ok, hmax]
  refine ⟨(), ?_, ?_⟩
  · change ¬ v.elements.length - 1 + 1 > 16000
    omega
  · rw [List.cons_append, skipSpace_cons (by decide)]
    simp only [bind_eq_ok]
    exact ⟨_, readEntries_text T h.printable (by omega), _,
      readDim_text h.dim_pos h.dim_le _, h.makeSparsevec hunused htypmod⟩

end PgVector.Types
