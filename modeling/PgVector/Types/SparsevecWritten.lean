import PgVector.Types.SparsevecLiteral

/-!
# What a literal says and what it is read as

The checks of `sparsevec_in` come after the zeros are dropped and the rest is
sorted.  The order of the entries does not matter, and an index is checked unless
its value is zero.
-/

namespace PgVector.Types

open Foundation

/-! ## Sorting and checking -/

theorem pairwise_mergeSort_compareIndices (elements : List SparseInputElement) :
    (elements.mergeSort compareIndices).Pairwise fun a b => a.index ≤ b.index := by
  have htrans : ∀ a b c, compareIndices a b = true → compareIndices b c = true →
      compareIndices a c = true := by
    simp only [compareIndices, decide_eq_true_eq]
    omega
  have htotal : ∀ a b, (compareIndices a b || compareIndices b a) = true := by
    simp only [compareIndices, Bool.or_eq_true, decide_eq_true_eq]
    omega
  simpa [compareIndices] using List.pairwise_mergeSort htrans htotal elements

theorem pairwise_lt_mergeSort_iff (elements : List SparseInputElement) :
    (elements.mergeSort compareIndices).Pairwise (fun a b => a.index < b.index) ↔
      (elements.map SparseInputElement.index).Nodup := by
  have hperm := (List.mergeSort_perm elements compareIndices).map SparseInputElement.index
  rw [← hperm.nodup_iff, List.Nodup, List.pairwise_map]
  constructor
  · intro h
    exact h.imp fun hlt => ne_of_lt hlt
  · intro h
    refine ((pairwise_mergeSort_compareIndices elements).and h).imp ?_
    intro a b hab
    omega

variable {elements elements' : List SparseInputElement}

theorem makeSparsevec_eq_ok {typmod dim : Int} (hlength : elements.length ≤ sparsevecMaxNnz)
    {v : SparseVector} :
    makeSparsevec typmod dim elements = .ok v ↔
      (1 ≤ dim ∧ dim ≤ sparsevecMaxDim) ∧ (typmod = -1 ∨ typmod = dim) ∧
        (elements.map SparseInputElement.index).Nodup ∧
        (∀ e ∈ elements, 0 ≤ e.index ∧ e.index < dim) ∧
        ⟨dim, 0, elements.mergeSort compareIndices⟩ = v := by
  have hlength : (elements.mergeSort compareIndices).length ≤ sparsevecMaxNnz := by
    rwa [List.length_mergeSort]
  simp only [makeSparsevec, bind_eq_ok, checkDim_eq_ok, checkExpectedDim_eq_ok,
    checkIndices_eq_ok, initSparseVector_of_le dim hlength, pairwise_lt_mergeSort_iff,
    List.mem_mergeSort, pure, Except.pure, Except.ok.injEq, exists_and_left, exists_const,
    exists_eq_left', Option.mem_def, reduceCtorEq, false_implies, implies_true, and_true,
    and_assoc]

theorem mergeSort_eq_of_perm (hperm : elements'.Perm elements)
    (hnodup : (elements.map SparseInputElement.index).Nodup) :
    elements'.mergeSort compareIndices = elements.mergeSort compareIndices := by
  have hsorted := (pairwise_lt_mergeSort_iff elements).mpr hnodup
  have hsame : (elements'.mergeSort compareIndices).Perm (elements.mergeSort compareIndices) :=
    ((List.mergeSort_perm _ _).trans hperm).trans (List.mergeSort_perm _ _).symm
  refine hsame.eq_of_pairwise ?_ (pairwise_mergeSort_compareIndices elements')
    (pairwise_mergeSort_compareIndices elements)
  intro a b ha hb hab hba
  have hinj := List.inj_on_of_nodup_map hnodup
  exact hinj (List.mem_mergeSort.mp (hsame.subset ha)) (List.mem_mergeSort.mp hb)
    (Int.le_antisymm hab hba)

theorem makeSparsevec_perm {typmod dim : Int} (hperm : elements'.Perm elements)
    (hlength : elements.length ≤ sparsevecMaxNnz) {v : SparseVector}
    (h : makeSparsevec typmod dim elements = .ok v) :
    makeSparsevec typmod dim elements' = .ok v := by
  rw [makeSparsevec_eq_ok hlength] at h
  obtain ⟨hdim, htypmod, hnodup, hbounds, rfl⟩ := h
  rw [makeSparsevec_eq_ok (hperm.length_eq.trans_le hlength)]
  refine ⟨hdim, htypmod, (hperm.map _).nodup_iff.mpr hnodup, ?_, ?_⟩
  · intro e he
    exact hbounds e (hperm.subset he)
  · rw [mergeSort_eq_of_perm hperm hnodup]

/-! ## The order of the entries -/

namespace Literal

variable {T : FloatText}

theorem length_stored_le (L : Literal T) : L.stored.length ≤ L.entries.length :=
  List.length_filterMap_le _ _

def withEntries (L : Literal T) (entries : List (EntryText T)) : Literal T :=
  { L with entries := entries }

theorem sparsevecIn_withEntries (L : Literal T) {entries : List (EntryText T)}
    (hperm : entries.Perm L.entries) {typmod : Int} {v : SparseVector}
    (h : sparsevecIn T L.text typmod = .ok v) :
    sparsevecIn T (L.withEntries entries).text typmod = .ok v := by
  rw [sparsevecIn_text_eq_ok] at h ⊢
  obtain ⟨hlength, haccepted, hmake⟩ := h
  refine ⟨hperm.length_eq.trans_le hlength, ?_, ?_⟩
  · intro e he
    exact haccepted e (hperm.subset he)
  · exact makeSparsevec_perm (hperm.filterMap _) (L.length_stored_le.trans hlength) hmake

end Literal

/--
A valid vector is read back from its text, and a literal that is accepted is
accepted with its entries in any other order, as the same vector.
-/
theorem sparsevec_text_codec (T : DelimitedText) :
    (∀ v : SparseVector, v.Valid → v.unused = 0 →
      ∃ text, sparsevecOut T.toFloatText v = .ok text ∧ ∀ typmod, typmod = -1 ∨ typmod = v.dim →
        sparsevecIn T.toFloatText text typmod = .ok v) ∧
    ∀ lit typmod v, sparsevecIn T.toFloatText lit typmod = .ok v →
      (∃ L : Literal T.toFloatText, L.text = lit) ∧
      ∀ L : Literal T.toFloatText, L.text = lit → ∀ entries, entries.Perm L.entries →
        sparsevecIn T.toFloatText (L.withEntries entries).text typmod = .ok v := by
  refine ⟨fun v h hunused => sparsevecIn_out T.toFloatText h hunused, ?_⟩
  intro lit typmod v h
  refine ⟨exists_literal h, ?_⟩
  rintro L rfl entries hperm
  exact L.sparsevecIn_withEntries hperm h

/-! ## The indices as they are written -/

theorem clamp_of_between {low high n : Int} (hlow : low < clamp low high n)
    (hhigh : clamp low high n < high) : clamp low high n = n := by
  rw [clamp] at hlow hhigh ⊢
  grind

theorem clampDim_of_bounds {n : Int} (hpos : 1 ≤ clampDim n)
    (hle : clampDim n ≤ sparsevecMaxDim) : clampDim n = n := by
  have hle : clampDim n ≤ 1000000000 := hle
  have houter : clampDim n = clamp (-2 ^ 63) (2 ^ 63 - 1) n :=
    clamp_of_between (by unfold clampDim at hpos; omega) (by unfold clampDim at hle; omega)
  rw [houter] at hpos hle ⊢
  exact clamp_of_between (by omega) (by omega)

theorem clampIndex_of_bounds {n dim : Int} (hdim : dim ≤ sparsevecMaxDim)
    (hpos : 0 ≤ clampIndex n - 1) (hlt : clampIndex n - 1 < dim) : clampIndex n = n := by
  have hdim : dim ≤ 1000000000 := hdim
  have houter : clampIndex n = clamp (-2 ^ 63) (2 ^ 63 - 1) n :=
    clamp_of_between (by unfold clampIndex at hpos; omega) (by unfold clampIndex at hlt; omega)
  rw [houter] at hpos hlt ⊢
  exact clamp_of_between (by omega) (by omega)

namespace EntryText

variable {T : FloatText}

theorem stored_eq_some {e : EntryText T} {element : SparseInputElement} :
    e.stored = some element ↔
      isZero e.value = false ∧ ⟨clampIndex e.index.value - 1, e.value⟩ = element := by
  rw [stored]
  split <;> simp_all

end EntryText

namespace Literal

variable {T : FloatText}

def IndicesValid (L : Literal T) : Prop :=
  (∀ e ∈ L.entries, 1 ≤ e.index.value ∧ e.index.value ≤ L.dim.value) ∧
    L.entries.Pairwise fun a b => a.index.value ≠ b.index.value

/-- The same for the entries of value zero: in range, and apart from every other entry. -/
def ZerosValid (L : Literal T) : Prop :=
  (∀ e ∈ L.entries, isZero e.value = true →
      1 ≤ e.index.value ∧ e.index.value ≤ L.dim.value) ∧
    L.entries.Pairwise fun a b =>
      isZero a.value = true ∨ isZero b.value = true → a.index.value ≠ b.index.value

section Checked

variable {L : Literal T} {dim : Int}

theorem index_of_accepted (hdim : dim ≤ sparsevecMaxDim)
    (hbounds : ∀ e ∈ L.stored, 0 ≤ e.index ∧ e.index < dim) {e : EntryText T}
    (he : e ∈ L.entries) (hzero : isZero e.value = false) :
    clampIndex e.index.value = e.index.value ∧ 1 ≤ e.index.value ∧ e.index.value ≤ dim := by
  have hstored : ⟨clampIndex e.index.value - 1, e.value⟩ ∈ L.stored :=
    List.mem_filterMap.mpr ⟨e, he, EntryText.stored_eq_some.mpr ⟨hzero, rfl⟩⟩
  obtain ⟨hpos, hlt⟩ := hbounds _ hstored
  have hclamp := clampIndex_of_bounds hdim hpos hlt
  dsimp only at hpos hlt
  omega

theorem pairwise_of_accepted (hdim : dim ≤ sparsevecMaxDim)
    (hbounds : ∀ e ∈ L.stored, 0 ≤ e.index ∧ e.index < dim)
    (hnodup : (L.stored.map SparseInputElement.index).Nodup) :
    L.entries.Pairwise fun a b => isZero a.value = false → isZero b.value = false →
      a.index.value ≠ b.index.value := by
  rw [List.Nodup, List.pairwise_map, stored, List.pairwise_filterMap] at hnodup
  refine hnodup.imp_of_mem ?_
  intro a b ha hb hne hza hzb
  have hia := (index_of_accepted hdim hbounds ha hza).1
  have hib := (index_of_accepted hdim hbounds hb hzb).1
  have hclamped := hne _ (EntryText.stored_eq_some.mpr ⟨hza, rfl⟩) _
    (EntryText.stored_eq_some.mpr ⟨hzb, rfl⟩)
  dsimp only at hclamped
  omega

theorem mem_stored_iff (hdim : dim ≤ sparsevecMaxDim)
    (hbounds : ∀ e ∈ L.stored, 0 ≤ e.index ∧ e.index < dim) {i : Int} {x : Float4} :
    ⟨i, x⟩ ∈ L.stored ↔ ∃ e ∈ L.entries, isZero e.value = false ∧
      i = e.index.value - 1 ∧ x = e.value := by
  simp only [stored, List.mem_filterMap, EntryText.stored_eq_some, SparseInputElement.mk.injEq]
  refine exists_congr fun e => and_congr_right fun he => and_congr_right fun hzero => ?_
  rw [(index_of_accepted hdim hbounds he hzero).1, eq_comm, eq_comm (a := x)]

theorem indicesValid_iff (hdim : L.dim.value ≤ sparsevecMaxDim)
    (hbounds : ∀ e ∈ L.stored, 0 ≤ e.index ∧ e.index < L.dim.value)
    (hnodup : (L.stored.map SparseInputElement.index).Nodup) :
    L.IndicesValid ↔ L.ZerosValid := by
  constructor
  · rintro ⟨hrange, hapart⟩
    refine ⟨fun e he _ => hrange e he, hapart.imp ?_⟩
    intro a b hne _
    exact hne
  · rintro ⟨hrange, hapart⟩
    refine ⟨?_, ?_⟩
    · intro e he
      cases hzero : isZero e.value with
      | true => exact hrange e he hzero
      | false => exact (index_of_accepted hdim hbounds he hzero).2
    · refine (hapart.and (pairwise_of_accepted hdim hbounds hnodup)).imp ?_
      rintro a b ⟨hwith, hwithout⟩
      cases ha : isZero a.value with
      | true => exact hwith (.inl ha)
      | false =>
        cases hb : isZero b.value with
        | true => exact hwith (.inr hb)
        | false => exact hwithout ha hb

end Checked

end Literal

/--
A text that is accepted is a literal, its dimension is in range and the result
holds exactly its entries other than zero; all of its indices are in range and
apart exactly when those of the zeros are.
-/
theorem accepted_indices_valid_iff {T : DelimitedText} {lit : List Char} {typmod : Int}
    {v : SparseVector} (h : sparsevecIn T.toFloatText lit typmod = .ok v) :
    (∃ L : Literal T.toFloatText, L.text = lit) ∧
    ∀ L : Literal T.toFloatText, L.text = lit →
      (1 ≤ L.dim.value ∧ L.dim.value ≤ sparsevecMaxDim ∧ v.dim = L.dim.value ∧
        ∀ i x, ⟨i, x⟩ ∈ v.elements ↔ ∃ e ∈ L.entries, isZero e.value = false ∧
          i = e.index.value - 1 ∧ x = e.value) ∧
      (L.IndicesValid ↔ L.ZerosValid) := by
  refine ⟨exists_literal h, ?_⟩
  rintro L rfl
  obtain ⟨hlength, -, hmake⟩ := L.sparsevecIn_text_eq_ok.mp h
  rw [makeSparsevec_eq_ok (L.length_stored_le.trans hlength)] at hmake
  obtain ⟨⟨hpos, hle⟩, -, hnodup, hbounds, rfl⟩ := hmake
  have hdim := clampDim_of_bounds hpos hle
  rw [hdim] at hpos hle hbounds
  refine ⟨⟨hpos, hle, hdim, ?_⟩, Literal.indicesValid_iff hle hbounds hnodup⟩
  intro i x
  rw [List.mem_mergeSort]
  exact Literal.mem_stored_iff hle hbounds

/-! ## Literals of digits -/

theorem not_isDigit_of_endsNumber {c : Char} (h : EndsNumber c) : c.isDigit = false := by
  rcases h with hspace | rfl | rfl
  · exact not_isDigit_of_isspace hspace
  · rfl
  · rfl

def decimalDelimited : DelimitedText where
  toFloatText := decimalText
  strtof_number := by
    intro pt value erange stringEnd h
    obtain ⟨digits, hne, hdigits, rfl, rfl, rfl⟩ := strtofDigits_eq_some h
    refine ⟨digits, rfl, fun hc => absurd (hdigits _ hc) (by decide), fun rest hrest => ?_⟩
    exact strtofDigits_append hne hdigits fun c hc => not_isDigit_of_endsNumber (hrest c hc)

def digitText (c : Char) (h : c.isDigit = true) : IntText where
  sign := .none
  digits := [c]
  digits_ne_nil := by simp
  isDigit := by simpa using h

def numberAt (index number : IntText) : EntryText decimalText where
  before := noBlanks
  index := index
  beforeColon := noBlanks
  afterColon := noBlanks
  number := number.digits
  value := digitsValue number.digits
  erange := false
  after := noBlanks
  number_head := fun c hc =>
    sparsevecIsspace_of_isDigit (number.isDigit c (List.mem_of_mem_head? hc))
  number_ne_nil := number.digits_ne_nil
  comma_notMem_number := fun hc => absurd (number.isDigit _ hc) (by decide)
  strtof_number := fun _ hrest => strtofDigits_append number.digits_ne_nil number.isDigit
    fun c hc => not_isDigit_of_endsNumber (hrest c hc)

def digitsLiteral (entries : List (EntryText decimalText)) (dim : IntText) :
    Literal decimalText where
  before := noBlanks
  inside := noBlanks
  entries := entries
  beforeSlash := noBlanks
  beforeDim := noBlanks
  dim := dim
  after := noBlanks

def one : IntText := digitText '1' rfl

def two : IntText := digitText '2' rfl

def three : IntText := digitText '3' rfl

/-- Two entries, printed in the order of their indices and read in the other one. -/
theorem sparsevec_text_codec_swapped :
    sparsevecOut decimalText ⟨3, 0, [⟨0, .ofNat 2⟩, ⟨1, .ofNat 1⟩]⟩ =
        .ok "\x7b1:2,2:1\x7d/3".toList ∧
      sparsevecIn decimalText "\x7b2:1,1:2\x7d/3".toList (-1) =
        .ok ⟨3, 0, [⟨0, .ofNat 2⟩, ⟨1, .ofNat 1⟩]⟩ := by
  have hvalid : (⟨3, 0, [⟨0, .ofNat 2⟩, ⟨1, .ofNat 1⟩]⟩ : SparseVector).Valid := by
    refine ⟨by decide, by decide, by decide, by decide, by decide, by decide, ?_, ?_⟩ <;>
      simp <;> decide +kernel
  obtain ⟨hprinted, hread⟩ := sparsevec_text_codec decimalDelimited
  obtain ⟨text, hout, hin⟩ := hprinted _ hvalid rfl
  have htext : sparsevecOut decimalText ⟨3, 0, [⟨0, .ofNat 2⟩, ⟨1, .ofNat 1⟩]⟩ =
      .ok "\x7b1:2,2:1\x7d/3".toList := by decide +kernel
  refine ⟨htext, ?_⟩
  obtain rfl := Except.ok.inj (hout.symm.trans htext)
  exact (hread _ _ _ (hin (-1) (.inl rfl))).2
    (digitsLiteral [numberAt one two, numberAt two one] three) rfl
    [numberAt two one, numberAt one two] (.swap ..)

theorem sparsevecIn_digitsLiteral (entries : List (IntText × IntText)) (dim : IntText)
    {v : SparseVector} (hlength : entries.length ≤ sparsevecMaxNnz)
    (hfinite : ∀ e ∈ entries, (digitsValue e.2.digits).isFinite = true)
    (hmake : makeSparsevec (-1) (clampDim dim.value)
      (entries.filterMap fun e => (numberAt e.1 e.2).stored) = .ok v) :
    sparsevecIn decimalText (digitsLiteral (entries.map fun e => numberAt e.1 e.2) dim).text
      (-1) = .ok v := by
  refine (Literal.sparsevecIn_text_eq_ok _).mpr ⟨by simpa [digitsLiteral] using hlength, ?_, ?_⟩
  · rintro _ hmem
    obtain ⟨e, he, rfl⟩ := List.mem_map.mp hmem
    exact ⟨by simp [numberAt], hfinite e he⟩
  · rw [Literal.stored, digitsLiteral, List.filterMap_map]
    exact hmake

/-! ## Zeros at any index -/

def zero : IntText := digitText '0' rfl

/-- A zero at the first index and a one at the second. -/
theorem accepted_indices_valid_two :
    (digitsLiteral [numberAt one zero, numberAt two one] three).text =
        "\x7b1:0,2:1\x7d/3".toList ∧
      sparsevecIn decimalText "\x7b1:0,2:1\x7d/3".toList (-1) =
        .ok ⟨3, 0, [⟨1, .ofNat 1⟩]⟩ ∧
      (digitsLiteral [numberAt one zero, numberAt two one] three).IndicesValid := by
  have haccepted : sparsevecIn decimalText
      (digitsLiteral [numberAt one zero, numberAt two one] three).text (-1) =
        .ok ⟨3, 0, [⟨1, .ofNat 1⟩]⟩ :=
    sparsevecIn_digitsLiteral [(one, zero), (two, one)] three (by decide)
      (by decide +kernel) (by decide +kernel)
  refine ⟨rfl, haccepted,
    ((accepted_indices_valid_iff (T := decimalDelimited) haccepted).2 _ rfl).2.mpr ?_⟩
  unfold Literal.ZerosValid
  decide +kernel

def zeroBeyond : Literal decimalText :=
  digitsLiteral [numberAt (digitText '4' rfl) zero] three

def zeroTwice : Literal decimalText :=
  digitsLiteral [numberAt one zero, numberAt one zero] three

theorem accepted_indices_not_valid :
    (zeroBeyond.text = "\x7b4:0\x7d/3".toList ∧
      sparsevecIn decimalText zeroBeyond.text (-1) = .ok ⟨3, 0, []⟩ ∧
      ¬ zeroBeyond.IndicesValid) ∧
    (zeroTwice.text = "\x7b1:0,1:0\x7d/3".toList ∧
      sparsevecIn decimalText zeroTwice.text (-1) = .ok ⟨3, 0, []⟩ ∧
      ¬ zeroTwice.IndicesValid) := by
  refine ⟨⟨rfl, ?_, ?_⟩, rfl, ?_, ?_⟩
  · exact sparsevecIn_digitsLiteral [(digitText '4' rfl, zero)] three (by decide)
      (by decide +kernel) (by decide +kernel)
  · intro h
    have hrange := h.1 _ (.head _)
    revert hrange
    decide
  · exact sparsevecIn_digitsLiteral [(one, zero), (one, zero)] three (by decide)
      (by decide +kernel) (by decide +kernel)
  · intro h
    simpa [zeroTwice, digitsLiteral] using h.2

end PgVector.Types
