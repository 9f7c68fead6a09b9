import PgVector.Types.Representation

/-!
# The buffer of `sparsevec_out`

The size of the buffer is computed before the text is written.  Here the writes
are followed one by one, with the furthest byte each of them reaches: `pg_ltoa`
ends its digits with a byte of its own, which the next write replaces.
-/

namespace PgVector.Types

open Foundation

def floatShortestDecimalLen : Nat := 16

structure OutBuffer where
  /-- The bytes before `ptr`. -/
  text : List Char
  /-- The number of bytes from the start of the buffer to the furthest one written. -/
  written : Nat

namespace OutBuffer

def empty : OutBuffer := ⟨[], 0⟩

def write (buf : OutBuffer) (bytes : List Char) : OutBuffer where
  text := buf.text ++ bytes
  written := max buf.written (buf.text.length + bytes.length)

def terminate (buf : OutBuffer) : OutBuffer :=
  { buf with written := max buf.written (buf.text.length + 1) }

def appendChar (buf : OutBuffer) (c : Char) : OutBuffer := buf.write [c]

def appendInt (buf : OutBuffer) (i : Int) : OutBuffer := (buf.write (pgLtoa i)).terminate

def appendFloat (T : FloatText) (buf : OutBuffer) (f : Float4) : OutBuffer :=
  buf.write (T.shortestDecimal f)

def appendElement (T : FloatText) (buf : OutBuffer) (e : SparseInputElement) : OutBuffer :=
  ((buf.appendInt (toInt32 (e.index + 1))).appendChar ':').appendFloat T e.value

def appendElements (T : FloatText) : Nat → OutBuffer → List SparseInputElement → OutBuffer
  | _, buf, [] => buf
  | i, buf, e :: elements =>
    let buf := if i > 0 then buf.appendChar ',' else buf
    appendElements T (i + 1) (buf.appendElement T e) elements

/-- The body of `sparsevec_out`, from the first byte to the terminating one. -/
def appendSparsevec (T : FloatText) (v : SparseVector) : OutBuffer :=
  let buf := appendElements T 0 (empty.appendChar '\x7b') v.elements
  (((buf.appendChar '\x7d').appendChar '/').appendInt v.dim).terminate

def allocated (v : SparseVector) : Nat :=
  (11 + floatShortestDecimalLen) * v.elements.length + 13

/-! ## The furthest byte -/

def Tight (buf : OutBuffer) : Prop := buf.written ≤ buf.text.length + 1

variable {buf : OutBuffer}

theorem Tight.write (h : buf.Tight) (bytes : List Char) : (buf.write bytes).Tight := by
  simp only [Tight, OutBuffer.write, List.length_append] at h ⊢
  omega

theorem Tight.appendInt (h : buf.Tight) (i : Int) : (buf.appendInt i).Tight := by
  have hdigits : (buf.write (pgLtoa i)).Tight := h.write _
  simp only [Tight, OutBuffer.appendInt, terminate] at hdigits ⊢
  omega

theorem Tight.appendElement (h : buf.Tight) (T : FloatText) (e : SparseInputElement) :
    (buf.appendElement T e).Tight :=
  ((h.appendInt _).write _).write _

theorem Tight.appendElements (h : buf.Tight) (T : FloatText) (i : Nat)
    (elements : List SparseInputElement) : (appendElements T i buf elements).Tight := by
  induction elements generalizing i buf with
  | nil => exact h
  | cons e elements ih =>
    rw [OutBuffer.appendElements]
    refine ih (Tight.appendElement ?_ T e) (i + 1)
    split
    · exact h.write _
    · exact h

theorem written_appendSparsevec (T : FloatText) (v : SparseVector) :
    (appendSparsevec T v).written = (appendSparsevec T v).text.length + 1 := by
  have hempty : empty.Tight := Nat.zero_le _
  have htight := ((((hempty.write ['\x7b']).appendElements T 0 v.elements).write
    ['\x7d']).write ['/']).appendInt v.dim
  exact max_eq_right htight

/-! ## The text -/

theorem text_appendElement (T : FloatText) (buf : OutBuffer) (e : SparseInputElement) :
    (buf.appendElement T e).text = buf.text ++ elementText T e := by
  simp [appendElement, appendFloat, appendChar, appendInt, terminate, write, elementText]

theorem text_appendElements_pos (T : FloatText) {i : Nat} (hi : 0 < i) (buf : OutBuffer)
    (elements : List SparseInputElement) :
    (appendElements T i buf elements).text =
      buf.text ++ elements.flatMap fun e => ',' :: elementText T e := by
  induction elements generalizing i buf with
  | nil => simp [appendElements]
  | cons e elements ih =>
    rw [appendElements, if_pos hi, ih (Nat.succ_pos i), text_appendElement]
    simp [appendChar, write]

theorem intercalate_elementText_cons (T : FloatText) (e : SparseInputElement)
    (elements : List SparseInputElement) :
    List.intercalate [','] ((e :: elements).map (elementText T)) =
      elementText T e ++ elements.flatMap fun e => ',' :: elementText T e := by
  rw [List.map_cons, intercalate_cons, List.flatMap_map]

theorem text_appendElements (T : FloatText) (buf : OutBuffer)
    (elements : List SparseInputElement) :
    (appendElements T 0 buf elements).text =
      buf.text ++ List.intercalate [','] (elements.map (elementText T)) := by
  cases elements with
  | nil => simp [appendElements]
  | cons e elements =>
    rw [appendElements, if_neg (Nat.lt_irrefl 0), text_appendElements_pos T (by omega),
      text_appendElement, intercalate_elementText_cons, List.append_assoc]

theorem text_appendSparsevec (T : FloatText) (v : SparseVector) :
    (appendSparsevec T v).text =
      '\x7b' :: List.intercalate [','] (v.elements.map (elementText T)) ++
        '\x7d' :: '/' :: pgLtoa v.dim := by
  simp [appendSparsevec, appendInt, terminate, appendChar, write, text_appendElements, empty]

/-! ## The sizes -/

theorem length_pgLtoa_le_iff {n : Int} (hn : 0 ≤ n) {k : Nat} (hk : 0 < k) :
    (pgLtoa n).length ≤ k ↔ n < 10 ^ k := by
  rw [pgLtoa_of_nonneg hn, Nat.length_toDigits_le_iff (by decide) hk]
  have hcast : ((10 ^ k : ℕ) : ℤ) = 10 ^ k := by norm_num
  omega

section Sizes

variable {T : FloatText}
  (hshort : ∀ value : Float4, value.isFinite = true →
    (T.shortestDecimal value).length ≤ floatShortestDecimalLen - 1)

include hshort

theorem length_elementText_le {e : SparseInputElement} (he : Printable e) :
    (elementText T e).length ≤ 26 := by
  have hmax : e.index < 1000000000 := he.lt
  have hvalue : (T.shortestDecimal e.value).length ≤ 15 := hshort e.value he.finite
  have hindex : (Nat.toDigits 10 (e.index + 1).toNat).length ≤ 10 :=
    Nat.toDigits_length 10 _ 10 (by decide) (by have := he.nonneg; omega)
  rw [elementText_eq T he.nonneg he.lt, List.length_append, List.length_cons]
  omega

theorem length_flatMap_elementText_le {elements : List SparseInputElement}
    (hprint : ∀ e ∈ elements, Printable e) :
    (elements.flatMap fun e => ',' :: elementText T e).length ≤ 27 * elements.length := by
  induction elements with
  | nil => simp
  | cons e elements ih =>
    simp only [List.mem_cons, forall_eq_or_imp] at hprint
    have he := length_elementText_le hshort hprint.1
    have hrest := ih hprint.2
    rw [List.flatMap_cons, List.length_append, List.length_cons, List.length_cons]
    omega

/--
A valid vector is printed within the buffer exactly when it has an entry or fewer
than ten digits in its dimension: the size leaves room for a comma after each
entry, and for no other byte.
-/
theorem appendSparsevec_within_iff {v : SparseVector} (h : v.Valid) :
    sparsevecOut T v = .ok (appendSparsevec T v).text ∧
      ((appendSparsevec T v).written ≤ allocated v ↔ v.elements ≠ [] ∨ v.dim < 1000000000) := by
  have hdim := h.dim_pos
  have hmax : v.dim ≤ 1000000000 := h.dim_le
  have hten : (pgLtoa v.dim).length ≤ 10 :=
    (length_pgLtoa_le_iff (by omega) (by decide)).mpr (by norm_num; omega)
  have hnine : (pgLtoa v.dim).length ≤ 9 ↔ v.dim < 1000000000 :=
    (length_pgLtoa_le_iff (by omega) (by decide)).trans (by norm_num)
  refine ⟨(sparsevecOut_eq T h).trans (by rw [text_appendSparsevec]), ?_⟩
  rw [written_appendSparsevec, text_appendSparsevec, allocated]
  have hprint := h.printable
  cases hl : v.elements with
  | nil =>
    simp [floatShortestDecimalLen]
    omega
  | cons e elements =>
    rw [hl] at hprint
    simp only [List.mem_cons, forall_eq_or_imp] at hprint
    have he := length_elementText_le hshort hprint.1
    have hrest := length_flatMap_elementText_le hshort hprint.2
    rw [intercalate_elementText_cons]
    simp only [List.length_append, List.length_cons, floatShortestDecimalLen, ne_eq,
      reduceCtorEq, not_false_eq_true, true_or, iff_true]
    omega

end Sizes

theorem length_decimalText_le (value : Float4) :
    (decimalText.shortestDecimal value).length ≤ floatShortestDecimalLen - 1 := by
  refine Nat.toDigits_length 10 _ 15 (by decide) ?_
  have := (wholeBits.symm value.toBits).toNat_lt
  omega

def oneEntry : SparseVector := ⟨1000000000, 0, [⟨0, .ofNat 1⟩]⟩

theorem appendSparsevec_within_oneEntry :
    (appendSparsevec decimalText oneEntry).text = "\x7b1:1\x7d/1000000000".toList ∧
      (appendSparsevec decimalText oneEntry).written ≤ allocated oneEntry := by
  have hvalid : oneEntry.Valid := by
    refine ⟨by decide, by decide, by decide, by decide, by decide, by decide, ?_, ?_⟩ <;>
      simp [oneEntry] <;> decide +kernel
  exact ⟨by decide +kernel,
    (appendSparsevec_within_iff (fun value _ => length_decimalText_le value) hvalid).2.mpr
      (.inl (by simp [oneEntry]))⟩

/-- The vector of the largest dimension without entries takes fourteen bytes of thirteen. -/
def noEntries : SparseVector := ⟨1000000000, 0, []⟩

theorem appendSparsevec_beyond_noEntries :
    noEntries.Valid ∧ allocated noEntries = 13 ∧
      (appendSparsevec decimalText noEntries).written = 14 := by
  refine ⟨⟨by decide, by decide, by decide, by decide, by decide, by decide, ?_, ?_⟩,
    rfl, by decide +kernel⟩ <;> simp [noEntries]

end OutBuffer

end PgVector.Types
