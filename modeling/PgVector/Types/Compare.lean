import PgVector.Types.SparsevecValid

/-!
# One order for three representations

The comparison of sparse vectors is the lexicographic comparison of the dense
vectors they stand for.  Numbers compare by their rank, which does not tell the
two zeros apart, so that dropping zeros loses nothing.
-/

namespace PgVector.Types

open Foundation
open Float.Model (UnpackedFloat)

/-! ## Dense comparison -/

def float4Rank (x : Float4) : ℤ ×ₗ ℤ ×ₗ ℤ := floatRank x.unpack

def compareFloat4 (a b : Float4) : Ordering :=
  if a.lt b then .lt else if b.lt a then .gt else .eq

def orderingInt : Ordering → Int
  | .lt => -1
  | .eq => 0
  | .gt => 1

def compareDense : List Float4 → List Float4 → Ordering :=
  List.compareLex compareFloat4

theorem lt_iff_rank {a b : Float4} (ha : a.isFinite = true) (hb : b.isFinite = true) :
    a.lt b = true ↔ float4Rank a < float4Rank b :=
  lt_iff_floatRank_lt (isNaN_eq_false_of_isFinite ha) (isNaN_eq_false_of_isFinite hb)

theorem compareFloat4_eq {a b : Float4} (ha : a.isFinite = true) (hb : b.isFinite = true) :
    compareFloat4 a b = compare (float4Rank a) (float4Rank b) := by
  unfold compareFloat4
  simp only [lt_iff_rank ha hb, lt_iff_rank hb ha]
  split
  · rename_i h
    rw [compare_lt_iff_lt.mpr h]
  · split
    · rename_i h
      rw [compare_gt_iff_gt.mpr h]
    · rw [compare_eq_iff_eq.mpr (by order)]

theorem compareDense_eq {xs ys : List Float4} (hx : ∀ x ∈ xs, x.isFinite = true)
    (hy : ∀ y ∈ ys, y.isFinite = true) :
    compareDense xs ys = List.compareLex compare (xs.map float4Rank) (ys.map float4Rank) := by
  induction xs generalizing ys with
  | nil => cases ys <;> simp [compareDense, List.compareLex_nil_cons, List.compareLex_nil_nil]
  | cons x xs ih =>
    cases ys with
    | nil => simp [compareDense, List.compareLex_cons_nil]
    | cons y ys =>
      simp only [List.mem_cons, forall_eq_or_imp] at hx hy
      simp only [compareDense, List.map_cons, List.compareLex_cons_cons]
      rw [compareFloat4_eq hx.1 hy.1]
      exact congrArg _ (ih hx.2 hy.2)

theorem cmpInternal_cons {α : Type} (f : α → Float4) (x y : α) (xs ys : List α) :
    cmpInternal f (x :: xs) (y :: ys) =
      if (f x).lt (f y) then -1 else if (f y).lt (f x) then 1 else cmpInternal f xs ys := by
  by_cases hlt : (f x).lt (f y) = true
  · simp [cmpInternal, cmpElements, hlt]
  · by_cases hgt : (f y).lt (f x) = true
    · simp [cmpInternal, cmpElements, hlt, hgt]
    · simp [cmpInternal, cmpElements, cmpDims, hlt, hgt]

theorem cmpInternal_map {α : Type} (f : α → Float4) (xs ys : List α) :
    cmpInternal f xs ys = cmpInternal id (xs.map f) (ys.map f) := by
  induction xs generalizing ys with
  | nil => cases ys <;> simp [cmpInternal, cmpElements]
  | cons x xs ih =>
    cases ys with
    | nil => simp [cmpInternal, cmpElements]
    | cons y ys => simp only [List.map_cons, cmpInternal_cons, ih, id]

theorem cmpInternal_eq (xs ys : List Float4) :
    cmpInternal id xs ys = orderingInt (compareDense xs ys) := by
  induction xs generalizing ys with
  | nil =>
    cases ys with
    | nil => rfl
    | cons y ys =>
      simp only [cmpInternal, cmpElements, cmpDims, List.length_nil, List.length_cons,
        compareDense, List.compareLex_nil_cons, orderingInt]
      rw [if_pos (by push_cast; omega)]
  | cons x xs ih =>
    cases ys with
    | nil =>
      simp only [cmpInternal, cmpElements, cmpDims, List.length_nil, List.length_cons,
        compareDense, List.compareLex_cons_nil, orderingInt]
      rw [if_neg (by push_cast; omega), if_pos (by push_cast; omega)]
    | cons y ys =>
      rw [cmpInternal_cons, compareDense, List.compareLex_cons_cons, compareFloat4, ih]
      simp only [id]
      split
      · rfl
      · split <;> rfl

/-! ## Dense expansion -/

/-- The number at position `i` of the vector that the entries stand for. -/
def valueAt (elements : List SparseInputElement) (i : Int) : Float4 :=
  match elements.find? fun e => e.index == i with
  | some e => e.value
  | none => .ofNat 0

def SparseVector.denseExpansion (v : SparseVector) : List Float4 :=
  (List.range v.dim.toNat).map fun (i : Nat) => valueAt v.elements i

theorem valueAt_of_forall_ne {elements : List SparseInputElement} {i : Int}
    (h : ∀ e ∈ elements, e.index ≠ i) : valueAt elements i = .ofNat 0 := by
  have hnone : (elements.find? fun e => e.index == i) = none := by
    simpa [List.find?_eq_none] using h
  simp only [valueAt, hnone]

theorem valueAt_cons_self (e : SparseInputElement) (elements : List SparseInputElement) :
    valueAt (e :: elements) e.index = e.value := by
  simp [valueAt]

theorem valueAt_cons_of_ne {e : SparseInputElement} {i : Int} (h : e.index ≠ i)
    (elements : List SparseInputElement) :
    valueAt (e :: elements) i = valueAt elements i := by
  simp [valueAt, h]

def expandFrom (elements : List SparseInputElement) (k n : Nat) : List Float4 :=
  (List.range' k n).map fun (i : Nat) => valueAt elements i

theorem expandFrom_succ (elements : List SparseInputElement) (k n : Nat) :
    expandFrom elements k (n + 1) = valueAt elements k :: expandFrom elements (k + 1) n := by
  simp [expandFrom, List.range'_succ]

theorem expandFrom_cons {e : SparseInputElement} {k : Nat} (h : e.index < k)
    (elements : List SparseInputElement) (n : Nat) :
    expandFrom (e :: elements) k n = expandFrom elements k n := by
  refine List.map_congr_left fun i hi => valueAt_cons_of_ne ?_ elements
  have := (List.mem_range'_1.mp hi).1
  omega

/-- Entries in order, at positions `k ≤ i < dim`, with finite values other than zero. -/
structure Entries (k : Nat) (dim : Int) (elements : List SparseInputElement) : Prop where
  sorted : elements.Pairwise fun a b => a.index < b.index
  bounds : ∀ e ∈ elements, k ≤ e.index ∧ e.index < dim
  finite : ∀ e ∈ elements, e.value.isFinite = true
  nonzero : ∀ e ∈ elements, isZero e.value = false

variable {v : SparseVector} {as bs : List SparseInputElement} {aDim bDim : Int}
  (l : List (ℤ ×ₗ ℤ ×ₗ ℤ))

theorem SparseVector.Valid.entries (h : v.Valid) : Entries 0 v.dim v.elements :=
  ⟨h.sorted, h.bounds, h.finite, h.nonzero⟩

namespace Entries

variable {k : Nat} {dim : Int} {e : SparseInputElement} {elements : List SparseInputElement}

theorem tail (h : Entries k dim (e :: elements)) (he : e.index = k) :
    Entries (k + 1) dim elements where
  sorted := h.sorted.of_cons
  bounds e' he' := by
    have hlt := List.rel_of_pairwise_cons h.sorted he'
    have hdim := (h.bounds e' (.tail _ he')).2
    push_cast
    omega
  finite e' he' := h.finite e' (.tail _ he')
  nonzero e' he' := h.nonzero e' (.tail _ he')

theorem later (h : Entries k dim elements) (hk : ∀ e ∈ elements.head?, e.index ≠ k) :
    Entries (k + 1) dim elements where
  sorted := h.sorted
  bounds e' he' := by
    have hbounds := h.bounds e' he'
    refine ⟨?_, hbounds.2⟩
    cases elements with
    | nil => simp at he'
    | cons e elements =>
      have hne : e.index ≠ k := hk e rfl
      have hge := (h.bounds e (.head _)).1
      cases List.mem_cons.mp he' with
      | inl heq =>
        rw [heq]
        push_cast
        omega
      | inr hmem =>
        have := List.rel_of_pairwise_cons h.sorted hmem
        push_cast
        omega
  finite := h.finite
  nonzero := h.nonzero

theorem split (h : Entries k dim elements) :
    (∃ e rest, elements = e :: rest ∧ e.index = k ∧ Entries (k + 1) dim rest) ∨
      Entries (k + 1) dim elements := by
  cases elements with
  | nil => exact .inr (h.later (by simp))
  | cons e rest =>
    by_cases he : e.index = k
    · exact .inl ⟨e, rest, rfl, he, h.tail he⟩
    · exact .inr (h.later (by simpa using he))

theorem eq_nil (h : Entries k k elements) : elements = [] := by
  cases elements with
  | nil => rfl
  | cons e rest =>
    have := h.bounds e (.head _)
    omega

theorem forall_ne (h : Entries (k + 1) dim elements) : ∀ e ∈ elements, e.index ≠ k := by
  intro e he
  have := (h.bounds e he).1
  push_cast at this
  omega

end Entries

theorem zero_isFinite : (Float32.Model.ofNat 0).isFinite = true := by
  decide +kernel

theorem compareFloat4_zero {x : Float4} (hfinite : x.isFinite = true)
    (hzero : isZero x = false) :
    compareFloat4 x (.ofNat 0) = (if x.lt (.ofNat 0) then .lt else .gt) ∧
      compareFloat4 (.ofNat 0) x = (if x.lt (.ofNat 0) then .gt else .lt) := by
  have hne : float4Rank x ≠ float4Rank (.ofNat 0) := by
    intro h
    have hx : isZero x = true := isZero_iff.mpr (floatRank_eq_zero_iff.mp h)
    rw [hx] at hzero
    exact absurd hzero (by decide)
  rw [compareFloat4_eq hfinite zero_isFinite, compareFloat4_eq zero_isFinite hfinite]
  simp only [lt_iff_rank hfinite zero_isFinite]
  split
  · rename_i h
    exact ⟨compare_lt_iff_lt.mpr h, compare_gt_iff_gt.mpr h⟩
  · rename_i h
    have h : float4Rank (.ofNat 0) < float4Rank x := by order
    exact ⟨compare_gt_iff_gt.mpr h, compare_lt_iff_lt.mpr h⟩

theorem compareDense_expand_succ (as bs : List SparseInputElement) (k n n' : Nat) :
    compareDense (expandFrom as k (n + 1)) (expandFrom bs k (n' + 1)) =
      (compareFloat4 (valueAt as k) (valueAt bs k)).then
        (compareDense (expandFrom as (k + 1) n) (expandFrom bs (k + 1) n')) := by
  rw [expandFrom_succ, expandFrom_succ, compareDense, List.compareLex_cons_cons]

theorem sparsevecCmpLoop_left {a : SparseInputElement} {k : Nat} (ha : a.index = k)
    (hk : k < bDim) (hb : Entries (k + 1) bDim bs) :
    sparsevecCmpLoop aDim bDim (a :: as) bs = if a.value.lt (.ofNat 0) then -1 else 1 := by
  cases bs with
  | nil => rw [sparsevecCmpLoop, if_pos (by omega)]
  | cons b bs =>
    have := (hb.bounds b (.head _)).1
    push_cast at this
    rw [sparsevecCmpLoop, if_pos (by omega)]

theorem sparsevecCmpLoop_right {b : SparseInputElement} {k : Nat} (hb : b.index = k)
    (hk : k < aDim) (ha : Entries (k + 1) aDim as) :
    sparsevecCmpLoop aDim bDim as (b :: bs) = if b.value.lt (.ofNat 0) then 1 else -1 := by
  cases as with
  | nil => rw [sparsevecCmpLoop, if_pos (by omega)]
  | cons a as =>
    have := (ha.bounds a (.head _)).1
    push_cast at this
    rw [sparsevecCmpLoop, if_neg (by omega), if_pos (by omega)]

theorem sparsevecCmpLoop_nil_left {k : Nat} (hk : k < bDim) (hb : Entries k bDim bs) :
    sparsevecCmpLoop k bDim [] bs = -1 := by
  cases bs with
  | nil => rw [sparsevecCmpLoop, cmpDims, if_pos hk]
  | cons b bs =>
    have := (hb.bounds b (.head _)).1
    rw [sparsevecCmpLoop, if_neg (by omega), cmpDims, if_pos hk]

theorem sparsevecCmpLoop_nil_right {k : Nat} (hk : k < aDim) (ha : Entries k aDim as) :
    sparsevecCmpLoop aDim k as [] = 1 := by
  cases as with
  | nil => rw [sparsevecCmpLoop, cmpDims, if_neg (by omega), if_pos hk]
  | cons a as =>
    have := (ha.bounds a (.head _)).1
    rw [sparsevecCmpLoop, if_neg (by omega), cmpDims, if_neg (by omega), if_pos hk]

theorem compareFloat4_self_zero : compareFloat4 (.ofNat 0) (.ofNat 0) = .eq := by
  decide +kernel

/--
From any position on, the loop compares the numbers that are left.  The induction
is on how many numbers are left of the first vector; a turn of the loop is a
position where one of the two has an entry.
-/
theorem sparsevecCmpLoop_eq {k n n' : Nat} (ha : Entries k (k + n : Nat) as)
    (hb : Entries k (k + n' : Nat) bs) :
    sparsevecCmpLoop (k + n : Nat) (k + n' : Nat) as bs =
      orderingInt (compareDense (expandFrom as k n) (expandFrom bs k n')) := by
  induction n generalizing k n' as bs with
  | zero =>
    rw [ha.eq_nil]
    cases n' with
    | zero =>
      rw [hb.eq_nil, sparsevecCmpLoop, cmpDims, if_neg (by omega), if_neg (by omega)]
      rfl
    | succ n' =>
      rw [expandFrom_succ]
      exact sparsevecCmpLoop_nil_left (by push_cast; omega) hb
  | succ n ih =>
    cases n' with
    | zero =>
      rw [hb.eq_nil, expandFrom_succ]
      exact sparsevecCmpLoop_nil_right (by push_cast; omega) ha
    | succ n' =>
      have hk : (k : ℤ) < (k + (n + 1) : Nat) := by push_cast; omega
      have hk' : (k : ℤ) < (k + (n' + 1) : Nat) := by push_cast; omega
      have hsucc : k + (n + 1) = k + 1 + n := by omega
      have hsucc' : k + (n' + 1) = k + 1 + n' := by omega
      rw [compareDense_expand_succ]
      cases ha.split with
      | inl hhead =>
        obtain ⟨a, as, rfl, hindex, ha'⟩ := hhead
        have hvalue : valueAt (a :: as) k = a.value := hindex ▸ valueAt_cons_self a as
        rw [hvalue, expandFrom_cons (by push_cast; omega)]
        cases hb.split with
        | inl hhead' =>
          obtain ⟨b, bs, rfl, hindex', hb'⟩ := hhead'
          have hvalue' : valueAt (b :: bs) k = b.value :=
            hindex' ▸ valueAt_cons_self b bs
          rw [hvalue', expandFrom_cons (by push_cast; omega), sparsevecCmpLoop,
            if_neg (by omega), if_neg (by omega), compareFloat4]
          rw [hsucc] at ha' ⊢
          rw [hsucc'] at hb' ⊢
          rw [ih ha' hb']
          split
          · rfl
          · split <;> rfl
        | inr hb' =>
          rw [valueAt_of_forall_ne hb'.forall_ne, sparsevecCmpLoop_left hindex hk' hb',
            (compareFloat4_zero (ha.finite a (.head _)) (ha.nonzero a (.head _))).1]
          split <;> rfl
      | inr ha' =>
        rw [valueAt_of_forall_ne ha'.forall_ne]
        cases hb.split with
        | inl hhead' =>
          obtain ⟨b, bs, rfl, hindex', hb'⟩ := hhead'
          have hvalue' : valueAt (b :: bs) k = b.value :=
            hindex' ▸ valueAt_cons_self b bs
          rw [hvalue', sparsevecCmpLoop_right hindex' hk ha',
            (compareFloat4_zero (hb.finite b (.head _)) (hb.nonzero b (.head _))).2]
          split <;> rfl
        | inr hb' =>
          rw [valueAt_of_forall_ne hb'.forall_ne, compareFloat4_self_zero]
          rw [hsucc] at ha' ⊢
          rw [hsucc'] at hb' ⊢
          exact ih ha' hb'

theorem SparseVector.Valid.denseExpansion_eq (h : v.Valid) :
    v.dim = (v.dim.toNat : ℤ) ∧ v.denseExpansion = expandFrom v.elements 0 v.dim.toNat := by
  have := h.dim_pos
  refine ⟨by omega, ?_⟩
  rw [SparseVector.denseExpansion, expandFrom, List.range_eq_range']

theorem sparsevecCmpInternal_eq {a b : SparseVector} (ha : a.Valid) (hb : b.Valid) :
    sparsevecCmpInternal a b = orderingInt (compareDense a.denseExpansion b.denseExpansion) := by
  obtain ⟨hdim, hdense⟩ := ha.denseExpansion_eq
  obtain ⟨hdim', hdense'⟩ := hb.denseExpansion_eq
  have hentries : Entries 0 (0 + a.dim.toNat : Nat) a.elements := by
    rw [Nat.zero_add, ← hdim]
    exact ha.entries
  have hentries' : Entries 0 (0 + b.dim.toNat : Nat) b.elements := by
    rw [Nat.zero_add, ← hdim']
    exact hb.entries
  have h := sparsevecCmpLoop_eq hentries hentries'
  rw [Nat.zero_add, Nat.zero_add, ← hdim, ← hdim'] at h
  rw [sparsevecCmpInternal, h, hdense, hdense']

/-! ## Dense vectors as sparse ones -/

theorem isFinite_valueAt {elements : List SparseInputElement}
    (h : ∀ e ∈ elements, e.value.isFinite = true) (i : Int) :
    (valueAt elements i).isFinite = true := by
  rw [valueAt]
  split
  · rename_i e he
    exact h e (List.mem_of_find?_eq_some he)
  · exact zero_isFinite

theorem SparseVector.Valid.isFinite_denseExpansion (h : v.Valid) :
    ∀ x ∈ v.denseExpansion, x.isFinite = true := by
  intro x hx
  obtain ⟨i, _, rfl⟩ := List.mem_map.mp hx
  exact isFinite_valueAt h.finite i

theorem map_rank_expandFrom (xs : List Float4) (k : Nat) :
    (expandFrom (nonzeroEntries (fun v => !isZero v) (fun i x => ⟨i, id x⟩) k xs) k
      xs.length).map float4Rank = xs.map float4Rank := by
  induction xs generalizing k with
  | nil => rfl
  | cons x xs ih =>
    rw [List.length_cons, expandFrom_succ, List.map_cons, List.map_cons]
    have hlater : ∀ e ∈ nonzeroEntries (fun v => !isZero v) (fun i x => ⟨i, id x⟩) (k + 1) xs,
        e.index ≠ k := by
      intro e he
      obtain ⟨j, y, hj, _, _, _, rfl⟩ := mem_nonzeroEntries _ _ he
      simp only [ne_eq, Nat.cast_inj]
      omega
    rw [nonzeroEntries]
    split
    · rw [expandFrom_cons (by simp), ih]
      congr 2
      exact valueAt_cons_self ⟨k, id x⟩ _
    · rename_i hzero
      rw [ih, valueAt_of_forall_ne hlater]
      congr 1
      exact (floatRank_eq_zero_iff.mpr (isZero_iff.mp (by simpa using hzero))).symm

theorem map_rank_denseExpansion (vec : Vector) :
    (SparseVector.mk vec.x.length 0
      (nonzeroEntries (fun v => !isZero v) (fun i x => ⟨i, id x⟩) 0 vec.x)).denseExpansion.map
        float4Rank = vec.x.map float4Rank := by
  rw [(vector_valid vec).denseExpansion_eq.2]
  exact map_rank_expandFrom vec.x 0

theorem vector_cmp_eq (a b : Vector) : ∃ sa sb, vectorToSparsevec a (-1) = .ok sa ∧
    vectorToSparsevec b (-1) = .ok sb ∧
    sparsevecCmpInternal sa sb = vectorCmpInternal a b := by
  refine ⟨_, _, vectorToSparsevec_eq a (-1), vectorToSparsevec_eq b (-1), ?_⟩
  rw [sparsevecCmpInternal_eq (vector_valid a) (vector_valid b),
    compareDense_eq (vector_valid a).isFinite_denseExpansion
      (vector_valid b).isFinite_denseExpansion,
    map_rank_denseExpansion, map_rank_denseExpansion, ← compareDense_eq a.finite b.finite,
    vectorCmpInternal, cmpInternal_eq]

theorem halfvecToVector_eq (vec : HalfVector) : ∃ v : Vector,
    halfvecToVector vec (-1) = .ok v ∧ v.x = vec.x.map halfToFloat4 := by
  have hpos := vec.dim_pos
  have hle : vec.x.length ≤ 16000 := vec.dim_le
  have hdim : vectorCheckDim vec.x.length = .ok () := by
    have hmax : (DenseType.vector.maxDim : ℤ) = 16000 := rfl
    simp only [vectorCheckDim, DenseType.checkDim, bind_eq_ok, errorIf_eq_ok]
    exact ⟨(), by omega, by omega⟩
  have hexpected : checkExpectedDim (-1) vec.x.length = .ok () :=
    checkExpectedDim_eq_ok.mpr (.inl rfl)
  have hpalloc : palloc (toInt32 (vectorSize vec.x.length)) = .ok () := by
    rw [vectorSize]
    exact palloc_toInt32 (by omega) (by rw [maxAllocSize]; omega)
  simp only [halfvecToVector, bind_eq_ok, pure, Except.pure, Except.ok.injEq]
  exact ⟨_, ⟨(), hdim, (), hexpected, (), hpalloc, rfl⟩, rfl⟩

/-! ## A total order -/

theorem eq_of_not_lt {x y : Float4} (hx : x.isFinite = true) (hy : y.isFinite = true)
    (hzero : isZero x = false) (hlt : ¬ x.lt y = true) (hgt : ¬ y.lt x = true) : x = y := by
  rw [lt_iff_rank hx hy] at hlt
  rw [lt_iff_rank hy hx] at hgt
  have hrank : float4Rank x = float4Rank y := by order
  refine float32_unpack_injective (isNaN_eq_false_of_isFinite hx) (eq_of_floatRank_eq ?_ hrank)
  intro s hs
  rw [isZero_iff.mpr ⟨s, hs⟩] at hzero
  exact absurd hzero (by decide)

theorem sign_ne_zero {c : Prop} [Decidable c] :
    (if c then (-1 : ℤ) else 1) ≠ 0 ∧ (if c then (1 : ℤ) else -1) ≠ 0 := by
  split <;> decide

theorem eq_of_cmpDims_eq_zero (h : cmpDims aDim bDim = 0) : aDim = bDim := by
  rw [cmpDims] at h
  split at h
  · simp at h
  · split at h
    · simp at h
    · omega

theorem eq_of_cmpLoop_eq_zero
    (ha : ∀ e ∈ as, e.index < aDim ∧ e.value.isFinite = true ∧ isZero e.value = false)
    (hb : ∀ e ∈ bs, e.index < bDim ∧ e.value.isFinite = true)
    (h : sparsevecCmpLoop aDim bDim as bs = 0) : aDim = bDim ∧ as = bs := by
  induction as generalizing bs with
  | nil =>
    cases bs with
    | nil => exact ⟨eq_of_cmpDims_eq_zero h, rfl⟩
    | cons b bs =>
      have hbound := (hb b (.head _)).1
      rw [sparsevecCmpLoop] at h
      split at h
      · exact absurd h sign_ne_zero.2
      · have := eq_of_cmpDims_eq_zero h
        omega
  | cons a as ih =>
    cases bs with
    | nil =>
      have hbound := (ha a (.head _)).1
      rw [sparsevecCmpLoop] at h
      split at h
      · exact absurd h sign_ne_zero.1
      · have := eq_of_cmpDims_eq_zero h
        omega
    | cons b bs =>
      simp only [List.mem_cons, forall_eq_or_imp] at ha hb
      rw [sparsevecCmpLoop] at h
      split at h
      · exact absurd h sign_ne_zero.1
      · split at h
        · exact absurd h sign_ne_zero.2
        · split at h
          · simp at h
          · rename_i hlt
            split at h
            · simp at h
            · rename_i hgt
              obtain ⟨hdim, hrest⟩ := ih ha.2 hb.2 h
              have hindex : a.index = b.index := by omega
              have hvalue : a.value = b.value :=
                eq_of_not_lt ha.1.2.1 hb.1.2 ha.1.2.2 hlt hgt
              have hsame : a = b := by
                cases a
                cases b
                simp_all
              rw [hrest, hsame]
              exact ⟨hdim, rfl⟩

theorem orderingInt_swap (o : Ordering) : orderingInt o.swap = -orderingInt o := by
  cases o <;> rfl

theorem orderingInt_nonpos (o : Ordering) : orderingInt o ≤ 0 ↔ o.isLE = true := by
  cases o <;> simp [orderingInt]

theorem compareLex_self : List.compareLex compare l l = .eq :=
  Std.ReflCmp.compare_self

theorem compareLex_swap (l' : List (ℤ ×ₗ ℤ ×ₗ ℤ)) :
    List.compareLex compare l l' = (List.compareLex compare l' l).swap :=
  Std.OrientedCmp.eq_swap

theorem sparsevecCmpInternal_eq_rank (a b : ValidSparsevec) :
    sparsevecCmpInternal a.1 b.1 = orderingInt (List.compareLex compare
      (a.1.denseExpansion.map float4Rank) (b.1.denseExpansion.map float4Rank)) := by
  rw [sparsevecCmpInternal_eq a.2 b.2,
    compareDense_eq a.2.isFinite_denseExpansion b.2.isFinite_denseExpansion]

/--
The three comparisons agree, and the comparison of sparse vectors is the
lexicographic one of the dense vectors they stand for: a total order in which
only a vector with the same dimensions and entries is equal.
-/
theorem comparisons_agree :
    (∀ a b : Vector, ∃ sa sb, vectorToSparsevec a (-1) = .ok sa ∧
      vectorToSparsevec b (-1) = .ok sb ∧
      sparsevecCmpInternal sa sb = vectorCmpInternal a b) ∧
    (∀ a b : HalfVector, ∃ va vb, halfvecToVector a (-1) = .ok va ∧
      halfvecToVector b (-1) = .ok vb ∧
      halfvecCmpInternal a b = vectorCmpInternal va vb) ∧
    (∀ a b : ValidSparsevec, sparsevecCmpInternal a.1 b.1 =
      orderingInt (compareDense a.1.denseExpansion b.1.denseExpansion)) ∧
    (∀ a b : ValidSparsevec, sparsevecCmpInternal a.1 b.1 = 0 ↔
      a.1.dim = b.1.dim ∧ a.1.elements = b.1.elements) ∧
    (∀ a b : ValidSparsevec, sparsevecCmpInternal b.1 a.1 = -sparsevecCmpInternal a.1 b.1) ∧
    (∀ a b c : ValidSparsevec, sparsevecCmpInternal a.1 b.1 ≤ 0 →
      sparsevecCmpInternal b.1 c.1 ≤ 0 → sparsevecCmpInternal a.1 c.1 ≤ 0) := by
  refine ⟨vector_cmp_eq, ?_, fun a b => sparsevecCmpInternal_eq a.2 b.2, ?_, ?_, ?_⟩
  · intro a b
    obtain ⟨va, ha, hax⟩ := halfvecToVector_eq a
    obtain ⟨vb, hb, hbx⟩ := halfvecToVector_eq b
    refine ⟨va, vb, ha, hb, ?_⟩
    rw [halfvecCmpInternal, cmpInternal_map, vectorCmpInternal, hax, hbx]
  · intro a b
    constructor
    · exact eq_of_cmpLoop_eq_zero
        (fun e he => ⟨(a.2.bounds e he).2, a.2.finite e he, a.2.nonzero e he⟩)
        (fun e he => ⟨(b.2.bounds e he).2, b.2.finite e he⟩)
    · rintro ⟨hdim, helements⟩
      rw [sparsevecCmpInternal_eq_rank, SparseVector.denseExpansion, hdim, helements,
        SparseVector.denseExpansion, compareLex_self]
      rfl
  · intro a b
    rw [sparsevecCmpInternal_eq_rank, sparsevecCmpInternal_eq_rank, compareLex_swap,
      orderingInt_swap]
  · intro a b c hab hbc
    rw [sparsevecCmpInternal_eq_rank, orderingInt_nonpos] at hab hbc ⊢
    exact Std.TransCmp.isLE_trans hab hbc

end PgVector.Types
