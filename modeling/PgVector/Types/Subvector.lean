import PgVector.Types.Half

/-!
# Subvectors

`subvector` and `halfvec_subvector` differ in the constants of their type only.  A
computation of type `int32` whose result is out of range and an access beyond the end
of an array are outcomes of their own.
-/

namespace PgVector.Types

inductive Fault where
  | overflow
  | outOfBounds
  | error (error : PgError)
  deriving DecidableEq, Repr

def int32 (n : Int) : Except Fault Int :=
  if -2 ^ 31 ≤ n ∧ n < 2 ^ 31 then .ok n else .error .overflow

section Copy

variable {α : Type}

def readAt (x : List α) (i : Int) : Except Fault α :=
  match i with
  | .ofNat n => (x[n]?.map Except.ok).getD (.error .outOfBounds)
  | .negSucc _ => .error .outOfBounds

def copyElements (x : List α) (start : Int) : Nat → Int → Except Fault (List α)
  | 0, _ => .ok []
  | turns + 1, i => do
    let v ← readAt x (← int32 ((← int32 (start - 1)) + i))
    return v :: (← copyElements x start turns (i + 1))

def DenseType.copySlice (T : DenseType) (x : List α) (start last : Int) :
    Except Fault (List α) := do
  let dim ← int32 (last - start)
  (T.checkDim dim).mapError .error
  (palloc (toInt32 (T.size dim.toNat))).mapError .error
  copyElements x start dim.toNat 0

/-- The end of the slice; it is tested first whether `start + count` is beyond it. -/
def sliceEnd (dim start count : Int) : Except Fault Int := do
  let room ← int32 (dim - count)
  if start > room then int32 (dim + 1) else int32 (start + count)

def DenseType.subvector (T : DenseType) (x : List α) (start count : Int) : Except Fault (List α) :=
  if count < 1 then .error (.error T.tooFew)
  else do
    let last ← sliceEnd x.length start count
    if start < 1 then T.copySlice x 1 last
    else if start > x.length then .error (.error T.tooFew)
    else T.copySlice x start last

end Copy

def subvector (a : Vector) (start count : Int32) : Except Fault (List Float4) :=
  DenseType.vector.subvector a.x start.toInt count.toInt

def halfvecSubvector (a : HalfVector) (start count : Int32) : Except Fault (List Half) :=
  DenseType.halfvec.subvector a.x start.toInt count.toInt

/-! ## Slices -/

section Slice

variable {α : Type}

/-- The elements at the positions `p` with `start ≤ p < start + count`, from one on. -/
def slice (x : List α) (start count : Int) : List α :=
  ((x.zipIdx 1).filter fun e => start ≤ e.2 ∧ e.2 < start + count).map Prod.fst

theorem filter_zipIdx (x : List α) (k : Nat) (low high : Int) :
    ((x.zipIdx k).filter fun e => decide (low ≤ e.2 ∧ e.2 < high)).map Prod.fst =
      (x.drop (low - k).toNat).take (high - max low k).toNat := by
  induction x generalizing k with
  | nil => simp
  | cons a x ih =>
    rw [List.zipIdx_cons, List.filter_cons]
    by_cases hlow : low ≤ k
    · have hdrop : ∀ j : ℕ, k ≤ j → (low - j).toNat = 0 := by omega
      by_cases hhigh : (k : ℤ) < high
      · have htake : (high - max low k).toNat = (high - max low (k + 1 : ℕ)).toNat + 1 := by omega
        rw [if_pos (by simp [hlow, hhigh]), List.map_cons, ih, hdrop k le_rfl,
          hdrop (k + 1) (by omega), htake]
        rfl
      · have htake : ∀ j : ℕ, k ≤ j → (high - max low j).toNat = 0 := by omega
        rw [if_neg (by simp [hhigh]), ih, htake k le_rfl, htake (k + 1) (by omega)]
        rfl
    · have hdrop : (low - k).toNat = (low - (k + 1 : ℕ)).toNat + 1 := by omega
      have hmax : max low (k + 1 : ℕ) = max low k := by omega
      rw [if_neg (by simp [hlow]), ih, hdrop, hmax]
      rfl

theorem slice_eq (x : List α) (start count : Int) :
    slice x start count = (x.drop (start - 1).toNat).take (start + count - max start 1).toNat :=
  filter_zipIdx x 1 start (start + count)

theorem copyElements_eq {x : List α} {start i : Int} {turns : Nat} (hstart : 1 ≤ start)
    (hi : 0 ≤ i) (hlast : start - 1 + i + turns ≤ x.length) (hlen : x.length ≤ 16000) :
    copyElements x start turns i = .ok ((x.drop (start - 1 + i).toNat).take turns) := by
  induction turns generalizing i with
  | zero => simp [copyElements]
  | succ turns ih =>
    obtain ⟨n, hn⟩ : ∃ n : ℕ, start - 1 + i = n := ⟨(start - 1 + i).toNat, by omega⟩
    have hlt : n < x.length := by omega
    have hread : readAt x (start - 1 + i) = .ok x[n] := by
      rw [hn]
      simp [readAt, hlt]
    have hrest := ih (i := i + 1) (by omega) (by omega)
    rw [copyElements, int32, if_pos (by omega)]
    simp only [bind, Except.bind, int32]
    rw [if_pos (by omega)]
    simp only [hread, hrest, pure, Except.pure]
    rw [show (start - 1 + (i + 1)).toNat = n + 1 by omega, hn, Int.toNat_natCast,
      List.drop_eq_getElem_cons hlt]
    rfl

variable {T : DenseType} {x : List α}

theorem copySlice_eq {start last : Int} (hstart : 1 ≤ start) (hdim : -2 ^ 31 ≤ last - start)
    (hlast : last ≤ x.length + 1) (hlen : x.length ≤ T.maxDim) (hmax : T.maxDim ≤ 16000)
    (hsize : ∀ n ≤ T.maxDim, palloc (toInt32 (T.size n)) = .ok ()) :
    T.copySlice x start last =
      if start < last then .ok ((x.drop (start - 1).toNat).take (last - start).toNat)
      else .error (.error T.tooFew) := by
  rw [DenseType.copySlice, int32, if_pos (by omega)]
  simp only [bind, Except.bind, DenseType.checkDim, errorIf]
  by_cases hlt : start < last
  · rw [if_neg (by omega), if_neg (by omega), if_pos hlt, hsize _ (by omega)]
    have hcopy : copyElements x start (last - start).toNat 0 = _ :=
      copyElements_eq hstart le_rfl (by omega) (by omega)
    simpa [Except.mapError] using hcopy
  · rw [if_pos (by omega), if_neg hlt]
    rfl

theorem sliceEnd_eq {dim start count : Int} (hstart : -2 ^ 31 ≤ start) (hcount : 1 ≤ count)
    (hmax : count < 2 ^ 31) (hdim : 0 ≤ dim ∧ dim ≤ 16000) :
    sliceEnd dim start count = .ok (min (dim + 1) (start + count)) := by
  have hroom : int32 (dim - count) = .ok (dim - count) := if_pos (by omega)
  simp only [sliceEnd, hroom, bind, Except.bind]
  split
  · rw [int32, if_pos (by omega), min_eq_left (by omega)]
  · rw [int32, if_pos (by omega), min_eq_right (by omega)]

theorem slice_cut (x : List α) (start count : Int) :
    slice x start count = (x.drop (max start 1 - 1).toNat).take
      (min ((x.length : ℤ) + 1) (start + count) - max start 1).toNat := by
  rw [slice_eq, show (max start 1 - 1).toNat = (start - 1).toNat by omega]
  by_cases hcut : start + count ≤ x.length + 1
  · rw [min_eq_right hcut]
  · rw [List.take_of_length_le, List.take_of_length_le] <;> rw [List.length_drop] <;> omega

theorem slice_eq_nil_iff {x : List α} {start count : Int} :
    slice x start count = [] ↔ ¬ max start 1 < min ((x.length : ℤ) + 1) (start + count) := by
  rw [slice_cut, ← List.length_eq_zero_iff, List.length_take, List.length_drop]
  omega

theorem DenseType.subvector_eq {start count : Int} (hstart : -2 ^ 31 ≤ start)
    (hstart' : start < 2 ^ 31) (hcount : count < 2 ^ 31) (hlen : x.length ≤ T.maxDim)
    (hmax : T.maxDim ≤ 16000)
    (hsize : ∀ n ≤ T.maxDim, palloc (toInt32 (T.size n)) = .ok ()) :
    T.subvector x start count =
      if count < 1 ∨ slice x start count = [] then .error (.error T.tooFew)
      else .ok (slice x start count) := by
  rw [DenseType.subvector]
  by_cases hone : count < 1
  · simp [hone]
  · have hcopy : T.copySlice x (max start 1) (min (x.length + 1) (start + count)) =
        if slice x start count = [] then .error (.error T.tooFew)
        else .ok (slice x start count) := by
      rw [copySlice_eq (by omega) (by omega) (by omega) hlen hmax hsize, ← slice_cut]
      simp only [slice_eq_nil_iff, ite_not]
    rw [if_neg hone, sliceEnd_eq hstart (by omega) hcount (by omega)]
    simp only [bind, Except.bind, hone, false_or]
    by_cases hlow : start < 1
    · rw [if_pos hlow, ← hcopy, max_eq_right hlow.le]
    · rw [if_neg hlow]
      by_cases hbeyond : start > x.length
      · rw [if_pos hbeyond, if_pos (slice_eq_nil_iff.mpr (by omega))]
      · rw [if_neg hbeyond, ← hcopy, max_eq_left (by omega)]

end Slice

/--
Both functions return the slice, or an error exactly if it is empty or the count is
not positive; no computation overflows and no access is out of bounds.
-/
theorem subvector_clips (start count : Int32) :
    (∀ a : Vector, subvector a start count =
      if count.toInt < 1 ∨ slice a.x start.toInt count.toInt = [] then
        .error (.error DenseType.vector.tooFew)
      else .ok (slice a.x start.toInt count.toInt)) ∧
    ∀ a : HalfVector, halfvecSubvector a start count =
      if count.toInt < 1 ∨ slice a.x start.toInt count.toInt = [] then
        .error (.error DenseType.halfvec.tooFew)
      else .ok (slice a.x start.toInt count.toInt) := by
  have hstart := start.le_toInt
  have hstart' := start.toInt_lt
  have hcount := count.toInt_lt
  constructor
  · intro a
    refine DenseType.subvector_eq hstart hstart' hcount a.dim_le (by decide) ?_
    intro n (hn : n ≤ 16000)
    refine palloc_toInt32 ?_ ?_ <;> simp only [DenseType.vector, vectorSize, maxAllocSize] <;> omega
  · intro a
    refine DenseType.subvector_eq hstart hstart' hcount a.dim_le (by decide) ?_
    intro n (hn : n ≤ 16000)
    refine palloc_toInt32 ?_ ?_ <;> simp only [DenseType.halfvec, maxAllocSize] <;> omega

end PgVector.Types
