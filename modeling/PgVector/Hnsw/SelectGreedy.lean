import PgVector.Foundation.Sieve
import PgVector.Hnsw.SelectSpec

/-!
# The loop of the heuristic

The loop of `SelectNeighbors` sieves its candidates, nearest first.  With the
flags of an earlier call at hand it compares less, and finds the same.
-/

namespace PgVector.Hnsw

open Foundation

variable {E F : Type} [LinearOrder F] {sel : Selection E F} {lm : Nat}

def Selection.closerThan (sel : Selection E F) (e ri : HnswCandidate E F) : Bool :=
  decide (e.distance < sel.distance e.element ri.element)

/-- The comparison and the flag of a listed candidate are those of the candidate. -/
abbrev Selection.sieved (sel : Selection E F) (kept w : List (ListedCandidate E F)) : Prop :=
  Sieved (fun e ri => sel.closerThan e.toHnswCandidate ri.toHnswCandidate)
    (fun e => e.closer) kept w

/-! ## Where the loop ends -/

theorem selectLoop_full (mustCalculate : Bool) (newCandidate : Option Nat)
    (w : List (ListedCandidate E F)) (st : SelectState E F) :
    (selectLoop sel lm mustCalculate newCandidate w st).1 = [] ∨
      lm ≤ (selectLoop sel lm mustCalculate newCandidate w st).2.r.length := by
  induction w generalizing st with
  | nil => exact .inl rfl
  | cons e w ih =>
    unfold selectLoop
    split
    · exact ih _
    · next hfull => exact .inr (Nat.le_of_not_lt hfull)

/-! ## Flags computed from scratch -/

structure Looped (sel : Selection E F) (lm : Nat) (w : List (ListedCandidate E F))
    (st st' : SelectState E F) (marked rest : List (ListedCandidate E F)) : Prop where
  plain : (marked ++ rest).map ListedCandidate.plain = w.map ListedCandidate.plain
  suffix : rest <:+ w
  r : st'.r = st.r ++ marked.filter fun e => e.closer
  wd : st'.wd = st.wd ++ marked.filter fun e => !e.closer
  sieved : sel.sieved st.r marked
  full : rest = [] ∨ lm ≤ st'.r.length

variable {e : ListedCandidate E F} {old : List (ListedCandidate E F)} {st : SelectState E F}
  {items : List (HnswCandidate E F)} {neighbors : HnswNeighborArray E F}
  (w : List (ListedCandidate E F))

theorem selectTurn_calculated (sel : Selection E F) (newCandidate : Option Nat)
    (st : SelectState E F) {e' : ListedCandidate E F}
    (he' : e' = { e with closer := checkElementCloser sel e st.r }) :
    selectTurn sel true newCandidate st e =
      { st with
        r := if e'.closer then st.r ++ [e'] else st.r
        wd := if e'.closer then st.wd else st.wd ++ [e'] } := by
  subst he'
  cases hcloser : checkElementCloser sel e st.r <;>
    simp [selectTurn, nextCloser, isAddedCloser, hcloser]

variable (sel lm) in
theorem selectLoop_calculated (newCandidate : Option Nat) (w : List (ListedCandidate E F))
    (st : SelectState E F) :
    ∃ marked, Looped sel lm w st (selectLoop sel lm true newCandidate w st).2 marked
      (selectLoop sel lm true newCandidate w st).1 := by
  induction w generalizing st with
  | nil =>
    exact ⟨[], rfl, List.suffix_rfl, (List.append_nil _).symm, (List.append_nil _).symm,
      trivial, .inl rfl⟩
  | cons e w ih =>
    unfold selectLoop
    split
    · obtain ⟨e', he'⟩ : ∃ e', e' = { e with closer := checkElementCloser sel e st.r } :=
        ⟨_, rfl⟩
      obtain ⟨marked, hloop⟩ := ih (selectTurn sel true newCandidate st e)
      rw [selectTurn_calculated sel newCandidate st he'] at hloop ⊢
      refine ⟨e' :: marked, ?_, hloop.suffix.trans (List.suffix_cons e w), ?_, ?_, ?_, hloop.full⟩
      · rw [List.cons_append, List.map_cons, List.map_cons, hloop.plain, he']
        rfl
      · rw [hloop.r]
        cases h : e'.closer <;> simp [h]
      · rw [hloop.wd]
        cases h : e'.closer <;> simp [h]
      · refine ⟨?_, hloop.sieved⟩
        rw [he']
        rfl
    · next hfull =>
      exact ⟨[], rfl, List.suffix_rfl, (List.append_nil _).symm, (List.append_nil _).symm,
        trivial, .inr (Nat.le_of_not_lt hfull)⟩

/-! ## Flags of an earlier call -/

/--
What the loop knows of the candidates that the flags mark: the marked ones so far,
the new candidate left out, are `old`.
-/
structure CacheState (old : List (ListedCandidate E F)) (st : SelectState E F) : Prop where
  r_mem : ∀ e ∈ st.r, e ∈ old ∨ e ∈ st.added
  added_mem : ∀ e ∈ st.added, e ∈ st.r
  old_mem : st.removedAny = false → ∀ e ∈ old, e ∈ st.r
  same : st.added = [] → st.r = old

theorem nextCloser_cached (hst : CacheState old st) {n : Nat} (hnew : e.pos = n → st.added = [])
    (hflag : e.pos ≠ n → e.closer = checkElementCloser sel e old) :
    nextCloser sel false (some n) st e = checkElementCloser sel e st.r := by
  unfold nextCloser
  rw [if_neg Bool.false_ne_true]
  cases hadded : st.added with
  | nil =>
    rw [List.isEmpty_nil, Bool.not_true, if_neg Bool.false_ne_true, hst.same hadded]
    split
    · rfl
    · next hne => exact hflag fun h => hne (by rw [h])
  | cons a added =>
    have hold : e.pos ≠ n := by
      intro h
      rw [hnew h] at hadded
      cases hadded
    rw [List.isEmpty_cons, Bool.not_false, if_pos rfl, ← hadded]
    cases hcloser : e.closer with
    | true =>
      -- nothing in `old` is in the way
      have hclear := hflag hold
      rw [hcloser, checkElementCloser, eq_comm, List.all_eq_true] at hclear
      rw [if_pos rfl, Bool.eq_iff_iff, checkElementCloser, checkElementCloser,
        List.all_eq_true, List.all_eq_true]
      constructor
      · intro h ri hri
        rcases hst.r_mem ri hri with hri | hri
        · exact hclear ri hri
        · exact h ri hri
      · intro h ri hri
        exact h ri (hst.added_mem ri hri)
    | false =>
      rw [if_neg Bool.false_ne_true]
      cases hremoved : st.removedAny with
      | true => rfl
      | false =>
        -- what was in the way is still there
        have hblocked := hflag hold
        rw [hcloser, checkElementCloser, eq_comm, List.all_eq_false] at hblocked
        obtain ⟨ri, hri, hfar⟩ := hblocked
        rw [if_neg Bool.false_ne_true, checkElementCloser, eq_comm, List.all_eq_false]
        exact ⟨ri, hst.old_mem hremoved ri hri, hfar⟩

theorem selectTurn_fields {mustCalculate : Bool} {newCandidate : Option Nat}
    {e' : ListedCandidate E F}
    (he' : e' = { e with closer := nextCloser sel mustCalculate newCandidate st e }) :
    selectTurn sel mustCalculate newCandidate st e =
      { r := if e'.closer then st.r ++ [e'] else st.r
        wd := if e'.closer then st.wd else st.wd ++ [e']
        added := if e'.closer && isAddedCloser mustCalculate newCandidate st e then
            st.added ++ [e']
          else st.added
        removedAny := st.removedAny ||
          (!mustCalculate && !st.added.isEmpty && e.closer && !e'.closer) } := by
  subst he'
  cases hcloser : nextCloser sel mustCalculate newCandidate st e <;> simp [selectTurn, hcloser]

def nextOld (n : Nat) (old : List (ListedCandidate E F)) (e : ListedCandidate E F) :
    List (ListedCandidate E F) :=
  if e.pos ≠ n ∧ e.closer then old ++ [e] else old

theorem CacheState.turn (hst : CacheState old st) {n : Nat} (hnew : e.pos = n → st.added = [])
    (hflag : e.pos ≠ n → e.closer = checkElementCloser sel e old) :
    CacheState (nextOld n old e) (selectTurn sel false (some n) st e) := by
  have hnext := nextCloser_cached hst hnew hflag
  obtain ⟨e', he'⟩ : ∃ e', e' = { e with closer := checkElementCloser sel e st.r } := ⟨_, rfl⟩
  rw [selectTurn_fields (he'.trans (by rw [hnext]))]
  obtain ⟨hr, hadded, hold, hsame⟩ := hst
  by_cases hempty : st.added = []
  · obtain rfl : st.r = old := hsame hempty
    by_cases hpos : e.pos = n
    · -- the new candidate itself
      cases hcloser : e'.closer with
      | true =>
        constructor <;> simp [nextOld, isAddedCloser, hempty, hpos]
        intro _ x hx
        exact .inl hx
      | false => constructor <;> simp [nextOld, hempty, hpos]
    · have hpos' : ¬ n = e.pos := fun h => hpos h.symm
      obtain rfl : e' = e := by
        rw [he', ← hflag hpos]
      cases hcloser : e'.closer <;>
        constructor <;> simp [nextOld, isAddedCloser, hempty, hpos, hpos', hcloser]
  · have hpos : e.pos ≠ n := fun h => hempty (hnew h)
    have hisEmpty : st.added.isEmpty = false := by simpa using hempty
    have hisAdded : isAddedCloser false (some n) st e = (!e.closer && st.removedAny) := by
      simp [isAddedCloser, hisEmpty]
    rw [hisAdded]
    cases hflagged : e.closer with
    | true =>
      have hstep : nextOld n old e = old ++ [e] := if_pos ⟨hpos, hflagged⟩
      rw [hstep]
      cases hcloser : e'.closer with
      | true =>
        have hcheck : checkElementCloser sel e st.r = e.closer := by
          rw [hflagged, ← hcloser, he']
        obtain rfl : e' = e := by
          rw [he', hcheck]
        constructor
        · intro x hx
          simp only [if_true, List.mem_append, List.mem_singleton] at hx ⊢
          rcases hx with hx | rfl
          · exact (hr x hx).imp_left .inl
          · exact .inl (.inr rfl)
        · intro x hx
          exact List.mem_append_left _ (hadded x (by simpa using hx))
        · intro hremoved x hx
          rcases List.mem_append.mp hx with hx | hx
          · exact List.mem_append_left _ (hold (by simpa using hremoved) x hx)
          · exact List.mem_append_right _ hx
        · intro h
          exact absurd (by simpa using h) hempty
      | false =>
        -- a marked candidate is marked no more
        constructor
        · intro x hx
          exact (hr x (by simpa using hx)).imp_left (List.mem_append_left [e])
        · intro x hx
          simpa using hadded x (by simpa using hx)
        · intro hremoved
          simp [hisEmpty] at hremoved
        · intro h
          exact absurd (by simpa using h) hempty
    | false =>
      have hstep : nextOld n old e = old := if_neg (by simp [hflagged])
      rw [hstep]
      cases hcloser : e'.closer with
      | true =>
        -- it can only be marked now because another one is not
        have hremoved : st.removedAny = true := by
          by_contra hremoved
          have hclear : checkElementCloser sel e st.r = true := by
            rw [← hcloser, he']
          rw [← hnext] at hclear
          simp [nextCloser, hisEmpty, hflagged, hremoved] at hclear
        constructor
        · intro x hx
          simp only [if_true, hremoved, Bool.not_false, Bool.and_true, List.mem_append] at hx ⊢
          rcases hx with hx | hx
          · exact (hr x hx).imp_right .inl
          · exact .inr (.inr hx)
        · intro x hx
          simp only [if_true, hremoved, Bool.not_false, Bool.and_true, List.mem_append] at hx ⊢
          exact hx.imp_left (hadded x)
        · intro h
          simp [hremoved] at h
        · intro h
          simp [hremoved] at h
      | false =>
        constructor
        · intro x hx
          simpa using hr x (by simpa using hx)
        · intro x hx
          simpa using hadded x (by simpa using hx)
        · intro hremoved
          simpa using hold (by simpa using hremoved)
        · intro h
          exact absurd (by simpa using h) hempty

variable (lm) in
theorem selectLoop_cached {st₀ : SelectState E F} (hst : CacheState old st) (hr : st.r = st₀.r)
    (hwd : st.wd = st₀.wd) (n : Nat) (newCandidate : Option Nat) (w : List (ListedCandidate E F))
    (hpos : (w.map ListedCandidate.pos).Nodup)
    (hnew : n ∈ w.map ListedCandidate.pos → st.added = [])
    (hflags : sel.sieved old (w.filter fun e => decide (e.pos ≠ n))) :
    (selectLoop sel lm false (some n) w st).1 =
        (selectLoop sel lm true newCandidate w st₀).1 ∧
      (selectLoop sel lm false (some n) w st).2.r =
        (selectLoop sel lm true newCandidate w st₀).2.r ∧
      (selectLoop sel lm false (some n) w st).2.wd =
        (selectLoop sel lm true newCandidate w st₀).2.wd := by
  induction w generalizing old st st₀ with
  | nil => exact ⟨rfl, hr, hwd⟩
  | cons e w ih =>
    obtain ⟨hfirst, hpos⟩ := List.nodup_cons.mp hpos
    have hnew' : e.pos = n → st.added = [] := fun h => hnew (by simp [h])
    have hflag : e.pos ≠ n → e.closer = checkElementCloser sel e old := by
      intro hne
      rw [List.filter_cons, if_pos (decide_eq_true hne)] at hflags
      exact hflags.1
    have hnext := nextCloser_cached hst hnew' hflag
    obtain ⟨e', he'⟩ : ∃ e', e' = { e with closer := checkElementCloser sel e st.r } :=
      ⟨_, rfl⟩
    have hturn := selectTurn_fields (he'.trans (by rw [hnext]))
    have hturn₀ := selectTurn_calculated sel newCandidate st₀ (he'.trans (by rw [hr]))
    unfold selectLoop
    rw [hr]
    split
    · refine ih (hst.turn hnew' hflag) ?_ ?_ hpos ?_ ?_
      · rw [hturn, hturn₀, hr]
      · rw [hturn, hturn₀, hwd]
      · intro hlater
        have hne : ¬ n = e.pos := fun h => hfirst (h ▸ hlater)
        have hempty := hnew (by simp [hlater])
        rw [hturn]
        simp [isAddedCloser, hempty, hne]
      · by_cases hne : e.pos ≠ n
        · rw [List.filter_cons, if_pos (decide_eq_true hne)] at hflags
          simpa [nextOld, hne] using hflags.2
        · rw [List.filter_cons, if_neg (by simpa using hne)] at hflags
          simpa [nextOld, hne] using hflags
    · exact ⟨rfl, hr, hwd⟩

/-! ## The candidates that are returned -/

def nearestFirst (sel : Selection E F) (w : List (ListedCandidate E F))
    (sortCandidates : Bool) : List (ListedCandidate E F) :=
  (if sortCandidates then w.mergeSort (compareCandidateDistances sel) else w).reverse

/-- The flags that were left in the candidates sieve them, the new one left out. -/
def FlagsKept (sel : Selection E F) (w : List (ListedCandidate E F))
    (newCandidate : Option Nat) (sortCandidates : Bool) : Prop :=
  ∃ n, newCandidate = some n ∧
    sel.sieved [] ((nearestFirst sel w sortCandidates).filter fun e => decide (e.pos ≠ n))

omit [LinearOrder F] in
theorem map_pos_listCandidates (c : List (HnswCandidate E F)) :
    (listCandidates c).map ListedCandidate.pos = List.range c.length := by
  rw [listCandidates, List.map_map, List.range_eq_range', ← List.zipIdx_map_snd 0 c]
  rfl

omit [LinearOrder F] in
theorem nodup_pos_listCandidates (c : List (HnswCandidate E F)) :
    ((listCandidates c).map ListedCandidate.pos).Nodup := by
  rw [map_pos_listCandidates]
  exact List.nodup_range

theorem nearestFirst_perm (sel : Selection E F) (w : List (ListedCandidate E F))
    (sortCandidates : Bool) : (nearestFirst sel w sortCandidates).Perm w := by
  refine (List.reverse_perm _).trans ?_
  cases sortCandidates with
  | true => exact List.mergeSort_perm _ _
  | false => exact List.Perm.refl _

theorem shrinkNeighbors_cached {w : List (ListedCandidate E F)} {newCandidate : Option Nat}
    {sortCandidates : Bool} (hpos : (w.map ListedCandidate.pos).Nodup)
    (hkept : FlagsKept sel w newCandidate sortCandidates) :
    shrinkNeighbors sel w lm true newCandidate sortCandidates =
      shrinkNeighbors sel w lm false newCandidate sortCandidates := by
  obtain ⟨n, rfl, hflags⟩ := hkept
  have hnodup : ((nearestFirst sel w sortCandidates).map ListedCandidate.pos).Nodup :=
    ((nearestFirst_perm sel w sortCandidates).map _).nodup_iff.mpr hpos
  have hstart : CacheState ([] : List (ListedCandidate E F))
      { r := [], wd := [], added := [], removedAny := false } := by
    constructor <;> simp
  obtain ⟨hrest, hr, hwd⟩ := selectLoop_cached lm hstart rfl rfl n (some n)
    (nearestFirst sel w sortCandidates) hnodup (fun _ => rfl) hflags
  rw [nearestFirst] at hrest hr hwd
  unfold shrinkNeighbors
  simp only [Bool.not_true, Bool.not_false, hrest, hr, hwd]

structure Shrunk (lm : Nat) (result : SelectResult E F)
    (r wd rest : List (ListedCandidate E F)) : Prop where
  candidates : result.candidates = r ++ wd ++ rest
  neighbors : result.neighbors = r ++ wd.take (min wd.length (lm - r.length))
  pruned : result.pruned = (wd[min wd.length (lm - r.length)]?).or rest.getLast?
  room : r.length ≤ lm
  full : rest = [] ∨ lm ≤ r.length

namespace Shrunk

variable {result : SelectResult E F} {r wd rest : List (ListedCandidate E F)}

omit [LinearOrder F] in
theorem length_neighbors (h : Shrunk lm result r wd rest) (hlong : lm < result.candidates.length) :
    result.neighbors.length = lm := by
  have hroom := h.room
  rw [h.candidates, List.length_append, List.length_append] at hlong
  rw [h.neighbors, List.length_append, List.length_take]
  rcases h.full with hrest | hfull
  · rw [hrest, List.length_nil] at hlong
    omega
  · omega

omit [LinearOrder F] in
theorem pruned_perm (h : Shrunk lm result r wd rest)
    (hlong : result.candidates.length = lm + 1) :
    ∃ p, result.pruned = some p ∧ result.candidates.Perm (p :: result.neighbors) ∧
      (p ∈ wd ∧ rest = [] ∨ wd = [] ∧ rest = [p]) := by
  have hroom := h.room
  rw [h.candidates, List.length_append, List.length_append] at hlong
  rw [h.candidates, h.neighbors, h.pruned]
  rcases h.full with hrest | hfull
  · -- the last of the candidates that were put aside
    rw [hrest, List.length_nil] at hlong
    have hoff : min wd.length (lm - r.length) = wd.length - 1 := by omega
    have hlast : wd.length - 1 < wd.length := by omega
    rw [hrest, hoff, List.append_nil]
    refine ⟨wd[wd.length - 1], by rw [List.getElem?_eq_getElem hlast, Option.some_or], ?_,
      .inl ⟨List.getElem_mem hlast, rfl⟩⟩
    have hsplit : wd = wd.take (wd.length - 1) ++ [wd[wd.length - 1]] := by
      rw [List.take_append_getElem hlast, Nat.sub_add_cancel (by omega), List.take_length]
    conv_lhs => rw [hsplit, ← List.append_assoc]
    exact List.perm_append_singleton _ _
  · have hoff : min wd.length (lm - r.length) = 0 := by omega
    rw [hoff, List.take_zero, List.append_nil]
    cases wd with
    | cons e wd =>
      obtain rfl : wd = [] := List.eq_nil_of_length_eq_zero (by
        rw [List.length_cons] at hlong
        omega)
      obtain rfl : rest = [] := List.eq_nil_of_length_eq_zero (by
        rw [List.length_singleton] at hlong
        omega)
      exact ⟨e, rfl, by simp, by simp⟩
    | nil =>
      rw [List.length_nil] at hlong
      obtain ⟨e, rfl⟩ : ∃ e, rest = [e] := List.length_eq_one_iff.mp (by omega)
      exact ⟨e, rfl, by simp, by simp⟩

end Shrunk

/-! ## The order of the candidates -/

def Selection.nearer (sel : Selection E F) (a b : HnswCandidate E F) : Prop :=
  a.distance < b.distance ∨ a.distance = b.distance ∧ sel.pointer a.element ≤ sel.pointer b.element

theorem compareCandidateDistances_iff {a b : ListedCandidate E F} :
    compareCandidateDistances sel a b = true ↔ sel.nearer b.toHnswCandidate a.toHnswCandidate := by
  rw [Selection.nearer, @eq_comm _ b.distance]
  simp only [compareCandidateDistances, Bool.or_eq_true, Bool.and_eq_true, decide_eq_true_eq]

theorem Selection.nearer_trans {a b c : HnswCandidate E F} (hab : sel.nearer a b)
    (hbc : sel.nearer b c) : sel.nearer a c := by
  rcases hab with hab | ⟨hab, hpab⟩
  · rcases hbc with hbc | ⟨hbc, -⟩
    · exact .inl (hab.trans hbc)
    · exact .inl (hbc ▸ hab)
  · rcases hbc with hbc | ⟨hbc, hpbc⟩
    · exact .inl (hab ▸ hbc)
    · exact .inr ⟨hab.trans hbc, hpab.trans hpbc⟩

theorem Selection.nearer_total (sel : Selection E F) (a b : HnswCandidate E F) :
    sel.nearer a b ∨ sel.nearer b a := by
  rcases lt_trichotomy a.distance b.distance with h | h | h
  · exact .inl (.inl h)
  · rcases Nat.le_total (sel.pointer a.element) (sel.pointer b.element) with hp | hp
    · exact .inl (.inr ⟨h, hp⟩)
    · exact .inr (.inr ⟨h.symm, hp⟩)
  · exact .inr (.inl h)

theorem nearestFirst_sorted (sel : Selection E F) (w : List (ListedCandidate E F)) :
    (nearestFirst sel w true).Pairwise fun a b =>
      sel.nearer a.toHnswCandidate b.toHnswCandidate := by
  rw [nearestFirst, if_pos rfl, List.pairwise_reverse]
  refine (List.pairwise_mergeSort ?_ ?_ w).imp compareCandidateDistances_iff.mp
  · intro a b c hab hbc
    rw [compareCandidateDistances_iff] at hab hbc ⊢
    exact Selection.nearer_trans hbc hab
  · intro a b
    rw [Bool.or_eq_true, compareCandidateDistances_iff, compareCandidateDistances_iff]
    exact sel.nearer_total _ _

theorem nearestFirst_ascending {w : List (ListedCandidate E F)} {sortCandidates : Bool}
    (hsorted : sortCandidates = false → w.Pairwise fun a b => b.distance ≤ a.distance) :
    (nearestFirst sel w sortCandidates).Pairwise fun a b => a.distance ≤ b.distance := by
  cases sortCandidates with
  | true =>
    refine (nearestFirst_sorted sel w).imp ?_
    rintro a b (h | h)
    · exact h.le
    · exact h.1.le
  | false =>
    rw [nearestFirst, if_neg Bool.false_ne_true, List.pairwise_reverse]
    exact hsorted rfl

variable (sel lm) in
theorem shrinkNeighbors_shrunk (closerSet : Bool) (newCandidate : Option Nat)
    (sortCandidates : Bool) :
    ∃ r wd rest,
      Shrunk lm (shrinkNeighbors sel w lm closerSet newCandidate sortCandidates) r wd rest :=
  ⟨_, _, _, rfl, rfl, rfl, selectLoop_room _ (Nat.zero_le _), selectLoop_full _ _ _ _⟩

variable (lm) in
theorem shrinkNeighbors_marks (newCandidate : Option Nat) (sortCandidates : Bool) :
    ∃ marked rest,
      (marked ++ rest).map ListedCandidate.plain =
        (nearestFirst sel w sortCandidates).map ListedCandidate.plain ∧
      sel.sieved [] marked ∧
      Shrunk lm (shrinkNeighbors sel w lm false newCandidate sortCandidates)
        (marked.filter fun e => e.closer) (marked.filter fun e => !e.closer) rest := by
  obtain ⟨marked, hloop⟩ := selectLoop_calculated sel lm newCandidate
    (nearestFirst sel w sortCandidates) { r := [], wd := [], added := [], removedAny := false }
  have hr := hloop.r
  have hwd := hloop.wd
  rw [List.nil_append] at hr hwd
  refine ⟨marked, _, hloop.plain, hloop.sieved, ?_⟩
  rw [← hr, ← hwd]
  exact ⟨rfl, rfl, rfl, selectLoop_room _ (Nat.zero_le _), selectLoop_full _ _ _ _⟩

/-! ## What is selected -/

structure Selected (sel : Selection E F) (c : List (HnswCandidate E F)) (lm : Nat)
    (result : SelectResult E F) : Prop where
  length : result.neighbors.length = min lm c.length
  distinct : (result.neighbors.map ListedCandidate.pos).Nodup
  member : ∀ e ∈ result.neighbors,
    (getElem? c e.pos).map HnswCandidate.plain = some e.toHnswCandidate.plain
  /-- The marked ones come first, then the nearest of the others. -/
  marks : lm < c.length → ∃ marked kept left,
    result.neighbors = marked ++ kept ∧ result.candidates.Perm (marked ++ kept ++ left) ∧
      (∀ e ∈ marked, e.closer = true) ∧ (∀ e ∈ kept, e.closer = false) ∧
      marked.Pairwise (fun a b =>
        a.distance ≤ b.distance ∧ b.distance < sel.distance b.element a.element) ∧
      (kept ++ left).Pairwise fun a b => a.distance ≤ b.distance
  pruned : c.length = lm + 1 → ∃ p, result.pruned = some p ∧
    (getElem? c p.pos).map HnswCandidate.plain = some p.toHnswCandidate.plain ∧
    ((p :: result.neighbors).map ListedCandidate.pos).Perm (List.range (lm + 1))

omit [LinearOrder F] in
theorem length_listCandidates (c : List (HnswCandidate E F)) :
    (listCandidates c).length = c.length := by
  rw [← List.length_map ListedCandidate.pos, map_pos_listCandidates, List.length_range]

section Candidates

variable {c : List (HnswCandidate E F)} {closerSet sortCandidates : Bool}
  {newCandidate : Option Nat}

theorem selectNeighbors_pos :
    ((selectNeighbors sel c lm closerSet newCandidate sortCandidates).candidates.map
      ListedCandidate.pos).Perm (List.range c.length) := by
  have hplain : (((selectNeighbors sel c lm closerSet newCandidate
      sortCandidates).candidates.map ListedCandidate.plain).map ListedCandidate.pos).Perm
      (((listCandidates c).map ListedCandidate.plain).map ListedCandidate.pos) :=
    selectNeighbors_plain.map _
  rw [List.map_map, List.map_map] at hplain
  rw [← map_pos_listCandidates]
  exact hplain

theorem candidate_plain {e : ListedCandidate E F}
    (he : e ∈ (selectNeighbors sel c lm closerSet newCandidate sortCandidates).candidates) :
    (getElem? c e.pos).map HnswCandidate.plain = some e.toHnswCandidate.plain := by
  obtain ⟨item, hitem, heq⟩ := candidate_eq he
  rw [hitem, heq]
  rfl

theorem length_candidates :
    (selectNeighbors sel c lm closerSet newCandidate sortCandidates).candidates.length =
      c.length := by
  rw [← List.length_map ListedCandidate.pos, selectNeighbors_pos.length_eq, List.length_range]

theorem selectNeighbors_of_lt (hlong : lm < c.length) :
    selectNeighbors sel c lm closerSet newCandidate sortCandidates =
      shrinkNeighbors sel (listCandidates c) lm closerSet newCandidate sortCandidates := by
  unfold selectNeighbors
  rw [if_neg]
  rw [length_listCandidates]
  exact Nat.not_le.mpr hlong

theorem selectNeighbors_marks (hlong : lm < c.length)
    (hsorted : sortCandidates = false → c.Pairwise fun a b => b.distance ≤ a.distance)
    (hkept : closerSet = true → FlagsKept sel (listCandidates c) newCandidate sortCandidates) :
    ∃ marked kept left,
      (selectNeighbors sel c lm closerSet newCandidate sortCandidates).neighbors = marked ++ kept ∧
      (selectNeighbors sel c lm closerSet newCandidate sortCandidates).candidates.Perm
        (marked ++ kept ++ left) ∧
      (∀ e ∈ marked, e.closer = true) ∧ (∀ e ∈ kept, e.closer = false) ∧
      marked.Pairwise (fun a b =>
        a.distance ≤ b.distance ∧ b.distance < sel.distance b.element a.element) ∧
      (kept ++ left).Pairwise fun a b => a.distance ≤ b.distance := by
  have hcached : selectNeighbors sel c lm closerSet newCandidate sortCandidates =
      shrinkNeighbors sel (listCandidates c) lm false newCandidate sortCandidates := by
    rw [selectNeighbors_of_lt hlong]
    cases closerSet with
    | true => exact shrinkNeighbors_cached (nodup_pos_listCandidates c) (hkept rfl)
    | false => rfl
  rw [hcached]
  obtain ⟨marked, rest, hplain, hsieved, hshrunk⟩ :=
    shrinkNeighbors_marks lm (listCandidates c) newCandidate sortCandidates
  have hlisted : sortCandidates = false →
      (listCandidates c).Pairwise fun a b => b.distance ≤ a.distance := by
    intro hunsorted
    have hzip := hsorted hunsorted
    rw [← List.zipIdx_map_fst 0 c, List.pairwise_map] at hzip
    exact List.pairwise_map.mpr hzip
  have hascending : (marked ++ rest).Pairwise fun a b => a.distance ≤ b.distance := by
    have hfirst : ((nearestFirst sel (listCandidates c) sortCandidates).map
        ListedCandidate.plain).Pairwise fun a b => a.distance ≤ b.distance :=
      List.pairwise_map.mpr (nearestFirst_ascending hlisted)
    rw [← hplain, List.pairwise_map] at hfirst
    exact hfirst
  obtain ⟨hneighbors, hcandidates⟩ := And.intro hshrunk.neighbors hshrunk.candidates
  generalize min (marked.filter fun e => !e.closer).length
    (lm - (marked.filter fun e => e.closer).length) = wdoff at hneighbors
  have hsplit : (marked.filter fun e => !e.closer).take wdoff ++
      ((marked.filter fun e => !e.closer).drop wdoff ++ rest) =
        (marked.filter fun e => !e.closer) ++ rest := by
    rw [← List.append_assoc, List.take_append_drop]
  refine ⟨marked.filter fun e => e.closer, (marked.filter fun e => !e.closer).take wdoff,
    (marked.filter fun e => !e.closer).drop wdoff ++ rest, hneighbors, ?_, ?_, ?_, ?_, ?_⟩
  · rw [hcandidates, List.append_assoc, List.append_assoc, hsplit]
  · intro e he
    exact (List.mem_filter.mp he).2
  · intro e he
    simpa using (List.mem_filter.mp (List.mem_of_mem_take he)).2
  · have hmarked := (List.pairwise_append.mp hascending).1.filter fun e => e.closer
    refine (hmarked.and hsieved.pairwise.1).imp ?_
    rintro a b ⟨hle, hcloser⟩
    exact ⟨hle, of_decide_eq_true hcloser⟩
  · rw [hsplit]
    exact hascending.sublist (List.filter_sublist.append_right rest)

variable (sel closerSet newCandidate sortCandidates) in
theorem selectNeighbors_perm (hlength : c.length = lm + 1) :
    ∃ p, (selectNeighbors sel c lm closerSet newCandidate sortCandidates).pruned = some p ∧
      (selectNeighbors sel c lm closerSet newCandidate sortCandidates).candidates.Perm
        (p :: (selectNeighbors sel c lm closerSet newCandidate sortCandidates).neighbors) := by
  have hlong : lm < c.length := by
    rw [hlength]
    exact Nat.lt_succ_self lm
  obtain ⟨r, wd, rest, hshrunk⟩ := shrinkNeighbors_shrunk sel lm
    (listCandidates c) closerSet newCandidate sortCandidates
  rw [← selectNeighbors_of_lt hlong] at hshrunk
  obtain ⟨p, hpruned, hperm, -⟩ := hshrunk.pruned_perm (by rw [length_candidates, hlength])
  exact ⟨p, hpruned, hperm⟩

variable (sel closerSet newCandidate sortCandidates) in
theorem selectNeighbors_pruned (hlength : c.length = lm + 1) :
    ∃ p, (selectNeighbors sel c lm closerSet newCandidate sortCandidates).pruned = some p ∧
      (getElem? c p.pos).map HnswCandidate.plain = some p.toHnswCandidate.plain ∧
      ((p :: (selectNeighbors sel c lm closerSet newCandidate sortCandidates).neighbors).map
        ListedCandidate.pos).Perm (List.range (lm + 1)) := by
  obtain ⟨p, hpruned, hperm⟩ :=
    selectNeighbors_perm sel closerSet sortCandidates newCandidate hlength
  refine ⟨p, hpruned, candidate_plain (hperm.symm.subset (List.mem_cons_self ..)), ?_⟩
  rw [← hlength]
  exact (hperm.symm.map _).trans selectNeighbors_pos

theorem selectNeighbors_selected
    (hsorted : sortCandidates = false → c.Pairwise fun a b => b.distance ≤ a.distance)
    (hkept : closerSet = true → FlagsKept sel (listCandidates c) newCandidate sortCandidates) :
    Selected sel c lm (selectNeighbors sel c lm closerSet newCandidate sortCandidates) := by
  have hnodup : ((selectNeighbors sel c lm closerSet newCandidate
      sortCandidates).candidates.map ListedCandidate.pos).Nodup :=
    selectNeighbors_pos.nodup_iff.mpr List.nodup_range
  constructor
  · by_cases hlong : lm < c.length
    · obtain ⟨r, wd, rest, hshrunk⟩ := shrinkNeighbors_shrunk sel lm
        (listCandidates c) closerSet newCandidate sortCandidates
      rw [← selectNeighbors_of_lt hlong] at hshrunk
      rw [hshrunk.length_neighbors (by rw [length_candidates]; exact hlong),
        Nat.min_eq_left hlong.le]
    · have hshort : (listCandidates c).length ≤ lm := by
        rw [length_listCandidates]
        exact Nat.le_of_not_lt hlong
      unfold selectNeighbors
      rw [if_pos hshort, length_listCandidates, Nat.min_eq_right (Nat.le_of_not_lt hlong)]
  · exact hnodup.sublist (selectNeighbors_sublist.map _)
  · intro e he
    exact candidate_plain (selectNeighbors_sublist.subset he)
  · exact fun hlong => selectNeighbors_marks hlong hsorted hkept
  · exact selectNeighbors_pruned sel closerSet sortCandidates newCandidate

end Candidates

/-! ## Replacing a neighbor -/

/-- What `HnswUpdateConnection` makes of an array that has at most `lm` items. -/
structure Updated (sel : Selection E F) (lm : Nat) (neighbors : HnswNeighborArray E F)
    (newHc : HnswCandidate E F) (items : List (HnswCandidate E F)) : Prop where
  within : items.length ≤ lm
  appended : neighbors.items.length < lm → items = neighbors.items ++ [newHc]
  /-- A full array loses the pruned element, or stays as it is. -/
  pruned : neighbors.items.length = lm → ∃ p,
    (selectNeighbors sel (neighbors.items ++ [newHc]) lm neighbors.closerSet (some lm)
      true).pruned = some p ∧
    ((∃ i item, neighbors.items[i]? = some item ∧
        sel.pointer item.element = sel.pointer p.element ∧
        items.map HnswCandidate.plain = (neighbors.items.set i newHc).map HnswCandidate.plain) ∨
      (∀ item ∈ neighbors.items, sel.pointer item.element ≠ sel.pointer p.element) ∧
        p.pos = lm ∧
        items.map HnswCandidate.plain = neighbors.items.map HnswCandidate.plain) ∧
    -- among different elements it is the pruned one itself
    (((neighbors.items ++ [newHc]).map fun hc => sel.pointer hc.element).Nodup →
      items.map HnswCandidate.plain =
        (if p.pos < lm then neighbors.items.set p.pos newHc else neighbors.items).map
          HnswCandidate.plain)

def prunedIdx (sel : Selection E F) (items : List (HnswCandidate E F))
    (p : ListedCandidate E F) : Option Nat :=
  items.findIdx? fun item => sel.pointer item.element == sel.pointer p.element

omit [LinearOrder F] in
theorem prunedIdx_congr {items' : List (HnswCandidate E F)} (p : ListedCandidate E F)
    (h : items.map HnswCandidate.plain = items'.map HnswCandidate.plain) :
    prunedIdx sel items p = prunedIdx sel items' p := by
  have hmap : ∀ l : List (HnswCandidate E F),
      prunedIdx sel (l.map HnswCandidate.plain) p = prunedIdx sel l p :=
    fun l => List.findIdx?_map
  rw [← hmap, h, hmap]

theorem hnswUpdateConnection_full (hfull : neighbors.items.length = lm) (newElement : E)
    (distance : F) {p : ListedCandidate E F}
    (hp : (selectNeighbors sel (neighbors.items ++ [⟨newElement, distance, false⟩]) lm
      neighbors.closerSet (some lm) true).pruned = some p) :
    (hnswUpdateConnection sel neighbors newElement distance lm).1.items.map
        HnswCandidate.plain =
      ((prunedIdx sel neighbors.items p).elim neighbors.items fun i =>
        neighbors.items.set i ⟨newElement, distance, false⟩).map HnswCandidate.plain := by
  subst hfull
  unfold hnswUpdateConnection
  dsimp only
  rw [if_neg (Nat.lt_irrefl _), hp]
  dsimp only
  have hidx : prunedIdx sel ((selectNeighbors sel
      (neighbors.items ++ [⟨newElement, distance, false⟩]) neighbors.items.length
        neighbors.closerSet (some neighbors.items.length) true).flagItems neighbors).items p =
      prunedIdx sel neighbors.items p := prunedIdx_congr p flagItems_plain
  rw [show List.findIdx? (fun item => sel.pointer item.element == sel.pointer p.element)
    ((selectNeighbors sel (neighbors.items ++ [⟨newElement, distance, false⟩])
      neighbors.items.length neighbors.closerSet (some neighbors.items.length)
        true).flagItems neighbors).items = prunedIdx sel neighbors.items p from hidx]
  cases prunedIdx sel neighbors.items p with
  | none => exact flagItems_plain
  | some i =>
    obtain ⟨closer, heq⟩ := flagged_eq sel neighbors.items.length neighbors.closerSet
      (some neighbors.items.length) true
      (List.getElem?_concat_length (l := neighbors.items)
        (a := (⟨newElement, distance, false⟩ : HnswCandidate E F)))
    simp only [Option.elim_some, List.map_set, flagItems_plain, heq]
    rfl

variable (sel) in
omit [LinearOrder F] in
theorem prunedIdx_spec {newHc : HnswCandidate E F} {p : ListedCandidate E F}
    (hpos : p.pos ≤ items.length)
    (hplain : ((items ++ [newHc])[p.pos]?).map HnswCandidate.plain = some p.toHnswCandidate.plain) :
    match prunedIdx sel items p with
    | none => (∀ item ∈ items, sel.pointer item.element ≠ sel.pointer p.element) ∧
        p.pos = items.length
    | some i => (∃ item, items[i]? = some item ∧
        sel.pointer item.element = sel.pointer p.element) ∧
        (((items ++ [newHc]).map fun hc => sel.pointer hc.element).Nodup → i = p.pos) := by
  obtain ⟨own, hown, hsame⟩ := Option.map_eq_some_iff.mp hplain
  have helement : own.plain.element = p.toHnswCandidate.plain.element :=
    congrArg HnswCandidate.element hsame
  simp only [HnswCandidate.plain] at helement
  cases hidx : prunedIdx sel items p with
  | none =>
    have hnone : ∀ item ∈ items, sel.pointer item.element ≠ sel.pointer p.element := by
      intro item hitem
      simpa using List.findIdx?_eq_none_iff.mp hidx item hitem
    refine ⟨hnone, Nat.le_antisymm hpos (Nat.le_of_not_lt ?_)⟩
    intro hlt
    rw [List.getElem?_append_left hlt] at hown
    exact hnone own (List.mem_of_getElem? hown) (by rw [helement])
  | some i =>
    obtain ⟨hi, hpointer, _⟩ := List.findIdx?_eq_some_iff_getElem.mp hidx
    have hpointer : sel.pointer items[i].element = sel.pointer p.element := by
      simpa using hpointer
    refine ⟨⟨items[i], List.getElem?_eq_getElem hi, hpointer⟩, ?_⟩
    intro hnodup
    have hi' : i < ((items ++ [newHc]).map fun hc => sel.pointer hc.element).length := by
      rw [List.length_map, List.length_append]
      omega
    apply (List.getElem?_inj hi' hnodup).mp
    rw [List.getElem?_map, List.getElem?_map, hown, List.getElem?_append_left hi,
      List.getElem?_eq_getElem hi]
    simp only [Option.map_some, hpointer, helement]

variable (sel) in
theorem hnswUpdateConnection_updated (hwithin : neighbors.items.length ≤ lm) (newElement : E)
    (distance : F) :
    Updated sel lm neighbors ⟨newElement, distance, false⟩
      (hnswUpdateConnection sel neighbors newElement distance lm).1.items := by
  constructor
  · have hspec := (hnswUpdateConnection_spec sel neighbors newElement distance lm).length_le
      (by rw [List.length_map]; exact hwithin)
    rw [List.length_map] at hspec
    exact hspec
  · intro hroom
    unfold hnswUpdateConnection
    rw [if_pos hroom]
  · intro hfull
    have hlength : (neighbors.items ++ [(⟨newElement, distance, false⟩ :
        HnswCandidate E F)]).length = lm + 1 := by
      rw [List.length_append, hfull, List.length_singleton]
    obtain ⟨p, hp, hplain, hperm⟩ :=
      selectNeighbors_pruned sel neighbors.closerSet true (some lm) hlength
    have hpos : p.pos ≤ neighbors.items.length := by
      have hmem := hperm.subset (List.mem_cons_self ..)
      rw [List.mem_range] at hmem
      omega
    refine ⟨p, hp, ?_⟩
    have hspec := prunedIdx_spec sel hpos hplain
    rw [hnswUpdateConnection_full hfull newElement distance hp]
    cases hidx : prunedIdx sel neighbors.items p with
    | none =>
      rw [hidx] at hspec
      constructor
      · exact .inr ⟨hspec.1, hspec.2.trans hfull, rfl⟩
      · intro hnodup
        rw [if_neg (by rw [hspec.2, hfull]; exact Nat.lt_irrefl lm)]
        rfl
    | some i =>
      rw [hidx] at hspec
      obtain ⟨⟨item, hitem, hpointer⟩, hunique⟩ := hspec
      constructor
      · exact .inl ⟨i, item, hitem, hpointer, rfl⟩
      · intro hnodup
        have hlt := (List.getElem?_eq_some_iff.mp hitem).1
        rw [← hunique hnodup, if_pos (by rw [← hfull]; exact hlt)]
        rfl

end PgVector.Hnsw
