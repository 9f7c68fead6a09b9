import Mathlib.Data.Finset.Card
import Mathlib.Data.List.SplitBy
import Mathlib.Data.List.Dedup
import PgVector.Hnsw.Trace

/-!
# Exactness of the page counters

`HnswTraceRecordElementPage` and `HnswTraceRecordNeighborPage` search an array of
the pages seen so far.  The number of distinct pages is also the length of that
search, and it goes on growing when the array is full.  The counters are
followed along a whole sequence of calls, together with the positions of the
array that the calls read and write.
-/

namespace PgVector.Hnsw

/-! ## Accesses to the array -/

/-- The positions read by the search for `blkno`, which stops at the first hit. -/
def PageCounters.reads (c : PageCounters) (blkno : BlockNumber) : List Nat :=
  (List.range c.distinctPages).take
    ((List.range c.distinctPages).findIdx (fun i => c.pagesSeen i == blkno) + 1)

/-- The position written when the search finds nothing and there is room. -/
def PageCounters.writes (c : PageCounters) (blkno : BlockNumber) : List Nat :=
  if (List.range c.distinctPages).any fun i => c.pagesSeen i == blkno then []
  else if c.distinctPages < c.pagesCapacity then [c.distinctPages]
  else []

def PageCounters.accesses (c : PageCounters) : List BlockNumber → List Nat
  | [] => []
  | blkno :: blknos =>
    c.reads blkno ++ c.writes blkno ++ (c.record blkno).accesses blknos

def PageCounters.recordAll (c : PageCounters) (blknos : List BlockNumber) : PageCounters :=
  blknos.foldl PageCounters.record c

structure PagesCounted (c : PageCounters) (accesses : List Nat)
    (blknos : List BlockNumber) : Prop where
  loads : c.loads = blknos.length
  pageRuns : c.pageRuns = (blknos.splitBy (· == ·)).length
  distinctPages : c.distinctPages = blknos.toFinset.card
  inBounds : ∀ i ∈ accesses, i < c.pagesCapacity

/-- The calls with a block that is not one of the first `capacity` distinct ones. -/
def beyondCapacity (capacity : Nat) (blknos : List BlockNumber) : List BlockNumber :=
  blknos.filter fun blkno => !(blknos.eraseDups.take capacity).contains blkno

/-! ## Lists -/

section Lists

variable {α : Type} [DecidableEq α]

variable (l : List α)

theorem eraseDups_concat (a : α) :
    (l ++ [a]).eraseDups = if a ∈ l then l.eraseDups else l.eraseDups ++ [a] := by
  rw [List.eraseDups_append]
  by_cases h : a ∈ l
  · simp [h, List.removeAll]
  · simp [h, List.removeAll, List.eraseDups_cons]

theorem nodup_eraseDups : l.eraseDups.Nodup := by
  induction l using List.reverseRecOn with
  | nil => simp
  | append_singleton l a ih =>
    rw [eraseDups_concat]
    split
    · exact ih
    · rename_i h
      refine List.nodup_append.mpr ⟨ih, by simp, ?_⟩
      simp only [List.mem_singleton, List.mem_eraseDups]
      rintro b hb c rfl rfl
      exact h hb

theorem length_eraseDups : l.eraseDups.length = l.toFinset.card := by
  rw [← List.toFinset_card_of_nodup (nodup_eraseDups l)]
  congr 1
  ext a
  simp [List.mem_eraseDups]

theorem length_splitBy_concat (a : α) :
    ((l ++ [a]).splitBy (· == ·)).length =
      (l.splitBy (· == ·)).length + if l.getLast? = some a then 0 else 1 := by
  split
  · rename_i hlast
    have hne : l ≠ [] := by
      rintro rfl
      simp at hlast
    obtain ⟨runs, run, hruns⟩ : ∃ runs run, l.splitBy (· == ·) = runs ++ [run] :=
      ⟨_, _, (List.dropLast_append_getLast (List.splitBy_ne_nil.mpr hne)).symm⟩
    obtain ⟨hflat, hnil, hchain, hbreak⟩ := List.splitBy_eq_iff.mp hruns
    have hrun : run ≠ [] := by
      rintro rfl
      simp at hnil
    have hend : run.getLast? = some a := by
      rw [hflat] at hlast
      simpa [List.getLast?_append_of_ne_nil, hrun] using hlast
    have hgrown : (l ++ [a]).splitBy (· == ·) = runs ++ [run ++ [a]] := by
      refine List.splitBy_eq_iff.mpr ⟨by simp [hflat], ?_, ?_, ?_⟩
      · intro h
        have hmem : [] ∈ runs := by simpa using h
        exact hnil (by simp [hmem])
      · intro r hr
        rcases List.mem_append.mp hr with hr | hr
        · exact hchain r (by simp [hr])
        · obtain rfl := List.mem_singleton.mp hr
          refine List.isChain_append.mpr ⟨hchain run (by simp), by simp, ?_⟩
          intro x hx y hy
          rw [hend] at hx
          simp_all
      · obtain ⟨hleft, -, hmid⟩ := List.isChain_append.mp hbreak
        refine List.isChain_append.mpr ⟨hleft, by simp, ?_⟩
        intro x hx y hy
        obtain ⟨ha, hb, hxy⟩ := hmid x hx run (by simp)
        obtain rfl : run ++ [a] = y := by simpa using hy
        exact ⟨ha, by simp, by rwa [List.head_append_of_ne_nil hb]⟩
    rw [hgrown, hruns]
    simp
  · rename_i hlast
    rw [List.splitBy_append]
    · simp [List.splitBy, List.splitBy.loop]
    · intro x hx y hy
      obtain rfl : a = y := by simpa using hy
      refine beq_eq_false_iff_ne.mpr ?_
      rintro rfl
      exact hlast hx

end Lists

theorem beyondCapacity_eq_nil {capacity : Nat} {blknos : List BlockNumber}
    (h : blknos.eraseDups.length ≤ capacity) : beyondCapacity capacity blknos = [] := by
  rw [beyondCapacity, List.take_of_length_le h]
  simp [List.mem_eraseDups]

theorem length_beyondCapacity_concat (capacity : Nat) (blknos : List BlockNumber)
    (blkno : BlockNumber) :
    (beyondCapacity capacity (blknos ++ [blkno])).length =
      (beyondCapacity capacity blknos).length +
        if blknos.eraseDups.length < capacity ∨ blkno ∈ blknos.eraseDups.take capacity
        then 0 else 1 := by
  have hold : ∀ b ∈ blknos, (b ∈ (blknos ++ [blkno]).eraseDups.take capacity ↔
      b ∈ blknos.eraseDups.take capacity) := by
    intro b hb
    rw [eraseDups_concat]
    split
    · rfl
    · rename_i hnew
      have hne : b ≠ blkno := by
        rintro rfl
        exact hnew hb
      rw [List.take_append, List.mem_append]
      refine or_iff_left fun h => ?_
      exact hne (List.mem_singleton.mp (List.mem_of_mem_take h))
  have hnew : (blkno ∈ (blknos ++ [blkno]).eraseDups.take capacity ↔
      (blknos.eraseDups.length < capacity ∨ blkno ∈ blknos.eraseDups.take capacity)) := by
    rw [eraseDups_concat]
    split
    · rename_i hmem
      refine ⟨.inr, fun h => h.elim (fun hlt => ?_) id⟩
      rw [List.take_of_length_le hlt.le]
      exact List.mem_eraseDups.mpr hmem
    · rename_i hmem
      rw [List.take_append, List.mem_append, or_comm]
      refine or_congr ?_ Iff.rfl
      by_cases hlt : blknos.eraseDups.length < capacity
      · obtain ⟨k, hk⟩ : ∃ k, capacity - blknos.eraseDups.length = k + 1 :=
          ⟨capacity - blknos.eraseDups.length - 1, by omega⟩
        simp [hlt, hk]
      · simp [hlt, Nat.sub_eq_zero_of_le (Nat.le_of_not_lt hlt)]
  rw [beyondCapacity, List.filter_append, List.length_append]
  congr 1
  · congr 1
    refine List.filter_congr fun b hb => ?_
    simp [hold b hb]
  · by_cases h : blknos.eraseDups.length < capacity ∨ blkno ∈ blknos.eraseDups.take capacity
    · rw [if_pos h]
      simp [hnew.mpr h]
    · rw [if_neg h]
      simp [mt hnew.mp h]

/-! ## One call -/

theorem PageCounters.mem_reads {c : PageCounters} {blkno : BlockNumber} {i : Nat} :
    i ∈ c.reads blkno ↔ i < c.distinctPages ∧ ∀ j < i, c.pagesSeen j ≠ blkno := by
  simp only [reads, List.mem_take_iff_getElem, List.getElem_range, List.length_range]
  constructor
  · rintro ⟨j, hj, rfl⟩
    refine ⟨by omega, fun k hk hseen => ?_⟩
    have hlt : k < (List.range c.distinctPages).findIdx fun i => c.pagesSeen i == blkno := by omega
    simpa [hseen] using List.not_of_lt_findIdx hlt
  · rintro ⟨hi, hmiss⟩
    have hle : i ≤ (List.range c.distinctPages).findIdx fun i => c.pagesSeen i == blkno := by
      refine List.le_findIdx_of_not (by simpa using hi) fun j hj => ?_
      simpa using hmiss j hj
    exact ⟨i, by omega, rfl⟩

theorem PageCounters.any_seen {c : PageCounters} {blkno : BlockNumber} :
    ((List.range c.distinctPages).any fun i => c.pagesSeen i == blkno) = true ↔
      ∃ i < c.distinctPages, c.pagesSeen i = blkno := by
  simp

theorem PageCounters.recordAll_concat (c : PageCounters) (blknos : List BlockNumber)
    (blkno : BlockNumber) :
    c.recordAll (blknos ++ [blkno]) = (c.recordAll blknos).record blkno := by
  simp [recordAll]

theorem PageCounters.accesses_concat (c : PageCounters) (blknos : List BlockNumber)
    (blkno : BlockNumber) :
    c.accesses (blknos ++ [blkno]) =
      c.accesses blknos ++
        ((c.recordAll blknos).reads blkno ++ (c.recordAll blknos).writes blkno) := by
  induction blknos generalizing c with
  | nil => simp [accesses, recordAll]
  | cons b blknos ih => simp [accesses, recordAll, ih (c.record b)]

/--
The counters follow the calls made so far.  The array holds the distinct blocks in
the order of their first use, as far as it has room.
-/
structure PageCounters.Follows (c : PageCounters) (capacity : Nat)
    (blknos : List BlockNumber) : Prop where
  loads : c.loads = blknos.length
  pageRuns : c.pageRuns = (blknos.splitBy (· == ·)).length
  lastPage : ∀ blkno, blknos.getLast? = some blkno → c.lastPage = blkno
  distinctPages : c.distinctPages = blknos.eraseDups.length
  pagesSeen : (List.range (min capacity c.distinctPages)).map c.pagesSeen =
    blknos.eraseDups.take capacity
  pagesCapacity : c.pagesCapacity = capacity
  bounded : blknos.eraseDups.length ≤ capacity + (beyondCapacity capacity blknos).length

namespace PageCounters.Follows

variable {c : PageCounters} {capacity : Nat} {blknos : List BlockNumber}
  {blkno : BlockNumber}

theorem mem_take (h : c.Follows capacity blknos) :
    blkno ∈ blknos.eraseDups.take capacity ↔
      ∃ i < min capacity c.distinctPages, c.pagesSeen i = blkno := by
  rw [← h.pagesSeen]
  simp

theorem any_seen_iff (h : c.Follows capacity blknos)
    (hcap : c.distinctPages ≤ capacity ∨ blkno ∈ blknos.eraseDups.take capacity) :
    ((List.range c.distinctPages).any fun i => c.pagesSeen i == blkno) = true ↔
      blkno ∈ blknos.eraseDups.take capacity := by
  rw [PageCounters.any_seen, h.mem_take]
  constructor
  · rintro ⟨i, hi, hseen⟩
    rcases hcap with hcap | hmem
    · exact ⟨i, by omega, hseen⟩
    · exact h.mem_take.mp hmem
  · rintro ⟨i, hi, hseen⟩
    exact ⟨i, by omega, hseen⟩

theorem record (h : c.Follows capacity blknos)
    (hnext : (beyondCapacity capacity (blknos ++ [blkno])).length ≤ 1) :
    (c.record blkno).Follows capacity (blknos ++ [blkno]) := by
  have hruns : (if c.loads + 1 = 1 ∨ blkno ≠ c.lastPage then c.pageRuns + 1
      else c.pageRuns) = ((blknos ++ [blkno]).splitBy (· == ·)).length := by
    rw [length_splitBy_concat, h.pageRuns, h.loads]
    rcases hlast : blknos.getLast? with _ | last
    · simp [List.getLast?_eq_none_iff.mp hlast]
    · have hne : blknos.length ≠ 0 := by
        rw [Ne, List.length_eq_zero_iff]
        rintro rfl
        simp at hlast
      rw [h.lastPage last hlast]
      by_cases heq : blkno = last
      · simp [heq, hne]
      · simp [heq, Ne.symm heq]
  have hcount := length_beyondCapacity_concat capacity blknos blkno
  have hroom : c.distinctPages ≤ capacity ∨ blkno ∈ blknos.eraseDups.take capacity := by
    rw [or_iff_not_imp_right]
    intro hmiss
    have hb := h.bounded
    rw [h.distinctPages]
    by_cases hlt : blknos.eraseDups.length < capacity
    · exact hlt.le
    · rw [if_neg (by simp [hlt, hmiss])] at hcount
      omega
  have hbound : (blknos ++ [blkno]).eraseDups.length ≤
      capacity + (beyondCapacity capacity (blknos ++ [blkno])).length := by
    have hb := h.bounded
    rw [eraseDups_concat, hcount]
    split
    · omega
    · rename_i hnew
      have hmiss : blkno ∉ blknos.eraseDups.take capacity := fun hmem =>
        hnew (List.mem_eraseDups.mp (List.mem_of_mem_take hmem))
      by_cases hlt : blknos.eraseDups.length < capacity
      · simp; omega
      · simp [hlt, hmiss]; omega
  by_cases hmem : blkno ∈ blknos.eraseDups.take capacity
  · have hany := (h.any_seen_iff hroom).mpr hmem
    have hold : (blknos ++ [blkno]).eraseDups = blknos.eraseDups := by
      rw [eraseDups_concat, if_pos (List.mem_eraseDups.mp (List.mem_of_mem_take hmem))]
    unfold PageCounters.record
    simp only [hany, if_true]
    constructor
    · simp [h.loads]
    · exact hruns
    · simp
    · simpa [hold] using h.distinctPages
    · simpa [hold] using h.pagesSeen
    · exact h.pagesCapacity
    · exact hbound
  · have hany := mt (h.any_seen_iff hroom).mp hmem
    have hcap : c.distinctPages ≤ capacity := hroom.resolve_right hmem
    have hnew : blkno ∉ blknos := by
      intro hin
      rw [List.take_of_length_le (by rw [← h.distinctPages]; exact hcap)] at hmem
      exact hmem (List.mem_eraseDups.mpr hin)
    have hgrown : (blknos ++ [blkno]).eraseDups = blknos.eraseDups ++ [blkno] := by
      rw [eraseDups_concat, if_neg hnew]
    have hseen := h.pagesSeen
    unfold PageCounters.record
    rw [if_neg hany]
    constructor
    · simp [h.loads]
    · exact hruns
    · simp
    · simp [hgrown, h.distinctPages]
    · rw [hgrown, h.pagesCapacity, List.take_append, ← hseen, ← h.distinctPages]
      by_cases hlt : c.distinctPages < capacity
      · -- the block goes to the first free position, the others stay
        obtain ⟨k, hk⟩ : ∃ k, capacity - c.distinctPages = k + 1 :=
          ⟨capacity - c.distinctPages - 1, by omega⟩
        rw [if_pos hlt, hk, show min capacity (c.distinctPages + 1) =
          c.distinctPages + 1 by omega, show min capacity c.distinctPages =
          c.distinctPages by omega, List.range_succ, List.map_append]
        congr 1
        · refine List.map_congr_left fun i hi => ?_
          simp [(List.mem_range.mp hi).ne]
        · simp
      · -- the array is full
        rw [if_neg hlt, show min capacity (c.distinctPages + 1) = capacity by omega,
          show min capacity c.distinctPages = capacity by omega,
          show capacity - c.distinctPages = 0 by omega]
        simp
    · exact h.pagesCapacity
    · exact hbound

theorem accesses_iff (h : c.Follows capacity blknos)
    (hbefore : (beyondCapacity capacity blknos).length ≤ 1) :
    (∀ i ∈ c.reads blkno ++ c.writes blkno, i < capacity) ↔
      (beyondCapacity capacity (blknos ++ [blkno])).length ≤ 1 := by
  have hcount := length_beyondCapacity_concat capacity blknos blkno
  have hb := h.bounded
  have hd := h.distinctPages
  have hwrites : ∀ i ∈ c.writes blkno, i < capacity := by
    intro i hi
    unfold PageCounters.writes at hi
    split at hi
    · simp at hi
    · split at hi
      · obtain rfl := List.mem_singleton.mp hi
        exact h.pagesCapacity ▸ ‹_›
      · simp at hi
  have hreads : (∀ i ∈ c.reads blkno ++ c.writes blkno, i < capacity) ↔
      ∀ i ∈ c.reads blkno, i < capacity := by
    simp only [List.mem_append, or_imp, forall_and]
    exact and_iff_left hwrites
  rw [hreads]
  by_cases hmem : blkno ∈ blknos.eraseDups.take capacity
  · rw [if_pos (.inr hmem)] at hcount
    refine iff_of_true ?_ (by omega)
    obtain ⟨k, hk, hseen⟩ := h.mem_take.mp hmem
    intro i hi
    have hmiss := (PageCounters.mem_reads.mp hi).2
    by_contra hge
    exact hmiss k (by omega) hseen
  · have hmiss : ∀ j < min capacity c.distinctPages, c.pagesSeen j ≠ blkno :=
      fun j hj hseen => hmem (h.mem_take.mpr ⟨j, hj, hseen⟩)
    by_cases hfull : c.distinctPages ≤ capacity
    · refine iff_of_true ?_ ?_
      · intro i hi
        have hlt := (PageCounters.mem_reads.mp hi).1
        omega
      · rw [hcount, beyondCapacity_eq_nil (hd ▸ hfull)]
        split
        · simp
        · simp
    · -- the table is one short: the search reads the position after its end
      refine iff_of_false ?_ ?_
      · intro hin
        have hread : capacity ∈ c.reads blkno :=
          PageCounters.mem_reads.mpr ⟨by omega, fun j hj => hmiss j (by omega)⟩
        exact absurd (hin capacity hread) (lt_irrefl _)
      · rw [hcount, if_neg (by simp [hmem]; omega)]
        omega

end PageCounters.Follows

/-! ## All calls -/

variable (memory : Nat → BlockNumber)

theorem PageCounters.follows_start : (PageCounters.start memory).Follows hnswTraceMaxPages [] := by
  constructor <;> simp [start]

theorem PageCounters.accesses_recordAll (blknos : List BlockNumber) :
    ((beyondCapacity hnswTraceMaxPages blknos).length ≤ 1 →
      ((start memory).recordAll blknos).Follows hnswTraceMaxPages blknos) ∧
    ((∀ i ∈ (start memory).accesses blknos, i < hnswTraceMaxPages) ↔
      (beyondCapacity hnswTraceMaxPages blknos).length ≤ 1) := by
  induction blknos using List.reverseRecOn with
  | nil => exact ⟨fun _ => follows_start memory, by simp [accesses, beyondCapacity]⟩
  | append_singleton blknos blkno ih =>
    obtain ⟨hfollows, hbounds⟩ := ih
    have hmono : (beyondCapacity hnswTraceMaxPages blknos).length ≤
        (beyondCapacity hnswTraceMaxPages (blknos ++ [blkno])).length := by
      rw [length_beyondCapacity_concat]
      exact Nat.le_add_right _ _
    rw [recordAll_concat, accesses_concat]
    refine ⟨fun hnext => (hfollows (hmono.trans hnext)).record hnext, ?_⟩
    by_cases hbefore : (beyondCapacity hnswTraceMaxPages blknos).length ≤ 1
    · rw [← (hfollows hbefore).accesses_iff hbefore]
      simp only [List.mem_append, or_imp, forall_and]
      exact and_iff_right (hbounds.mpr hbefore)
    · refine iff_of_false ?_ fun hnext => hbefore (hmono.trans hnext)
      intro hall
      exact hbefore (hbounds.mp fun i hi => hall i (List.mem_append_left _ hi))

theorem PageCounters.pagesCapacity_recordAll (c : PageCounters)
    (blknos : List BlockNumber) :
    (c.recordAll blknos).pagesCapacity = c.pagesCapacity := by
  induction blknos using List.reverseRecOn with
  | nil => rfl
  | append_singleton blknos blkno ih =>
    rw [recordAll_concat, ← ih, PageCounters.record]
    split <;> rfl

theorem PageCounters.pagesCounted_iff (blknos : List BlockNumber) :
    PagesCounted ((start memory).recordAll blknos) ((start memory).accesses blknos)
      blknos ↔ (beyondCapacity hnswTraceMaxPages blknos).length ≤ 1 := by
  obtain ⟨hfollows, hbounds⟩ := accesses_recordAll memory blknos
  have hcap : ((start memory).recordAll blknos).pagesCapacity = hnswTraceMaxPages :=
    pagesCapacity_recordAll (start memory) blknos
  constructor
  · intro h
    exact hbounds.mp fun i hi => hcap ▸ h.inBounds i hi
  · intro h
    have hf := hfollows h
    exact ⟨hf.loads, hf.pageRuns, hf.distinctPages.trans (length_eraseDups blknos),
      fun i hi => hcap ▸ hbounds.mpr h i hi⟩

theorem foldl_hnswTraceRecordElementPage (t : HnswTraceStats)
    (blknos : List BlockNumber) :
    (blknos.foldl hnswTraceRecordElementPage t).element = t.element.recordAll blknos := by
  induction blknos generalizing t with
  | nil => rfl
  | cons blkno blknos ih => exact ih (hnswTraceRecordElementPage t blkno)

theorem foldl_hnswTraceRecordNeighborPage (t : HnswTraceStats)
    (blknos : List BlockNumber) :
    (blknos.foldl hnswTraceRecordNeighborPage t).neighbor = t.neighbor.recordAll blknos := by
  induction blknos generalizing t with
  | nil => rfl
  | cons blkno blknos ih => exact ih (hnswTraceRecordNeighborPage t blkno)

/--
The counters are exact and stay inside their arrays if and only if at most one
call has a block that is not among the first `HNSW_TRACE_MAX_PAGES` distinct ones.
-/
theorem pages_counted_iff (t : HnswTraceStats) (now : Observation)
    (blknos : List BlockNumber) :
    (PagesCounted (blknos.foldl hnswTraceRecordElementPage (hnswTraceInit t now)).element
        ((hnswTraceInit t now).element.accesses blknos) blknos ↔
      (beyondCapacity hnswTraceMaxPages blknos).length ≤ 1) ∧
    (PagesCounted (blknos.foldl hnswTraceRecordNeighborPage (hnswTraceInit t now)).neighbor
        ((hnswTraceInit t now).neighbor.accesses blknos) blknos ↔
      (beyondCapacity hnswTraceMaxPages blknos).length ≤ 1) := by
  rw [foldl_hnswTraceRecordElementPage, foldl_hnswTraceRecordNeighborPage]
  exact ⟨PageCounters.pagesCounted_iff t.element.pagesSeen blknos,
    PageCounters.pagesCounted_iff t.neighbor.pagesSeen blknos⟩

theorem length_beyondCapacity_of_nodup {capacity : Nat} {blknos : List BlockNumber}
    (h : blknos.Nodup) :
    (beyondCapacity capacity blknos).length = blknos.length - capacity := by
  induction blknos using List.reverseRecOn with
  | nil => simp [beyondCapacity]
  | append_singleton blknos blkno ih =>
    obtain ⟨hinit, -, hnew⟩ := List.nodup_append.mp h
    have hmem : blkno ∉ blknos := fun hin => hnew blkno hin blkno (by simp) rfl
    have hlen : blknos.eraseDups.length = blknos.length := by
      rw [length_eraseDups, List.toFinset_card_of_nodup hinit]
    have hmiss : blkno ∉ blknos.eraseDups.take capacity := fun hin =>
      hmem (List.mem_eraseDups.mp (List.mem_of_mem_take hin))
    rw [length_beyondCapacity_concat, ih hinit, hlen, List.length_append]
    by_cases hlt : blknos.length < capacity
    · simp [hlt]
      omega
    · simp [hlt, hmiss]
      omega

/-- With 8194 distinct pages the last call reads past the end of the array. -/
theorem pages_not_counted_past_capacity :
    ¬ PagesCounted
      ((List.range 8194).foldl hnswTraceRecordElementPage (hnswTraceInit default default)).element
      ((hnswTraceInit default default).element.accesses (List.range 8194))
      (List.range 8194) := by
  have hlength : (beyondCapacity hnswTraceMaxPages (List.range 8194)).length = 2 := by
    rw [length_beyondCapacity_of_nodup (List.nodup_range), List.length_range]
    rfl
  rw [foldl_hnswTraceRecordElementPage]
  intro h
  have hle := (PageCounters.pagesCounted_iff _ _).mp h
  omega

end PgVector.Hnsw
