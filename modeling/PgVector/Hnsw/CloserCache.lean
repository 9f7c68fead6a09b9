import Mathlib.Data.Nat.Dist
import PgVector.Hnsw.SelectGreedy

/-!
# The flags kept with a neighbor array

`HnswUpdateConnection` reuses the flags that the last selection left in a full
array.  The flags are kept right: an item of the array is marked if it is
closer than every marked item before it.  The statement does not speak of the
positions of the items, so it is the same before and after one of them is
replaced.
-/

namespace PgVector.Hnsw

open Foundation

variable {E F : Type} [LinearOrder F] {sel : Selection E F} {lm : Nat}

/-! ## Greedy flags -/

def Selection.before (sel : Selection E F) (a b : HnswCandidate E F) : Prop :=
  sel.nearer a b ∧ sel.pointer a.element ≠ sel.pointer b.element

theorem Selection.before_asymm {a b : HnswCandidate E F} (hab : sel.before a b) :
    ¬ sel.before b a := by
  rintro ⟨hba, -⟩
  obtain ⟨hab, hne⟩ := hab
  rcases hab with hlt | ⟨heq, hle⟩ <;> rcases hba with hlt' | ⟨heq', hle'⟩
  · exact lt_asymm hlt hlt'
  · exact absurd heq' hlt.ne'
  · exact absurd heq hlt'.ne'
  · exact hne (Nat.le_antisymm hle hle')

def Greedy (sel : Selection E F) (items : List (HnswCandidate E F)) : Prop :=
  ∀ a ∈ items, a.closer = true ↔
    ∀ b ∈ items, sel.before b a → b.closer = true → sel.closerThan a b = true

variable {items : List (HnswCandidate E F)} {w : List (ListedCandidate E F)}

theorem Greedy.perm {items' : List (HnswCandidate E F)} (h : Greedy sel items)
    (hperm : items.Perm items') : Greedy sel items' := by
  intro a ha
  rw [h a (hperm.mem_iff.mpr ha)]
  simp only [hperm.mem_iff]

theorem Greedy.of_cons {p : HnswCandidate E F} (h : Greedy sel (p :: items))
    (hp : p.closer = false) : Greedy sel items := by
  intro a ha
  rw [h a (.tail p ha), List.forall_mem_cons]
  simp [hp]

theorem sieved_iff_greedy
    (hordered : w.Pairwise fun a b => sel.before a.toHnswCandidate b.toHnswCandidate) :
    sel.sieved [] w ↔ Greedy sel (w.map ListedCandidate.toHnswCandidate) := by
  rw [Selection.sieved, sieved_iff Selection.before_asymm hordered]
  simp [Greedy]

theorem nearestFirst_before (hdistinct : (w.map fun e => sel.pointer e.element).Nodup) :
    (nearestFirst sel w true).Pairwise fun a b =>
      sel.before a.toHnswCandidate b.toHnswCandidate := by
  have hnodup : ((nearestFirst sel w true).map fun e => sel.pointer e.element).Nodup :=
    ((nearestFirst_perm sel w true).map _).nodup_iff.mpr hdistinct
  rw [List.Nodup, List.pairwise_map] at hnodup
  exact (nearestFirst_sorted sel w).and hnodup

omit [LinearOrder F] in
theorem map_toHnswCandidate_listCandidates (c : List (HnswCandidate E F)) :
    (listCandidates c).map ListedCandidate.toHnswCandidate = c := by
  rw [listCandidates, List.map_map]
  conv_rhs => rw [← List.zipIdx_map_fst 0 c]
  rfl

omit [LinearOrder F] in
theorem map_pointer_listCandidates (sel : Selection E F) (c : List (HnswCandidate E F)) :
    (listCandidates c).map (fun e => sel.pointer e.element) =
      c.map fun e => sel.pointer e.element := by
  conv_rhs => rw [← map_toHnswCandidate_listCandidates c, List.map_map]
  rfl

theorem greedy_iff_sieved (hdistinct : (items.map fun hc => sel.pointer hc.element).Nodup) :
    Greedy sel items ↔ sel.sieved [] (nearestFirst sel (listCandidates items) true) := by
  rw [sieved_iff_greedy (nearestFirst_before (by rwa [map_pointer_listCandidates]))]
  have hperm : ((nearestFirst sel (listCandidates items) true).map
      ListedCandidate.toHnswCandidate).Perm items := by
    have h := (nearestFirst_perm sel (listCandidates items) true).map
      ListedCandidate.toHnswCandidate
    rwa [map_toHnswCandidate_listCandidates] at h
  exact ⟨fun h => h.perm hperm.symm, fun h => h.perm hperm⟩

/-! ## One more candidate -/

omit [LinearOrder F] in
theorem listCandidates_append (items : List (HnswCandidate E F)) (newHc : HnswCandidate E F) :
    listCandidates (items ++ [newHc]) =
      listCandidates items ++ [{ newHc with pos := items.length }] := by
  simp [listCandidates, List.zipIdx_append]

omit [LinearOrder F] in
theorem filter_listCandidates (items : List (HnswCandidate E F)) (newHc : HnswCandidate E F) :
    (listCandidates (items ++ [newHc])).filter (fun e => decide (e.pos ≠ items.length)) =
      listCandidates items := by
  rw [listCandidates_append, List.filter_append, List.filter_eq_self.mpr]
  · simp
  · intro e he
    have hpos : e.pos ∈ (listCandidates items).map ListedCandidate.pos :=
      List.mem_map_of_mem he
    rw [map_pos_listCandidates, List.mem_range] at hpos
    exact decide_eq_true hpos.ne

theorem Greedy.flagsKept {newHc : HnswCandidate E F} (h : Greedy sel items)
    (hdistinct : ((items ++ [newHc]).map fun hc => sel.pointer hc.element).Nodup) :
    FlagsKept sel (listCandidates (items ++ [newHc])) (some items.length) true := by
  refine ⟨items.length, rfl, ?_⟩
  have hperm := ((nearestFirst_perm sel (listCandidates (items ++ [newHc])) true).filter
    fun e => decide (e.pos ≠ items.length)).map ListedCandidate.toHnswCandidate
  rw [filter_listCandidates, map_toHnswCandidate_listCandidates] at hperm
  have hordered : (nearestFirst sel (listCandidates (items ++ [newHc])) true).Pairwise
      fun a b => sel.before a.toHnswCandidate b.toHnswCandidate :=
    nearestFirst_before (by rwa [map_pointer_listCandidates])
  rw [sieved_iff_greedy (hordered.filter _)]
  exact h.perm hperm.symm

/-! ## The array after a replacement -/

omit [LinearOrder F] in
theorem perm_cons_set {α : Type} {l : List α} {i : Nat} {p : α} (hp : l[i]? = some p)
    (a : α) : (l ++ [a]).Perm (p :: l.set i a) := by
  obtain ⟨hi, rfl⟩ := List.getElem?_eq_some_iff.mp hp
  rw [List.set_eq_take_append_cons_drop, if_pos hi]
  have hsplit : l = l.take i ++ l[i] :: l.drop (i + 1) := by simp
  conv_lhs => rw [hsplit]
  refine (List.perm_append_singleton a _).trans ?_
  refine ((List.perm_middle.cons a).trans (List.Perm.swap _ _ _)).trans (List.Perm.cons _ ?_)
  exact List.perm_middle.symm

def SelectResult.atPos (result : SelectResult E F) (pos : Nat) : Option (ListedCandidate E F) :=
  result.candidates.find? fun e => e.pos == pos

section Flagged

variable {c : List (HnswCandidate E F)} {closerSet sortCandidates : Bool}
  {newCandidate : Option Nat}

theorem selectNeighbors_atPos {e : ListedCandidate E F}
    (he : e ∈ (selectNeighbors sel c lm closerSet newCandidate sortCandidates).candidates) :
    (selectNeighbors sel c lm closerSet newCandidate sortCandidates).atPos e.pos = some e := by
  have hnodup : ((selectNeighbors sel c lm closerSet newCandidate
      sortCandidates).candidates.map ListedCandidate.pos).Nodup :=
    selectNeighbors_pos.nodup_iff.mpr List.nodup_range
  cases hfind : (selectNeighbors sel c lm closerSet newCandidate sortCandidates).atPos e.pos with
  | none => simpa using List.find?_eq_none.mp hfind e he
  | some e' =>
    have hpos : e'.pos = e.pos := by simpa using List.find?_some hfind
    rw [List.inj_on_of_nodup_map hnodup (List.mem_of_find?_eq_some hfind) he hpos]

theorem flagged_of_mem {e : ListedCandidate E F}
    (he : e ∈ (selectNeighbors sel c lm closerSet newCandidate sortCandidates).candidates)
    (item : HnswCandidate E F) :
    (selectNeighbors sel c lm closerSet newCandidate sortCandidates).flagged e.pos item =
      e.toHnswCandidate := by
  have hat := selectNeighbors_atPos he
  unfold SelectResult.atPos at hat
  unfold SelectResult.flagged
  rw [hat]

variable (sel lm c closerSet newCandidate sortCandidates) in
theorem flagged_perm :
    (c.mapIdx (selectNeighbors sel c lm closerSet newCandidate sortCandidates).flagged).Perm
      ((selectNeighbors sel c lm closerSet newCandidate sortCandidates).candidates.map
        ListedCandidate.toHnswCandidate) := by
  have hperm : ((selectNeighbors sel c lm closerSet newCandidate
      sortCandidates).candidates.map ListedCandidate.pos).Perm (List.range c.length) :=
    selectNeighbors_pos
  have hmem : ∀ {e}, e ∈ (selectNeighbors sel c lm closerSet newCandidate
      sortCandidates).candidates → _ := selectNeighbors_atPos
  have hflagged : ∀ {e}, e ∈ (selectNeighbors sel c lm closerSet newCandidate
      sortCandidates).candidates → _ := flagged_of_mem
  generalize selectNeighbors sel c lm closerSet newCandidate sortCandidates = result at *
  -- both are read off the positions
  have hgiven : (c.mapIdx result.flagged).map some =
      (List.range c.length).map fun pos =>
        (result.atPos pos).map ListedCandidate.toHnswCandidate := by
    apply List.ext_getElem?
    intro pos
    by_cases hpos : pos < c.length
    · obtain ⟨e, he, rfl⟩ := List.mem_map.mp (hperm.mem_iff.mpr (List.mem_range.mpr hpos))
      simp [hpos, hmem he, hflagged he]
    · simp [Nat.le_of_not_lt hpos]
  have hleft : (result.candidates.map ListedCandidate.toHnswCandidate).map some =
      (result.candidates.map ListedCandidate.pos).map fun pos =>
        (result.atPos pos).map ListedCandidate.toHnswCandidate := by
    rw [List.map_map, List.map_map]
    apply List.map_congr_left
    intro e he
    simp [hmem he]
  apply (List.map_perm_map_iff (Option.some_injective _)).mp
  rw [hgiven, hleft]
  exact (hperm.map _).symm

end Flagged

theorem shrinkNeighbors_greedy (newCandidate : Option Nat)
    (hlength : (shrinkNeighbors sel w lm false newCandidate true).candidates.length = lm + 1)
    (hdistinct : (w.map fun e => sel.pointer e.element).Nodup) :
    Greedy sel ((shrinkNeighbors sel w lm false newCandidate true).neighbors.map
      ListedCandidate.toHnswCandidate) := by
  obtain ⟨marked, rest, hplain, hsieved, hshrunk⟩ := shrinkNeighbors_marks lm w newCandidate true
  obtain ⟨p, -, hperm, hp⟩ := hshrunk.pruned_perm hlength
  -- the flags of the loop do not change the order
  have hordered : (marked ++ rest).Pairwise fun a b =>
      sel.before a.toHnswCandidate b.toHnswCandidate := by
    have h : ((nearestFirst sel w true).map ListedCandidate.plain).Pairwise fun a b =>
        sel.before a.toHnswCandidate b.toHnswCandidate :=
      List.pairwise_map.mpr (nearestFirst_before hdistinct)
    rw [← hplain, List.pairwise_map] at h
    exact h
  rw [sieved_iff_greedy (List.pairwise_append.mp hordered).1] at hsieved
  have hsplit : (marked.filter (fun e => e.closer) ++
      marked.filter fun e => !e.closer).Perm marked :=
    List.filter_append_perm _ marked
  rw [hshrunk.candidates] at hperm
  rcases hp with ⟨hwd, hrest⟩ | ⟨hwd, hrest⟩
  · rw [hrest, List.append_nil] at hperm
    have hcons := hsieved.perm ((hsplit.symm.trans hperm).map ListedCandidate.toHnswCandidate)
    exact hcons.of_cons (by simpa using (List.mem_filter.mp hwd).2)
  · rw [hwd, hrest, List.append_nil] at hperm
    rw [hwd, List.append_nil] at hsplit
    refine hsieved.perm (List.Perm.map _ ?_)
    exact hsplit.symm.trans (List.Perm.cons_inv ((List.perm_append_singleton p _).symm.trans hperm))

theorem selectNeighbors_full_perm (sel : Selection E F) (hfull : items.length = lm)
    (newHc : HnswCandidate E F) (closerSet : Bool) :
    ∃ p, (selectNeighbors sel (items ++ [newHc]) lm closerSet (some lm) true).pruned = some p ∧
      (selectNeighbors sel (items ++ [newHc]) lm closerSet (some lm) true).candidates.Perm
        (p :: (selectNeighbors sel (items ++ [newHc]) lm closerSet (some lm) true).neighbors) :=
  selectNeighbors_perm sel closerSet true (some lm)
    (by rw [List.length_append, hfull, List.length_singleton])

theorem hnswUpdateConnection_perm {neighbors : HnswNeighborArray E F}
    (hfull : neighbors.items.length = lm) (newElement : E) (distance : F)
    (hdistinct : ((neighbors.items ++ [(⟨newElement, distance, false⟩ :
      HnswCandidate E F)]).map fun hc => sel.pointer hc.element).Nodup) :
    (hnswUpdateConnection sel neighbors newElement distance lm).1.items.Perm
      ((selectNeighbors sel (neighbors.items ++ [⟨newElement, distance, false⟩]) lm
        neighbors.closerSet (some lm) true).neighbors.map ListedCandidate.toHnswCandidate) := by
  subst hfull
  obtain ⟨p, hp, hperm⟩ :=
    selectNeighbors_full_perm sel rfl ⟨newElement, distance, false⟩ neighbors.closerSet
  have hmem := hperm.mem_iff.mpr (List.mem_cons_self ..)
  have hflags := (flagged_perm sel neighbors.items.length
    (neighbors.items ++ [⟨newElement, distance, false⟩]) neighbors.closerSet true
    (some neighbors.items.length)).trans (hperm.map ListedCandidate.toHnswCandidate)
  rw [List.mapIdx_concat, List.map_cons] at hflags
  have hpos : p.pos ≤ neighbors.items.length := by
    have hpos := selectNeighbors_pos.subset (List.mem_map_of_mem hmem)
    rw [List.mem_range, List.length_append, List.length_singleton] at hpos
    omega
  have hspec := prunedIdx_spec sel hpos (candidate_plain hmem)
  have hown := flagged_of_mem hmem
  unfold hnswUpdateConnection
  dsimp only
  rw [if_neg (Nat.lt_irrefl _), hp]
  dsimp only
  generalize hresult : selectNeighbors sel (neighbors.items ++ [⟨newElement, distance, false⟩])
    neighbors.items.length neighbors.closerSet (some neighbors.items.length) true = result
    at *
  have hidx : List.findIdx? (fun item => sel.pointer item.element == sel.pointer p.element)
      (result.flagItems neighbors).items = prunedIdx sel neighbors.items p := by
    rw [← hresult]
    exact prunedIdx_congr p flagItems_plain
  rw [hidx]
  cases hfound : prunedIdx sel neighbors.items p with
  | none =>
    rw [hfound] at hspec
    rw [← hspec.2, hown] at hflags
    exact List.Perm.cons_inv ((List.perm_append_singleton _ _).symm.trans hflags)
  | some i =>
    rw [hfound] at hspec
    obtain ⟨⟨item, hitem, -⟩, hunique⟩ := hspec
    have hi : (neighbors.items.mapIdx result.flagged)[i]? = some p.toHnswCandidate := by
      rw [List.getElem?_mapIdx, hitem, hunique hdistinct, Option.map_some, hown]
    exact List.Perm.cons_inv ((perm_cons_set hi _).symm.trans hflags)

/-! ## Calls one after another -/

def Selection.pointers (sel : Selection E F) (items : List (HnswCandidate E F)) : List Nat :=
  items.map fun hc => sel.pointer hc.element

/-- An array whose flags may be used again is full, and they are right. -/
structure CacheKept (sel : Selection E F) (lm : Nat) (neighbors : HnswNeighborArray E F) :
    Prop where
  room : neighbors.items.length ≤ lm
  flags : neighbors.closerSet = true → neighbors.items.length = lm ∧ Greedy sel neighbors.items

/-- `HnswUpdateConnection` when `mustCalculate` is always set. -/
def recalculateConnection (sel : Selection E F) (neighbors : HnswNeighborArray E F)
    (newElement : E) (distance : F) (lm : Nat) : HnswNeighborArray E F × UpdateIdx :=
  hnswUpdateConnection sel { neighbors with closerSet := false } newElement distance lm

section Call

variable {neighbors : HnswNeighborArray E F} {newElement : E} {distance : F}

theorem selectNeighbors_recalculated (hkept : CacheKept sel lm neighbors)
    (hfull : neighbors.items.length = lm)
    (hdistinct : (sel.pointers (neighbors.items ++ [⟨newElement, distance, false⟩])).Nodup) :
    selectNeighbors sel (neighbors.items ++ [⟨newElement, distance, false⟩]) lm
        neighbors.closerSet (some lm) true =
      shrinkNeighbors sel (listCandidates
        (neighbors.items ++ [⟨newElement, distance, false⟩])) lm false (some lm) true := by
  rw [selectNeighbors_of_lt (by simp [hfull])]
  cases hset : neighbors.closerSet with
  | false => rfl
  | true =>
    have hflags := (hkept.flags hset).2.flagsKept hdistinct
    rw [hfull] at hflags
    exact shrinkNeighbors_cached (nodup_pos_listCandidates _) hflags

theorem hnswUpdateConnection_recalculated (hkept : CacheKept sel lm neighbors)
    (hdistinct : (sel.pointers (neighbors.items ++ [⟨newElement, distance, false⟩])).Nodup) :
    hnswUpdateConnection sel neighbors newElement distance lm =
      recalculateConnection sel neighbors newElement distance lm := by
  unfold recalculateConnection hnswUpdateConnection
  dsimp only
  split
  · next hroom =>
    -- an array with room has no flags yet
    cases hset : neighbors.closerSet with
    | false =>
      obtain ⟨items, closerSet⟩ := neighbors
      obtain rfl : closerSet = false := hset
      rfl
    | true => exact absurd (hkept.flags hset).1 hroom.ne
  · next hroom =>
    have hfull := Nat.le_antisymm hkept.room (Nat.le_of_not_lt hroom)
    have hsel := selectNeighbors_recalculated hkept hfull hdistinct
    rw [← selectNeighbors_of_lt (by simp [hfull])] at hsel
    rw [hfull, hsel]
    rfl

theorem hnswUpdateConnection_kept (hkept : CacheKept sel lm neighbors)
    (hdistinct : (sel.pointers (neighbors.items ++ [⟨newElement, distance, false⟩])).Nodup) :
    CacheKept sel lm (hnswUpdateConnection sel neighbors newElement distance lm).1 := by
  have hupdated := hnswUpdateConnection_updated sel hkept.room newElement distance
  refine ⟨hupdated.within, ?_⟩
  intro hset
  rcases hkept.room.lt_or_eq with hroom | hfull
  · -- the flags are not set by an append
    have hsame : (hnswUpdateConnection sel neighbors newElement distance lm).1.closerSet =
        neighbors.closerSet := by
      unfold hnswUpdateConnection
      rw [if_pos hroom]
    rw [hsame] at hset
    exact absurd (hkept.flags hset).1 hroom.ne
  · have hperm := hnswUpdateConnection_perm hfull newElement distance hdistinct
    have hlength : (selectNeighbors sel (neighbors.items ++ [⟨newElement, distance, false⟩])
        lm neighbors.closerSet (some lm) true).candidates.length = lm + 1 := by
      rw [length_candidates, List.length_append, hfull, List.length_singleton]
    have hcount : (selectNeighbors sel (neighbors.items ++ [⟨newElement, distance, false⟩])
        lm neighbors.closerSet (some lm) true).neighbors.length = lm := by
      obtain ⟨p, -, hcandidates⟩ :=
        selectNeighbors_full_perm sel hfull ⟨newElement, distance, false⟩ neighbors.closerSet
      have h := hcandidates.length_eq
      rw [hlength, List.length_cons] at h
      omega
    constructor
    · rw [hperm.length_eq, List.length_map, hcount]
    · rw [selectNeighbors_recalculated hkept hfull hdistinct] at hperm hlength
      refine Greedy.perm ?_ hperm.symm
      exact shrinkNeighbors_greedy _ hlength (by rwa [map_pointer_listCandidates])

theorem hnswUpdateConnection_pointers (hkept : CacheKept sel lm neighbors)
    (hdistinct : (sel.pointers (neighbors.items ++ [⟨newElement, distance, false⟩])).Nodup) :
    ∃ dropped, (sel.pointers (neighbors.items ++ [⟨newElement, distance, false⟩])).Perm
      (dropped ++
        sel.pointers (hnswUpdateConnection sel neighbors newElement distance lm).1.items) := by
  rcases hkept.room.lt_or_eq with hroom | hfull
  · have hupdated := hnswUpdateConnection_updated sel hkept.room newElement distance
    refine ⟨[], ?_⟩
    rw [hupdated.appended hroom, List.nil_append]
  · obtain ⟨p, -, hcandidates⟩ :=
      selectNeighbors_full_perm sel hfull ⟨newElement, distance, false⟩ neighbors.closerSet
    have helements := selectNeighbors_elements.symm.trans (hcandidates.map fun l => l.element)
    have hperm := (hnswUpdateConnection_perm hfull newElement distance hdistinct).map
      fun hc => sel.pointer hc.element
    refine ⟨[sel.pointer p.element], ?_⟩
    have hpointers := helements.map sel.pointer
    rw [List.map_map, List.map_map, List.map_cons] at hpointers
    rw [List.map_map] at hperm
    exact hpointers.trans (hperm.symm.cons _)

end Call

theorem Greedy.flagItems {neighbors : HnswNeighborArray E F}
    (h : Greedy sel neighbors.items) (hset : neighbors.closerSet = true)
    (hdistinct : (sel.pointers neighbors.items).Nodup) :
    (shrinkNeighbors sel (listCandidates neighbors.items) neighbors.items.length false none
      true).flagItems neighbors = neighbors := by
  obtain ⟨marked, rest, hplain, hsieved, hshrunk⟩ := shrinkNeighbors_marks
    neighbors.items.length (listCandidates neighbors.items) none true
  have hlength := congrArg List.length hplain
  rw [List.length_map, List.length_append, List.length_map,
    (nearestFirst_perm sel _ true).length_eq, length_listCandidates] at hlength
  have hrest : rest = [] := by
    rcases hshrunk.full with hrest | hfull
    · exact hrest
    · have hmarked := List.length_filter_le (fun e => e.closer) marked
      exact List.eq_nil_of_length_eq_zero (by omega)
  rw [hrest, List.append_nil] at hplain
  have hsame : marked = nearestFirst sel (listCandidates neighbors.items) true := by
    refine hsieved.unique ?_ ?_ ((greedy_iff_sieved hdistinct).mp h) hplain
    · rintro ⟨a, _⟩ ⟨b, _⟩ hab
      simp only [ListedCandidate.plain, ListedCandidate.mk.injEq, HnswCandidate.mk.injEq] at hab
      funext ri
      simp only [Selection.closerThan, hab]
    · rintro ⟨⟨_, _, _⟩, _⟩ ⟨⟨_, _, _⟩, _⟩ hab hmark
      simp only [ListedCandidate.plain, ListedCandidate.mk.injEq, HnswCandidate.mk.injEq] at hab
      simp only [ListedCandidate.mk.injEq, HnswCandidate.mk.injEq]
      exact ⟨⟨hab.1.1, hab.1.2.1, hmark⟩, hab.2⟩
  have hcandidates : (shrinkNeighbors sel (listCandidates neighbors.items)
      neighbors.items.length false none true).candidates.Perm (listCandidates neighbors.items) := by
    rw [hshrunk.candidates, hrest, List.append_nil]
    refine (List.filter_append_perm _ marked).trans ?_
    rw [hsame]
    exact nearestFirst_perm sel _ true
  obtain ⟨items, closerSet⟩ := neighbors
  refine congrArg₂ HnswNeighborArray.mk ?_ hset.symm
  apply List.ext_getElem?
  intro pos
  rw [List.getElem?_mapIdx]
  cases hitem : items[pos]? with
  | none => rfl
  | some item =>
    rw [Option.map_some]
    unfold SelectResult.flagged
    split
    · rfl
    · next e hfind =>
      have hpos : e.pos = pos := by simpa using List.find?_some hfind
      have hown := mem_listCandidates (hcandidates.mem_iff.mp (List.mem_of_find?_eq_some hfind))
      rw [← hown, hpos, hitem]

def updateConnections (sel : Selection E F) (lm : Nat) (neighbors : HnswNeighborArray E F)
    (news : List (E × F)) : HnswNeighborArray E F :=
  news.foldl (fun a new => (hnswUpdateConnection sel a new.1 new.2 lm).1) neighbors

def recalculateConnections (sel : Selection E F) (lm : Nat)
    (neighbors : HnswNeighborArray E F) (news : List (E × F)) : HnswNeighborArray E F :=
  news.foldl (fun a new => (recalculateConnection sel a new.1 new.2 lm).1) neighbors

theorem updateConnections_cons (neighbors : HnswNeighborArray E F) (new : E × F)
    (news : List (E × F)) :
    updateConnections sel lm neighbors (new :: news) =
      updateConnections sel lm (hnswUpdateConnection sel neighbors new.1 new.2 lm).1 news := rfl

theorem recalculateConnections_cons (neighbors : HnswNeighborArray E F) (new : E × F)
    (news : List (E × F)) :
    recalculateConnections sel lm neighbors (new :: news) =
      recalculateConnections sel lm (recalculateConnection sel neighbors new.1 new.2 lm).1
        news := rfl

theorem updateConnections_kept {neighbors : HnswNeighborArray E F}
    (hkept : CacheKept sel lm neighbors) {news : List (E × F)} {later : List Nat}
    (hdistinct : (sel.pointers neighbors.items ++
      (news.map (fun new => sel.pointer new.1) ++ later)).Nodup) :
    updateConnections sel lm neighbors news = recalculateConnections sel lm neighbors news ∧
      CacheKept sel lm (updateConnections sel lm neighbors news) ∧
      (sel.pointers (updateConnections sel lm neighbors news).items ++ later).Nodup := by
  induction news generalizing neighbors with
  | nil =>
    have hnil : updateConnections sel lm neighbors [] = neighbors := rfl
    rw [hnil]
    exact ⟨rfl, hkept, hdistinct⟩
  | cons new news ih =>
    rw [List.map_cons, List.cons_append, List.append_cons] at hdistinct
    have hcall : sel.pointers neighbors.items ++ [sel.pointer new.1] =
        sel.pointers (neighbors.items ++ [⟨new.1, new.2, false⟩]) := by
      simp [Selection.pointers]
    rw [hcall] at hdistinct
    have hnew := (List.nodup_append.mp hdistinct).1
    obtain ⟨dropped, hperm⟩ := hnswUpdateConnection_pointers hkept hnew
    have hrest := (hperm.append_right _).nodup_iff.mp hdistinct
    rw [List.append_assoc] at hrest
    rw [updateConnections_cons, recalculateConnections_cons,
      ← hnswUpdateConnection_recalculated hkept hnew]
    exact ih (hnswUpdateConnection_kept hkept hnew) (List.nodup_append.mp hrest).2.1

theorem closer_caching_sound (sel : Selection E F) (lm : Nat)
    (neighbors : HnswNeighborArray E F) (news : List (E × F))
    (hfresh : neighbors.closerSet = false) (hroom : neighbors.items.length ≤ lm)
    (hdistinct : (sel.pointers neighbors.items ++ news.map fun new => sel.pointer new.1).Nodup) :
    updateConnections sel lm neighbors news = recalculateConnections sel lm neighbors news ∧
      ((updateConnections sel lm neighbors news).closerSet = true →
        (shrinkNeighbors sel (listCandidates (updateConnections sel lm neighbors news).items)
            (updateConnections sel lm neighbors news).items.length false none true).flagItems
          (updateConnections sel lm neighbors news) = updateConnections sel lm neighbors news) := by
  have hkept : CacheKept sel lm neighbors := ⟨hroom, fun hset => by simp [hfresh] at hset⟩
  rw [← List.append_nil (news.map _)] at hdistinct
  obtain ⟨hsame, hafter, hnodup⟩ := updateConnections_kept hkept hdistinct
  rw [List.append_nil] at hnodup
  exact ⟨hsame, fun hset => (hafter.flags hset).2.flagItems hset hnodup⟩

def numberSelection : Selection Nat Nat where
  distance := Nat.dist
  pointer := id

def numberNeighbors : HnswNeighborArray Nat Nat where
  items := [⟨9, 6, false⟩, ⟨4, 1, false⟩]
  closerSet := false

theorem numberNeighbors_five : (hnswUpdateConnection numberSelection numberNeighbors 5 2 2).1 =
    ⟨[⟨5, 2, false⟩, ⟨4, 1, true⟩], true⟩ := by
  simp [hnswUpdateConnection, numberNeighbors, selectNeighbors, shrinkNeighbors, listCandidates,
    List.mergeSort, List.MergeSort.Internal.splitInTwo, compareCandidateDistances]
  rfl

theorem closer_caching_sound_two :
    updateConnections numberSelection 2 numberNeighbors [(5, 2), (1, 2)] =
        ⟨[⟨1, 2, true⟩, ⟨4, 1, true⟩], true⟩ ∧
      recalculateConnections numberSelection 2 numberNeighbors [(5, 2), (1, 2)] =
        ⟨[⟨1, 2, true⟩, ⟨4, 1, true⟩], true⟩ := by
  have hcached : updateConnections numberSelection 2 numberNeighbors [(5, 2), (1, 2)] =
      ⟨[⟨1, 2, true⟩, ⟨4, 1, true⟩], true⟩ := by
    rw [updateConnections_cons, numberNeighbors_five]
    simp [updateConnections, hnswUpdateConnection, selectNeighbors, shrinkNeighbors,
      listCandidates, List.mergeSort, List.MergeSort.Internal.splitInTwo, List.merge,
      compareCandidateDistances]
    rfl
  refine ⟨hcached, ?_⟩
  rw [← (closer_caching_sound numberSelection 2 numberNeighbors [(5, 2), (1, 2)] rfl (by decide)
    (by decide)).1, hcached]

/-! ## Selection and replacement -/

theorem neighbor_selection (sel : Selection E F) (lm : Nat) :
    (∀ c closerSet newCandidate sortCandidates,
      (sortCandidates = false → c.Pairwise fun a b => b.distance ≤ a.distance) →
      (closerSet = true → FlagsKept sel (listCandidates c) newCandidate sortCandidates) →
      Selected sel c lm (selectNeighbors sel c lm closerSet newCandidate sortCandidates)) ∧
    -- the flags of an array are kept as they have to be
    (∀ neighbors : HnswNeighborArray E F, neighbors.closerSet = false →
      neighbors.items.length ≤ lm → ∀ (news : List (E × F)) (newElement : E) (distance : F),
      (sel.pointers neighbors.items ++
        (news ++ [(newElement, distance)]).map fun new => sel.pointer new.1).Nodup →
      Selected sel ((updateConnections sel lm neighbors news).items ++
          [⟨newElement, distance, false⟩]) lm
        (selectNeighbors sel ((updateConnections sel lm neighbors news).items ++
            [⟨newElement, distance, false⟩]) lm
          (updateConnections sel lm neighbors news).closerSet
          (some (updateConnections sel lm neighbors news).items.length) true)) ∧
    ∀ (neighbors : HnswNeighborArray E F) (newElement : E) (distance : F),
      neighbors.items.length ≤ lm →
      Updated sel lm neighbors ⟨newElement, distance, false⟩
        (hnswUpdateConnection sel neighbors newElement distance lm).1.items := by
  refine ⟨?_, ?_, ?_⟩
  · intro c closerSet newCandidate sortCandidates hsorted hkept
    exact selectNeighbors_selected hsorted hkept
  · intro neighbors hfresh hroom news newElement distance hdistinct
    rw [List.map_append] at hdistinct
    obtain ⟨-, hafter, hnodup⟩ := updateConnections_kept
      ⟨hroom, fun hset => by simp [hfresh] at hset⟩ hdistinct
    have hpointers : sel.pointers (updateConnections sel lm neighbors news).items ++
        [(newElement, distance)].map (fun new => sel.pointer new.1) =
          sel.pointers ((updateConnections sel lm neighbors news).items ++
            [⟨newElement, distance, false⟩]) := by
      simp [Selection.pointers]
    rw [hpointers] at hnodup
    refine selectNeighbors_selected (fun h => by cases h) ?_
    intro hset
    exact (hafter.flags hset).2.flagsKept hnodup
  · intro neighbors newElement distance hroom
    exact hnswUpdateConnection_updated sel hroom newElement distance

theorem neighbor_selection_two :
    Selected numberSelection numberNeighbors.items 1
      (selectNeighbors numberSelection numberNeighbors.items 1 false none false) ∧
    Selected numberSelection [⟨5, 2, false⟩, ⟨4, 1, true⟩, ⟨1, 2, false⟩] 2
      (selectNeighbors numberSelection [⟨5, 2, false⟩, ⟨4, 1, true⟩, ⟨1, 2, false⟩] 2 true
        (some 2) true) ∧
    Updated numberSelection 2 numberNeighbors ⟨5, 2, false⟩ [⟨5, 2, false⟩, ⟨4, 1, true⟩] := by
  have hnext := (neighbor_selection numberSelection 2).2.1 numberNeighbors rfl (by decide)
    [(5, 2)] 1 2 (by decide)
  have hreplaced := (neighbor_selection numberSelection 2).2.2 numberNeighbors 5 2 (by decide)
  rw [updateConnections_cons, numberNeighbors_five] at hnext
  rw [numberNeighbors_five] at hreplaced
  exact ⟨(neighbor_selection numberSelection 1).1 numberNeighbors.items false none false
    (fun _ => by decide) (fun h => by cases h), hnext, hreplaced⟩

end PgVector.Hnsw
