import Mathlib.Data.List.Basic
import PgVector.Hnsw.Select

/-!
# What the heuristic keeps

`SelectNeighbors` returns some of its candidates, at most as many as there is
room for, and only sets flags in them.  `HnswUpdateConnection` appends the new
element, puts it in the place of one neighbor, or leaves the neighbors as they
are.
-/

namespace PgVector.Hnsw

variable {E F : Type}

def ListedCandidate.plain (c : ListedCandidate E F) : ListedCandidate E F :=
  { c with closer := false }

section Select

variable [LinearOrder F] {sel : Selection E F} {lm : Nat} {mustCalculate : Bool}
  {newCandidate : Option Nat}

theorem selectTurn_plain (sel : Selection E F) (mustCalculate : Bool)
    (newCandidate : Option Nat) (st : SelectState E F) (e : ListedCandidate E F) :
    (((selectTurn sel mustCalculate newCandidate st e).r ++
        (selectTurn sel mustCalculate newCandidate st e).wd).map
      ListedCandidate.plain).Perm
      ((e :: (st.r ++ st.wd)).map ListedCandidate.plain) := by
  cases hcloser : nextCloser sel mustCalculate newCandidate st e with
  | true =>
    simp only [selectTurn, hcloser, if_true, List.append_assoc, List.singleton_append,
      List.map_append, List.map_cons, ListedCandidate.plain]
    exact List.perm_middle
  | false =>
    simp only [selectTurn, hcloser, Bool.false_eq_true, if_false, List.map_append,
      List.map_cons, List.map_nil, ListedCandidate.plain]
    rw [← List.append_assoc]
    exact List.perm_append_singleton _ _

theorem selectLoop_plain (w : List (ListedCandidate E F)) (st : SelectState E F) :
    (((selectLoop sel lm mustCalculate newCandidate w st).2.r ++
        (selectLoop sel lm mustCalculate newCandidate w st).2.wd ++
        (selectLoop sel lm mustCalculate newCandidate w st).1).map
      ListedCandidate.plain).Perm
      ((st.r ++ st.wd ++ w).map ListedCandidate.plain) := by
  induction w generalizing st with
  | nil => exact List.Perm.refl _
  | cons e w ih =>
    unfold selectLoop
    split
    · refine (ih _).trans ?_
      have hturn := (selectTurn_plain sel mustCalculate newCandidate st e).append_right
        (w.map ListedCandidate.plain)
      rw [← List.map_append] at hturn
      refine hturn.trans ?_
      rw [← List.map_append]
      exact (List.perm_middle.map _).symm
    · exact List.Perm.refl _

theorem selectLoop_room (w : List (ListedCandidate E F)) {st : SelectState E F}
    (h : st.r.length ≤ lm) :
    (selectLoop sel lm mustCalculate newCandidate w st).2.r.length ≤ lm := by
  induction w generalizing st with
  | nil => exact h
  | cons e w ih =>
    unfold selectLoop
    split
    · next hroom =>
      apply ih
      cases hcloser : nextCloser sel mustCalculate newCandidate st e with
      | true =>
        simp only [selectTurn, hcloser, if_true, List.length_append, List.length_singleton]
        omega
      | false =>
        simp only [selectTurn, hcloser, Bool.false_eq_true, if_false]
        exact h
    · exact h

variable {w : List (ListedCandidate E F)} {closerSet sortCandidates : Bool}

theorem shrinkNeighbors_plain :
    ((shrinkNeighbors sel w lm closerSet newCandidate sortCandidates).candidates.map
      ListedCandidate.plain).Perm (w.map ListedCandidate.plain) := by
  refine (selectLoop_plain _ _).trans ?_
  rw [List.nil_append, List.nil_append]
  refine ((List.reverse_perm _).map _).trans ?_
  cases sortCandidates with
  | true => exact (List.mergeSort_perm _ _).map _
  | false => exact List.Perm.refl _

variable {c : List (HnswCandidate E F)}

theorem selectNeighbors_plain :
    ((selectNeighbors sel c lm closerSet newCandidate sortCandidates).candidates.map
      ListedCandidate.plain).Perm ((listCandidates c).map ListedCandidate.plain) := by
  unfold selectNeighbors
  dsimp only
  split
  · exact List.Perm.refl _
  · exact shrinkNeighbors_plain

theorem selectNeighbors_sublist :
    (selectNeighbors sel c lm closerSet newCandidate sortCandidates).neighbors.Sublist
      (selectNeighbors sel c lm closerSet newCandidate sortCandidates).candidates := by
  unfold selectNeighbors
  dsimp only
  split
  · exact List.Sublist.refl _
  · unfold shrinkNeighbors
    dsimp only
    rw [List.append_assoc]
    refine List.Sublist.append_left ?_ _
    exact (List.take_sublist _ _).trans (List.sublist_append_left _ _)

theorem selectNeighbors_room :
    (selectNeighbors sel c lm closerSet newCandidate sortCandidates).neighbors.length ≤ lm := by
  unfold selectNeighbors
  dsimp only
  split
  · next h => exact h
  · unfold shrinkNeighbors
    have hroom : (selectLoop sel lm (!closerSet) newCandidate
        (if sortCandidates then (listCandidates c).mergeSort (compareCandidateDistances sel)
          else listCandidates c).reverse
        { r := [], wd := [], added := [], removedAny := false }).2.r.length ≤ lm :=
      selectLoop_room _ (Nat.zero_le _)
    rw [List.length_append, List.length_take]
    omega

omit [LinearOrder F] in
theorem map_element_listCandidates (c : List (HnswCandidate E F)) :
    (listCandidates c).map (fun l => l.element) = c.map HnswCandidate.element := by
  unfold listCandidates
  rw [List.map_map]
  conv_rhs => rw [← List.zipIdx_map_fst 0 c, List.map_map]
  rfl

omit [LinearOrder F] in
theorem map_element_plain (l : List (ListedCandidate E F)) :
    (l.map ListedCandidate.plain).map (fun l => l.element) = l.map fun l => l.element := by
  rw [List.map_map]
  rfl

theorem selectNeighbors_elements :
    ((selectNeighbors sel c lm closerSet newCandidate sortCandidates).candidates.map
      fun l => l.element).Perm (c.map HnswCandidate.element) := by
  rw [← map_element_plain, ← map_element_listCandidates, ← map_element_plain (listCandidates c)]
  exact selectNeighbors_plain.map _

theorem mem_selectNeighbors {hc : ListedCandidate E F}
    (h : hc ∈ (selectNeighbors sel c lm closerSet newCandidate sortCandidates).neighbors) :
    ∃ c' ∈ c, c'.element = hc.element := by
  have hmem : hc.element ∈ c.map HnswCandidate.element :=
    selectNeighbors_elements.subset (List.mem_map_of_mem (selectNeighbors_sublist.subset h))
  exact List.mem_map.mp hmem

omit [LinearOrder F] in
theorem mem_listCandidates {l : ListedCandidate E F} (h : l ∈ listCandidates c) :
    getElem? c l.pos = some l.toHnswCandidate := by
  obtain ⟨⟨candidate, pos⟩, hmem, rfl⟩ := List.mem_map.mp h
  exact List.mem_zipIdx_iff_getElem?.mp hmem

theorem candidate_eq {l : ListedCandidate E F}
    (h : l ∈ (selectNeighbors sel c lm closerSet newCandidate sortCandidates).candidates) :
    ∃ item, getElem? c l.pos = some item ∧
      l.toHnswCandidate = { item with closer := l.closer } := by
  have hmem : l.plain ∈ (listCandidates c).map ListedCandidate.plain :=
    selectNeighbors_plain.subset (List.mem_map_of_mem h)
  obtain ⟨l', hl', heq⟩ := List.mem_map.mp hmem
  have hpos : l'.plain.pos = l.plain.pos := congrArg ListedCandidate.pos heq
  simp only [ListedCandidate.plain] at hpos
  refine ⟨l'.toHnswCandidate, hpos ▸ mem_listCandidates hl', ?_⟩
  have helement : l'.plain.element = l.plain.element := congrArg (fun l => l.element) heq
  have hdistance : l'.plain.distance = l.plain.distance :=
    congrArg (fun l => l.distance) heq
  simp only [ListedCandidate.plain] at helement hdistance
  rw [helement, hdistance]

theorem flagged_eq (sel : Selection E F) (lm : Nat) (closerSet : Bool)
    (newCandidate : Option Nat) (sortCandidates : Bool) {pos : Nat}
    {item : HnswCandidate E F} (h : getElem? c pos = some item) :
    ∃ closer, (selectNeighbors sel c lm closerSet newCandidate sortCandidates).flagged pos
      item = { item with closer := closer } := by
  unfold SelectResult.flagged
  split
  · exact ⟨item.closer, rfl⟩
  · next l hfind =>
    have hpos : l.pos = pos := by simpa using List.find?_some hfind
    obtain ⟨item', hitem', heq⟩ := candidate_eq (List.mem_of_find?_eq_some hfind)
    rw [hpos, h] at hitem'
    obtain rfl := Option.some.inj hitem'
    exact ⟨l.closer, heq⟩

/-! ## Updating a connection -/

def HnswCandidate.plain (c : HnswCandidate E F) : HnswCandidate E F :=
  { c with closer := false }

theorem flagItems_plain {neighbors : HnswNeighborArray E F} {newHc : HnswCandidate E F} :
    ((selectNeighbors sel (neighbors.items ++ [newHc]) lm closerSet newCandidate
        sortCandidates).flagItems neighbors).items.map HnswCandidate.plain =
      neighbors.items.map HnswCandidate.plain := by
  apply List.ext_getElem?
  intro pos
  simp only [SelectResult.flagItems, List.getElem?_map, List.getElem?_mapIdx]
  cases hitem : neighbors.items[pos]? with
  | none => rfl
  | some item =>
    have hlt := (List.getElem?_eq_some_iff.mp hitem).1
    have hc : (neighbors.items ++ [newHc])[pos]? = some item := by
      rw [List.getElem?_append_left hlt, hitem]
    obtain ⟨closer, heq⟩ := flagged_eq sel lm closerSet newCandidate sortCandidates hc
    rw [Option.map_some, Option.map_some, Option.map_some, heq]
    rfl

inductive Connected (items : List (HnswCandidate E F)) (newHc : HnswCandidate E F)
    (lm : Nat) : List (HnswCandidate E F) → UpdateIdx → Prop
  | appended : items.length < lm → Connected items newHc lm (items ++ [newHc]) .free
  | unchanged : lm ≤ items.length → Connected items newHc lm items .unchanged
  | replaced (i : Nat) : lm ≤ items.length → i < items.length →
      Connected items newHc lm (items.set i newHc) (.slot i)

variable {items items' : List (HnswCandidate E F)}

omit [LinearOrder F] in
theorem Connected.length_le {newHc : HnswCandidate E F} {idx : UpdateIdx}
    (h : Connected items newHc lm items' idx) (hroom : items.length ≤ lm) :
    items'.length ≤ lm := by
  cases h with
  | appended hlt =>
    rw [List.length_append, List.length_singleton]
    omega
  | unchanged => exact hroom
  | replaced i =>
    rw [List.length_set]
    exact hroom

omit [LinearOrder F] in
theorem Connected.mem {newHc hc : HnswCandidate E F} {idx : UpdateIdx}
    (h : Connected items newHc lm items' idx) (hmem : hc ∈ items') : hc ∈ items ∨ hc = newHc := by
  cases h with
  | appended => simpa using hmem
  | unchanged => exact .inl hmem
  | replaced i => exact List.mem_or_eq_of_mem_set hmem

theorem hnswUpdateConnection_spec (sel : Selection E F) (neighbors : HnswNeighborArray E F)
    (newElement : E) (distance : F) (lm : Nat) :
    Connected (neighbors.items.map HnswCandidate.plain) ⟨newElement, distance, false⟩ lm
      ((hnswUpdateConnection sel neighbors newElement distance lm).1.items.map HnswCandidate.plain)
      (hnswUpdateConnection sel neighbors newElement distance lm).2 := by
  unfold hnswUpdateConnection
  dsimp only
  split
  · next hlt =>
    rw [List.map_append]
    exact .appended (by simpa using hlt)
  · next hge =>
    have hlength : lm ≤ (neighbors.items.map HnswCandidate.plain).length := by
      simpa using hge
    split
    · rw [flagItems_plain]
      exact .unchanged hlength
    · split
      · rw [flagItems_plain]
        exact .unchanged hlength
      · next i hfind =>
        have hi := (List.findIdx?_eq_some_iff_findIdx_eq.mp hfind).1
        have hlt : i < (neighbors.items.map HnswCandidate.plain).length := by
          simpa [SelectResult.flagItems] using hi
        -- the new candidate is put in with the flag it was given
        have hnew : (neighbors.items ++ [⟨newElement, distance, false⟩])[
            neighbors.items.length]? = some ⟨newElement, distance, false⟩ := by simp
        obtain ⟨closer, heq⟩ := flagged_eq sel lm neighbors.closerSet
          (some neighbors.items.length) true hnew
        rw [List.map_set, flagItems_plain, heq]
        exact .replaced i hlength hlt

end Select

end PgVector.Hnsw
