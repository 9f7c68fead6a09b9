import PgVector.Hnsw.Flush
import PgVector.Hnsw.MemoryBuild
import PgVector.Hnsw.ScanComplete

/-!
# The nearest elements that a search has met

A search of a layer returns the `ef` nearest of the elements of the layer that it
has met, and it has met the neighbors of all of them.
-/

namespace PgVector.Hnsw

open Foundation

/-! ## The best elements so far -/

section Best

variable {L : Signature} {S E N K D : Type} [LinearOrder D]

/--
The elements of `W` and those that are `pending` are different, and an element
that was met and is neither is no nearer than any of a full `W`.
-/
structure SearchBest (A : SearchAccess L E N K D) (G : SearchGraph E N K D) (lc ef : Nat)
    (pending : Multiset K) (st : SearchState E K D) : Prop where
  nodup : st.visited.Nodup
  distinct : (A.keys st.results.elems + pending).Nodup
  met : ∀ k ∈ A.keys st.results.elems + pending, k ∈ st.visited
  best : ∀ k ∈ st.visited, lc ≤ A.level (G.element k) → k ∈ pending ∨
    k ∈ A.keys st.results.elems ∨ ef ≤ st.wlen ∧ ∀ sc ∈ st.results.elems, sc.distance ≤ G.distance k

variable {h : Handler L S} {A : SearchAccess L E N K D} {G : SearchGraph E N K D}
  {I : S → Prop} {lc ef : Nat} {keeps : Bool} {returned pending : Multiset K} {k : K}
  {st st' : SearchState E K D}

namespace SearchBest

theorem congr (hst : SearchBest A G lc ef pending st) (hresults : st'.results = st.results)
    (hvisited : st'.visited = st.visited) (hwlen : st'.wlen = st.wlen) :
    SearchBest A G lc ef pending st' := by
  constructor
  · rw [hvisited]
    exact hst.nodup
  · rw [hresults]
    exact hst.distinct
  · rw [hresults, hvisited]
    exact hst.met
  · rw [hresults, hvisited, hwlen]
    exact hst.best

theorem leave (hst : SearchBest A G lc ef (k ::ₘ pending) st)
    (hk : lc ≤ A.level (G.element k) →
      ef ≤ st.wlen ∧ ∀ sc ∈ st.results.elems, sc.distance ≤ G.distance k) :
    SearchBest A G lc ef pending st := by
  have hle : A.keys st.results.elems + pending ≤ A.keys st.results.elems + k ::ₘ pending :=
    add_le_add_right (Multiset.le_cons_self _ _) _
  refine ⟨hst.nodup, Multiset.nodup_of_le hle hst.distinct, ?_, ?_⟩
  · intro k' hk'
    exact hst.met k' (Multiset.mem_of_le hle hk')
  · intro k' hk' hlevel
    rcases hst.best k' hk' hlevel with hpending | hrest
    · rcases Multiset.mem_cons.mp hpending with rfl | hpending
      · exact .inr (.inr (hk hlevel))
      · exact .inl hpending
    · exact .inr hrest

theorem push (hA : AccessReturns h A lc G I) (hst : SearchBest A G lc ef (k ::ₘ pending) st)
    (hk : G.known k)
    (hnear : ef ≤ st.wlen → ∃ f ∈ st.results.elems, G.distance k < f.distance)
    (hresults : st'.results.elems = G.candidate k ::ₘ st.results.elems)
    (hvisited : st'.visited = st.visited) (hwlen : st.wlen ≤ st'.wlen) :
    SearchBest A G lc ef pending st' := by
  have hkeys : A.keys st'.results.elems + pending = A.keys st.results.elems + k ::ₘ pending := by
    have hkey : A.elementKey (G.candidate k).element = k := hA.elementKey hk
    rw [hresults, SearchAccess.keys, Multiset.map_cons, hkey, Multiset.cons_add, Multiset.add_cons]
    rfl
  have hin : ∀ k', k' ∈ A.keys st'.results.elems ↔ k' = k ∨ k' ∈ A.keys st.results.elems := by
    intro k'
    have hkey : A.elementKey (G.candidate k).element = k := hA.elementKey hk
    rw [hresults, SearchAccess.keys, Multiset.map_cons, hkey]
    exact Multiset.mem_cons
  refine ⟨hvisited ▸ hst.nodup, hkeys ▸ hst.distinct, ?_, ?_⟩
  · rw [hkeys, hvisited]
    exact hst.met
  · intro k' hk' hlevel
    rw [hvisited] at hk'
    rcases hst.best k' hk' hlevel with hpending | hmem | ⟨hfull, hfar⟩
    · rcases Multiset.mem_cons.mp hpending with hsame | hpending
      · exact .inr (.inl ((hin k').mpr (.inl hsame)))
      · exact .inl hpending
    · exact .inr (.inl ((hin k').mpr (.inr hmem)))
    · obtain ⟨f, hf, hless⟩ := hnear hfull
      refine .inr (.inr ⟨hfull.trans hwlen, ?_⟩)
      rw [hresults]
      exact Multiset.forall_mem_cons.mpr ⟨(hless.trans_le (hfar f hf)).le, hfar⟩

theorem evict (hA : AccessReturns h A lc G I) {size : Nat}
    (hinv : SearchInv A G lc keeps returned pending size st)
    (hst : SearchBest A G lc ef pending st) (hfull : ef ≤ st.wlen) :
    SearchBest A G lc ef pending (evictFurthest st) := by
  unfold evictFurthest
  cases hremove : st.results.removeFirst? compareFurthestCandidates with
  | none => exact hst
  | some removed =>
    obtain ⟨worst, results⟩ := removed
    obtain ⟨helems, -⟩ := PairingHeap.elems_removeFirst? _ hinv.results.root hremove
    obtain ⟨-, hfurthest⟩ :=
      PairingHeap.ordered_removeFirst? isComparator_furthest hinv.results.ordered hremove
    have hall := hinv.result_mem
    rw [helems] at hall
    obtain ⟨⟨⟨k, hk, rfl⟩, -⟩, -⟩ := Multiset.forall_mem_cons.mp hall
    have hkey : A.elementKey (G.candidate k).element = k := hA.elementKey hk
    have hkeys : A.keys st.results.elems = k ::ₘ A.keys results.elems := by
      rw [helems, SearchAccess.keys, Multiset.map_cons, hkey]
      rfl
    have hle : A.keys results.elems + pending ≤ A.keys st.results.elems + pending := by
      rw [hkeys]
      exact add_le_add_left (Multiset.le_cons_self _ _) _
    refine ⟨hst.nodup, Multiset.nodup_of_le hle hst.distinct, ?_, ?_⟩
    · intro k' hk'
      exact hst.met k' (Multiset.mem_of_le hle hk')
    · intro k' hk' hlevel
      rcases hst.best k' hk' hlevel with hpending | hmem | ⟨-, hfar⟩
      · exact .inl hpending
      · rw [hkeys] at hmem
        rcases Multiset.mem_cons.mp hmem with rfl | hmem
        · refine .inr (.inr ⟨hfull, fun sc hsc => ?_⟩)
          have hworst := hfurthest sc hsc
          simp only [compareFurthestCandidates, decide_eq_false_iff_not, not_lt] at hworst
          exact hworst
        · exact .inr (.inl hmem)
      · refine .inr (.inr ⟨hfull, fun sc hsc => hfar sc ?_⟩)
        rw [helems]
        exact Multiset.mem_cons_of_mem hsc

theorem visitElement (hA : AccessReturns h A lc G I) (sizes : AllocSizes)
    (hturn : SearchTurn A G lc ef keeps returned (k ::ₘ pending) st)
    (hst : SearchBest A G lc ef (k ::ₘ pending) st) (hk : G.known k)
    {f : HnswSearchCandidate E D} (hf : st.results.first? = some f) :
    SearchBest A G lc ef pending
      (Hnsw.visitElement A sizes ef lc false st f (G.element k) (G.distance k)) := by
  have hfirst := hturn.distance_le_first hf
  unfold Hnsw.visitElement
  split
  · next hfar =>
    simp only [isAdded, Bool.not_eq_true', Bool.or_eq_false_iff, decide_eq_false_iff_not,
      not_lt] at hfar
    have hleft := hst.leave fun _ => ⟨hfar.2, fun sc hsc => (hfirst sc hsc).trans hfar.1⟩
    split <;> exact hleft.congr rfl rfl rfl
  · next hnear =>
    split
    · next hlevel => exact hst.leave fun hle => absurd hlevel (Nat.not_lt.mpr hle)
    · next hlevel =>
      simp only [isAdded, Bool.not_eq_true', Bool.not_eq_false, Bool.or_eq_true,
        decide_eq_true_eq] at hnear
      have hcounted : SearchInv A G lc keeps returned (k ::ₘ pending) (min st.wlen ef)
          { st with
            allocated := st.allocated + sizes.searchCandidate
            wlen := st.wlen + 1 } := { hturn.toSearchInv with }
      have hpushed := hcounted.push hA hk (Nat.le_of_not_lt hlevel)
      have hbest : SearchBest A G lc ef pending (pushCandidate { st with
          allocated := st.allocated + sizes.searchCandidate
          wlen := st.wlen + 1 } (G.candidate k)) := by
        refine hst.push hA hk ?_ (PairingHeap.elems_add _ _ hturn.results.root) rfl (Nat.le_succ _)
        intro hfull
        exact ⟨f, PairingHeap.mem_of_first? hf, hnear.resolve_right (Nat.not_lt.mpr hfull)⟩
      unfold addCandidate
      rw [if_pos (by simp [countElement])]
      split
      · next hfull => exact hbest.evict hA hpushed hfull.le
      · exact hbest

theorem expand [DecidableEq K] (links : List N) (hst : SearchBest A G lc ef 0 st) :
    SearchBest A G lc ef
      ((addToVisited A.neighborKey links st.visited).1.map A.neighborKey : List K)
      { st with visited := (addToVisited A.neighborKey links st.visited).2 } := by
  have hvisited := addToVisited_visited A.neighborKey links st.visited
  have hnodup := addToVisited_nodup A.neighborKey links hst.nodup
  have hmem : ∀ k, k ∈ (addToVisited A.neighborKey links st.visited).2 ↔ k ∈ st.visited ∨
      k ∈ (addToVisited A.neighborKey links st.visited).1.map A.neighborKey := by
    intro k
    rw [← Multiset.mem_coe, hvisited, Multiset.mem_add, Multiset.mem_coe, Multiset.mem_coe]
  have hsum := Multiset.coe_nodup.mpr hnodup
  rw [hvisited, Multiset.nodup_add] at hsum
  obtain ⟨-, hnew, hdisjoint⟩ := hsum
  have hold : ∀ k ∈ A.keys st.results.elems, k ∈ st.visited := by
    intro k hk
    exact hst.met k (Multiset.mem_add.mpr (.inl hk))
  refine ⟨hnodup, ?_, ?_, ?_⟩
  · rw [Multiset.nodup_add]
    have hdistinct := hst.distinct
    rw [add_zero] at hdistinct
    refine ⟨hdistinct, hnew, ?_⟩
    rw [Multiset.disjoint_left] at hdisjoint ⊢
    intro k hk
    exact hdisjoint (hold k hk)
  · intro k hk
    rcases Multiset.mem_add.mp hk with hk | hk
    · exact (hmem k).mpr (.inl (hold k hk))
    · exact (hmem k).mpr (.inr hk)
  · intro k hk hlevel
    rcases (hmem k).mp hk with hk | hk
    · exact .inr ((hst.best k hk hlevel).resolve_left (Multiset.notMem_zero k))
    · exact .inl hk

end SearchBest

theorem carried_best [DecidableEq K] (hA : AccessReturns h A lc G I) :
    Carried A G lc ef keeps returned (SearchBest A G lc ef) where
  frame := SearchBest.congr
  passed := fun hturn hf hfull hfar hst => hst.leave fun _ =>
    ⟨hfull, fun sc hsc => (hturn.distance_le_first hf sc hsc).trans hfar⟩
  visited := fun sizes hturn hk hf hst => hst.visitElement hA sizes hturn hk hf
  expanded := fun links hst => hst.expand links

/-! ## The result of a search -/

structure LayerSearched [DecidableEq K] (A : SearchAccess L E N K D)
    (G : SearchGraph E N K D) (lc ef : Nat) (ep w : List (HnswSearchCandidate E D))
    (st : SearchState E K D) : Prop where
  ordered : w.Pairwise fun a b => b.distance ≤ a.distance
  found : ∀ sc ∈ w, G.Candidate sc ∧ lc ≤ A.level sc.element ∧ A.elementKey sc.element ∈ st.visited
  distinct : (w.map fun sc => A.elementKey sc.element).Nodup
  nodup : st.visited.Nodup
  entered : ∀ sc ∈ ep, A.elementKey sc.element ∈ st.visited
  length : w.length = min ef (st.visited.filter fun k => lc ≤ A.level (G.element k)).length
  nearest : ∀ k ∈ st.visited, lc ≤ A.level (G.element k) →
    k ∉ w.map (fun sc => A.elementKey sc.element) → ∀ sc ∈ w, sc.distance ≤ G.distance k
  expanded : ∀ sc ∈ w, ∀ n ∈ G.links (A.elementKey sc.element), A.neighborKey n ∈ st.visited
  discarded : ∀ d ∈ st.discarded, ∀ k ∈ st.visited,
    k ∉ w.map (fun sc => A.elementKey sc.element) → (A.keys d.elems).count k = 1

theorem SearchBest.start {ep : List (HnswSearchCandidate E D)}
    (hdistinct : (ep.map fun sc => A.elementKey sc.element).Nodup)
    (hvisited : st.visited = (ep.map fun sc => A.elementKey sc.element).reverse)
    (hresults : st.results.elems = ep) : SearchBest A G lc ef 0 st := by
  have hkeys : A.keys st.results.elems = (ep.map fun sc => A.elementKey sc.element : List K) := by
    rw [hresults]
    rfl
  refine ⟨?_, ?_, ?_, ?_⟩
  · rw [hvisited]
    exact List.nodup_reverse.mpr hdistinct
  · rw [add_zero, hkeys]
    exact Multiset.coe_nodup.mpr hdistinct
  · intro k hk
    rw [add_zero, hkeys] at hk
    rw [hvisited]
    exact List.mem_reverse.mpr hk
  · intro k hk _
    rw [hvisited] at hk
    rw [hkeys]
    exact .inr (.inl (List.mem_reverse.mp hk))

theorem SearchBest.length {w : List (HnswSearchCandidate E D)} (hA : AccessReturns h A lc G I)
    (hturn : SearchTurn A G lc ef keeps returned 0 st) (hst : SearchBest A G lc ef 0 st)
    (hw : (w : Multiset _) = st.results.elems) :
    w.length = min ef (st.visited.filter fun k => lc ≤ A.level (G.element k)).length := by
  have hkeys : A.keys st.results.elems = (w.map fun sc => A.elementKey sc.element : List K) := by
    rw [← hw]
    rfl
  have hcard : w.length = min st.wlen ef := by
    rw [← hturn.card, ← hw, Multiset.coe_card]
  have hdistinct : (w.map fun sc => A.elementKey sc.element).Nodup := by
    have hnodup := hst.distinct
    rw [add_zero, hkeys] at hnodup
    exact Multiset.coe_nodup.mp hnodup
  have hsub : w.map (fun sc => A.elementKey sc.element) ⊆
      st.visited.filter fun k => lc ≤ A.level (G.element k) := by
    intro k hk
    have hmem : k ∈ A.keys st.results.elems := hkeys ▸ hk
    obtain ⟨sc, hsc, rfl⟩ := Multiset.mem_map.mp hmem
    obtain ⟨⟨k, hknown, rfl⟩, hlevel⟩ := hturn.result_mem sc hsc
    have hkey : A.elementKey (G.candidate k).element = k := hA.elementKey hknown
    rw [hkey] at hmem ⊢
    exact List.mem_filter.mpr ⟨hst.met k (Multiset.mem_add.mpr (.inl hmem)), decide_eq_true hlevel⟩
  have hle : w.length ≤ (st.visited.filter fun k => lc ≤ A.level (G.element k)).length := by
    simpa using (hdistinct.subperm hsub).length_le
  by_cases hall : st.visited.filter (fun k => lc ≤ A.level (G.element k)) ⊆
      w.map fun sc => A.elementKey sc.element
  · have hge := ((hst.nodup.filter _).subperm hall).length_le
    rw [List.length_map] at hge
    omega
  · -- an element was left out, so `W` is full
    simp only [List.subset_def, not_forall] at hall
    obtain ⟨k, hk, hout⟩ := hall
    obtain ⟨hvisited, hlevel⟩ := List.mem_filter.mp hk
    rcases hst.best k hvisited (by simpa using hlevel) with hnone | hin | ⟨hfull, -⟩
    · exact absurd hnone (Multiset.notMem_zero k)
    · rw [hkeys] at hin
      exact absurd hin hout
    · omega

variable [DecidableEq K] {s : S}

theorem hnswSearchLayer_nearest (hA : AccessReturns h A lc G I) (sizes : AllocSizes)
    {bound : Nat} (hbound : ∀ keys : List K, keys.Nodup → (∀ k ∈ keys, G.known k) →
      keys.length ≤ bound) {fuel : Nat} (hfuel : bound < fuel)
    (ep : List (HnswSearchCandidate E D))
    (hep : ∀ sc ∈ ep, G.Candidate sc ∧ lc ≤ A.level sc.element)
    (hdistinct : (ep.map fun sc => A.elementKey sc.element).Nodup) (hpos : 0 < ep.length)
    (hlength : ep.length ≤ ef) (m : Nat) (hground : st.discarded.isSome → lc = 0)
    (hs : I s) :
    (hnswSearchLayer A sizes fuel ep ef lc m false true st).Returns h s fun r t =>
      I t ∧ r.2.discarded.isSome = st.discarded.isSome ∧ LayerSearched A G lc ef ep r.1 r.2 := by
  obtain ⟨hturn, hvisited, hcard, hresults, -⟩ :=
    searchStart_turn hA sizes ep hep hdistinct hpos hlength m hground rfl
  have hbest : SearchBest A G lc ef 0 _ := SearchBest.start hdistinct hvisited hresults
  refine (hnswSearchLayer_carries hA (carried_best hA) sizes hbound fuel ep m true rfl hturn
    hbest ?_ hs).mono ?_
  · rw [hvisited, hcard, List.length_reverse, List.length_map]
    omega
  rintro ⟨w, st₁⟩ t ⟨ht, hresult, hsub, st', hturn', hbest', rfl, hsame⟩
  have hdrain := PairingHeap.elems_drain compareFurthestCandidates hturn'.results.root
  have hkeys : A.keys st'.results.elems = ((st'.results.drain compareFurthestCandidates).map
      fun sc => A.elementKey sc.element : List K) := by
    rw [← hdrain]
    rfl
  refine ⟨ht, hresult.isSome_discarded, ?_⟩
  refine
    { ordered := ?_, found := ?_, distinct := ?_, nodup := hresult.nodup, entered := ?_
      length := ?_, nearest := ?_, expanded := fun sc hsc => (hresult.found sc hsc).2.2
      discarded := ?_ }
  · have hpairwise := hturn'.results.pairwise_take isComparator_furthest st'.results.size
    refine hpairwise.imp ?_
    intro a b hab
    simpa [compareFurthestCandidates] using hab
  · intro sc hsc
    obtain ⟨hcandidate, hlevel, -⟩ := hresult.found sc hsc
    refine ⟨hcandidate, hlevel, hsame ▸ hbest'.met _ ?_⟩
    rw [add_zero, hkeys]
    exact List.mem_map.mpr ⟨sc, hsc, rfl⟩
  · have hnodup := hbest'.distinct
    rw [add_zero, hkeys] at hnodup
    exact Multiset.coe_nodup.mp hnodup
  · intro sc hsc
    apply hsub
    rw [hvisited]
    exact List.mem_reverse.mpr (List.mem_map_of_mem hsc)
  · rw [hsame]
    exact hbest'.length hA hturn' hdrain
  · intro k hk hlevel hout sc hsc
    rw [hsame] at hk
    rcases hbest'.best k hk hlevel with hnone | hin | ⟨-, hfar⟩
    · exact absurd hnone (Multiset.notMem_zero k)
    · rw [hkeys] at hin
      exact absurd hin hout
    · apply hfar
      rw [← hdrain]
      exact hsc
  · intro d hd k hk hout
    have hcount := congrArg (Multiset.count k) (hresult.accounted d hd)
    rw [add_zero, Multiset.count_add, Multiset.coe_count,
      List.count_eq_one_of_mem hresult.nodup hk] at hcount
    have hnone : Multiset.count k (A.keys (st'.results.drain compareFurthestCandidates)) = 0 :=
      Multiset.count_eq_zero.mpr hout
    rw [hnone, Nat.zero_add] at hcount
    exact hcount.symm

end Best

/-! ## Searching the graph in memory -/

section Memory

variable {V D F : Type} [LinearOrder D] [LinearOrder F]

def HnswGraph.Linked (graph : HnswGraph V F) : Prop :=
  ∀ ptr lc, ∀ c ∈ graph.neighbors ptr lc, c.element < graph.elements.length

def memoryGraph (graph : HnswGraph V F) (support : HnswSupport V D) (q : V) (lc : Nat) :
    SearchGraph (GraphPointer V) Nat Nat D where
  known ptr := ptr < graph.elements.length
  element ptr := (graph.pointer? ptr).getD ⟨ptr, 0, q⟩
  distance ptr := support.distance q ((graph.pointer? ptr).getD ⟨ptr, 0, q⟩).value
  links ptr := (graph.neighbors ptr lc).map HnswCandidate.element

variable {graph : HnswGraph V F} (ctx : InsertContext V D F) (support : HnswSupport V D)

omit [LinearOrder F] in
theorem HnswGraph.length_le_elements {ptrs : List Nat} (hnodup : ptrs.Nodup)
    (hknown : ∀ ptr ∈ ptrs, ptr < graph.elements.length) :
    ptrs.length ≤ graph.elements.length := by
  have hsub : ptrs ⊆ List.range graph.elements.length :=
    fun ptr hptr => List.mem_range.mpr (hknown ptr hptr)
  simpa using (hnodup.subperm hsub).length_le

omit [LinearOrder F] in
theorem HnswGraph.pointer?_eq_some {ptr : Nat} (h : ptr < graph.elements.length) :
    ∃ p, graph.pointer? ptr = some p ∧ p.ptr = ptr := by
  refine ⟨⟨ptr, graph.elements[ptr].level, graph.elements[ptr].value⟩, ?_, rfl⟩
  rw [pointer?, List.getElem?_eq_getElem h, Option.map_some]

omit [LinearOrder D] in
theorem readPointer_returns {ptr : Nat} {p : GraphPointer V} (h : graph.pointer? ptr = some p) :
    (readPointer ptr).Returns (graphHandler ctx) graph fun r t => r = p ∧ t = graph := by
  have hread : graphHandler ctx (.readElement ptr) graph = some (some p, graph) := by
    rw [graphHandler, h]
  exact .perform hread (.ret ⟨rfl, rfl⟩)

omit [LinearOrder D] in
theorem loadNeighbors_memory (graph : HnswGraph V F) (q : V) (lc : Nat) (p : GraphPointer V)
    (trace : Option HnswTraceStats) :
    ((memoryAccess support q lc).loadNeighbors p trace).Returns (graphHandler ctx) graph
      fun r t => r.1 = (graph.neighbors p.ptr lc).map HnswCandidate.element ∧ t = graph :=
  .perform rfl (.ret ⟨rfl, rfl⟩)

omit [LinearOrder D] in
theorem loadElement_memory (q : V) (lc : Nat) {ptr : Nat} {p : GraphPointer V}
    (h : graph.pointer? ptr = some p) (limit : Option D) (trace : Option HnswTraceStats) :
    ((memoryAccess support q lc).loadElement ptr limit trace).Returns (graphHandler ctx) graph
      fun r t => r.1 = support.distance q p.value ∧ r.2.1 = some p ∧ t = graph := by
  refine .bind (readPointer_returns ctx h) ?_
  rintro _ _ ⟨rfl, rfl⟩
  exact .ret ⟨rfl, rfl, rfl⟩

theorem memoryAccess_returns (hlinked : graph.Linked) (q : V) (lc : Nat) :
    AccessReturns (graphHandler ctx) (memoryAccess support q lc) lc
      (memoryGraph graph support q lc) (· = graph) where
  elementKey := by
    intro ptr hptr
    obtain ⟨p, hp, hsame⟩ := HnswGraph.pointer?_eq_some hptr
    simp only [memoryGraph, memoryAccess, hp, Option.getD_some]
    exact hsame
  links_known := by
    intro ptr n _ _ hn
    obtain ⟨c, hc, rfl⟩ := List.mem_map.mp hn
    exact hlinked ptr lc c hc
  loadNeighbors := by
    rintro ptr g trace hptr - rfl
    obtain ⟨p, hp, hsame⟩ := HnswGraph.pointer?_eq_some hptr
    have hread := loadNeighbors_memory ctx support g q lc p trace
    rw [hsame] at hread
    simp only [memoryGraph, hp, Option.getD_some]
    exact hread
  loadElement := by
    rintro ptr _ limit trace hptr rfl
    change ptr < _ at hptr
    obtain ⟨p, hp, -⟩ := HnswGraph.pointer?_eq_some hptr
    refine (loadElement_memory ctx support q lc hp limit trace).mono ?_
    rintro r _ ⟨hr, hp', rfl⟩
    refine ⟨?_, .inl ?_, rfl⟩
    · simp only [memoryGraph, memoryAccess, id, hp, Option.getD_some]
      exact hr
    · simp only [memoryGraph, memoryAccess, id, hp, Option.getD_some]
      exact hp'
  touchTrace := fun _ _ hs => .ret hs

omit [LinearOrder D] [LinearOrder F] in
theorem HnswGraph.Storable.linked {valueSize : V → Nat} {m : Nat} (h : graph.Storable valueSize m) :
    graph.Linked := by
  intro ptr lc c hc
  unfold neighbors at hc
  split at hc
  · cases hc
  · next e he =>
    split at hc
    · cases hc
    · cases ha : e.layers[e.level - lc]? with
      | none => simp [ha] at hc
      | some a =>
        rw [ha, Option.map_some, Option.getD_some] at hc
        exact (h.elements e (List.mem_of_getElem? he)).refers a (List.mem_of_getElem? ha) c hc

end Memory

/-! ## Every search of a layer -/

section Searches

variable {V D F : Type} [LinearOrder D] [LinearOrder F]

structure EntryList {L : Signature} {E N K D : Type} (A : SearchAccess L E N K D)
    (G : SearchGraph E N K D) (lc ef : Nat) (ep : List (HnswSearchCandidate E D)) : Prop where
  candidates : ∀ sc ∈ ep, G.Candidate sc ∧ lc ≤ A.level sc.element
  distinct : (ep.map fun sc => A.elementKey sc.element).Nodup
  pos : 0 < ep.length
  length_le : ep.length ≤ ef

/--
The search of a layer, on the pages of an index that nothing else uses and on the
graph of a build.
-/
theorem layer_search_nearest (sizes : AllocSizes) (lc ef fuel : Nat) :
    (∀ (support : HnswSupport V D) (q : Option V) (inserting : Bool) (self : ThreadId)
        (s : Shared V) (ep : List (DiskCandidate V D))
        (st : SearchState (HnswElement V) ItemPointer D),
      s.index.IsGraph → Alone self s → s.index.elements.length < fuel →
      EntryList (diskAccess support q s.index.metapage.m lc inserting)
        (loadedGraph s.index support q lc inserting fun _ => True) lc ef ep →
      (st.discarded.isSome → lc = 0) →
      (hnswSearchLayer (diskAccess support q s.index.metapage.m lc inserting) sizes fuel ep ef
        lc s.index.metapage.m false true st).Returns (hnswHandler self) s fun r t =>
          t.index = s.index ∧ r.2.discarded.isSome = st.discarded.isSome ∧
          LayerSearched (diskAccess support q s.index.metapage.m lc inserting)
            (loadedGraph s.index support q lc inserting fun _ => True) lc ef ep r.1 r.2) ∧
    ∀ (ctx : InsertContext V D F) (q : V) (graph : HnswGraph V F) (m : Nat)
        (ep : List (HnswSearchCandidate (GraphPointer V) D))
        (st : SearchState (GraphPointer V) Nat D),
      graph.Linked → graph.elements.length < fuel →
      EntryList (memoryAccess (F := F) ctx.support q lc) (memoryGraph graph ctx.support q lc)
        lc ef ep →
      (st.discarded.isSome → lc = 0) →
      (hnswSearchLayer (memoryAccess ctx.support q lc) sizes fuel ep ef lc m false true
        st).Returns (graphHandler ctx) graph fun r t =>
          t = graph ∧ r.2.discarded.isSome = st.discarded.isSome ∧
          LayerSearched (memoryAccess (F := F) ctx.support q lc)
            (memoryGraph graph ctx.support q lc) lc ef ep r.1 r.2 := by
  constructor
  · intro support q inserting self s ep st hgraph halone hfuel hep hground
    have hA : AccessReturns (hnswHandler self) _ lc _
        (Calm self s.index (limitTests (s.log self))) :=
      loadedAccess_returns hgraph support q lc inserting fun _ _ => trivial
    refine (hnswSearchLayer_nearest hA sizes ?_ hfuel ep hep.candidates hep.distinct hep.pos
      hep.length_le s.index.metapage.m hground ⟨rfl, halone, rfl⟩).mono ?_
    · intro tids hnodup hknown
      exact HnswIndex.length_le_elements hnodup fun tid htid => (hknown tid htid).1
    · rintro r t ⟨ht, hresult⟩
      exact ⟨ht.same, hresult⟩
  · intro ctx q graph m ep st hlinked hfuel hep hground
    exact hnswSearchLayer_nearest (memoryAccess_returns ctx ctx.support hlinked q lc) sizes
      (fun _ => HnswGraph.length_le_elements) hfuel ep hep.candidates hep.distinct hep.pos
      hep.length_le m hground rfl

end Searches

/-- A search from the first of three elements, and one of two elements in memory. -/
theorem layer_search_nearest_three :
    (hnswSearchLayer (diskAccess (serverContext 4).support (some 0) 2 0 false) default 4
        [(loadedGraph threeElementShared.index (serverContext 4).support (some 0) 0 false
          fun _ => True).candidate ⟨1, 1⟩] 2 0 2 false true
        ⟨.nil, .nil, 0, [], some .nil, 0, none, 0⟩).Returns (hnswHandler 0) threeElementShared
      (fun r t => t.index = threeElementShared.index ∧ r.2.discarded.isSome = true ∧
        LayerSearched (diskAccess (serverContext 4).support (some 0) 2 0 false)
          (loadedGraph threeElementShared.index (serverContext 4).support (some 0) 0 false
            fun _ => True) 0 2 [(loadedGraph threeElementShared.index
            (serverContext 4).support (some 0) 0 false fun _ => True).candidate ⟨1, 1⟩]
          r.1 r.2) ∧
    (hnswSearchLayer (memoryAccess (numberInserts 4).support 3 0) default 4
        [⟨⟨1, 1, 9⟩, 6⟩] 1 0 2 false true
        ⟨.nil, .nil, 0, [], none, 0, none, 0⟩).Returns (graphHandler (numberInserts 4))
      twoElementGraph (fun r t => t = twoElementGraph ∧ r.2.discarded.isSome = false ∧
        LayerSearched (memoryAccess (F := Nat) (numberInserts 4).support 3 0)
          (memoryGraph twoElementGraph (numberInserts 4).support 3 0) 0 1 [⟨⟨1, 1, 9⟩, 6⟩]
          r.1 r.2) := by
  constructor
  · refine (layer_search_nearest (F := Nat) default 0 2 4).1 (serverContext 4).support (some 0)
      false 0 threeElementShared _ _ threeElementShared_isGraph
      (rowShared_alone 1 2 3) (by decide) ?_ fun _ => rfl
    refine ⟨?_, List.nodup_singleton _, Nat.one_pos, by decide⟩
    rintro sc hsc
    obtain rfl := List.mem_singleton.mp hsc
    exact ⟨⟨⟨1, 1⟩, ⟨by decide, trivial⟩, rfl⟩, Nat.zero_le _⟩
  · refine (layer_search_nearest default 0 1 4).2 (numberInserts 4) 3 twoElementGraph 2 _ _
      twoElementGraph_storable.linked (by decide) ?_ fun _ => rfl
    refine ⟨?_, List.nodup_singleton _, Nat.one_pos, le_rfl⟩
    rintro sc hsc
    obtain rfl := List.mem_singleton.mp hsc
    exact ⟨⟨1, Nat.one_lt_two, rfl⟩, Nat.zero_le _⟩

end PgVector.Hnsw
