import PgVector.Hnsw.Search

/-!
# Searching a graph that does not change

What `hnswSearchLayer` finds while nothing else writes: the search returns, every
element it has met is either in the result or kept for later, and the neighbors
of every element of the result have been met.
-/

namespace PgVector.Hnsw

open Foundation

structure SearchGraph (E N K D : Type) where
  known : K → Prop
  element : K → E
  distance : K → D
  links : K → List N

namespace SearchGraph

variable {E N K D : Type} (G : SearchGraph E N K D)

def candidate (k : K) : HnswSearchCandidate E D := ⟨G.element k, G.distance k⟩

def Candidate (sc : HnswSearchCandidate E D) : Prop :=
  ∃ k, G.known k ∧ sc = G.candidate k

def Expanded (key : N → K) (visited : List K) (k : K) : Prop :=
  ∀ n ∈ G.links k, key n ∈ visited

variable {G}

theorem Expanded.mono {key : N → K} {visited visited' : List K} {k : K}
    (h : G.Expanded key visited k) (hsub : visited ⊆ visited') :
    G.Expanded key visited' k :=
  fun n hn => hsub (h n hn)

end SearchGraph

section Access

variable {L : Signature} {S E N K D : Type} [LinearOrder D]

structure AccessReturns (h : Handler L S) (A : SearchAccess L E N K D) (lc : Nat)
    (G : SearchGraph E N K D) (I : S → Prop) : Prop where
  elementKey : ∀ {k}, G.known k → A.elementKey (G.element k) = k
  links_known : ∀ {k n}, G.known k → lc ≤ A.level (G.element k) → n ∈ G.links k →
    G.known (A.neighborKey n)
  loadNeighbors : ∀ {k s} trace, G.known k → lc ≤ A.level (G.element k) → I s →
    (A.loadNeighbors (G.element k) trace).Returns h s fun r t =>
      r.1 = G.links k ∧ I t
  loadElement : ∀ {n s} limit trace, G.known (A.neighborKey n) → I s →
    (A.loadElement n limit trace).Returns h s fun r t =>
      r.1 = G.distance (A.neighborKey n) ∧
        (r.2.1 = some (G.element (A.neighborKey n)) ∨
          r.2.1 = none ∧ ∃ d ∈ limit, d ≤ G.distance (A.neighborKey n)) ∧ I t
  touchTrace : ∀ {s} trace f, I s → (A.touchTrace trace f).Returns h s fun _ t => I t

end Access

/-! ## The table of visited elements -/

section Visited

variable {N K : Type} [DecidableEq K] (key : N → K)

variable (neighbors : List N) (visited : List K)

theorem addToVisited_visited :
    ((addToVisited key neighbors visited).2 : Multiset K) =
      visited + (addToVisited key neighbors visited).1.map key := by
  induction neighbors generalizing visited with
  | nil => simp [addToVisited]
  | cons n rest ih =>
    unfold addToVisited
    split
    · exact ih visited
    · have hrest := ih (key n :: visited)
      simp only [List.map_cons, ← Multiset.cons_coe] at hrest ⊢
      rw [hrest, Multiset.cons_add, Multiset.add_cons]

theorem addToVisited_nodup {visited : List K} (h : visited.Nodup) :
    (addToVisited key neighbors visited).2.Nodup := by
  induction neighbors generalizing visited with
  | nil => exact h
  | cons n rest ih =>
    unfold addToVisited
    split
    · exact ih h
    · next hn => exact ih (List.nodup_cons.mpr ⟨hn, h⟩)

theorem subset_addToVisited : visited ⊆ (addToVisited key neighbors visited).2 := by
  intro k hk
  have hmem : k ∈ (visited : Multiset K) +
      ((addToVisited key neighbors visited).1.map key : List K) :=
    Multiset.mem_add.mpr (.inl hk)
  rwa [← addToVisited_visited] at hmem

theorem key_mem_addToVisited {neighbors : List N} {n : N} (hn : n ∈ neighbors)
    (visited : List K) : key n ∈ (addToVisited key neighbors visited).2 := by
  induction neighbors generalizing visited with
  | nil => cases hn
  | cons n' rest ih =>
    unfold addToVisited
    rcases List.mem_cons.mp hn with rfl | hn
    · split
      · next hmem => exact subset_addToVisited key rest visited hmem
      · exact subset_addToVisited key rest _ (.head _)
    · split
      · exact ih hn visited
      · exact ih hn _

theorem addToVisited_subset : (addToVisited key neighbors visited).1 ⊆ neighbors := by
  induction neighbors generalizing visited with
  | nil => exact List.Subset.refl _
  | cons n rest ih =>
    unfold addToVisited
    split
    · exact List.subset_cons_of_subset _ (ih visited)
    · exact List.cons_subset_cons _ (ih _)

end Visited

/-! ## What holds at every turn of the search -/

section Invariant

variable {L : Signature} {S E N K D : Type} [LinearOrder D]

def SearchAccess.keys (A : SearchAccess L E N K D)
    (candidates : Multiset (HnswSearchCandidate E D)) : Multiset K :=
  candidates.map fun sc => A.elementKey sc.element

/--
`W` has `size` elements.  Every element of the visited table is in `W`, has been
discarded, was `returned` by an earlier search or is still `pending`; this is
kept track of only if the search `keeps` the candidates it discards.
-/
structure SearchInv (A : SearchAccess L E N K D) (G : SearchGraph E N K D)
    (lc : Nat) (keeps : Bool) (returned pending : Multiset K) (size : Nat)
    (st : SearchState E K D) : Prop where
  candidates : PairingHeap.IsHeap compareNearestCandidates st.candidates
  results : PairingHeap.IsHeap compareFurthestCandidates st.results
  discarded : ∀ d ∈ st.discarded, PairingHeap.IsHeap compareNearestCandidates d
  candidate_mem : ∀ sc ∈ st.candidates.elems, G.Candidate sc ∧ lc ≤ A.level sc.element
  result_mem : ∀ sc ∈ st.results.elems, G.Candidate sc ∧ lc ≤ A.level sc.element
  discarded_mem : ∀ d ∈ st.discarded, ∀ sc ∈ d.elems, G.Candidate sc
  nodup : st.visited.Nodup
  known : ∀ k ∈ st.visited, G.known k
  card : st.results.elems.card = size
  expanded : ∀ sc ∈ st.results.elems, sc ∈ st.candidates.elems ∨
    G.Expanded A.neighborKey st.visited (A.elementKey sc.element)
  isSome_discarded : st.discarded.isSome = keeps
  ground : keeps = true → lc = 0
  accounted : ∀ d ∈ st.discarded, (st.visited : Multiset K) =
    A.keys st.results.elems + A.keys d.elems + returned + pending

namespace SearchInv

variable {h : Handler L S} {A : SearchAccess L E N K D} {G : SearchGraph E N K D}
  {I : S → Prop} {lc size : Nat} {keeps : Bool} {returned pending : Multiset K}
  {st : SearchState E K D} {k : K}

theorem congr (hst : SearchInv A G lc keeps returned pending size st)
    {st' : SearchState E K D} (hcandidates : st'.candidates = st.candidates)
    (hresults : st'.results = st.results) (hvisited : st'.visited = st.visited)
    (hdiscarded : st'.discarded = st.discarded) :
    SearchInv A G lc keeps returned pending size st' := by
  obtain ⟨_, _, _, _, _, _, _, _⟩ := st'
  simp only at hcandidates hresults hvisited hdiscarded
  subst hcandidates hresults hvisited hdiscarded
  exact { hst with }

theorem drop (hst : SearchInv A G lc keeps returned (k ::ₘ pending) size st)
    (hnone : st.discarded = none) : SearchInv A G lc keeps returned pending size st :=
  { hst with
    accounted := fun d hd => by
      rw [hnone] at hd
      cases hd }

theorem discard (hA : AccessReturns h A lc G I)
    (hst : SearchInv A G lc keeps returned (k ::ₘ pending) size st) (hk : G.known k) :
    SearchInv A G lc keeps returned pending size (discard st (G.candidate k)) := by
  have hadded : ∀ d ∈ (Hnsw.discard st (G.candidate k)).discarded,
      ∃ d₀ ∈ st.discarded, d = d₀.add compareNearestCandidates (G.candidate k) := by
    intro d hd
    obtain ⟨d₀, hd₀, rfl⟩ := Option.mem_map.mp hd
    exact ⟨d₀, hd₀, rfl⟩
  refine { hst with
    discarded := ?_, discarded_mem := ?_, isSome_discarded := ?_, accounted := ?_ }
  · intro d hd
    obtain ⟨d₀, hd₀, rfl⟩ := hadded d hd
    exact (hst.discarded d₀ hd₀).add isComparator_nearest _
  · intro d hd sc hsc
    obtain ⟨d₀, hd₀, rfl⟩ := hadded d hd
    rw [PairingHeap.elems_add _ _ (hst.discarded d₀ hd₀).root] at hsc
    rcases Multiset.mem_cons.mp hsc with rfl | hsc
    · exact ⟨k, hk, rfl⟩
    · exact hst.discarded_mem d₀ hd₀ sc hsc
  · rw [← hst.isSome_discarded, Hnsw.discard, Option.isSome_map]
  · intro d hd
    obtain ⟨d₀, hd₀, rfl⟩ := hadded d hd
    have hacc := hst.accounted d₀ hd₀
    rw [PairingHeap.elems_add _ _ (hst.discarded d₀ hd₀).root]
    simp only [SearchAccess.keys, Multiset.map_cons, SearchGraph.candidate,
      hA.elementKey hk] at hacc ⊢
    rw [Hnsw.discard, hacc, ← Multiset.singleton_add, ← Multiset.singleton_add]
    abel

theorem push (hA : AccessReturns h A lc G I)
    (hst : SearchInv A G lc keeps returned (k ::ₘ pending) size st) (hk : G.known k)
    (hlevel : lc ≤ A.level (G.element k)) :
    SearchInv A G lc keeps returned pending (size + 1) (pushCandidate st (G.candidate k)) := by
  have hcandidates : (pushCandidate st (G.candidate k)).candidates.elems =
      G.candidate k ::ₘ st.candidates.elems :=
    PairingHeap.elems_add _ _ hst.candidates.root
  have hresults : (pushCandidate st (G.candidate k)).results.elems =
      G.candidate k ::ₘ st.results.elems :=
    PairingHeap.elems_add _ _ hst.results.root
  have hmem : G.Candidate (G.candidate k) ∧ lc ≤ A.level (G.candidate k).element :=
    ⟨⟨k, hk, rfl⟩, hlevel⟩
  refine { hst with
    candidates := hst.candidates.add isComparator_nearest _
    results := hst.results.add isComparator_furthest _
    candidate_mem := ?_, result_mem := ?_, card := ?_, expanded := ?_
    accounted := ?_ }
  · rw [hcandidates]
    exact Multiset.forall_mem_cons.mpr ⟨hmem, hst.candidate_mem⟩
  · rw [hresults]
    exact Multiset.forall_mem_cons.mpr ⟨hmem, hst.result_mem⟩
  · rw [hresults, Multiset.card_cons, hst.card]
  · rw [hresults, hcandidates]
    refine Multiset.forall_mem_cons.mpr ⟨.inl (Multiset.mem_cons_self _ _), ?_⟩
    intro sc hsc
    exact (hst.expanded sc hsc).imp_left Multiset.mem_cons_of_mem
  · intro d hd
    have hacc := hst.accounted d hd
    rw [hresults]
    simp only [SearchAccess.keys, Multiset.map_cons, SearchGraph.candidate,
      hA.elementKey hk] at hacc ⊢
    rw [pushCandidate, hacc, ← Multiset.singleton_add, ← Multiset.singleton_add]
    abel

theorem exists_first (hst : SearchInv A G lc keeps returned pending size st)
    (hsize : 0 < size) : ∃ f, st.results.first? = some f := by
  cases hfirst : st.results.first? with
  | some f => exact ⟨f, rfl⟩
  | none =>
    have hcard := hst.card
    rw [PairingHeap.first?_eq_none.mp hfirst] at hcard
    simp at hcard
    omega

theorem distance_le_first (hst : SearchInv A G lc keeps returned pending size st)
    {f : HnswSearchCandidate E D} (hf : st.results.first? = some f) :
    ∀ sc ∈ st.results.elems, sc.distance ≤ f.distance := by
  intro sc hsc
  simpa [compareFurthestCandidates] using
    PairingHeap.first?_above isComparator_furthest hst.results.root hst.results.ordered hf sc hsc

theorem evict (hA : AccessReturns h A lc G I)
    (hst : SearchInv A G lc keeps returned pending (size + 1) st) :
    SearchInv A G lc keeps returned pending size (evictFurthest st) := by
  unfold evictFurthest
  cases hremove : st.results.removeFirst? compareFurthestCandidates with
  | none =>
    have hcard := hst.card
    rw [(PairingHeap.removeFirst?_eq_none _).mp hremove] at hcard
    simp at hcard
  | some removed =>
    obtain ⟨worst, results⟩ := removed
    obtain ⟨helems, -⟩ := PairingHeap.elems_removeFirst? _ hst.results.root hremove
    have hall := hst.result_mem
    rw [helems] at hall
    obtain ⟨⟨⟨k, hk, rfl⟩, -⟩, hrest⟩ := Multiset.forall_mem_cons.mp hall
    have hremoved : SearchInv A G lc keeps returned (k ::ₘ pending) size
        { st with results := results } := by
      refine { hst with
        results := hst.results.removeFirst? isComparator_furthest hremove
        result_mem := hrest, card := ?_, expanded := ?_, accounted := ?_ }
      · have hcard := hst.card
        rw [helems, Multiset.card_cons] at hcard
        exact Nat.succ.inj hcard
      · intro sc hsc
        apply hst.expanded
        rw [helems]
        exact Multiset.mem_cons_of_mem hsc
      · intro d hd
        have hacc := hst.accounted d hd
        rw [helems] at hacc
        simp only [SearchAccess.keys, Multiset.map_cons, SearchGraph.candidate,
          hA.elementKey hk] at hacc ⊢
        rw [hacc, ← Multiset.singleton_add, ← Multiset.singleton_add]
        abel
    exact hremoved.discard hA hk

theorem wlen_evictFurthest : (evictFurthest st).wlen = st.wlen := by
  unfold evictFurthest
  split <;> rfl

theorem visited_evictFurthest : (evictFurthest st).visited = st.visited := by
  unfold evictFurthest
  split <;> rfl

theorem candidates_evictFurthest : (evictFurthest st).candidates = st.candidates := by
  unfold evictFurthest
  split <;> rfl

theorem visitElement_frame (sizes : AllocSizes) (ef : Nat)
    (hst : SearchInv A G lc keeps returned pending size st) (f : HnswSearchCandidate E D)
    (e : E) (d : D) :
    (Hnsw.visitElement A sizes ef lc false st f e d).visited = st.visited ∧
      st.wlen ≤ (Hnsw.visitElement A sizes ef lc false st f e d).wlen ∧
      (Hnsw.visitElement A sizes ef lc false st f e d).candidates.elems.card ≤
        st.candidates.elems.card + 1 := by
  have hpush : (st.candidates.add compareNearestCandidates ⟨e, d⟩).elems.card =
      st.candidates.elems.card + 1 := by
    rw [PairingHeap.elems_add _ _ hst.candidates.root, Multiset.card_cons]
  unfold Hnsw.visitElement
  split
  · split <;> exact ⟨rfl, le_rfl, Nat.le_succ _⟩
  · split
    · exact ⟨rfl, le_rfl, Nat.le_succ _⟩
    · unfold addCandidate
      split
      · split
        · rw [visited_evictFurthest, candidates_evictFurthest, wlen_evictFurthest]
          exact ⟨rfl, Nat.le_succ _, hpush.le⟩
        · exact ⟨rfl, Nat.le_succ _, hpush.le⟩
      · exact ⟨rfl, le_rfl, hpush.le⟩

theorem expand [DecidableEq K] (hA : AccessReturns h A lc G I)
    (hst : SearchInv A G lc keeps returned 0 size st) (hk : G.known k)
    (hlevel : lc ≤ A.level (G.element k))
    {candidates : PairingHeap (HnswSearchCandidate E D)}
    (hpop : st.candidates.removeFirst? compareNearestCandidates =
      some (G.candidate k, candidates)) :
    SearchInv A G lc keeps returned
      (((addToVisited A.neighborKey (G.links k) st.visited).1.map A.neighborKey :
        List K) : Multiset K) size
      { st with
        candidates := candidates
        visited := (addToVisited A.neighborKey (G.links k) st.visited).2 } := by
  obtain ⟨helems, -⟩ := PairingHeap.elems_removeFirst? _ hst.candidates.root hpop
  have hmem := hst.candidate_mem
  rw [helems] at hmem
  have hvisited := addToVisited_visited A.neighborKey (G.links k) st.visited
  have hsub := subset_addToVisited A.neighborKey (G.links k) st.visited
  refine { hst with
    candidates := hst.candidates.removeFirst? isComparator_nearest hpop
    candidate_mem := (Multiset.forall_mem_cons.mp hmem).2
    nodup := addToVisited_nodup A.neighborKey _ hst.nodup
    known := ?_, expanded := ?_, accounted := ?_ }
  · intro k' hk'
    have hk' : k' ∈ (st.visited : Multiset K) +
        ((addToVisited A.neighborKey (G.links k) st.visited).1.map A.neighborKey : List K) := by
      rw [← hvisited]
      exact hk'
    rcases Multiset.mem_add.mp hk' with hold | hnew
    · exact hst.known k' hold
    · obtain ⟨n, hn, rfl⟩ := List.mem_map.mp (Multiset.mem_coe.mp hnew)
      exact hA.links_known hk hlevel (addToVisited_subset A.neighborKey _ _ hn)
  · intro sc hsc
    rcases hst.expanded sc hsc with hcandidate | hexpanded
    · rw [helems] at hcandidate
      rcases Multiset.mem_cons.mp hcandidate with rfl | hcandidate
      · right
        intro n hn
        have hkey : A.elementKey (G.candidate k).element = k := hA.elementKey hk
        rw [hkey] at hn
        exact key_mem_addToVisited A.neighborKey hn st.visited
      · exact .inl hcandidate
    · exact .inr (hexpanded.mono hsub)
  · intro d hd
    rw [hvisited, hst.accounted d hd, add_zero]

end SearchInv

structure SearchTurn (A : SearchAccess L E N K D) (G : SearchGraph E N K D)
    (lc ef : Nat) (keeps : Bool) (returned pending : Multiset K)
    (st : SearchState E K D) : Prop
    extends SearchInv A G lc keeps returned pending (min st.wlen ef) st where
  pos : 0 < min st.wlen ef

omit [LinearOrder D] in
theorem mem_loadLimit {ef wlen : Nat} {keepsDiscarded : Bool}
    {f : HnswSearchCandidate E D} {d : D} :
    d ∈ loadLimit ef wlen keepsDiscarded f ↔
      (ef ≤ wlen ∧ keepsDiscarded = false) ∧ f.distance = d := by
  unfold loadLimit
  split
  · next h =>
    rw [Bool.or_eq_true, decide_eq_true_eq] at h
    simp only [Option.not_mem_none, false_iff]
    rintro ⟨⟨hfull, hkeeps⟩, -⟩
    rcases h with hroom | hkept
    · omega
    · rw [hkeeps] at hkept
      cases hkept
  · next h =>
    simp only [Bool.or_eq_true, decide_eq_true_eq, not_or, Nat.not_lt, Bool.not_eq_true] at h
    rw [Option.mem_some_iff]
    exact ⟨fun hd => ⟨h, hd⟩, fun hd => hd.2⟩

theorem SearchTurn.visitElement {h : Handler L S} {A : SearchAccess L E N K D}
    {G : SearchGraph E N K D} {I : S → Prop} {lc ef : Nat} {keeps : Bool}
    {returned pending : Multiset K} {st : SearchState E K D} {k : K}
    (hA : AccessReturns h A lc G I) (sizes : AllocSizes)
    (hst : SearchTurn A G lc ef keeps returned (k ::ₘ pending) st) (hk : G.known k)
    (f : HnswSearchCandidate E D) :
    SearchTurn A G lc ef keeps returned pending
      (Hnsw.visitElement A sizes ef lc false st f (G.element k) (G.distance k)) := by
  have hinv := hst.toSearchInv
  have hwlen := (hinv.visitElement_frame sizes ef f (G.element k) (G.distance k)).2.1
  have hpos := hst.pos
  refine ⟨?_, by omega⟩
  clear hwlen
  have halloc : ∀ allocated, SearchInv A G lc keeps returned (k ::ₘ pending)
      (min st.wlen ef) { st with allocated := allocated } :=
    fun _ => { hinv with }
  unfold Hnsw.visitElement
  split
  · split
    · exact (halloc _).discard hA hk
    · next hnone => exact hinv.drop (by simpa using hnone)
  · split
    · next hlevel =>
      -- only an upper layer has elements that do not belong to it
      apply hinv.drop
      cases hdiscarded : st.discarded with
      | none => rfl
      | some d =>
        have hground := hinv.ground (by rw [← hinv.isSome_discarded, hdiscarded]; rfl)
        omega
    · next hlevel =>
      have hcounted : SearchInv A G lc keeps returned (k ::ₘ pending) (min st.wlen ef)
          { st with
            allocated := st.allocated + sizes.searchCandidate
            wlen := st.wlen + 1 } := { hinv with }
      have hpushed := hcounted.push hA hk (Nat.le_of_not_lt hlevel)
      unfold addCandidate
      rw [if_pos (by simp [countElement])]
      split
      · next hfull =>
        have hsize : min st.wlen ef = min (st.wlen + 1) ef := by
          simp only at hfull
          omega
        rw [hsize] at hpushed
        rw [SearchInv.wlen_evictFurthest]
        exact hpushed.evict hA
      · next hroom =>
        have hsize : min st.wlen ef + 1 = min (st.wlen + 1) ef := by
          simp only at hroom
          omega
        rw [hsize] at hpushed
        exact hpushed

/-- An invariant of `W` and the visited elements that the turns of a search keep. -/
structure Carried [DecidableEq K] (A : SearchAccess L E N K D) (G : SearchGraph E N K D)
    (lc ef : Nat) (keeps : Bool) (returned : Multiset K)
    (Q : Multiset K → SearchState E K D → Prop) : Prop where
  frame : ∀ {pending st st'}, Q pending st → st'.results = st.results →
    st'.visited = st.visited → st'.wlen = st.wlen → Q pending st'
  /-- An element that is too far away is not even loaded. -/
  passed : ∀ {k pending st f},
    SearchTurn A G lc ef keeps returned (k ::ₘ pending) st →
    st.results.first? = some f → ef ≤ st.wlen → f.distance ≤ G.distance k →
    Q (k ::ₘ pending) st → Q pending st
  visited : ∀ {k pending st f} (sizes : AllocSizes),
    SearchTurn A G lc ef keeps returned (k ::ₘ pending) st → G.known k →
    st.results.first? = some f → Q (k ::ₘ pending) st →
    Q pending (Hnsw.visitElement A sizes ef lc false st f (G.element k) (G.distance k))
  expanded : ∀ {st} (links : List N), Q 0 st →
    Q ((addToVisited A.neighborKey links st.visited).1.map A.neighborKey : List K)
      { st with visited := (addToVisited A.neighborKey links st.visited).2 }

theorem carried_true [DecidableEq K] {A : SearchAccess L E N K D} {G : SearchGraph E N K D}
    {lc ef : Nat} {keeps : Bool} {returned : Multiset K} :
    Carried A G lc ef keeps returned fun _ _ => True :=
  ⟨fun h _ _ _ => h, fun _ _ _ _ h => h, fun _ _ _ _ h => h, fun _ h => h⟩

section Search

variable {h : Handler L S} {A : SearchAccess L E N K D} {G : SearchGraph E N K D}
  {I : S → Prop} {lc ef : Nat} {keeps : Bool} {returned : Multiset K} {s : S}
  [DecidableEq K] {Q : Multiset K → SearchState E K D → Prop}

theorem visitUnvisited_returns (hA : AccessReturns h A lc G I)
    (hQ : Carried A G lc ef keeps returned Q) (sizes : AllocSizes)
    (unvisited : List N) {st : SearchState E K D}
    (hst : SearchTurn A G lc ef keeps returned
      ((unvisited.map A.neighborKey : List K) : Multiset K) st)
    (hknown : ∀ n ∈ unvisited, G.known (A.neighborKey n))
    (hq : Q ((unvisited.map A.neighborKey : List K) : Multiset K) st) (hs : I s) :
    (visitUnvisited A sizes ef lc false unvisited st).Returns h s fun st' t =>
      I t ∧ SearchTurn A G lc ef keeps returned 0 st' ∧ Q 0 st' ∧ st'.visited = st.visited ∧
        st'.candidates.elems.card ≤ st.candidates.elems.card + unvisited.length := by
  induction unvisited generalizing st s with
  | nil => exact .ret ⟨hs, hst, hq, rfl, le_rfl⟩
  | cons n rest ih =>
    obtain ⟨hn, hrest⟩ := List.forall_mem_cons.mp hknown
    obtain ⟨f, hf⟩ := hst.exists_first hst.pos
    unfold visitUnvisited
    rw [hf]
    refine .bind (hA.loadElement _ st.trace hn hs) ?_
    rintro ⟨eDistance, eElement, trace⟩ t ⟨hdistance, helement, ht⟩
    simp only at hdistance helement
    subst hdistance
    cases eElement with
    | none =>
      obtain ⟨limit, hlimit, hfar⟩ := (helement.resolve_left (Option.some_ne_none _).symm).2
      obtain ⟨⟨hfull, hnone⟩, rfl⟩ := mem_loadLimit.mp hlimit
      have hdiscarded : st.discarded = none := Option.not_isSome_iff_eq_none.mp (by simp [hnone])
      have hdropped : SearchTurn A G lc ef keeps returned
          ((rest.map A.neighborKey : List K) : Multiset K)
          { st with trace := trace } :=
        ⟨{ hst.drop hdiscarded with }, hst.pos⟩
      rw [List.map_cons, ← Multiset.cons_coe] at hst hq
      have hpassed := hQ.passed hst hf hfull hfar hq
      refine (ih hdropped hrest (hQ.frame hpassed rfl rfl rfl) ht).mono ?_
      rintro st' t' ⟨ht', hst', hq', hvisited, hcard⟩
      refine ⟨ht', hst', hq', hvisited, hcard.trans ?_⟩
      simp
    | some e =>
      obtain rfl : e = G.element (A.neighborKey n) := by
        rcases helement with hsome | ⟨hnone, -⟩
        · exact Option.some.inj hsome
        · cases hnone
      have hloaded : SearchTurn A G lc ef keeps returned
          (A.neighborKey n ::ₘ ((rest.map A.neighborKey : List K) : Multiset K))
          { st with
            trace := trace
            allocated := st.allocated + sizes.element } :=
        ⟨{ hst.toSearchInv with }, hst.pos⟩
      have hframe := hloaded.visitElement_frame sizes ef f
        (G.element (A.neighborKey n)) (G.distance (A.neighborKey n))
      have hvisit := hQ.visited sizes hloaded hn hf (hQ.frame hq rfl rfl rfl)
      refine (ih (hloaded.visitElement hA sizes hn f) hrest hvisit ht).mono ?_
      rintro st' t' ⟨ht', hst', hq', hvisited, hcard⟩
      refine ⟨ht', hst', hq', hvisited.trans hframe.1, ?_⟩
      have hone := hframe.2.2
      simp only [List.length_cons] at hcard hone ⊢
      omega

theorem expandCandidate_returns (hA : AccessReturns h A lc G I)
    (hQ : Carried A G lc ef keeps returned Q) (sizes : AllocSizes)
    {st : SearchState E K D} (hst : SearchTurn A G lc ef keeps returned 0 st) (hq : Q 0 st)
    {k : K} (hk : G.known k) (hlevel : lc ≤ A.level (G.element k))
    {candidates : PairingHeap (HnswSearchCandidate E D)}
    (hpop : st.candidates.removeFirst? compareNearestCandidates =
      some (G.candidate k, candidates)) (hs : I s) :
    (expandCandidate A sizes ef lc false (G.element k)
      { st with candidates := candidates }).Returns h s fun st' t =>
      I t ∧ SearchTurn A G lc ef keeps returned 0 st' ∧ Q 0 st' ∧
        st.visited ⊆ st'.visited ∧ st'.candidates.elems.card + st.visited.length <
          st.candidates.elems.card + st'.visited.length := by
  have hturn : ∀ tuples trace allocated, SearchTurn A G lc ef keeps returned
      (((addToVisited A.neighborKey (G.links k) st.visited).1.map A.neighborKey :
        List K) : Multiset K)
      { st with
        candidates := candidates
        visited := (addToVisited A.neighborKey (G.links k) st.visited).2
        tuples := tuples
        trace := trace
        allocated := allocated } :=
    fun _ _ _ => ⟨{ hst.expand hA hk hlevel hpop with }, hst.pos⟩
  have hvisited := addToVisited_visited A.neighborKey (G.links k) st.visited
  have hsub := addToVisited_subset A.neighborKey (G.links k) st.visited
  refine .bind (hA.loadNeighbors st.trace hk hlevel hs) ?_
  rintro ⟨neighbors, trace⟩ t ⟨hneighbors, ht⟩
  simp only at hneighbors
  subst hneighbors
  refine .bind (hA.touchTrace trace _ ht) ?_
  intro trace' t' ht'
  have hmet := hQ.expanded (G.links k) hq
  refine .mono
    (visitUnvisited_returns hA hQ sizes _ (hturn _ _ _) ?_ (hQ.frame hmet rfl rfl rfl) ht') ?_
  · intro n hn
    exact hA.links_known hk hlevel (hsub hn)
  rintro st' u ⟨hu, hst', hq', hsame, hcard⟩
  refine ⟨hu, hst', hq', ?_, ?_⟩
  · rw [hsame]
    exact subset_addToVisited A.neighborKey _ _
  · obtain ⟨helems, -⟩ := PairingHeap.elems_removeFirst? _ hst.candidates.root hpop
    have hlength := congrArg Multiset.card hvisited
    rw [hsame, helems, Multiset.card_cons]
    simp only [Multiset.card_add, Multiset.coe_card, List.length_map] at hlength
    simp only at hcard ⊢
    omega

variable {bound : Nat} {st₀ : SearchState E K D}

/--
The search ends, and the neighbors of every element that is left in `W` have been
met: a candidate that is not expanded is further away than all of `W`.
-/
theorem searchLoop_returns (hA : AccessReturns h A lc G I)
    (hQ : Carried A G lc ef keeps returned Q) (sizes : AllocSizes)
    (hbound : ∀ keys : List K, keys.Nodup → (∀ k ∈ keys, G.known k) → keys.length ≤ bound)
    (fuel : Nat) {st : SearchState E K D} (hst : SearchTurn A G lc ef keeps returned 0 st)
    (hq : Q 0 st) (hfuel : st.candidates.elems.card + bound < fuel + st.visited.length) (hs : I s) :
    (searchLoop A sizes ef lc false fuel st).Returns h s fun st' t =>
      I t ∧ SearchTurn A G lc ef keeps returned 0 st' ∧ Q 0 st' ∧
        st.visited ⊆ st'.visited ∧ ∀ sc ∈ st'.results.elems,
          G.Expanded A.neighborKey st'.visited (A.elementKey sc.element) := by
  induction fuel generalizing st s with
  | zero =>
    have hle := hbound st.visited hst.nodup hst.known
    omega
  | succ fuel ih =>
    unfold searchLoop
    cases hpop : st.candidates.removeFirst? compareNearestCandidates with
    | none =>
      refine .ret ⟨hs, hst, hq, List.Subset.refl _, fun sc hsc => ?_⟩
      have hnil := (PairingHeap.removeFirst?_eq_none _).mp hpop
      rcases hst.expanded sc hsc with hcandidate | hexpanded
      · simp [hnil] at hcandidate
      · exact hexpanded
    | some popped =>
      obtain ⟨c, candidates⟩ := popped
      obtain ⟨helems, -⟩ := PairingHeap.elems_removeFirst? _ hst.candidates.root hpop
      obtain ⟨-, hnearest⟩ :=
        PairingHeap.ordered_removeFirst? isComparator_nearest hst.candidates.ordered hpop
      have hmem := hst.candidate_mem
      rw [helems] at hmem
      obtain ⟨⟨⟨k, hk, rfl⟩, hlevel⟩, hrest⟩ := Multiset.forall_mem_cons.mp hmem
      obtain ⟨f, hf⟩ := hst.exists_first hst.pos
      rw [hf]
      dsimp only
      split
      · next hfar =>
        have hexpanded : ∀ sc ∈ st.results.elems,
            G.Expanded A.neighborKey st.visited (A.elementKey sc.element) := by
          intro sc hsc
          refine (hst.expanded sc hsc).resolve_left fun hcandidate => ?_
          have hnear := hst.distance_le_first hf sc hsc
          have hcandidate' : (G.candidate k).distance ≤ sc.distance := by
            rw [helems] at hcandidate
            rcases Multiset.mem_cons.mp hcandidate with rfl | hcandidate
            · exact le_rfl
            · simpa [compareNearestCandidates] using hnearest sc hcandidate
          exact absurd (hcandidate'.trans hnear) (not_le.mpr hfar)
        refine .ret ⟨hs, ⟨?_, hst.pos⟩, hQ.frame hq rfl rfl rfl, List.Subset.refl _, hexpanded⟩
        exact
          { hst with
            candidates := hst.candidates.removeFirst? isComparator_nearest hpop
            candidate_mem := hrest
            expanded := fun sc hsc => .inr (hexpanded sc hsc) }
      · refine .bind (expandCandidate_returns hA hQ sizes hst hq hk hlevel hpop hs) ?_
        rintro st' t ⟨ht, hst', hq', hsub, hless⟩
        refine (ih hst' hq' (by omega) ht).mono ?_
        rintro st'' u ⟨hu, hst'', hq'', hsub', hexpanded⟩
        exact ⟨hu, hst'', hq'', List.Subset.trans hsub hsub', hexpanded⟩

/-! ## The search of a layer -/

structure SearchResult (A : SearchAccess L E N K D) (G : SearchGraph E N K D)
    (lc ef : Nat) (keeps : Bool) (returned : Multiset K)
    (w : List (HnswSearchCandidate E D)) (st : SearchState E K D) : Prop where
  found : ∀ sc ∈ w, G.Candidate sc ∧ lc ≤ A.level sc.element ∧
    G.Expanded A.neighborKey st.visited (A.elementKey sc.element)
  length_pos : 0 < w.length
  length_le : w.length ≤ ef
  isSome_discarded : st.discarded.isSome = keeps
  discarded : ∀ d ∈ st.discarded, PairingHeap.IsHeap compareNearestCandidates d
  discarded_mem : ∀ d ∈ st.discarded, ∀ sc ∈ d.elems, G.Candidate sc
  nodup : st.visited.Nodup
  known : ∀ k ∈ st.visited, G.known k
  accounted : ∀ d ∈ st.discarded, (st.visited : Multiset K) = A.keys w + A.keys d.elems + returned

theorem hnswSearchLayer_carries (hA : AccessReturns h A lc G I)
    (hQ : Carried A G lc ef keeps returned Q) (sizes : AllocSizes)
    (hbound : ∀ keys : List K, keys.Nodup → (∀ k ∈ keys, G.known k) → keys.length ≤ bound)
    (fuel : Nat) (ep : List (HnswSearchCandidate E D)) (m : Nat) (initVisited : Bool)
    {st : SearchState E K D}
    (hstart : ep.foldl (addEntryPoint A false initVisited)
      (searchStart sizes ef m (hnswGetLayerM m lc) initVisited st) = st₀)
    (hst₀ : SearchTurn A G lc ef keeps returned 0 st₀) (hq : Q 0 st₀)
    (hfuel : st₀.candidates.elems.card + bound < fuel + st₀.visited.length) (hs : I s) :
    (hnswSearchLayer A sizes fuel ep ef lc m false initVisited st).Returns h s
      fun r t => I t ∧ SearchResult A G lc ef keeps returned r.1 r.2 ∧
        st₀.visited ⊆ r.2.visited ∧
        ∃ st', SearchTurn A G lc ef keeps returned 0 st' ∧ Q 0 st' ∧
          r.1 = st'.results.drain compareFurthestCandidates ∧
          r.2.visited = st'.visited := by
  unfold hnswSearchLayer
  dsimp only
  rw [hstart]
  refine .bind (searchLoop_returns hA hQ sizes hbound fuel hst₀ hq hfuel hs) ?_
  rintro st' t ⟨ht, hst', hq', hsub, hexpanded⟩
  have hdrain := PairingHeap.elems_drain compareFurthestCandidates hst'.results.root
  have hmem : ∀ sc ∈ st'.results.drain compareFurthestCandidates, sc ∈ st'.results.elems := by
    intro sc hsc
    rw [← hdrain]
    exact hsc
  have hlength : (st'.results.drain compareFurthestCandidates).length = min st'.wlen ef := by
    rw [← Multiset.coe_card, hdrain, hst'.card]
  refine .ret ⟨ht, ?_, hsub, st', hst', hq', rfl, rfl⟩
  refine
    { found := ?_, length_pos := hlength ▸ hst'.pos
      length_le := hlength ▸ Nat.min_le_right _ _
      isSome_discarded := hst'.isSome_discarded
      discarded := hst'.discarded, discarded_mem := hst'.discarded_mem
      nodup := hst'.nodup, known := hst'.known, accounted := ?_ }
  · intro sc hsc
    obtain ⟨hcandidate, hlevel⟩ := hst'.result_mem sc (hmem sc hsc)
    exact ⟨hcandidate, hlevel, hexpanded sc (hmem sc hsc)⟩
  · intro d hd
    rw [hdrain, hst'.accounted d hd, add_zero]

theorem hnswSearchLayer_returns (hA : AccessReturns h A lc G I) (sizes : AllocSizes)
    (hbound : ∀ keys : List K, keys.Nodup → (∀ k ∈ keys, G.known k) → keys.length ≤ bound)
    (fuel : Nat) (ep : List (HnswSearchCandidate E D)) (m : Nat) (initVisited : Bool)
    {st : SearchState E K D}
    (hstart : ep.foldl (addEntryPoint A false initVisited)
      (searchStart sizes ef m (hnswGetLayerM m lc) initVisited st) = st₀)
    (hst₀ : SearchTurn A G lc ef keeps returned 0 st₀)
    (hfuel : st₀.candidates.elems.card + bound < fuel + st₀.visited.length) (hs : I s) :
    (hnswSearchLayer A sizes fuel ep ef lc m false initVisited st).Returns h s
      fun r t => I t ∧ SearchResult A G lc ef keeps returned r.1 r.2 ∧
        st₀.visited ⊆ r.2.visited := by
  refine (hnswSearchLayer_carries hA carried_true sizes hbound fuel ep m initVisited hstart
    hst₀ trivial hfuel hs).mono ?_
  rintro r t ⟨ht, hresult, hsub, -⟩
  exact ⟨ht, hresult, hsub⟩

theorem foldl_addEntryPoint_inv (hA : AccessReturns h A lc G I)
    (ep : List (HnswSearchCandidate E D)) {size : Nat} {st : SearchState E K D}
    (hst : SearchInv A G lc keeps returned (A.keys ep) size st) (hwlen : st.wlen = size)
    (hep : ∀ sc ∈ ep, G.Candidate sc ∧ lc ≤ A.level sc.element) :
    SearchInv A G lc keeps returned 0 (size + ep.length)
        (ep.foldl (addEntryPoint A false false) st) ∧
      (ep.foldl (addEntryPoint A false false) st).wlen = size + ep.length ∧
      (ep.foldl (addEntryPoint A false false) st).visited = st.visited ∧
      (ep.foldl (addEntryPoint A false false) st).candidates.elems.card =
        st.candidates.elems.card + ep.length ∧
      (ep.foldl (addEntryPoint A false false) st).results.elems = ep + st.results.elems := by
  induction ep generalizing st size with
  | nil => exact ⟨hst, hwlen, rfl, rfl, (zero_add _).symm⟩
  | cons sc rest ih =>
    obtain ⟨⟨⟨k, hk, rfl⟩, hlevel⟩, hrest⟩ := List.forall_mem_cons.mp hep
    have hkeys : A.keys (G.candidate k :: rest : List _) = k ::ₘ A.keys rest := by
      simp [SearchAccess.keys, SearchGraph.candidate, hA.elementKey hk]
    rw [hkeys] at hst
    have hadded : SearchInv A G lc keeps returned (A.keys rest) (size + 1)
        (addEntryPoint A false false st (G.candidate k)) :=
      { hst.push hA hk hlevel with }
    have hcard : (addEntryPoint A false false st
        (G.candidate k)).candidates.elems.card = st.candidates.elems.card + 1 := by
      rw [addEntryPoint, PairingHeap.elems_add _ _ hst.candidates.root, Multiset.card_cons]
    have hresults : (addEntryPoint A false false st (G.candidate k)).results.elems =
        G.candidate k ::ₘ st.results.elems := PairingHeap.elems_add _ _ hst.results.root
    obtain ⟨hinv, hlength, hvisited, hcards, helems⟩ :=
      ih hadded (congrArg (· + 1) hwlen) hrest
    rw [List.foldl_cons, List.length_cons]
    refine ⟨?_, ?_, hvisited, ?_, ?_⟩
    · rwa [Nat.add_right_comm] at hinv
    · omega
    · omega
    · rw [helems, hresults, ← Multiset.cons_coe, Multiset.add_cons, Multiset.cons_add]

theorem foldl_addEntryPoint_visited (ep : List (HnswSearchCandidate E D))
    (st st' : SearchState E K D) (hcandidates : st'.candidates = st.candidates)
    (hresults : st'.results = st.results) (hwlen : st'.wlen = st.wlen)
    (hdiscarded : st'.discarded = st.discarded)
    (hdistinct : (ep.map fun sc => A.elementKey sc.element).Nodup)
    (hnew : ∀ sc ∈ ep, A.elementKey sc.element ∉ st'.visited) :
    (ep.foldl (addEntryPoint A false true) st').candidates =
        (ep.foldl (addEntryPoint A false false) st).candidates ∧
      (ep.foldl (addEntryPoint A false true) st').results =
        (ep.foldl (addEntryPoint A false false) st).results ∧
      (ep.foldl (addEntryPoint A false true) st').wlen =
        (ep.foldl (addEntryPoint A false false) st).wlen ∧
      (ep.foldl (addEntryPoint A false true) st').discarded =
        (ep.foldl (addEntryPoint A false false) st).discarded ∧
      (ep.foldl (addEntryPoint A false true) st').visited =
        (ep.map fun sc => A.elementKey sc.element).reverse ++ st'.visited := by
  induction ep generalizing st st' with
  | nil => exact ⟨hcandidates, hresults, hwlen, hdiscarded, rfl⟩
  | cons sc rest ih =>
    obtain ⟨hfirst, hdistinct⟩ := List.nodup_cons.mp hdistinct
    have hvisited : (addEntryPoint A false true st' sc).visited =
        A.elementKey sc.element :: st'.visited := by
      simp [addEntryPoint, hnew sc (List.mem_cons_self ..)]
    obtain ⟨hc, hr, hw, hd, hv⟩ := ih (addEntryPoint A false false st sc)
      (addEntryPoint A false true st' sc)
      (by simp only [addEntryPoint, hcandidates]) (by simp only [addEntryPoint, hresults])
      (by simp only [addEntryPoint, hwlen]) hdiscarded hdistinct (by
        intro sc' hsc'
        rw [hvisited, List.mem_cons, not_or]
        refine ⟨fun heq => hfirst ?_, hnew sc' (.tail _ hsc')⟩
        exact List.mem_map.mpr ⟨sc', hsc', heq⟩)
    refine ⟨hc, hr, hw, hd, ?_⟩
    rw [List.foldl_cons, hv, hvisited, List.map_cons, List.reverse_cons, List.append_assoc,
      List.singleton_append]

theorem searchStart_turn (hA : AccessReturns h A lc G I) (sizes : AllocSizes)
    (ep : List (HnswSearchCandidate E D))
    (hep : ∀ sc ∈ ep, G.Candidate sc ∧ lc ≤ A.level sc.element)
    (hdistinct : (ep.map fun sc => A.elementKey sc.element).Nodup) (hpos : 0 < ep.length)
    (hlength : ep.length ≤ ef) (m : Nat) {st : SearchState E K D}
    (hground : st.discarded.isSome → lc = 0)
    (hstart : ep.foldl (addEntryPoint A false true)
      (searchStart sizes ef m (hnswGetLayerM m lc) true st) = st₀) :
    SearchTurn A G lc ef st.discarded.isSome 0 0 st₀ ∧
      st₀.visited = (ep.map fun sc => A.elementKey sc.element).reverse ∧
      st₀.candidates.elems.card = ep.length ∧ st₀.results.elems = ep ∧
      st₀.wlen = ep.length := by
  have hnone : ∀ d ∈ st.discarded.map fun _ => (.nil : PairingHeap _), d =
      (.nil : PairingHeap (HnswSearchCandidate E D)) := by
    intro d hd
    obtain ⟨_, _, rfl⟩ := Option.mem_map.mp hd
    rfl
  have hempty : SearchInv A G lc st.discarded.isSome 0 (A.keys ep) 0
      { searchStart sizes ef m (hnswGetLayerM m lc) true st with
        visited := (ep.map fun sc => A.elementKey sc.element).reverse } := by
    refine
      { candidates := PairingHeap.isHeap_nil, results := PairingHeap.isHeap_nil
        discarded := ?_, candidate_mem := ?_, result_mem := ?_, discarded_mem := ?_
        nodup := List.nodup_reverse.mpr hdistinct, known := ?_, card := rfl, expanded := ?_
        isSome_discarded := ?_, ground := hground, accounted := ?_ }
    · intro d hd
      rw [hnone d hd]
      exact PairingHeap.isHeap_nil
    · intro sc hsc
      simp [searchStart] at hsc
    · intro sc hsc
      simp [searchStart] at hsc
    · intro d hd sc hsc
      rw [hnone d hd] at hsc
      simp at hsc
    · intro k hk
      obtain ⟨sc, hsc, rfl⟩ := List.mem_map.mp (List.mem_reverse.mp hk)
      obtain ⟨⟨k, hknown, rfl⟩, -⟩ := hep sc hsc
      have hkey : A.elementKey (G.candidate k).element = k := hA.elementKey hknown
      rw [hkey]
      exact hknown
    · intro sc hsc
      simp [searchStart] at hsc
    · simp [searchStart]
    · intro d hd
      rw [hnone d hd]
      simp [searchStart, SearchAccess.keys]
  obtain ⟨hinv, hwlen, hvisited, hcard, helems⟩ := foldl_addEntryPoint_inv hA ep hempty rfl hep
  obtain ⟨hc, hr, hw, hd, hv⟩ := foldl_addEntryPoint_visited (A := A) ep
    { searchStart sizes ef m (hnswGetLayerM m lc) true st with
      visited := (ep.map fun sc => A.elementKey sc.element).reverse }
    (searchStart sizes ef m (hnswGetLayerM m lc) true st) rfl rfl rfl rfl hdistinct
    (by simp [searchStart])
  rw [hstart] at hc hr hw hd hv
  have hvisit : st₀.visited = (ep.map fun sc => A.elementKey sc.element).reverse := by
    rw [hv]
    exact List.append_nil _
  have hwidth : st₀.wlen = ep.length := by
    rw [hw, hwlen, Nat.zero_add]
  refine ⟨⟨?_, by omega⟩, hvisit, ?_, ?_, hwidth⟩
  · have hsize : min st₀.wlen ef = 0 + ep.length := by omega
    rw [hsize]
    exact hinv.congr hc hr (hvisit.trans hvisited.symm) hd
  · rw [hc, hcard]
    exact Nat.zero_add _
  · rw [hr, helems]
    exact add_zero _

theorem hnswSearchLayer_returns_first (hA : AccessReturns h A lc G I) (sizes : AllocSizes)
    (hbound : ∀ keys : List K, keys.Nodup → (∀ k ∈ keys, G.known k) → keys.length ≤ bound)
    {fuel : Nat} (hfuel : bound < fuel) {k : K} (hk : G.known k)
    (hlevel : lc ≤ A.level (G.element k)) (hef : 0 < ef) (m : Nat) {st : SearchState E K D}
    (hground : st.discarded.isSome → lc = 0) (hs : I s) :
    (hnswSearchLayer A sizes fuel [G.candidate k] ef lc m false true st).Returns h s
      fun r t => I t ∧ SearchResult A G lc ef st.discarded.isSome 0 r.1 r.2 ∧ k ∈ r.2.visited := by
  have hkey : A.elementKey (G.candidate k).element = k := hA.elementKey hk
  obtain ⟨hturn, hvisited, hcard, -⟩ := searchStart_turn hA sizes [G.candidate k]
    (by simpa using ⟨⟨k, hk, rfl⟩, hlevel⟩) (List.nodup_singleton _) Nat.one_pos hef m hground
    rfl
  refine .mono (hnswSearchLayer_returns hA sizes hbound fuel
    [G.candidate k] m true rfl hturn ?_ hs) ?_
  · rw [hvisited, hcard]
    simp only [List.length_reverse, List.length_map, List.length_singleton]
    omega
  · rintro r t ⟨ht, hresult, hsub⟩
    refine ⟨ht, hresult, hsub ?_⟩
    rw [hvisited]
    simp [hkey]

theorem hnswSearchLayer_returns_resumed (hA : AccessReturns h A 0 G I) (sizes : AllocSizes)
    (hbound : ∀ keys : List K, keys.Nodup → (∀ k ∈ keys, G.known k) → keys.length ≤ bound)
    {fuel : Nat} (hfuel : bound < fuel) (ep : List (HnswSearchCandidate E D))
    (hep : ∀ sc ∈ ep, G.Candidate sc) (hpos : 0 < ep.length) (hlength : ep.length ≤ ef) (m : Nat)
    {st : SearchState E K D} {d : PairingHeap (HnswSearchCandidate E D)}
    (hst : st.discarded = some d) (hd : PairingHeap.IsHeap compareNearestCandidates d)
    (hmem : ∀ sc ∈ d.elems, G.Candidate sc) (hnodup : st.visited.Nodup)
    (hknown : ∀ k ∈ st.visited, G.known k)
    (haccounted : (st.visited : Multiset K) = A.keys ep + A.keys d.elems + returned) (hs : I s) :
    (hnswSearchLayer A sizes fuel ep ef 0 m false false st).Returns h s
      fun r t => I t ∧ SearchResult A G 0 ef true returned r.1 r.2 ∧ st.visited ⊆ r.2.visited := by
  have hsame : ∀ d' ∈ st.discarded, d' = d := by
    intro d' hd'
    rw [hst] at hd'
    exact (Option.some.inj hd').symm
  have hstart : SearchInv A G 0 true returned (A.keys ep) 0
      (searchStart sizes ef m (hnswGetLayerM m 0) false st) := by
    refine
      { candidates := PairingHeap.isHeap_nil, results := PairingHeap.isHeap_nil
        discarded := ?_, candidate_mem := ?_, result_mem := ?_, discarded_mem := ?_
        nodup := hnodup, known := hknown, card := rfl, expanded := ?_
        isSome_discarded := congrArg Option.isSome hst
        ground := fun _ => rfl, accounted := ?_ }
    · intro d' hd'
      rw [hsame d' hd']
      exact hd
    · intro sc hsc
      simp [searchStart] at hsc
    · intro sc hsc
      simp [searchStart] at hsc
    · intro d' hd'
      rw [hsame d' hd']
      exact hmem
    · intro sc hsc
      simp [searchStart] at hsc
    · intro d' hd'
      rw [hsame d' hd']
      have hnil : A.keys (searchStart sizes ef m (hnswGetLayerM m 0) false
          st).results.elems = 0 := rfl
      rw [hnil, zero_add, add_comm, ← add_assoc]
      exact haccounted
  obtain ⟨hinv, hwlen, hvisited, hcard, -⟩ := foldl_addEntryPoint_inv hA ep hstart rfl
    fun sc hsc => ⟨hep sc hsc, Nat.zero_le _⟩
  have hwidth : min (0 + ep.length) ef = 0 + ep.length := by omega
  have hturn : SearchTurn A G 0 ef true returned 0 (ep.foldl (addEntryPoint A false false)
      (searchStart sizes ef m (hnswGetLayerM m 0) false st)) := by
    refine ⟨?_, ?_⟩
    · rw [hwlen, hwidth]
      exact hinv
    · omega
  refine .mono (hnswSearchLayer_returns hA sizes hbound fuel ep m false rfl hturn ?_ hs) ?_
  · have hcards := congrArg Multiset.card haccounted
    simp only [SearchAccess.keys, Multiset.card_add, Multiset.card_map, Multiset.coe_card] at hcards
    rw [hvisited, hcard]
    have hzero : (searchStart sizes ef m (hnswGetLayerM m 0) false
        st).candidates.elems.card = 0 := rfl
    have hlen : (searchStart sizes ef m (hnswGetLayerM m 0) false
        st).visited.length = st.visited.length := rfl
    rw [hzero, hlen]
    omega
  · rintro r t ⟨ht, hresult, hsub⟩
    rw [hvisited] at hsub
    exact ⟨ht, hresult, hsub⟩

end Search

end Invariant

end PgVector.Hnsw
