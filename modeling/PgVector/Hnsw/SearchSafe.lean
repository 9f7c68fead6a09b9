import PgVector.Foundation.Interference
import PgVector.Hnsw.SearchGraph

/-!
# Searching among others

What a search can meet while others change the graph: if the elements that are
loaded are good and the neighbors that are read can be loaded, then all that a
search keeps, discards and returns is good.
-/

namespace PgVector.Hnsw

open Foundation

variable {L : Signature} {S X E N K D : Type}

/--
While `J` holds, good elements stay good and have neighbors that can be loaded,
and what can be loaded is good.
-/
structure AccessKeeps (C : Discipline L S X) (A : SearchAccess L E N K D) (J : X → Prop)
    (Good : E → X → Prop) (Ref : N → X → Prop) : Prop where
  stable : ∀ {x y}, C.rely x y → J x → J y
  good_stable : ∀ {x y e}, C.rely x y → J x → Good e x → Good e y
  ref_stable : ∀ {x y n}, C.rely x y → J x → Ref n x → Ref n y
  loadNeighbors : ∀ {x e} trace, J x → Good e x →
    (A.loadNeighbors e trace).Keeps C (fun r y => ∀ n ∈ r.1, Ref n y) x
  loadElement : ∀ {x n} limit trace, J x → Ref n x →
    (A.loadElement n limit trace).Keeps C (fun r y => ∀ e ∈ r.2.1, Good e y) x
  touchTrace : ∀ {x} trace f, J x → (A.touchTrace trace f).Keeps C (fun _ _ => True) x
  outOfFuel : ∀ x, C.allowed A.outOfFuel x

structure HeapOf (P : E → Prop) (heap : PairingHeap (HnswSearchCandidate E D)) : Prop where
  root : heap.IsRoot
  all : ∀ c ∈ heap.elems, P c.element

namespace HeapOf

variable {P Q : E → Prop} {heap rest : PairingHeap (HnswSearchCandidate E D)}
  {lower : HnswSearchCandidate E D → HnswSearchCandidate E D → Bool}
  {sc : HnswSearchCandidate E D}

theorem nil : HeapOf P (.nil : PairingHeap (HnswSearchCandidate E D)) :=
  ⟨trivial, by simp⟩

theorem mono (h : HeapOf P heap) (hPQ : ∀ e, P e → Q e) : HeapOf Q heap :=
  ⟨h.root, fun c hc => hPQ _ (h.all c hc)⟩

theorem add (h : HeapOf P heap) (hsc : P sc.element) : HeapOf P (heap.add lower sc) := by
  refine ⟨PairingHeap.isRoot_add lower sc h.root, ?_⟩
  intro c hc
  rw [PairingHeap.elems_add lower sc h.root] at hc
  rcases Multiset.mem_cons.mp hc with rfl | hc
  · exact hsc
  · exact h.all c hc

theorem removeFirst? (h : HeapOf P heap) (hremove : heap.removeFirst? lower = some (sc, rest)) :
    P sc.element ∧ HeapOf P rest := by
  obtain ⟨helems, hroot⟩ := PairingHeap.elems_removeFirst? lower h.root hremove
  refine ⟨h.all sc (by simp [helems]), hroot, fun c hc => h.all c ?_⟩
  rw [helems]
  exact Multiset.mem_cons_of_mem hc

theorem take (h : HeapOf P heap) (n : Nat) :
    (∀ c ∈ (heap.take lower n).1, P c.element) ∧ HeapOf P (heap.take lower n).2 := by
  obtain ⟨helems, hroot⟩ := PairingHeap.elems_take lower n h.root
  refine ⟨fun c hc => h.all c ?_, hroot, fun c hc => h.all c ?_⟩
  · rw [helems]
    exact Multiset.mem_add.mpr (.inl (Multiset.mem_coe.mpr hc))
  · rw [helems]
    exact Multiset.mem_add.mpr (.inr hc)

theorem drain (h : HeapOf P heap) : ∀ c ∈ heap.drain lower, P c.element := by
  intro c hc
  apply h.all
  rw [← PairingHeap.elems_drain lower h.root]
  exact Multiset.mem_coe.mpr hc

theorem add_ne_nil (h : HeapOf P heap) : heap.add lower sc ≠ .nil := by
  rw [ne_eq, ← PairingHeap.elems_eq_zero, PairingHeap.elems_add lower sc h.root]
  simp

end HeapOf

structure StateOf (P : E → Prop) (st : SearchState E K D) : Prop where
  candidates : HeapOf P st.candidates
  results : HeapOf P st.results
  discarded : ∀ heap ∈ st.discarded, HeapOf P heap

namespace StateOf

variable {P Q : E → Prop} {st : SearchState E K D} {A : SearchAccess L E N K D}
  {sc : HnswSearchCandidate E D}

theorem mono (h : StateOf P st) (hPQ : ∀ e, P e → Q e) : StateOf Q st :=
  ⟨h.candidates.mono hPQ, h.results.mono hPQ, fun heap hheap => (h.discarded heap hheap).mono hPQ⟩

variable [LinearOrder D]

theorem discard (h : StateOf P st) (hsc : P sc.element) : StateOf P (discard st sc) := by
  refine ⟨h.candidates, h.results, ?_⟩
  intro heap hheap
  obtain ⟨old, hold, rfl⟩ := Option.map_eq_some_iff.mp hheap
  exact (h.discarded old hold).add hsc

theorem pushCandidate (h : StateOf P st) (hsc : P sc.element) : StateOf P (pushCandidate st sc) :=
  ⟨h.candidates.add hsc, h.results.add hsc, h.discarded⟩

theorem evictFurthest (h : StateOf P st) : StateOf P (evictFurthest st) := by
  unfold Hnsw.evictFurthest
  split
  · exact h
  · next d results hremove =>
    obtain ⟨hd, hresults⟩ := h.results.removeFirst? hremove
    exact StateOf.discard ⟨h.candidates, hresults, h.discarded⟩ hd

theorem addCandidate (h : StateOf P st) (ef : Nat) (skip : Bool) (hsc : P sc.element) :
    StateOf P (addCandidate A ef skip st sc) := by
  have hpush : ∀ wlen, StateOf P (Hnsw.pushCandidate { st with wlen := wlen } sc) :=
    fun wlen => StateOf.pushCandidate ⟨h.candidates, h.results, h.discarded⟩ hsc
  unfold Hnsw.addCandidate
  split
  · split
    · exact (hpush _).evictFurthest
    · exact hpush _
  · exact h.pushCandidate hsc

theorem results_addCandidate (h : StateOf P st) (ef : Nat) (skip : Bool)
    (hne : st.results ≠ .nil) : (Hnsw.addCandidate A ef skip st sc).results ≠ .nil := by
  have hpush : ∀ wlen, (Hnsw.pushCandidate { st with wlen := wlen } sc).results ≠
      .nil := fun wlen => h.results.add_ne_nil
  unfold Hnsw.addCandidate
  split
  · split
    · unfold Hnsw.evictFurthest
      split
      · exact hpush _
      · next d results hremove =>
        obtain ⟨helems, -⟩ := PairingHeap.elems_removeFirst? compareFurthestCandidates
          (PairingHeap.isRoot_add _ sc h.results.root) hremove
        rw [PairingHeap.elems_add _ sc h.results.root] at helems
        change results ≠ .nil
        rw [ne_eq, ← PairingHeap.elems_eq_zero] at hne ⊢
        intro hzero
        have hcard := congrArg Multiset.card helems
        simp only [Multiset.card_cons, hzero, Multiset.card_zero, zero_add,
          Nat.add_eq_right, Multiset.card_eq_zero] at hcard
        exact hne hcard
    · exact hpush _
  · exact h.results.add_ne_nil

theorem visitElement (h : StateOf P st) (sizes : AllocSizes) (ef lc : Nat) (skip : Bool)
    (f : HnswSearchCandidate E D) {e : E} (d : D) (he : P e) (hne : st.results ≠ .nil) :
    StateOf P (visitElement A sizes ef lc skip st f e d) ∧
      (Hnsw.visitElement A sizes ef lc skip st f e d).results ≠ .nil := by
  have hst : ∀ allocated, StateOf P { st with allocated := allocated } :=
    fun _ => ⟨h.candidates, h.results, h.discarded⟩
  unfold Hnsw.visitElement
  split
  · split
    · exact ⟨(hst _).discard he, hne⟩
    · exact ⟨h, hne⟩
  · split
    · exact ⟨h, hne⟩
    · exact ⟨(hst _).addCandidate ef skip he, (hst _).results_addCandidate ef skip hne⟩

theorem addEntryPoint [DecidableEq K] (h : StateOf P st) (skip initVisited : Bool)
    (hsc : P sc.element) : StateOf P (addEntryPoint A skip initVisited st sc) :=
  ⟨h.candidates.add hsc, h.results.add hsc, h.discarded⟩

theorem foldl_addEntryPoint [DecidableEq K] (skip initVisited : Bool)
    {ep : List (HnswSearchCandidate E D)} (hep : ∀ sc ∈ ep, P sc.element)
    (h : StateOf P st) (hne : st.results = .nil → st.candidates = .nil) :
    StateOf P (ep.foldl (Hnsw.addEntryPoint A skip initVisited) st) ∧
      ((ep.foldl (Hnsw.addEntryPoint A skip initVisited) st).results = .nil →
        (ep.foldl (Hnsw.addEntryPoint A skip initVisited) st).candidates = .nil) := by
  induction ep generalizing st with
  | nil => exact ⟨h, hne⟩
  | cons sc rest ih =>
    refine ih (fun c hc => hep c (.tail _ hc))
      (h.addEntryPoint skip initVisited (hep sc (.head _))) ?_
    intro hnil
    exact absurd hnil h.results.add_ne_nil

end StateOf

/-! ## The search -/

section Search

variable [LinearOrder D] {C : Discipline L S X} {A : SearchAccess L E N K D} {J : X → Prop}
  {Good : E → X → Prop} {Ref : N → X → Prop} {x : X}

theorem visitUnvisited_keeps (hA : AccessKeeps C A J Good Ref) (sizes : AllocSizes)
    (ef lc : Nat) (skip : Bool) {ns : List N} {st : SearchState E K D} (hJ : J x)
    (hns : ∀ n ∈ ns, Ref n x) (hst : StateOf (Good · x) st) (hne : st.results ≠ .nil) :
    (visitUnvisited A sizes ef lc skip ns st).Keeps C
      (fun st' y => StateOf (Good · y) st' ∧ st'.results ≠ .nil) x := by
  induction ns generalizing st x with
  | nil =>
    apply Program.Keeps.ret
    intro y hxy _
    exact ⟨hst.mono fun e => hA.good_stable hxy hJ, hne⟩
  | cons n rest ih =>
    unfold visitUnvisited
    split
    · next hnone => exact absurd (PairingHeap.first?_eq_none.mp hnone) hne
    · next f hf =>
      apply (hA.loadElement _ _ hJ (hns n (.head _))).bind
      rintro ⟨d, e, trace⟩ y hxy _ he
      have hrest : ∀ m ∈ rest, Ref m y := fun m hm =>
        hA.ref_stable hxy hJ (hns m (.tail _ hm))
      have hst' : StateOf (Good · y) st := hst.mono fun e => hA.good_stable hxy hJ
      cases e with
      | none =>
        exact ih (hA.stable hxy hJ) hrest ⟨hst'.candidates, hst'.results, hst'.discarded⟩ hne
      | some e =>
        have hloaded : StateOf (Good · y) { st with
            trace := trace
            allocated := st.allocated + sizes.element } :=
          ⟨hst'.candidates, hst'.results, hst'.discarded⟩
        obtain ⟨hvisit, hne'⟩ :=
          hloaded.visitElement (A := A) sizes ef lc skip f d (he e rfl) hne
        exact ih (hA.stable hxy hJ) hrest hvisit hne'

variable [DecidableEq K]

theorem expandCandidate_keeps (hA : AccessKeeps C A J Good Ref) (sizes : AllocSizes)
    (ef lc : Nat) (skip : Bool) {c : E} {st : SearchState E K D} (hJ : J x)
    (hc : Good c x) (hst : StateOf (Good · x) st) (hne : st.results ≠ .nil) :
    (expandCandidate A sizes ef lc skip c st).Keeps C
      (fun st' y => StateOf (Good · y) st' ∧ st'.results ≠ .nil) x := by
  apply (hA.loadNeighbors st.trace hJ hc).bind
  rintro ⟨neighbors, trace⟩ y hxy _ hneighbors
  have hJy := hA.stable hxy hJ
  apply (hA.touchTrace trace _ hJy).bind
  intro trace' z hyz _ _
  have hst' : StateOf (Good · z) st :=
    hst.mono fun e he => hA.good_stable hyz hJy (hA.good_stable hxy hJ he)
  refine visitUnvisited_keeps hA sizes ef lc skip (hA.stable hyz hJy) ?_
    ⟨hst'.candidates, hst'.results, hst'.discarded⟩ hne
  intro n hn
  exact hA.ref_stable hyz hJy (hneighbors n (addToVisited_subset _ _ _ hn))

theorem searchLoop_keeps (hA : AccessKeeps C A J Good Ref) (sizes : AllocSizes)
    (ef lc : Nat) (skip : Bool) (fuel : Nat) {st : SearchState E K D} (hJ : J x)
    (hst : StateOf (Good · x) st) (hne : st.results = .nil → st.candidates = .nil) :
    (searchLoop A sizes ef lc skip fuel st).Keeps C (fun st' y => StateOf (Good · y) st') x := by
  induction fuel generalizing st x with
  | zero => exact .fail hA.outOfFuel
  | succ fuel ih =>
    unfold searchLoop
    split
    · apply Program.Keeps.ret
      intro y hxy _
      exact hst.mono fun e => hA.good_stable hxy hJ
    · next c candidates hremove =>
      obtain ⟨hc, hcandidates⟩ := hst.candidates.removeFirst? hremove
      split
      · next hnone =>
        have hnil := hne (PairingHeap.first?_eq_none.mp hnone)
        rw [hnil] at hremove
        cases hremove
      · next f hf =>
        have hresults : st.results ≠ .nil := by
          intro hnil
          rw [hnil] at hf
          cases hf
        split
        · apply Program.Keeps.ret
          intro y hxy _
          refine StateOf.mono ⟨hcandidates, hst.results, hst.discarded⟩ ?_
          exact fun e => hA.good_stable hxy hJ
        · have hrest : StateOf (Good · x) { st with candidates := candidates } :=
            ⟨hcandidates, hst.results, hst.discarded⟩
          refine (expandCandidate_keeps hA sizes ef lc skip hJ hc hrest hresults).bind ?_
          intro st' y hxy _ hst'
          exact ih (hA.stable hxy hJ) hst'.1 fun hnil => absurd hnil hst'.2

theorem hnswSearchLayer_keeps (hA : AccessKeeps C A J Good Ref) (sizes : AllocSizes)
    (fuel : Nat) {ep : List (HnswSearchCandidate E D)} (ef lc m : Nat)
    (skip initVisited : Bool) {st : SearchState E K D} (hJ : J x)
    (hep : ∀ sc ∈ ep, Good sc.element x)
    (hdiscarded : ∀ heap ∈ st.discarded, HeapOf (Good · x) heap) :
    (hnswSearchLayer A sizes fuel ep ef lc m skip initVisited st).Keeps C
      (fun r y => (∀ sc ∈ r.1, Good sc.element y) ∧
        ∀ heap ∈ r.2.discarded, HeapOf (Good · y) heap) x := by
  have hstart : StateOf (Good · x)
      (searchStart sizes ef m (hnswGetLayerM m lc) initVisited st) ∧
      (searchStart sizes ef m (hnswGetLayerM m lc) initVisited st).results = .nil ∧
      (searchStart sizes ef m (hnswGetLayerM m lc) initVisited st).candidates = .nil := by
    unfold searchStart
    split
    · refine ⟨⟨.nil, .nil, ?_⟩, rfl, rfl⟩
      intro heap hheap
      obtain ⟨_, -, rfl⟩ := Option.map_eq_some_iff.mp hheap
      exact .nil
    · exact ⟨⟨.nil, .nil, hdiscarded⟩, rfl, rfl⟩
  obtain ⟨hfold, hne⟩ := StateOf.foldl_addEntryPoint (A := A) skip initVisited hep hstart.1
    fun _ => hstart.2.2
  apply (searchLoop_keeps hA sizes ef lc skip fuel hJ hfold hne).bind
  intro st' y hxy _ hst'
  apply Program.Keeps.ret
  intro z hyz _
  have hst'' : StateOf (Good · z) st' :=
    hst'.mono fun e => hA.good_stable hyz (hA.stable hxy hJ)
  exact ⟨hst''.results.drain, hst''.discarded⟩

end Search

end PgVector.Hnsw
