import PgVector.Foundation.Relational
import PgVector.Hnsw.Scan

/-!
# Two searches side by side

`hnswSearchLayer` is run on two accesses whose elements, neighbors and keys
correspond.  If loading is alike on both sides, so is the whole search: it takes
the same decisions and its candidates correspond.
-/

namespace PgVector.Hnsw

open Foundation

structure Correspondence (E N K E' N' K' : Type) where
  element : E → E' → Prop
  neighbor : N → N' → Prop
  key : K → K' → Prop
  /-- Keys correspond one to one. -/
  key_inj : ∀ {k l k' l'}, key k k' → key l l' → (k = l ↔ k' = l')
  /-- The bytes allocated so far. -/
  allocated : Nat → Nat → Prop
  allocated_add : ∀ {a b} n, allocated a b → allocated (a + n) (b + n)
  trace : Option HnswTraceStats → Option HnswTraceStats → Prop
  /-- The elements that may be expanded. -/
  layer : E → Prop

section Alike

variable {L L' : Signature} {S S' E N K E' N' K' D : Type}

/--
What is loaded on the two sides.  An element that is not below the maximum is of
no use; one side may load it all the same.
-/
inductive LoadedAlike [LT D] (M : Correspondence E N K E' N' K')
    (maxDistance : Option D) (distance : D) : Option E → Option E' → Prop
  | none : LoadedAlike M maxDistance distance none none
  | some {e e'} : M.element e e' →
      LoadedAlike M maxDistance distance (some e) (some e')
  | unneeded {e d} : maxDistance = some d → ¬ distance < d →
      (∀ a b n, M.allocated a b → M.allocated (a + n) b) →
      LoadedAlike M maxDistance distance (some e) none

structure AccessAlike [LT D] (C : Comparison L L' S S') (R : S → S' → Prop)
    (M : Correspondence E N K E' N' K') (lc : Nat) (skip : Bool)
    (A : SearchAccess L E N K D) (A' : SearchAccess L' E' N' K' D) : Prop where
  elementKey : ∀ {e e'}, M.element e e' → M.key (A.elementKey e) (A'.elementKey e')
  neighborKey : ∀ {n n'}, M.neighbor n n' → M.key (A.neighborKey n) (A'.neighborKey n')
  level : ∀ {e e'}, M.element e e' → A.level e = A'.level e'
  layer : ∀ {e e'}, M.element e e' → lc ≤ A.level e → M.layer e
  heaptidsLength : ∀ {e e'}, skip = true → M.element e e' →
    (A.heaptidsLength e = 0 ↔ A'.heaptidsLength e' = 0)
  loadNeighbors : ∀ {e e' t t' s s'}, M.element e e' → M.layer e → M.trace t t' →
    R s s' →
    (A.loadNeighbors e t).Alike C
      (fun r r' s s' => List.Forall₂ M.neighbor r.1 r'.1 ∧ M.trace r.2 r'.2 ∧ R s s')
      (A'.loadNeighbors e' t') s s'
  loadElement : ∀ {n n' t t' s s'} maxDistance, M.neighbor n n' → M.trace t t' →
    R s s' →
    (A.loadElement n maxDistance t).Alike C
      (fun r r' s s' => r.1 = r'.1 ∧
        LoadedAlike M maxDistance r.1 r.2.1 r'.2.1 ∧
        M.trace r.2.2 r'.2.2 ∧ R s s')
      (A'.loadElement n' maxDistance t') s s'
  touchTrace : ∀ {t t' s s'} f, M.trace t t' → R s s' →
    (A.touchTrace t f).Alike C (fun r r' s s' => M.trace r r' ∧ R s s') (A'.touchTrace t' f) s s'
  corrupted : C.errors A.corrupted A'.corrupted
  outOfFuel : C.errors A.outOfFuel A'.outOfFuel

def CandidateAlike (M : Correspondence E N K E' N' K')
    (c : HnswSearchCandidate E D) (c' : HnswSearchCandidate E' D) : Prop :=
  M.element c.element c'.element ∧ c.distance = c'.distance

def LayerAlike (M : Correspondence E N K E' N' K')
    (c : HnswSearchCandidate E D) (c' : HnswSearchCandidate E' D) : Prop :=
  CandidateAlike M c c' ∧ M.layer c.element

structure StateAlike (M : Correspondence E N K E' N' K')
    (st : SearchState E K D) (st' : SearchState E' K' D) : Prop where
  candidates : PairingHeap.Rel (LayerAlike M) st.candidates st'.candidates
  results : PairingHeap.Rel (LayerAlike M) st.results st'.results
  wlen : st.wlen = st'.wlen
  visited : List.Forall₂ M.key st.visited st'.visited
  discarded : Option.Rel (PairingHeap.Rel (CandidateAlike M)) st.discarded st'.discarded
  tuples : st.tuples = st'.tuples
  trace : M.trace st.trace st'.trace
  allocated : M.allocated st.allocated st'.allocated

variable {C : Comparison L L' S S'} {R : S → S' → Prop}
  {M : Correspondence E N K E' N' K'} {lc : Nat} {skip : Bool}
  {A : SearchAccess L E N K D} {A' : SearchAccess L' E' N' K' D}

theorem mem_visited_iff {k : K} {k' : K'} {visited : List K} {visited' : List K'}
    (hk : M.key k k') (h : List.Forall₂ M.key visited visited') :
    k ∈ visited ↔ k' ∈ visited' := by
  induction h with
  | nil => simp
  | cons hhead _ ih => simp only [List.mem_cons, ih, M.key_inj hk hhead]

theorem addToVisited_alike [DecidableEq K] [DecidableEq K'] {key : N → K}
    {key' : N' → K'} (hkey : ∀ {n n'}, M.neighbor n n' → M.key (key n) (key' n'))
    {ns : List N} {ns' : List N'} (hns : List.Forall₂ M.neighbor ns ns')
    {visited : List K} {visited' : List K'}
    (hvisited : List.Forall₂ M.key visited visited') :
    List.Forall₂ M.neighbor (addToVisited key ns visited).1
        (addToVisited key' ns' visited').1 ∧
      List.Forall₂ M.key (addToVisited key ns visited).2 (addToVisited key' ns' visited').2 := by
  induction hns generalizing visited visited' with
  | nil => exact ⟨.nil, hvisited⟩
  | @cons n n' _ _ hn _ ih =>
    have hmem := mem_visited_iff (hkey hn) hvisited
    unfold addToVisited
    by_cases hseen : key n ∈ visited
    · rw [if_pos hseen, if_pos (hmem.mp hseen)]
      exact ih hvisited
    · rw [if_neg hseen, if_neg (fun h => hseen (hmem.mpr h))]
      have hrest := ih (.cons (hkey hn) hvisited)
      exact ⟨.cons hn hrest.1, hrest.2⟩

variable [LinearOrder D]

theorem agree_nearest : PairingHeap.Agree (CandidateAlike M)
    (compareNearestCandidates (E := E) (D := D)) compareNearestCandidates := by
  intro a a' b b' hab hab'
  simp only [compareNearestCandidates, hab.2, hab'.2]

theorem agree_nearest_layer : PairingHeap.Agree (LayerAlike M)
    (compareNearestCandidates (E := E) (D := D)) compareNearestCandidates := by
  intro a a' b b' hab hab'
  simp only [compareNearestCandidates, hab.1.2, hab'.1.2]

theorem agree_furthest_layer : PairingHeap.Agree (LayerAlike M)
    (compareFurthestCandidates (E := E) (D := D)) compareFurthestCandidates := by
  intro a a' b b' hab hab'
  simp only [compareFurthestCandidates, hab.1.2, hab'.1.2]

variable {st : SearchState E K D} {st' : SearchState E' K' D} {sc : HnswSearchCandidate E D}
  {sc' : HnswSearchCandidate E' D} {ep : List (HnswSearchCandidate E D)}
  {ep' : List (HnswSearchCandidate E' D)}

omit [LinearOrder D] in
theorem isSome_discarded (hst : StateAlike M st st') :
    st.discarded.isSome = st'.discarded.isSome := by
  have hdiscarded := hst.discarded
  generalize st.discarded = d at hdiscarded
  generalize st'.discarded = d' at hdiscarded
  cases hdiscarded <;> rfl

theorem countElement_alike (hA : AccessAlike C R M lc skip A A') {e : E}
    {e' : E'} (he : M.element e e') :
    countElement A skip e = countElement A' skip e' := by
  unfold countElement
  cases skip with
  | false => rfl
  | true =>
    have hlive : (A.heaptidsLength e != 0) = (A'.heaptidsLength e' != 0) := by
      rw [Bool.eq_iff_iff, bne_iff_ne, bne_iff_ne]
      exact not_congr (hA.heaptidsLength rfl he)
    rw [hlive]

theorem addEntryPoint_alike [DecidableEq K] [DecidableEq K'] (hA : AccessAlike C R M lc skip A A')
    (initVisited : Bool) (hst : StateAlike M st st') (hsc : LayerAlike M sc sc') :
    StateAlike M (addEntryPoint A skip initVisited st sc)
      (addEntryPoint A' skip initVisited st' sc') := by
  have hkey := hA.elementKey hsc.1.1
  have hmem := mem_visited_iff hkey hst.visited
  refine ⟨PairingHeap.rel_add agree_nearest_layer hst.candidates hsc,
    PairingHeap.rel_add agree_furthest_layer hst.results hsc, ?_, ?_, hst.discarded, ?_,
    hst.trace, hst.allocated⟩
  · simp only [addEntryPoint, countElement_alike hA hsc.1.1, hst.wlen]
  · have hnew : (initVisited && !decide (A.elementKey sc.element ∈ st.visited)) =
        (initVisited && !decide (A'.elementKey sc'.element ∈ st'.visited)) := by
      simp only [hmem]
    unfold addEntryPoint
    dsimp only
    rw [hnew]
    split
    · exact .cons hkey hst.visited
    · exact hst.visited
  · unfold addEntryPoint
    rw [hst.tuples]

theorem discard_alike (hst : StateAlike M st st') (hsc : CandidateAlike M sc sc') :
    StateAlike M (discard st sc) (discard st' sc') := by
  refine { hst with discarded := ?_ }
  have hdiscarded := hst.discarded
  unfold discard
  generalize st.discarded = d at hdiscarded
  generalize st'.discarded = d' at hdiscarded
  cases hdiscarded with
  | none => exact .none
  | some hd => exact .some (PairingHeap.rel_add agree_nearest hd hsc)

theorem pushCandidate_alike (hst : StateAlike M st st') (hsc : LayerAlike M sc sc') :
    StateAlike M (pushCandidate st sc) (pushCandidate st' sc') :=
  { hst with
    candidates := PairingHeap.rel_add agree_nearest_layer hst.candidates hsc
    results := PairingHeap.rel_add agree_furthest_layer hst.results hsc }

theorem evictFurthest_alike (hst : StateAlike M st st') :
    StateAlike M (evictFurthest st) (evictFurthest st') := by
  have hfirst := PairingHeap.rel_removeFirst? agree_furthest_layer hst.results
  unfold evictFurthest
  generalize st.results.removeFirst? _ = first at hfirst
  generalize st'.results.removeFirst? _ = first' at hfirst
  cases hfirst with
  | none => exact hst
  | @some _ _ rest rest' hd hrest =>
    have hleft : StateAlike M { st with results := rest }
        { st' with results := rest' } := { hst with results := hrest }
    exact discard_alike hleft hd.1

theorem addCandidate_alike (hA : AccessAlike C R M lc skip A A') (ef : Nat)
    (hst : StateAlike M st st') (hsc : LayerAlike M sc sc') :
    StateAlike M (addCandidate A ef skip st sc) (addCandidate A' ef skip st' sc') := by
  have hcounted : StateAlike M { st with wlen := st.wlen + 1 }
      { st' with wlen := st'.wlen + 1 } :=
    { hst with wlen := congrArg Nat.succ hst.wlen }
  have hpushed := pushCandidate_alike hcounted hsc
  unfold addCandidate
  rw [countElement_alike hA hsc.1.1]
  split
  · have hlen := hst.wlen
    by_cases hfull : ef < st'.wlen + 1
    · rw [if_pos hfull, if_pos (by omega)]
      exact evictFurthest_alike hpushed
    · rw [if_neg hfull, if_neg (by omega)]
      exact hpushed
  · exact pushCandidate_alike hst hsc

theorem visitElement_alike (hA : AccessAlike C R M lc skip A A') (sizes : AllocSizes) (ef : Nat)
    (hst : StateAlike M st st') {f : HnswSearchCandidate E D} {f' : HnswSearchCandidate E' D}
    (hf : LayerAlike M f f') {e : E} {e' : E'} (he : M.element e e') (d : D) :
    StateAlike M (visitElement A sizes ef lc skip st f e d)
      (visitElement A' sizes ef lc skip st' f' e' d) := by
  have hallocated : StateAlike M
      { st with allocated := st.allocated + sizes.searchCandidate }
      { st' with allocated := st'.allocated + sizes.searchCandidate } :=
    { hst with allocated := M.allocated_add _ hst.allocated }
  have hsc : CandidateAlike M (⟨e, d⟩ : HnswSearchCandidate E D) ⟨e', d⟩ := ⟨he, rfl⟩
  have hadded : isAdded ef st.wlen f d = isAdded ef st'.wlen f' d := by
    unfold isAdded
    rw [hf.1.2, hst.wlen]
  have hlevel := hA.level he
  unfold visitElement
  rw [hadded, isSome_discarded hst]
  split
  · split
    · exact discard_alike hallocated hsc
    · exact hst
  · by_cases hbelow : A.level e < lc
    · rw [if_pos hbelow, if_pos (hlevel ▸ hbelow)]
      exact hst
    · rw [if_neg hbelow, if_neg (hlevel ▸ hbelow)]
      exact addCandidate_alike hA ef hallocated ⟨hsc, hA.layer he (Nat.le_of_not_lt hbelow)⟩

theorem visitElement_of_limit (A : SearchAccess L E N K D) (sizes : AllocSizes)
    {ef : Nat} (lc : Nat) (skip : Bool) {wlen : Nat} {keeps : Bool}
    {f : HnswSearchCandidate E D} {limit d : D} (e : E)
    (hlimit : loadLimit ef wlen keeps f = some limit) (hd : ¬ d < limit)
    (st : SearchState E K D) (hwlen : st.wlen = wlen)
    (hkeeps : st.discarded.isSome = keeps) :
    visitElement A sizes ef lc skip st f e d = st := by
  unfold loadLimit at hlimit
  split at hlimit
  · cases hlimit
  · next hfull =>
    cases hlimit
    simp only [Bool.or_eq_true, decide_eq_true_eq, not_or] at hfull
    have hnot : isAdded ef st.wlen f d = false := by
      simp [isAdded, hd, hwlen, hfull.1]
    have hnone : st.discarded.isSome = false := by
      rw [hkeeps]
      simpa using hfull.2
    unfold visitElement
    rw [hnot, hnone]
    rfl

/-! ## The loops -/

theorem visitUnvisited_alike (hA : AccessAlike C R M lc skip A A') (sizes : AllocSizes) (ef : Nat)
    {ns : List N} {ns' : List N'} (hns : List.Forall₂ M.neighbor ns ns')
    (hst : StateAlike M st st') {s : S} {s' : S'} (hs : R s s') :
    (visitUnvisited A sizes ef lc skip ns st).Alike C
      (fun st st' s s' => StateAlike M st st' ∧ R s s')
      (visitUnvisited A' sizes ef lc skip ns' st') s s' := by
  induction hns generalizing st st' s s' with
  | nil => exact .ret ⟨hst, hs⟩
  | cons hn _ ih =>
    have hfirst := PairingHeap.rel_first? hst.results
    unfold visitUnvisited
    generalize st.results.first? = first at hfirst
    generalize st'.results.first? = first' at hfirst
    cases hfirst with
    | none => exact .fail hA.corrupted
    | @some f f' hf =>
      have hlimit : loadLimit ef st.wlen st.discarded.isSome f =
          loadLimit ef st'.wlen st'.discarded.isSome f' := by
        unfold loadLimit
        rw [hst.wlen, isSome_discarded hst, hf.1.2]
      dsimp only
      rw [hlimit]
      refine (hA.loadElement _ hn hst.trace hs).bind ?_
      rintro ⟨d, e, t⟩ ⟨d', e', t'⟩ s s' ⟨hd, hloaded, htrace, hs⟩
      simp only at hd hloaded htrace
      subst hd
      cases hloaded with
      | none =>
        have hnext : StateAlike M { st with trace := t }
            { st' with trace := t' } := { hst with trace := htrace }
        exact ih hnext hs
      | some he =>
        have hnext : StateAlike M
            { st with trace := t, allocated := st.allocated + sizes.element }
            { st' with
              trace := t', allocated := st'.allocated + sizes.element } :=
          { hst with
            trace := htrace
            allocated := M.allocated_add _ hst.allocated }
        exact ih (visitElement_alike hA sizes ef hnext hf he d) hs
      | @unneeded e _ hmax hfar hallocated =>
        have hnext : StateAlike M
            { st with trace := t, allocated := st.allocated + sizes.element }
            { st' with trace := t' } :=
          { hst with
            trace := htrace
            allocated := hallocated _ _ _ hst.allocated }
        rw [← hlimit] at hmax
        have hskip := visitElement_of_limit A sizes lc skip e hmax hfar
          { st with trace := t, allocated := st.allocated + sizes.element }
          rfl rfl
        dsimp only
        rw [hskip]
        exact ih hnext hs

theorem expandCandidate_alike [DecidableEq K] [DecidableEq K']
    (hA : AccessAlike C R M lc skip A A') (sizes : AllocSizes) (ef : Nat) {c : E} {c' : E'}
    (hc : M.element c c') (hlayer : M.layer c) (hst : StateAlike M st st') {s : S} {s' : S'}
    (hs : R s s') :
    (expandCandidate A sizes ef lc skip c st).Alike C
      (fun st st' s s' => StateAlike M st st' ∧ R s s')
      (expandCandidate A' sizes ef lc skip c' st') s s' := by
  refine (hA.loadNeighbors hc hlayer hst.trace hs).bind ?_
  rintro ⟨ns, t⟩ ⟨ns', t'⟩ s s' ⟨hns, ht, hs⟩
  have hfound := addToVisited_alike hA.neighborKey hns hst.visited
  have hlength := hfound.1.length_eq
  dsimp only
  rw [hlength]
  refine .bind (hA.touchTrace _ ht hs) ?_
  rintro t t' s s' ⟨ht, hs⟩
  refine visitUnvisited_alike hA sizes ef hfound.1 ?_ hs
  refine { hst with visited := hfound.2, tuples := ?_, trace := ht, allocated := ?_ }
  · exact congrArg (· + _) hst.tuples
  · dsimp only
    rw [hfound.2.length_eq, hst.visited.length_eq]
    exact M.allocated_add _ hst.allocated

theorem searchLoop_alike [DecidableEq K] [DecidableEq K'] (hA : AccessAlike C R M lc skip A A')
    (sizes : AllocSizes) (ef : Nat) (fuel : Nat) (hst : StateAlike M st st') {s : S} {s' : S'}
    (hs : R s s') :
    (searchLoop A sizes ef lc skip fuel st).Alike C
      (fun st st' s s' => StateAlike M st st' ∧ R s s')
      (searchLoop A' sizes ef lc skip fuel st') s s' := by
  induction fuel generalizing st st' s s' with
  | zero => exact .fail hA.outOfFuel
  | succ fuel ih =>
    have hcandidates :=
      PairingHeap.rel_removeFirst? agree_nearest_layer hst.candidates
    have hfirst := PairingHeap.rel_first? hst.results
    unfold searchLoop
    generalize st.candidates.removeFirst? _ = next at hcandidates
    generalize st'.candidates.removeFirst? _ = next' at hcandidates
    cases hcandidates with
    | none => exact .ret ⟨hst, hs⟩
    | @some c c' rest rest' hc hrest =>
      generalize st.results.first? = first at hfirst
      generalize st'.results.first? = first' at hfirst
      cases hfirst with
      | none => exact .fail hA.corrupted
      | @some f f' hf =>
        have hnext : StateAlike M { st with candidates := rest }
            { st' with candidates := rest' } :=
          { hst with candidates := hrest }
        dsimp only
        rw [hf.1.2, hc.1.2]
        split
        · exact .ret ⟨hnext, hs⟩
        · refine .bind (expandCandidate_alike hA sizes ef hc.1.1 hc.2 hnext hs) ?_
          rintro st st' s s' ⟨hst, hs⟩
          exact ih hst hs

theorem foldl_addEntryPoint_alike [DecidableEq K] [DecidableEq K']
    (hA : AccessAlike C R M lc skip A A') (initVisited : Bool)
    (hep : List.Forall₂ (LayerAlike M) ep ep') (hst : StateAlike M st st') :
    StateAlike M (ep.foldl (addEntryPoint A skip initVisited) st)
      (ep'.foldl (addEntryPoint A' skip initVisited) st') := by
  induction hep generalizing st st' with
  | nil => exact hst
  | cons hsc _ ih => exact ih (addEntryPoint_alike hA initVisited hst hsc)

omit [LinearOrder D] in
theorem searchStart_alike (sizes : AllocSizes) (ef m lm : Nat) (initVisited : Bool)
    (hst : StateAlike M st st') :
    StateAlike M (searchStart sizes ef m lm initVisited st)
      (searchStart sizes ef m lm initVisited st') := by
  have hbytes : M.allocated (st.allocated + 2 * sizes.pairingheap + sizes.unvisited lm)
      (st'.allocated + 2 * sizes.pairingheap + sizes.unvisited lm) :=
    M.allocated_add _ (M.allocated_add _ hst.allocated)
  have hempty : Option.Rel (PairingHeap.Rel (CandidateAlike (D := D) M))
      (st.discarded.map fun _ => .nil) (st'.discarded.map fun _ => .nil) := by
    have hdiscarded := hst.discarded
    generalize st.discarded = d at hdiscarded
    generalize st'.discarded = d' at hdiscarded
    cases hdiscarded with
    | none => exact .none
    | some hd => exact .some .nil
  unfold searchStart
  cases initVisited with
  | true =>
    rw [if_pos rfl, if_pos rfl, isSome_discarded hst]
    exact ⟨.nil, .nil, rfl, .nil, hempty, hst.tuples, hst.trace,
      M.allocated_add _ (M.allocated_add _ hbytes)⟩
  | false =>
    exact ⟨.nil, .nil, rfl, hst.visited, hst.discarded, hst.tuples, hst.trace, hbytes⟩

theorem hnswSearchLayer_alike [DecidableEq K] [DecidableEq K']
    (hA : AccessAlike C R M lc skip A A') (sizes : AllocSizes) (fuel : Nat)
    (hep : List.Forall₂ (LayerAlike M) ep ep') (ef m : Nat) (initVisited : Bool)
    (hst : StateAlike M st st') {s : S} {s' : S'} (hs : R s s') :
    (hnswSearchLayer A sizes fuel ep ef lc m skip initVisited st).Alike C
      (fun r r' s s' => List.Forall₂ (LayerAlike M) r.1 r'.1 ∧ StateAlike M r.2 r'.2 ∧ R s s')
      (hnswSearchLayer A' sizes fuel ep' ef lc m skip initVisited st') s s' := by
  have hstart := searchStart_alike sizes ef m (hnswGetLayerM m lc) initVisited hst
  have hentries := foldl_addEntryPoint_alike hA initVisited hep hstart
  refine .bind (searchLoop_alike hA sizes ef fuel hentries hs) ?_
  rintro st st' s s' ⟨hst, hs⟩
  have hw := PairingHeap.rel_drain agree_furthest_layer hst.results
  refine .ret ⟨hw, ?_, hs⟩
  refine { hst with results := .nil, allocated := ?_ }
  rw [hw.length_eq]
  exact M.allocated_add _ hst.allocated

end Alike

end PgVector.Hnsw
