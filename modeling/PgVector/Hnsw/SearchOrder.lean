import PgVector.Foundation.EarlyExit
import PgVector.Foundation.History
import PgVector.Hnsw.SelectGreedy

/-!
# The order of the candidates

Whatever it reads, a search hands back its candidates furthest first, each at the
distance at which it was loaded.  If the elements that are the same as the new one
are nearer than the others, they come last, and the heuristic, which goes through
the candidates from their end, takes them first.
-/

namespace PgVector.Hnsw

open Foundation

/-! ## The results of a search -/

section SearchLayer

variable {L : Signature} {E N K D : Type} {A : SearchAccess L E N K D}
  {P : HnswSearchCandidate E D → Prop}

/-- What is loaded, with the distance found, satisfies `P`. -/
def SearchAccess.Measures (A : SearchAccess L E N K D)
    (P : HnswSearchCandidate E D → Prop) : Prop :=
  ∀ n limit trace, (A.loadElement n limit trace).Yields (fun _ => True)
    fun r => ∀ e ∈ r.2.1, P ⟨e, r.1⟩

variable [LinearOrder D]

/-- Measured candidates, furthest first. -/
def Ranked (P : HnswSearchCandidate E D → Prop) (w : List (HnswSearchCandidate E D)) : Prop :=
  w.Pairwise (fun a b => b.distance ≤ a.distance) ∧ ∀ sc ∈ w, P sc

/-- `W` is a heap of measured candidates. -/
structure Measured (P : HnswSearchCandidate E D → Prop)
    (results : PairingHeap (HnswSearchCandidate E D)) : Prop where
  heap : results.IsHeap compareFurthestCandidates
  all : ∀ sc ∈ results.elems, P sc

namespace Measured

variable {results rest : PairingHeap (HnswSearchCandidate E D)}
  {sc : HnswSearchCandidate E D} {st : SearchState E K D}

theorem nil : Measured P .nil :=
  ⟨PairingHeap.isHeap_nil, by simp⟩

theorem add (h : Measured P results) (hsc : P sc) :
    Measured P (results.add compareFurthestCandidates sc) := by
  refine ⟨h.heap.add isComparator_furthest sc, ?_⟩
  intro c hc
  rw [PairingHeap.elems_add _ sc h.heap.root] at hc
  rcases Multiset.mem_cons.mp hc with rfl | hc
  · exact hsc
  · exact h.all c hc

theorem removeFirst? (h : Measured P results)
    (hremove : results.removeFirst? compareFurthestCandidates = some (sc, rest)) :
    Measured P rest := by
  refine ⟨h.heap.removeFirst? isComparator_furthest hremove, fun c hc => h.all c ?_⟩
  rw [(PairingHeap.elems_removeFirst? _ h.heap.root hremove).1]
  exact Multiset.mem_cons_of_mem hc

theorem addCandidate (h : Measured P st.results) (ef : Nat) (skip : Bool) (hsc : P sc) :
    Measured P (addCandidate A ef skip st sc).results := by
  unfold Hnsw.addCandidate
  split
  · split
    · unfold evictFurthest
      split
      · exact h.add hsc
      · next hremove => exact (h.add hsc).removeFirst? hremove
    · exact h.add hsc
  · exact h.add hsc

theorem visitElement (h : Measured P st.results) (sizes : AllocSizes) (ef lc : Nat)
    (skip : Bool) (f : HnswSearchCandidate E D) {e : E} {d : D} (he : P ⟨e, d⟩) :
    Measured P (visitElement A sizes ef lc skip st f e d).results := by
  unfold Hnsw.visitElement
  split
  · split <;> exact h
  · split
    · exact h
    · refine addCandidate ?_ ef skip he
      exact h

theorem foldl_addEntryPoint [DecidableEq K] (h : Measured P st.results)
    (skip initVisited : Bool) {ep : List (HnswSearchCandidate E D)} (hep : ∀ sc ∈ ep, P sc) :
    Measured P (ep.foldl (addEntryPoint A skip initVisited) st).results := by
  induction ep generalizing st with
  | nil => exact h
  | cons sc rest ih =>
    rw [List.forall_mem_cons] at hep
    exact ih (h.add hep.1) hep.2

theorem drain (h : Measured P results) : Ranked P (results.drain compareFurthestCandidates) := by
  constructor
  · refine (h.heap.pairwise_take isComparator_furthest results.size).imp ?_
    intro a b hab
    simpa [compareFurthestCandidates] using hab
  · intro sc hsc
    apply h.all
    rw [← PairingHeap.elems_drain compareFurthestCandidates h.heap.root]
    exact Multiset.mem_coe.mpr hsc

end Measured

theorem visitUnvisited_measured (hA : A.Measures P) (sizes : AllocSizes) (ef lc : Nat)
    (skip : Bool) (ns : List N) {st : SearchState E K D} (hst : Measured P st.results) :
    (visitUnvisited A sizes ef lc skip ns st).Yields (fun _ => True)
      fun st' => Measured P st'.results := by
  induction ns generalizing st with
  | nil => exact hst
  | cons n rest ih =>
    unfold visitUnvisited
    split
    · trivial
    · refine (hA n _ st.trace).bind ?_
      rintro ⟨d, e, trace⟩ he
      cases e with
      | none => exact ih hst
      | some e =>
        refine ih (Measured.visitElement ?_ sizes ef lc skip _ (he e rfl))
        exact hst

variable [DecidableEq K]

theorem searchLoop_measured (hA : A.Measures P) (sizes : AllocSizes) (ef lc : Nat)
    (skip : Bool) (fuel : Nat) {st : SearchState E K D} (hst : Measured P st.results) :
    (searchLoop A sizes ef lc skip fuel st).Yields (fun _ => True)
      fun st' => Measured P st'.results := by
  induction fuel generalizing st with
  | zero => trivial
  | succ fuel ih =>
    unfold searchLoop
    split
    · exact hst
    · split
      · trivial
      · split
        · exact hst
        · refine .bind ?_ fun st' => ih
          refine .bind (.any _) fun loaded _ => ?_
          refine .bind (.any _) fun trace _ => ?_
          exact visitUnvisited_measured hA sizes ef lc skip _ hst

theorem hnswSearchLayer_measured (hA : A.Measures P) (sizes : AllocSizes) (fuel : Nat)
    {ep : List (HnswSearchCandidate E D)} (hep : ∀ sc ∈ ep, P sc) (ef lc m : Nat)
    (skip initVisited : Bool) (st : SearchState E K D) :
    (hnswSearchLayer A sizes fuel ep ef lc m skip initVisited st).Yields (fun _ => True)
      fun r => Ranked P r.1 := by
  have hstart : Measured P
      (searchStart sizes ef m (hnswGetLayerM m lc) initVisited st).results := by
    unfold searchStart
    split <;> exact .nil
  refine (searchLoop_measured hA sizes ef lc skip fuel
    (hstart.foldl_addEntryPoint skip initVisited hep)).bind ?_
  exact fun st' hst' => hst'.drain

end SearchLayer

/-! ## The candidates at the ground layer -/

section Ground

variable {L : Signature} {E N K D F : Type} [LinearOrder D] [LinearOrder F] [DecidableEq K]
  {S : NeighborSearch L E N K D F}

/-- The searches of the second phase alone: the results at the lowest layer. -/
def NeighborSearch.collect (S : NeighborSearch L E N K D F) :
    Nat → List (HnswSearchCandidate E D) → Program L (List (HnswSearchCandidate E D))
  | 0, ep => .ret ep
  | lc + 1, ep => do
    let ef := if S.existing then S.efConstruction + 1 else S.efConstruction
    let w ← S.searchLayer ep ef lc
    S.collect lc w

/-- What `SelectNeighbors` is given. -/
def NeighborSearch.candidates (S : NeighborSearch L E N K D F)
    (w : List (HnswSearchCandidate E D)) : List (HnswCandidate E F) :=
  S.removeElements (w.map fun sc => ⟨sc.element, S.toFloat sc.distance, false⟩)

/-- `HnswFindElementNeighbors` up to the candidates that it chooses from at layer 0. -/
def groundCandidates (S : NeighborSearch L E N K D F) (level : Nat)
    (entryPoint : Option (Program L (HnswSearchCandidate E D × Nat))) :
    Program L (List (HnswCandidate E F)) :=
  match entryPoint with
  | none => .ret []
  | some entryCandidate => do
    let (entry, entryLevel) ← entryCandidate
    let ep ← S.descend level (entryLevel - level) [entry]
    let w ← S.collect (min level entryLevel + 1) ep
    return S.candidates w

def FoundNeighbors.ground (found : FoundNeighbors E F) : List (HnswCandidate E F) :=
  found.layers.getLast?.getD []

/-- The neighbors that are chosen among the candidates at layer 0. -/
def NeighborSearch.chosen (S : NeighborSearch L E N K D F) (c : List (HnswCandidate E F)) :
    List (HnswCandidate E F) :=
  (selectNeighbors S.selection c (hnswGetLayerM S.m 0) false none false).neighbors.map
    ListedCandidate.toHnswCandidate

theorem NeighborSearch.connect_ground (lc : Nat) (ep : List (HnswSearchCandidate E D))
    (top : List (HnswCandidate E F)) :
    (S.connect (lc + 1) ep >>= fun layers => .ret (layers.getLast?.getD top)) =
      S.collect (lc + 1) ep >>= fun w => .ret (S.chosen (S.candidates w)) := by
  induction lc generalizing ep top with
  | zero =>
    simp only [NeighborSearch.connect, NeighborSearch.collect, Program.bind_assoc,
      Program.ret_bind, Program.pure_eq]
    rfl
  | succ lc ih =>
    rw [NeighborSearch.connect, NeighborSearch.collect]
    simp only [Program.bind_assoc, Program.pure_eq, Program.ret_bind, List.getLast?_cons,
      Option.getD_some, ih]

theorem hnswFindElementNeighbors_ground (level : Nat)
    (entryPoint : Option (Program L (HnswSearchCandidate E D × Nat))) :
    (hnswFindElementNeighbors S level entryPoint >>= fun found => .ret found.ground) =
      groundCandidates S level entryPoint >>= fun c => .ret (S.chosen c) := by
  cases entryPoint with
  | none =>
    simp [hnswFindElementNeighbors, groundCandidates, FoundNeighbors.ground,
      NeighborSearch.chosen, selectNeighbors, listCandidates, List.getLast?_replicate]
  | some entryCandidate =>
    simp only [hnswFindElementNeighbors, groundCandidates, NeighborSearch.fromEntry,
      Program.bind_assoc, Program.pure_eq, Program.ret_bind, FoundNeighbors.ground,
      List.getLast?_append, Option.getD_or, NeighborSearch.connect_ground]

end Ground

/-! ## Candidates with the same value -/

section Select

variable {E F : Type} [LinearOrder F] {sel : Selection E F} {lm : Nat} {same : E → Prop}
  {c : List (HnswCandidate E F)}

/-- The same elements come last, and nothing is nearer to the query than to them. -/
structure SameLast (sel : Selection E F) (same : E → Prop)
    (c : List (HnswCandidate E F)) : Prop where
  last : (c.map HnswCandidate.element).Pairwise fun a b => same a → same b
  notCloser : ∀ a ∈ c, ∀ b ∈ c, same b.element → ¬ a.distance < sel.distance a.element b.element

end Select

section Ground

variable {L : Signature} {E N K D F : Type} [LinearOrder D] [LinearOrder F] [DecidableEq K]
  {S : NeighborSearch L E N K D F} {P : HnswSearchCandidate E D → Prop} {same : E → Prop}
  {c : List (HnswCandidate E F)}

/-- The distances tell the same elements from the others. -/
structure NeighborSearch.Separates (S : NeighborSearch L E N K D F)
    (P : HnswSearchCandidate E D → Prop) (same : E → Prop) : Prop where
  measures : ∀ lc, (S.access lc).Measures P
  nearest : ∀ {a b}, P a → P b → b.distance ≤ a.distance → same a.element → same b.element
  notCloser : ∀ {a b}, P a → P b → same b.element →
    ¬ S.toFloat a.distance < S.selection.distance a.element b.element
  removed : ∀ c, (S.removeElements c).Sublist c

namespace NeighborSearch.Separates

variable {ep w : List (HnswSearchCandidate E D)}

theorem searchLayer (hS : S.Separates P same) (hep : ∀ sc ∈ ep, P sc) (ef lc : Nat) :
    (S.searchLayer ep ef lc).Yields (fun _ => True) (Ranked P) := by
  refine (hnswSearchLayer_measured (hS.measures lc) S.sizes S.fuel hep ef lc S.m S.existing
    true freshSearch).bind ?_
  exact fun r hr => hr

theorem descend (hS : S.Separates P same) (level turns : Nat) (hep : ∀ sc ∈ ep, P sc) :
    (S.descend level turns ep).Yields (fun _ => True) fun w => ∀ sc ∈ w, P sc := by
  induction turns generalizing ep with
  | zero => exact hep
  | succ turns ih => exact (hS.searchLayer hep _ _).bind fun w hw => ih hw.2

theorem collect (hS : S.Separates P same) (lc : Nat) (hep : ∀ sc ∈ ep, P sc) :
    (S.collect (lc + 1) ep).Yields (fun _ => True) (Ranked P) := by
  induction lc generalizing ep with
  | zero => exact (hS.searchLayer hep _ _).bind fun w hw => hw
  | succ lc ih => exact (hS.searchLayer hep _ _).bind fun w hw => ih hw.2

omit [DecidableEq K] in
theorem candidates (hS : S.Separates P same) (hw : Ranked P w) :
    SameLast S.selection same (S.candidates w) := by
  have hmem : ∀ hc ∈ S.candidates w, ∃ sc ∈ w, ⟨sc.element, S.toFloat sc.distance, false⟩ = hc :=
    fun hc hhc => List.mem_map.mp ((hS.removed _).subset hhc)
  constructor
  · refine List.Pairwise.sublist ((hS.removed _).map HnswCandidate.element) ?_
    rw [List.map_map, List.pairwise_map]
    refine hw.1.imp_of_mem ?_
    intro a b ha hb hab
    exact hS.nearest (hw.2 a ha) (hw.2 b hb) hab
  · intro a ha b hb
    obtain ⟨sca, hsca, rfl⟩ := hmem a ha
    obtain ⟨scb, hscb, rfl⟩ := hmem b hb
    exact hS.notCloser (hw.2 sca hsca) (hw.2 scb hscb)

theorem groundCandidates (hS : S.Separates P same) (level : Nat)
    {entryPoint : Option (Program L (HnswSearchCandidate E D × Nat))}
    (hentry : ∀ p ∈ entryPoint, p.Yields (fun _ => True) fun r => P r.1) :
    (groundCandidates S level entryPoint).Yields (fun _ => True) (SameLast S.selection same) := by
  cases entryPoint with
  | none => exact ⟨.nil, by simp⟩
  | some entryCandidate =>
    refine (hentry entryCandidate rfl).bind ?_
    rintro ⟨entry, entryLevel⟩ hfirst
    refine (hS.descend level (entryLevel - level) (by simpa using hfirst)).bind ?_
    intro ep hep
    refine (hS.collect (min level entryLevel) hep).bind ?_
    exact fun w hw => hS.candidates hw

/-- The array that a run of `HnswFindElementNeighbors` leaves at layer 0. -/
theorem ground (hS : S.Separates P same) {level : Nat}
    {entryPoint : Option (Program L (HnswSearchCandidate E D × Nat))}
    (hentry : ∀ p ∈ entryPoint, p.Yields (fun _ => True) fun r => P r.1)
    {T : Type} {history : List (Moment L T)} {found : FoundNeighbors E F}
    (hfound : (hnswFindElementNeighbors S level entryPoint).Follows history found) :
    ∃ c, (Hnsw.groundCandidates S level entryPoint).Follows history c ∧
      found.ground = S.chosen c ∧ SameLast S.selection same c := by
  have hground : (hnswFindElementNeighbors S level entryPoint >>= fun found =>
      .ret found.ground).Follows history found.ground :=
    Program.follows_bind_ret_iff.mpr ⟨found, hfound, rfl⟩
  rw [hnswFindElementNeighbors_ground, Program.follows_bind_ret_iff] at hground
  obtain ⟨c, hc, heq⟩ := hground
  exact ⟨c, hc, heq, (hS.groundCandidates level hentry).follows hc⟩

end NeighborSearch.Separates

end Ground

end PgVector.Hnsw
