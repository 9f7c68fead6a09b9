import PgVector.Hnsw.Scan
import PgVector.Hnsw.SearchGraph
import PgVector.Hnsw.Storage

/-!
# The graph on the pages of an index

The elements that are not marked as deleted and the links between them, layer by
layer, and what it means that they form a graph.  On such an index, and while
nothing else runs, a search is answered from the graph.
-/

namespace PgVector.Hnsw

open Foundation

namespace HnswIndex

variable {V : Type} (index : HnswIndex V)

def live? (tid : ItemPointer) : Option (HnswElementTuple V) :=
  (index.element? tid).filter fun etup => !etup.deleted

def liveTids (tid : ItemPointer) : List ItemPointer :=
  (index.live? tid).elim [] HnswElementTuple.liveTids

def neighborTids (lc : Nat) (etup : HnswElementTuple V) : List ItemPointer :=
  match index.neighbor? etup.neighbortid with
  | none => []
  | some ntup =>
    let m := index.metapage.m
    if ntup.version ≠ etup.version ∨ ntup.count ≠ (etup.level + 2) * m then []
    else
      (ntup.layer ((etup.level - lc) * m) (hnswGetLayerM m lc)).takeWhile ItemPointer.isValid

def links (lc : Nat) (tid : ItemPointer) : List ItemPointer :=
  (index.live? tid).elim [] (index.neighborTids lc)

def Reachable (lc : Nat) : ItemPointer → ItemPointer → Prop :=
  Relation.ReflTransGen fun a b => b ∈ index.links lc a

structure IsGraph : Prop where
  magicNumber : index.metapage.magicNumber = hnswMagicNumber
  entryPoint : ∀ e ∈ index.metapage.entryPoint, (index.live? e.tid).isSome
  neighbortid : ∀ {tid etup}, index.live? tid = some etup →
    (index.neighbor? etup.neighbortid).isSome
  links : ∀ {tid etup lc}, index.live? tid = some etup → lc ≤ etup.level →
    ∀ n ∈ index.links lc tid, (index.live? n).isSome

def elements : List (ItemPointer × HnswElementTuple V) :=
  (index.pages.zipIdx 1).flatMap fun (page, blkno) =>
    page.elements.map fun (offno, etup) => (⟨blkno, offno⟩, etup)

variable {index}

theorem live?_eq_some {tid : ItemPointer}
    {etup : HnswElementTuple V} :
    index.live? tid = some etup ↔ index.element? tid = some etup ∧ etup.deleted = false := by
  simp [live?, Option.filter_eq_some_iff]

theorem mem_elements {tid : ItemPointer}
    {etup : HnswElementTuple V} :
    (tid, etup) ∈ index.elements ↔ index.element? tid = some etup := by
  rw [element?_eq_some]
  unfold elements tuple? page?
  simp only [List.mem_flatMap, Prod.exists, List.mem_zipIdx_iff_le_and_getElem?_sub,
    List.mem_map, Option.bind_eq_some_iff]
  constructor
  · rintro ⟨page, blkno, ⟨hone, hpage⟩, offno, etup', hmem, heq⟩
    obtain ⟨rfl, rfl⟩ : (⟨blkno, offno⟩ : ItemPointer) = tid ∧ etup' = etup := by
      simpa using heq
    exact ⟨page, by rwa [if_neg (Nat.one_le_iff_ne_zero.mp hone)], Page.mem_elements.mp hmem⟩
  · rintro ⟨page, hpage, htuple⟩
    split at hpage
    · cases hpage
    · next hzero =>
      exact ⟨page, tid.blkno, ⟨Nat.one_le_iff_ne_zero.mpr hzero, hpage⟩, tid.offno, etup,
        Page.mem_elements.mpr htuple, rfl⟩

theorem isGraph_of_elements
    (hmagic : index.metapage.magicNumber = hnswMagicNumber)
    (hentry : ∀ e ∈ index.metapage.entryPoint, (index.live? e.tid).isSome)
    (helements : ∀ p ∈ index.elements, (index.neighbor? p.2.neighbortid).isSome ∧
      ∀ lc < p.2.level + 1, ∀ n ∈ index.links lc p.1, (index.live? n).isSome) :
    index.IsGraph where
  magicNumber := hmagic
  entryPoint := hentry
  neighbortid := fun {tid etup} h =>
    (helements (tid, etup) (mem_elements.mpr (live?_eq_some.mp h).1)).1
  links := fun {tid etup lc} h hlc =>
    (helements (tid, etup) (mem_elements.mpr (live?_eq_some.mp h).1)).2 lc (Nat.lt_succ_of_le hlc)

theorem length_le_elements {tids : List ItemPointer}
    (hnodup : tids.Nodup) (hlive : ∀ tid ∈ tids, (index.live? tid).isSome) :
    tids.length ≤ index.elements.length := by
  have hsub : tids ⊆ index.elements.map Prod.fst := by
    intro tid htid
    obtain ⟨etup, hetup⟩ := Option.isSome_iff_exists.mp (hlive tid htid)
    exact List.mem_map.mpr ⟨(tid, etup), mem_elements.mpr (live?_eq_some.mp hetup).1, rfl⟩
  simpa using (hnodup.subperm hsub).length_le

end HnswIndex

/-! ## Searching the pages -/

def limitTests (log : List Event) : List (Nat × Nat) :=
  log.filterMap fun
    | .limitTest tuples allocated _ => some (tuples, allocated)
    | _ => none

structure Calm {V : Type} (backend : ThreadId) (index : HnswIndex V)
    (tests : List (Nat × Nat)) (s : Shared V) : Prop where
  same : s.index = index
  alone : Alone backend s
  tested : limitTests (s.log backend) = tests

section Disk

variable {V D : Type} (index : HnswIndex V)

def diskElement (tid : ItemPointer) : HnswElement V :=
  match index.live? tid with
  | some etup => hnswLoadElementFromTuple tid etup false
  | none => ⟨tid, 0, true, 0, [], .invalid, none⟩

/-- The elements that satisfy `P`, as a search for `q` at layer `lc` sees them. -/
def diskGraph (support : HnswSupport V D) (q : Option V) (lc : Nat)
    (P : ItemPointer → Prop) :
    SearchGraph (HnswElement V) ItemPointer ItemPointer D where
  known tid := (index.live? tid).isSome ∧ P tid
  element := diskElement index
  distance tid := hnswGetDistance support q
    ((index.live? tid).bind HnswElementTuple.data)
  links := index.links lc

def loadedElement (loadVec : Bool) (tid : ItemPointer) : HnswElement V :=
  match index.live? tid with
  | some etup => hnswLoadElementFromTuple tid etup loadVec
  | none => ⟨tid, 0, true, 0, [], .invalid, none⟩

def loadedGraph (support : HnswSupport V D) (q : Option V) (lc : Nat)
    (inserting : Bool) (P : ItemPointer → Prop) :
    SearchGraph (HnswElement V) ItemPointer ItemPointer D :=
  { diskGraph index support q lc P with element := loadedElement index inserting }

variable {index} {self : ThreadId} {tests : List (Nat × Nat)} {s : Shared V}

variable {tid : ItemPointer} {etup : HnswElementTuple V}

theorem loadedElement_of_live (h : index.live? tid = some etup) (loadVec : Bool) :
    loadedElement index loadVec tid = hnswLoadElementFromTuple tid etup loadVec := by
  rw [loadedElement, h]

theorem diskElement_of_live (h : index.live? tid = some etup) :
    diskElement index tid = hnswLoadElementFromTuple tid etup false := by
  rw [diskElement, h]

theorem heaptids_diskElement (tid : ItemPointer) :
    (diskElement index tid).heaptids = index.liveTids tid := by
  unfold diskElement HnswIndex.liveTids
  cases index.live? tid <;> rfl

theorem emit_returns {event : Event} (hevent : limitTests [event] = [])
    (hs : Calm self index tests s) :
    (emit event).Returns (hnswHandler self) s fun _ t => Calm self index tests t := by
  refine .step rfl (.ret ⟨hs.same, hs.alone, ?_⟩)
  simp only [Function.update_self, limitTests, List.filterMap_append] at hevent ⊢
  rw [hevent, List.append_nil]
  exact hs.tested

theorem touchTrace_returns (trace : Option HnswTraceStats)
    (f : HnswTraceStats → HnswTraceStats) (hs : Calm self index tests s) :
    (touchTrace trace f).Returns (hnswHandler self) s fun _ t =>
      Calm self index tests t := by
  cases trace with
  | none => exact .ret hs
  | some trace =>
    refine .bind (emit_returns rfl hs) ?_
    intro _ t ht
    exact .ret ht

theorem countDistance_returns (q : Option V) (trace : Option HnswTraceStats)
    (hs : Calm self index tests s) :
    (countDistance q trace).Returns (hnswHandler self) s fun _ t =>
      Calm self index tests t := by
  unfold countDistance
  split
  · exact .ret hs
  · exact .bind (emit_returns rfl hs) fun _ _ ht => touchTrace_returns trace _ ht

theorem readElementTuple_returns (h : index.element? tid = some etup)
    (hs : Calm self index tests s) :
    (readElementTuple tid).Returns (hnswHandler self) s fun r t =>
      r = etup ∧ Calm self index tests t := by
  have hread : hnswHandler self (.readTuple tid) s = some (some (.element etup), s) := by
    rw [hnswHandler, hs.same, HnswIndex.element?_eq_some.mp h]
  exact .perform hread (.ret ⟨rfl, hs⟩)

theorem readNeighborTuple_returns {ntup : HnswNeighborTuple} (h : index.neighbor? tid = some ntup)
    (hs : Calm self index tests s) :
    (readNeighborTuple tid).Returns (hnswHandler self) s fun r t =>
      r = ntup ∧ Calm self index tests t := by
  have hread : hnswHandler self (.readTuple tid) s = some (some (.neighbor ntup), s) := by
    rw [hnswHandler, hs.same, HnswIndex.neighbor?_eq_some.mp h]
  exact .perform hread (.ret ⟨rfl, hs⟩)

variable [LinearOrder D]

theorem hnswLoadElementImpl_returns (support : HnswSupport V D) (h : index.live? tid = some etup)
    (q : Option V) (loadVec : Bool) (maxDistance : Option D) (trace : Option HnswTraceStats)
    (hs : Calm self index tests s) :
    (hnswLoadElementImpl support tid q loadVec maxDistance trace).Returns
      (hnswHandler self) s fun r t =>
        r.1 = hnswGetDistance support q etup.data ∧
        r.2.1 = (if maxDistance.all fun d =>
            decide (hnswGetDistance support q etup.data < d) then
          some (hnswLoadElementFromTuple tid etup loadVec) else none) ∧
        Calm self index tests t := by
  obtain ⟨helement, hdeleted⟩ := HnswIndex.live?_eq_some.mp h
  refine .bind (readElementTuple_returns helement hs) ?_
  rintro _ t ⟨rfl, ht⟩
  rw [if_neg (by simp [hdeleted])]
  refine .bind (countDistance_returns q trace ht) ?_
  intro trace' t' ht'
  refine .bind (touchTrace_returns trace' _ ht') ?_
  intro trace'' u hu
  exact .ret ⟨rfl, rfl, hu⟩

omit [LinearOrder D] in
theorem hnswLoadNeighborTids_returns (element : HnswElement V)
    {ntup : HnswNeighborTuple} (h : index.neighbor? element.neighbortid = some ntup)
    (m lc : Nat) (trace : Option HnswTraceStats) (hs : Calm self index tests s) :
    (hnswLoadNeighborTids element m lc trace).Returns (hnswHandler self) s fun r t =>
      r.1 = (if ntup.version ≠ element.version ∨
          ntup.count ≠ (element.level + 2) * m then none
        else some (ntup.layer ((element.level - lc) * m) (hnswGetLayerM m lc))) ∧
      Calm self index tests t := by
  refine .bind (readNeighborTuple_returns h hs) ?_
  rintro _ t ⟨rfl, ht⟩
  split
  · exact .ret ⟨rfl, ht⟩
  · refine .bind (touchTrace_returns trace _ ht) ?_
    intro trace' t' ht'
    exact .ret ⟨rfl, ht'⟩

omit [LinearOrder D] in
theorem diskNeighbors_returns (hgraph : index.IsGraph) (h : index.live? tid = some etup)
    (lc : Nat) (loadVec : Bool) (trace : Option HnswTraceStats) (hs : Calm self index tests s) :
    (diskNeighbors index.metapage.m lc (hnswLoadElementFromTuple tid etup loadVec)
      trace).Returns (hnswHandler self) s fun r t =>
        r.1 = index.links lc tid ∧ Calm self index tests t := by
  obtain ⟨ntup, hntup⟩ := Option.isSome_iff_exists.mp (hgraph.neighbortid h)
  have hlinks : index.links lc tid = index.neighborTids lc etup := by
    rw [HnswIndex.links, h]
    rfl
  rw [hlinks, HnswIndex.neighborTids, hntup]
  refine .bind (hnswLoadNeighborTids_returns
    (hnswLoadElementFromTuple tid etup loadVec) hntup index.metapage.m lc trace hs) ?_
  rintro ⟨tids, trace'⟩ t ⟨htids, ht⟩
  by_cases hreplaced : ntup.version ≠ etup.version ∨
      ntup.count ≠ (etup.level + 2) * index.metapage.m
  · obtain rfl : tids = none := htids.trans (if_pos hreplaced)
    exact .ret ⟨(if_pos hreplaced).symm, ht⟩
  · obtain rfl := htids.trans (if_neg hreplaced)
    refine .bind (emit_returns rfl ht) fun _ u hu => ?_
    exact .ret ⟨(if_neg hreplaced).symm, hu⟩

theorem loadedAccess_returns (hgraph : index.IsGraph) (support : HnswSupport V D)
    (q : Option V) (lc : Nat) (inserting : Bool) {P : ItemPointer → Prop}
    (hP : ∀ {a b}, P a → b ∈ index.links lc a → P b) :
    AccessReturns (hnswHandler self)
      (diskAccess support q index.metapage.m lc inserting) lc
      (loadedGraph index support q lc inserting P) (Calm self index tests) where
  elementKey := by
    rintro tid ⟨hlive, -⟩
    obtain ⟨etup, hetup⟩ := Option.isSome_iff_exists.mp hlive
    exact congrArg HnswElement.tid (loadedElement_of_live hetup inserting)
  links_known := by
    rintro tid n ⟨hlive, hPtid⟩ hlevel hn
    obtain ⟨etup, hetup⟩ := Option.isSome_iff_exists.mp hlive
    refine ⟨hgraph.links hetup ?_ n hn, hP hPtid hn⟩
    have heq := congrArg HnswElement.level (loadedElement_of_live hetup inserting)
    exact hlevel.trans heq.le
  loadNeighbors := by
    rintro tid s trace ⟨hlive, -⟩ - hs
    obtain ⟨etup, hetup⟩ := Option.isSome_iff_exists.mp hlive
    have hneighbors := diskNeighbors_returns hgraph hetup lc inserting trace hs
    rw [← loadedElement_of_live hetup] at hneighbors
    exact hneighbors
  loadElement := by
    rintro tid s limit trace ⟨hlive, -⟩ hs
    change (index.live? tid).isSome at hlive
    obtain ⟨etup, hetup⟩ := Option.isSome_iff_exists.mp hlive
    have hload := hnswLoadElementImpl_returns support hetup q inserting limit trace hs
    have hdistance : (loadedGraph index support q lc inserting P).distance tid =
        hnswGetDistance support q etup.data := by
      simp only [loadedGraph, diskGraph]
      rw [hetup]
      rfl
    have helement : (loadedGraph index support q lc inserting P).element tid =
        hnswLoadElementFromTuple tid etup inserting := loadedElement_of_live hetup inserting
    rw [← hdistance, ← helement] at hload
    refine hload.mono ?_
    rintro r t ⟨hr, hloaded, ht⟩
    refine ⟨hr, ?_, ht⟩
    split at hloaded
    · exact .inl hloaded
    · next hfar =>
      obtain ⟨d, rfl⟩ : ∃ d, limit = some d := by
        cases limit with
        | none => exact absurd rfl hfar
        | some d => exact ⟨d, rfl⟩
      rw [Option.all_some, decide_eq_true_eq, not_lt] at hfar
      exact .inr ⟨hloaded, d, rfl, hfar⟩
  touchTrace := fun trace f hs => touchTrace_returns trace f hs

theorem diskAccess_returns (hgraph : index.IsGraph) (support : HnswSupport V D)
    (q : Option V) (lc : Nat) {P : ItemPointer → Prop}
    (hP : ∀ {a b}, P a → b ∈ index.links lc a → P b) :
    AccessReturns (hnswHandler self)
      (diskAccess support q index.metapage.m lc false) lc
      (diskGraph index support q lc P) (Calm self index tests) :=
  loadedAccess_returns hgraph support q lc false hP

end Disk

end PgVector.Hnsw
