import Mathlib.Data.Multiset.Bind
import PgVector.Hnsw.Graph
import PgVector.Hnsw.TraceInterference

/-!
# What an iterative scan returns

A scan in relaxed order, run until it is exhausted while nothing changes the
index.  Every heap TID of every element that the search of layer 0 has met is
returned once, whatever the limits are; without a limit the elements met are
those that links at layer 0 lead to.
-/

namespace PgVector.Hnsw

open Foundation

section Runs

variable {V D : Type} [LinearOrder D]

/-- Go on with the `rest` of the calls if one has returned a heap TID. -/
def continueFetching
    (rest : HnswScanOpaque V D → HnswProgram V (HnswScanOpaque V D × List ItemPointer)) :
    HnswScanOpaque V D × Option ItemPointer → HnswProgram V (HnswScanOpaque V D × List ItemPointer)
  | (so, none) => return (so, [])
  | (so, some heaptid) => do
    let (so, heaptids) ← rest so
    return (so, heaptid :: heaptids)

def fetchUntilExhausted (ctx : ScanContext V D) (settings : ScanSettings) :
    Nat → HnswScanOpaque V D → HnswProgram V (HnswScanOpaque V D × List ItemPointer)
  | 0, _ => .fail .outOfFuel
  | calls + 1, so => do
    let fetched ← hnswgettuple ctx settings so
    continueFetching (fetchUntilExhausted ctx settings calls) fetched

/-- The way down to layer 0: the element at which the search of that layer starts. -/
def groundEntry (ctx : ScanContext V D) (value : Option V) :
    HnswProgram V (Option ItemPointer) := do
  lockPage .scan .share
  let (m, entryPoint) ← hnswGetMetaPageInfo
  match entryPoint with
  | none => return none
  | some e => do
    let ep ← hnswEntryCandidate ctx.support e.tid value false
    let (ep, _, _) ← scanUpperLayers ctx value m ep.element.level [ep] none 0
    return ep.head?.map fun sc => sc.element.tid

end Runs

def WithinLimits {V D : Type} (ctx : ScanContext V D) (maxScanTuples maxMemory : Nat)
    (tests : List (Nat × Nat)) : Prop :=
  ∀ test ∈ tests, test.1 < maxScanTuples ∧ ctx.memAllocated test.2 ≤ maxMemory

section Progress

variable {V D : Type} [LinearOrder D]

/-- The elements that can be reached from `entry` at layer 0. -/
def groundGraph (ctx : ScanContext V D) (index : HnswIndex V) (value : Option V)
    (entry : ItemPointer) :
    SearchGraph (HnswElement V) ItemPointer ItemPointer D :=
  diskGraph index ctx.support value 0 (index.Reachable 0 entry)

abbrev CandidateSet (V D : Type) :=
  Multiset (DiskCandidate V D)

def candidateTids (candidates : CandidateSet V D) : Multiset ItemPointer :=
  candidates.map fun sc => sc.element.tid

def heaptidsLeft (candidates : CandidateSet V D) : Multiset ItemPointer :=
  candidates.bind fun sc => (sc.element.heaptids : Multiset ItemPointer)

def storedTids (index : HnswIndex V) (tids : Multiset ItemPointer) : Multiset ItemPointer :=
  tids.bind fun tid => (index.liveTids tid : Multiset ItemPointer)

/--
A scan that has returned the heap TIDs `yielded` and made the given tests.  Every
element met is on its way out, discarded or gone; and the neighbors of all but
the discarded ones have been met, as long as no limit was reached.
-/
structure ScanProgress (ctx : ScanContext V D) (index : HnswIndex V)
    (value : Option V) (maxScanTuples maxMemory : Nat) (entry : ItemPointer)
    (tests : List (Nat × Nat)) (yielded : Multiset ItemPointer)
    (d : CandidateHeap V D) (so : HnswScanOpaque V D) : Prop where
  first : so.first = false
  q : so.q = value
  m : so.m = index.metapage.m
  memory : so.maxMemory = maxMemory
  discarded : so.discarded = some d
  heap : PairingHeap.IsHeap compareNearestCandidates d
  heap_mem : ∀ sc ∈ d.elems, (groundGraph ctx index value entry).Candidate sc
  nodup : so.v.Nodup
  known : ∀ tid ∈ so.v, (groundGraph ctx index value entry).known tid
  entry_mem : entry ∈ so.v
  accounted : ∃ gone, (so.v : Multiset ItemPointer) =
    candidateTids (so.w : CandidateSet V D) + candidateTids d.elems + gone
  conserved : yielded + heaptidsLeft (so.w : CandidateSet V D) +
      heaptidsLeft d.elems =
    storedTids index so.v
  expanded : WithinLimits ctx maxScanTuples maxMemory tests →
    ∀ tid ∈ so.v, tid ∉ candidateTids d.elems →
      (groundGraph ctx index value entry).Expanded id so.v tid

omit [LinearOrder D] in
theorem heaptidsLeft_of_candidates {ctx : ScanContext V D} {index : HnswIndex V}
    {value : Option V} {entry : ItemPointer}
    {candidates : CandidateSet V D}
    (h : ∀ sc ∈ candidates, (groundGraph ctx index value entry).Candidate sc) :
    heaptidsLeft candidates = storedTids index (candidateTids candidates) := by
  unfold heaptidsLeft storedTids candidateTids
  rw [Multiset.bind_map]
  refine Multiset.bind_congr fun sc hsc => ?_
  obtain ⟨tid, hknown, rfl⟩ := h sc hsc
  obtain ⟨etup, hetup⟩ := Option.isSome_iff_exists.mp hknown.1
  have htid : (diskElement index tid).tid = tid :=
    congrArg HnswElement.tid (diskElement_of_live hetup)
  change ((diskElement index tid).heaptids : Multiset ItemPointer) =
    index.liveTids (diskElement index tid).tid
  rw [htid, heaptids_diskElement]

variable {self : ThreadId} {ctx : ScanContext V D} {settings : ScanSettings}
  {index : HnswIndex V} {value : Option V} {maxScanTuples maxMemory : Nat}
  {entry : ItemPointer} {tests : List (Nat × Nat)} {yielded : Multiset ItemPointer}
  {d : CandidateHeap V D} {so : HnswScanOpaque V D} {s : Shared V}

omit [LinearOrder D] in
theorem Calm.locked (hs : Calm self index tests s) :
    hnswHandler self (.lockPage .scan .share) s = some ((), s.withLock ⟨self, .scan, .share⟩) ∧
      Calm self index tests (s.withLock ⟨self, .scan, .share⟩) :=
  ⟨hnswHandler_lockPage (conflicts_of_alone .scan .share hs.alone), hs.same,
    alone_withLock _ _ hs.alone, hs.tested⟩

omit [LinearOrder D] in
theorem Calm.underLock {α : Type} {p : HnswProgram V α} {Q : α → Prop}
    (hs : Calm self index tests s)
    (hp : ∀ s, Calm self index tests s →
      p.Returns (hnswHandler self) s fun a t => Calm self index tests t ∧ Q a) :
    (do
      lockPage .scan .share
      let a ← p
      unlockPage .scan .share
      return a).Returns (hnswHandler self) s fun a t => Calm self index tests t ∧ Q a := by
  refine .perform hs.locked.1 (Program.Returns.bind (hp _ hs.locked.2) ?_)
  rintro a t ⟨ht, hQ⟩
  exact .perform rfl (.ret ⟨⟨ht.same, alone_erase ht.alone _, ht.tested⟩, hQ⟩)

/-- A scan in relaxed order, with enough fuel to go through the graph. -/
structure ScansGraph (ctx : ScanContext V D) (settings : ScanSettings) (index : HnswIndex V) :
    Prop where
  graph : index.IsGraph
  fuel : index.elements.length < ctx.fuel
  efSearch : 0 < settings.efSearch
  relaxed : settings.iterativeScan = .relaxed

/-- Whatever the state, the search of layer 0 starts at `entry`. -/
def EntersAt (self : ThreadId) (ctx : ScanContext V D) (index : HnswIndex V) (value : Option V)
    (entry : ItemPointer) : Prop :=
  ∀ s tests, Calm self index tests s →
    (groundEntry ctx value).Returns (hnswHandler self) s fun r _ => r = some entry

theorem groundAccess_returns (hgraph : index.IsGraph) (tests : List (Nat × Nat)) :
    AccessReturns (hnswHandler self)
      (diskAccess ctx.support value index.metapage.m 0 false) 0
      (groundGraph ctx index value entry) (Calm self index tests) :=
  diskAccess_returns hgraph ctx.support value 0 fun ha hab => ha.tail hab

omit [LinearOrder D] in
theorem ground_bound (tids : List ItemPointer) (hnodup : tids.Nodup)
    (hknown : ∀ tid ∈ tids, (groundGraph ctx index value entry).known tid) :
    tids.length ≤ index.elements.length :=
  HnswIndex.length_le_elements hnodup fun tid htid => (hknown tid htid).1

namespace ScanProgress

theorem of_search {w : Candidates V D} {st : SearchState (HnswElement V) ItemPointer D}
    {gone : Multiset ItemPointer} {ef : Nat}
    (hresult : SearchResult (diskAccess ctx.support value index.metapage.m 0 false)
      (groundGraph ctx index value entry) 0 ef true gone w st)
    (hfirst : so.first = false) (hq : so.q = value) (hm : so.m = index.metapage.m)
    (hmemory : so.maxMemory = maxMemory) (hdiscarded : st.discarded = some d)
    (hentry : entry ∈ st.visited) (hgone : yielded = storedTids index gone)
    (hexpanded : WithinLimits ctx maxScanTuples maxMemory tests →
      ∀ tid ∈ gone, (groundGraph ctx index value entry).Expanded id st.visited tid) :
    ScanProgress ctx index value maxScanTuples maxMemory entry tests yielded d
      { so.leaveSearch st with w := w } := by
  have hmem : d ∈ st.discarded := hdiscarded
  have haccounted : (st.visited : Multiset ItemPointer) =
      candidateTids (w : CandidateSet V D) + candidateTids d.elems + gone :=
    hresult.accounted d hmem
  refine
    { first := hfirst, q := hq, m := hm, memory := hmemory, discarded := hdiscarded
      heap := hresult.discarded d hmem, heap_mem := hresult.discarded_mem d hmem
      nodup := hresult.nodup, known := hresult.known, entry_mem := hentry
      accounted := ⟨gone, haccounted⟩, conserved := ?_, expanded := ?_ }
  · change yielded + heaptidsLeft (w : CandidateSet V D) + heaptidsLeft d.elems =
      storedTids index (st.visited : Multiset ItemPointer)
    rw [heaptidsLeft_of_candidates fun sc hsc => (hresult.found sc hsc).1,
      heaptidsLeft_of_candidates (hresult.discarded_mem d hmem), haccounted, hgone]
    simp only [storedTids, Multiset.add_bind]
    abel
  · intro hlimits tid htid hkept
    have htid : tid ∈ (st.visited : Multiset ItemPointer) := htid
    rw [haccounted, Multiset.mem_add, Multiset.mem_add] at htid
    rcases htid with (hfound | hdiscarded) | hgone
    · obtain ⟨sc, hsc, rfl⟩ := Multiset.mem_map.mp hfound
      exact (hresult.found sc hsc).2.2
    · exact absurd hdiscarded hkept
    · exact hexpanded hlimits tid hgone

theorem returnRemaining (hso : ScanProgress ctx index value maxScanTuples maxMemory
      entry tests yielded d so) (hw : so.w = [])
    (hlimits : ¬ WithinLimits ctx maxScanTuples maxMemory tests) :
    ∃ d', ScanProgress ctx index value maxScanTuples maxMemory entry tests yielded d'
        (returnRemaining ctx so d) ∧
      (returnRemaining ctx so d).w.length + d'.elems.card + so.v.length =
        d.elems.card + (returnRemaining ctx so d).v.length ∧
      ((returnRemaining ctx so d).w = [] → d'.elems = 0) := by
  unfold Hnsw.returnRemaining
  cases hremove : d.removeFirst? compareNearestCandidates with
  | none =>
    have hnil := (PairingHeap.removeFirst?_eq_none _).mp hremove
    refine ⟨d, hso, ?_, fun _ => by rw [hnil]; rfl⟩
    simp [hw]
  | some removed =>
    obtain ⟨sc, rest⟩ := removed
    obtain ⟨helems, -⟩ := PairingHeap.elems_removeFirst? _ hso.heap.root hremove
    have hmem := hso.heap_mem
    rw [helems] at hmem
    obtain ⟨gone, hgone⟩ := hso.accounted
    refine ⟨rest, ?_, ?_, fun h => ?_⟩
    · refine { hso with
        discarded := rfl
        heap := hso.heap.removeFirst? isComparator_nearest hremove
        heap_mem := (Multiset.forall_mem_cons.mp hmem).2
        accounted := ⟨gone, ?_⟩, conserved := ?_
        expanded := fun h => absurd h hlimits }
      · rw [helems] at hgone
        simp only [hw, candidateTids, List.nil_append, Multiset.map_cons,
          Multiset.coe_nil, Multiset.coe_singleton, Multiset.map_zero,
          Multiset.map_singleton] at hgone ⊢
        rw [hgone, ← Multiset.singleton_add]
        abel
      · have hconserved := hso.conserved
        rw [helems] at hconserved
        simp only [hw, heaptidsLeft, List.nil_append, Multiset.cons_bind,
          Multiset.coe_nil, Multiset.coe_singleton, Multiset.zero_bind,
          Multiset.singleton_bind] at hconserved ⊢
        rw [← hconserved]
        abel
    · simp only [hw, helems, List.nil_append, List.length_singleton, Multiset.card_cons]
      omega
    · simp [hw] at h

end ScanProgress

theorem resumeScanItems_returns (hscan : ScansGraph ctx settings index)
    (hso : ScanProgress ctx index value maxScanTuples maxMemory entry tests yielded
      d so) (hw : so.w = []) (hs : Calm self index tests s) :
    (resumeScanItems ctx settings so d).Returns (hnswHandler self) s fun so' t =>
      Calm self index tests t ∧ ∃ d',
        ScanProgress ctx index value maxScanTuples maxMemory entry tests yielded d' so' ∧
        so'.w.length + d'.elems.card + so.v.length = d.elems.card + so'.v.length ∧
        (so'.w = [] → d'.elems = 0) := by
  obtain ⟨gone, hgone⟩ := hso.accounted
  have hgone : (so.v : Multiset ItemPointer) = candidateTids d.elems + gone := by
    rw [hgone, hw]
    simp [candidateTids]
  unfold resumeScanItems
  cases hempty : d.isEmpty with
  | true =>
    have hnil := PairingHeap.isEmpty_iff.mp hempty
    refine .ret ⟨hs, d, ?_, ?_, fun _ => by rw [hnil]; rfl⟩
    · exact
        { hso with
          accounted := ⟨gone, by simpa [candidateTids] using hgone⟩
          conserved := by simpa [hw] using hso.conserved }
    · simp
  | false =>
    obtain ⟨hsplit, -⟩ := PairingHeap.elems_take compareNearestCandidates
      settings.efSearch hso.heap.root
    have hbatch : ∀ sc ∈ (d.take compareNearestCandidates settings.efSearch).1,
        (groundGraph ctx index value entry).Candidate sc := by
      intro sc hsc
      apply hso.heap_mem
      rw [hsplit]
      exact Multiset.mem_add.mpr (.inl hsc)
    have hkept : ∀ sc ∈ (d.take compareNearestCandidates settings.efSearch).2.elems,
        (groundGraph ctx index value entry).Candidate sc := by
      intro sc hsc
      apply hso.heap_mem
      rw [hsplit]
      exact Multiset.mem_add.mpr (.inr hsc)
    have haccounted : (so.v : Multiset ItemPointer) =
        candidateTids ((d.take compareNearestCandidates settings.efSearch).1 : CandidateSet V D) +
        candidateTids (d.take compareNearestCandidates settings.efSearch).2.elems +
        gone := by
      rw [hgone, hsplit]
      simp only [candidateTids, Multiset.map_add]
    -- what was returned so far belongs to the elements that are gone
    have hyielded : yielded = storedTids index gone := by
      have hconserved := hso.conserved
      rw [heaptidsLeft_of_candidates hso.heap_mem, hgone, hw] at hconserved
      simp only [heaptidsLeft, storedTids, Multiset.add_bind, Multiset.coe_nil,
        Multiset.zero_bind, add_zero] at hconserved
      rw [add_comm] at hconserved
      exact add_left_cancel hconserved
    have hsearch : (scanGroundLayer ctx settings so
        (d.take compareNearestCandidates settings.efSearch).1
        (some (d.take compareNearestCandidates settings.efSearch).2) false
        (so.tracePointer settings) (so.tmpCtx + ctx.sizes.list
          (d.take compareNearestCandidates settings.efSearch).1.length)).Returns
        (hnswHandler self) s fun r t => Calm self index tests t ∧
          SearchResult (diskAccess ctx.support value index.metapage.m 0 false)
            (groundGraph ctx index value entry) 0 settings.efSearch true gone
            r.1 r.2 ∧ so.v ⊆ r.2.visited := by
      unfold scanGroundLayer
      rw [hso.q, hso.m]
      exact hnswSearchLayer_returns_resumed (groundAccess_returns hscan.graph tests)
        ctx.sizes ground_bound hscan.fuel _ hbatch
        (PairingHeap.take_length_pos _ hscan.efSearch hempty) (PairingHeap.take_length_le _ _ _)
        _ rfl (hso.heap.take isComparator_nearest _) hkept hso.nodup hso.known
        haccounted hs
    simp only [Bool.false_eq_true, if_false]
    refine .bind hsearch ?_
    rintro ⟨w, st⟩ t ⟨ht, hresult, hsub⟩
    obtain ⟨d', hd'⟩ := Option.isSome_iff_exists.mp hresult.isSome_discarded
    refine .ret ⟨ht, d', ?_, ?_, ?_⟩
    · refine .of_search hresult hso.first hso.q hso.m hso.memory hd'
        (hsub hso.entry_mem) hyielded fun hlimits tid htid => ?_
      have hmet : tid ∈ so.v := by
        have hmem : tid ∈ candidateTids d.elems + gone :=
          Multiset.mem_add.mpr (.inr htid)
        rwa [← hgone] at hmem
      have hnodup : (candidateTids d.elems + gone).Nodup := by
        rw [← hgone]
        exact hso.nodup
      have hkept : tid ∉ candidateTids d.elems := fun hmem =>
        (Multiset.disjoint_left.mp (Multiset.nodup_add.mp hnodup).2.2) hmem htid
      exact (hso.expanded hlimits tid hmet hkept).mono hsub
    · have hold := congrArg Multiset.card hgone
      have hnew := congrArg Multiset.card (hresult.accounted d' hd')
      simp only [SearchAccess.keys, candidateTids, Multiset.card_add,
        Multiset.card_map, Multiset.coe_card] at hold hnew
      change w.length + d'.elems.card + so.v.length = d.elems.card + st.visited.length
      omega
    · intro hnone
      have hpos := hresult.length_pos
      change w = [] at hnone
      simp [hnone] at hpos

omit [LinearOrder D] in
theorem WithinLimits.of_append {more : List (Nat × Nat)}
    (h : WithinLimits ctx maxScanTuples maxMemory (tests ++ more)) :
    WithinLimits ctx maxScanTuples maxMemory tests :=
  fun test htest => h test (List.mem_append_left _ htest)

theorem refill_returns (hscan : ScansGraph ctx settings index)
    (hso : ScanProgress ctx index value settings.maxScanTuples maxMemory entry tests
      yielded d so) (hs : Calm self index tests s) :
    (refill ctx settings so).Returns (hnswHandler self) s fun so' t =>
      ∃ tests' d', Calm self index tests' t ∧
        ScanProgress ctx index value settings.maxScanTuples maxMemory entry tests' yielded d' so' ∧
        so'.w.length + d'.elems.card + so.v.length = so.w.length + d.elems.card + so'.v.length ∧
        (so'.w = [] → d'.elems = 0) := by
  unfold refill
  cases hw : so.w with
  | cons sc rest =>
    refine .ret ⟨tests, d, hs, hso, ?_, fun h => ?_⟩
    · rw [hw]
    · simp [hw] at h
  | nil =>
    simp only [List.isEmpty_nil, Bool.not_true, Bool.false_eq_true, if_false,
      hscan.relaxed, reduceCtorEq, hso.discarded]
    refine .perform rfl ?_
    -- the test is on record from here on
    have htested : Calm self index (tests ++ [(so.tuples, so.tmpCtx)])
        { s with
          log := Function.update s.log self
            (s.log self ++ [.limitTest so.tuples so.tmpCtx (!d.isEmpty)]) } := by
      refine ⟨hs.same, hs.alone, ?_⟩
      simp only [Function.update_self, ← hs.tested]
      simp [limitTests]
    have hprogress : ScanProgress ctx index value settings.maxScanTuples maxMemory
        entry (tests ++ [(so.tuples, so.tmpCtx)]) yielded d so :=
      { hso with expanded := fun h => hso.expanded h.of_append }
    split
    · next hreached =>
      have hbeyond : ¬ WithinLimits ctx settings.maxScanTuples maxMemory
          (tests ++ [(so.tuples, so.tmpCtx)]) := by
        intro hlimits
        obtain ⟨htuples, hmemory⟩ := hlimits (so.tuples, so.tmpCtx) (by simp)
        rw [limitReached_iff, hso.memory] at hreached
        simp only at htuples hmemory
        omega
      obtain ⟨d', hd', hcount, hnone⟩ := hprogress.returnRemaining hw hbeyond
      refine .ret ⟨_, d', htested, hd', ?_, hnone⟩
      simpa using hcount
    · refine (htested.underLock fun s =>
        resumeScanItems_returns hscan hprogress hw).mono ?_
      rintro so' t ⟨ht, d', hd', hcount, hnone⟩
      refine ⟨_, d', ht, hd', ?_, hnone⟩
      simpa using hcount

omit [LinearOrder D] in
theorem coe_append_singleton (ws : Candidates V D)
    (sc : DiskCandidate V D) :
    ((ws ++ [sc] : Candidates V D) : CandidateSet V D) = sc ::ₘ ws := by
  rw [← Multiset.coe_add, Multiset.coe_singleton, add_comm, Multiset.singleton_add]

variable {ws : Candidates V D} {sc : DiskCandidate V D}

theorem ScanProgress.dropCandidate
    (hso : ScanProgress ctx index value maxScanTuples maxMemory entry tests yielded d so)
    (hw : so.w = ws ++ [sc]) (hnil : sc.element.heaptids = []) :
    ScanProgress ctx index value maxScanTuples maxMemory entry tests yielded d
      { so with w := ws } := by
  obtain ⟨gone, hgone⟩ := hso.accounted
  have hconserved := hso.conserved
  rw [hw, coe_append_singleton] at hgone hconserved
  refine { hso with accounted := ⟨sc.element.tid ::ₘ gone, ?_⟩, conserved := ?_ }
  · rw [hgone]
    simp only [candidateTids, Multiset.map_cons, Multiset.cons_add, Multiset.add_cons]
  · rw [← hconserved]
    simp only [heaptidsLeft, Multiset.cons_bind, hnil, Multiset.coe_nil, zero_add]

theorem ScanProgress.takeLast
    (hso : ScanProgress ctx index value maxScanTuples maxMemory entry tests yielded d so)
    (hw : so.w = ws ++ [sc]) {heaptids : List ItemPointer} {heaptid : ItemPointer}
    (hheaptids : sc.element.heaptids = heaptids ++ [heaptid]) :
    ScanProgress ctx index value maxScanTuples maxMemory entry tests
      (heaptid ::ₘ yielded) d
      { so with
        w := ws ++ [{ sc with element := { sc.element with heaptids := heaptids } }] } := by
  obtain ⟨gone, hgone⟩ := hso.accounted
  have hconserved := hso.conserved
  rw [hw, coe_append_singleton] at hgone hconserved
  refine { hso with accounted := ⟨gone, ?_⟩, conserved := ?_ }
  · rw [hgone, coe_append_singleton]
    simp only [candidateTids, Multiset.map_cons]
  · rw [← hconserved, coe_append_singleton, ← Multiset.singleton_add]
    simp only [heaptidsLeft, Multiset.cons_bind, hheaptids, ← Multiset.coe_add,
      Multiset.coe_singleton]
    abel

theorem takeHeaptid_dropped (hw : so.w = ws ++ [sc]) (hnil : sc.element.heaptids = []) :
    takeHeaptid settings so = ({ so with w := ws }, none) := by
  simp [takeHeaptid, hw, hnil]

theorem takeHeaptid_taken (hw : so.w = ws ++ [sc]) {heaptids : List ItemPointer}
    {heaptid : ItemPointer} (hheaptids : sc.element.heaptids = heaptids ++ [heaptid])
    (h : settings.iterativeScan = .strict → so.previousDistance ≤ sc.distance) :
    takeHeaptid settings so =
      ({ so with
          w := ws ++ [{ sc with element := { sc.element with heaptids := heaptids } }]
          previousDistance :=
            if settings.iterativeScan = .strict then sc.distance else so.previousDistance },
        some heaptid) := by
  by_cases hstrict : settings.iterativeScan = .strict
  · simp [takeHeaptid, hw, hheaptids, hstrict, not_lt.mpr (h hstrict)]
  · simp [takeHeaptid, hw, hheaptids, hstrict]

theorem ScanProgress.takeHeaptid (hscan : ScansGraph ctx settings index)
    (hso : ScanProgress ctx index value maxScanTuples maxMemory entry tests yielded d so)
    (hw : so.w = ws ++ [sc]) :
    (∃ heaptid so', Hnsw.takeHeaptid settings so = (so', some heaptid) ∧
        ScanProgress ctx index value maxScanTuples maxMemory entry tests
          (heaptid ::ₘ yielded) d so') ∨
      ∃ so', Hnsw.takeHeaptid settings so = (so', none) ∧ so'.w = ws ∧
        so'.v = so.v ∧
        ScanProgress ctx index value maxScanTuples maxMemory entry tests yielded d so' := by
  rcases List.eq_nil_or_concat sc.element.heaptids with hnil | ⟨heaptids, heaptid, hlast⟩
  · exact .inr ⟨_, takeHeaptid_dropped hw hnil, rfl, rfl, hso.dropCandidate hw hnil⟩
  · rw [List.concat_eq_append] at hlast
    have hrelax : settings.iterativeScan ≠ .strict := by
      rw [hscan.relaxed]
      decide
    refine .inl ⟨heaptid, _, takeHeaptid_taken hw hlast fun h => absurd h hrelax, ?_⟩
    rw [if_neg hrelax]
    exact hso.takeLast hw hlast

theorem fetchLoop_returns (hscan : ScansGraph ctx settings index) (fuel : Nat)
    (hso : ScanProgress ctx index value settings.maxScanTuples maxMemory entry tests
      yielded d so) (hs : Calm self index tests s)
    (hturns : so.w.length + d.elems.card + index.elements.length < fuel + so.v.length) :
    (fetchLoop ctx settings fuel so).Returns (hnswHandler self) s fun r t =>
      ∃ tests' d', Calm self index tests' t ∧
        ((∃ heaptid, r.2 = some heaptid ∧
          ScanProgress ctx index value settings.maxScanTuples maxMemory entry tests'
            (heaptid ::ₘ yielded) d' r.1) ∨
        (r.2 = none ∧ r.1.w = [] ∧ d'.elems = 0 ∧
          ScanProgress ctx index value settings.maxScanTuples maxMemory entry tests'
            yielded d' r.1)) := by
  induction fuel generalizing so d s tests with
  | zero =>
    have hle := ground_bound so.v hso.nodup hso.known
    omega
  | succ fuel ih =>
    refine .bind (refill_returns hscan hso hs) ?_
    rintro so₁ t ⟨tests₁, d₁, ht, hso₁, hcount, hnone⟩
    rcases List.eq_nil_or_concat so₁.w with hw | ⟨ws, sc, hw⟩
    · simp only [hw, List.isEmpty_nil, if_true]
      exact .ret ⟨tests₁, d₁, ht, .inr ⟨rfl, hw, hnone hw, hso₁⟩⟩
    · rw [List.concat_eq_append] at hw
      have hmore : so₁.w.isEmpty = false := by simp [hw]
      simp only [hmore, Bool.false_eq_true, if_false]
      rcases hso₁.takeHeaptid hscan hw with
        ⟨heaptid, so₂, htake, hso₂⟩ | ⟨so₂, htake, hw₂, hv, hso₂⟩
      · rw [htake]
        exact .ret ⟨tests₁, d₁, ht, .inl ⟨heaptid, rfl, hso₂⟩⟩
      · rw [htake]
        apply ih hso₂ ht
        rw [hw] at hcount
        simp only [List.length_append, List.length_singleton] at hcount
        rw [hw₂, hv]
        omega

/-! ## The first search -/

def diskCandidate (ctx : ScanContext V D) (index : HnswIndex V) (value : Option V)
    (tid : ItemPointer) : DiskCandidate V D :=
  ⟨diskElement index tid,
    hnswGetDistance ctx.support value ((index.live? tid).bind HnswElementTuple.data)⟩

theorem hnswEntryCandidate_returns {tid : ItemPointer} (hlive : (index.live? tid).isSome)
    (hs : Calm self index tests s) :
    (hnswEntryCandidate ctx.support tid value false).Returns (hnswHandler self) s
      fun r t => r = diskCandidate ctx index value tid ∧ Calm self index tests t := by
  obtain ⟨etup, hetup⟩ := Option.isSome_iff_exists.mp hlive
  refine .bind (hnswLoadElementImpl_returns ctx.support hetup value false none none hs) ?_
  rintro ⟨distance, element, trace⟩ t ⟨hdistance, helement, ht⟩
  simp only [Option.all_none, if_true] at hdistance helement
  subst hdistance helement
  refine .ret ⟨?_, ht⟩
  simp only [diskCandidate, hetup, diskElement_of_live hetup, Option.bind_some]

theorem scanUpperLayers_returns (hgraph : index.IsGraph)
    (hfuel : index.elements.length < ctx.fuel) (lc : Nat) {tid : ItemPointer}
    (hlive : (index.live? tid).isSome) (hlevel : lc ≤ (diskElement index tid).level)
    (value : Option V) (trace : Option HnswTraceStats) (allocated : Nat)
    (hs : Calm self index tests s) :
    (scanUpperLayers ctx value index.metapage.m lc
      [diskCandidate ctx index value tid] trace allocated).Returns
      (hnswHandler self) s fun r t => Calm self index tests t ∧
        ∃ tid', (index.live? tid').isSome ∧ r.1 = [diskCandidate ctx index value tid'] := by
  induction lc generalizing tid trace allocated s with
  | zero => exact .ret ⟨hs, tid, hlive, rfl⟩
  | succ lc ih =>
    have hA : AccessReturns (hnswHandler self)
        (diskAccess ctx.support value index.metapage.m (lc + 1) false) (lc + 1)
        (diskGraph index ctx.support value (lc + 1) fun _ => True)
        (Calm self index tests) :=
      diskAccess_returns hgraph ctx.support value (lc + 1) fun _ _ => trivial
    refine .bind (hnswSearchLayer_returns_first hA ctx.sizes
      (fun tids hnodup hknown => HnswIndex.length_le_elements hnodup
        fun tid htid => (hknown tid htid).1) hfuel ⟨hlive, trivial⟩ hlevel
      Nat.one_pos index.metapage.m (fun h => by cases h) hs) ?_
    rintro ⟨w, st⟩ t ⟨ht, hresult, -⟩
    have hlength : w.length = 1 :=
      Nat.le_antisymm hresult.length_le hresult.length_pos
    obtain ⟨sc, hw⟩ := List.length_eq_one_iff.mp hlength
    simp only at hw hresult
    subst hw
    obtain ⟨⟨tid', hknown, rfl⟩, hlevel', -⟩ := hresult.found sc (by simp)
    exact ih hknown.1 (Nat.le_of_succ_le hlevel') st.trace st.allocated ht

theorem scanUpperLayers_untraced {m lc : Nat} {ep w : Candidates V D}
    {trace : Option HnswTraceStats} {allocated : Nat} {s' : Shared V}
    (hs : Calm self index tests s) {tests' : List (Nat × Nat)}
    (hs' : Calm self index tests' s')
    (hreturns : (scanUpperLayers ctx value m lc ep trace allocated).Returns
      (hnswHandler self) s fun r _ => r.1 = w) :
    (scanUpperLayers ctx value m lc ep none 0).Returns (hnswHandler self) s'
      fun r _ => r.1 = w := by
  have hsame : SameIndex self s s' := ⟨hs.same.trans hs'.same.symm, hs.alone, hs'.alone⟩
  -- no test of a limit counts here
  have halike : (scanUpperLayers ctx value m lc ep trace allocated).Alike
      (scanComparison self ctx allocated 0 0) _ (scanUpperLayers ctx value m lc ep none 0) s s' :=
    scanUpperLayers_alike value m lc ep trace none (Nat.zero_add allocated).symm hsame
  refine (halike.returns ?_ hreturns).mono ?_
  · rintro s ⟨event, -, hgap⟩
    apply hgap
    cases event <;> simp [LimitUnaffected]
  · rintro r t ⟨r', t', hr', hr, -⟩
    rw [← hr, hr']

theorem hnswGetMetaPageInfo_calm (hgraph : index.IsGraph)
    (hs : Calm self index tests s) :
    hnswGetMetaPageInfo.Returns (hnswHandler self) s fun r t =>
      r = (index.metapage.m, index.metapage.entryPoint) ∧ Calm self index tests t := by
  have hmeta : hnswHandler self .getMetaPage s = some (index.metapage, s) := by
    rw [hnswHandler, hs.same]
  refine .perform hmeta ?_
  simp only [hgraph.magicNumber, ne_eq, not_true_eq_false, if_false]
  exact .ret ⟨rfl, hs⟩

theorem scanGroundLayer_first (maxScanTuples : Nat) (so : HnswScanOpaque V D)
    (hscan : ScansGraph ctx settings index) (hq : so.q = value) (hm : so.m = index.metapage.m)
    (hmemory : so.maxMemory = maxMemory) (hlive : (index.live? entry).isSome)
    (trace : Option HnswTraceStats) (allocated : Nat) (hs : Calm self index tests s) :
    (scanGroundLayer ctx settings so [diskCandidate ctx index value entry] (some .nil)
      true trace allocated).Returns (hnswHandler self) s fun r t =>
      Calm self index tests t ∧ ∃ d, ScanProgress ctx index value maxScanTuples maxMemory
        entry tests 0 d { so.leaveSearch r.2 with first := false, w := r.1 } := by
  unfold scanGroundLayer
  rw [hq, hm]
  refine .mono (hnswSearchLayer_returns_first
    (groundAccess_returns hscan.graph tests) ctx.sizes ground_bound hscan.fuel
    ⟨hlive, .refl⟩ (Nat.zero_le _) hscan.efSearch _ (fun _ => rfl) hs) ?_
  rintro ⟨w, st⟩ t ⟨ht, hresult, hentry⟩
  simp only at hresult hentry
  obtain ⟨d, hd⟩ := Option.isSome_iff_exists.mp hresult.isSome_discarded
  have hprogress : ScanProgress ctx index value maxScanTuples maxMemory entry tests 0 d
      { ({ so with first := false } : HnswScanOpaque V D).leaveSearch st with w := w } :=
    .of_search hresult rfl hq hm hmemory hd hentry rfl (fun _ tid htid => by simp at htid)
  exact ⟨ht, d, hprogress⟩

theorem getScanItems_progress (maxScanTuples : Nat) (hscan : ScansGraph ctx settings index)
    {e : EntryPoint} (he : index.metapage.entryPoint = some e)
    (hmemory : so.maxMemory = maxMemory) (hs : Calm self index tests s) :
    (getScanItems ctx settings so value).Returns (hnswHandler self) s fun so' t =>
      Calm self index tests t ∧ ∃ entry d, EntersAt self ctx index value entry ∧
        ScanProgress ctx index value maxScanTuples maxMemory entry tests 0 d
          { so' with first := false } := by
  have hlive := hscan.graph.entryPoint e he
  refine .bind (hnswGetMetaPageInfo_calm hscan.graph hs) ?_
  rintro ⟨m, entryPoint⟩ t ⟨hmeta, ht⟩
  cases hmeta
  rw [he]
  refine .bind (hnswEntryCandidate_returns hlive ht) ?_
  rintro _ t₁ ⟨rfl, ht₁⟩
  obtain ⟨⟨ep, trace, allocated⟩, t₂, hrun, ht₂, entry, hentry, hep⟩ :=
    scanUpperLayers_returns hscan.graph hscan.fuel _ hlive le_rfl value
      (({ so with q := value, m := index.metapage.m } : HnswScanOpaque V D).tracePointer settings)
      (so.tmpCtx + ctx.sizes.element + ctx.sizes.searchCandidate + ctx.sizes.list 1) ht₁
  simp only at hep
  subst hep
  have hground : EntersAt self ctx index value entry := by
    intro s' tests' hs'
    refine .perform hs'.locked.1 ?_
    refine .bind (hnswGetMetaPageInfo_calm hscan.graph hs'.locked.2) ?_
    rintro ⟨m, entryPoint⟩ u ⟨hmeta, hu⟩
    cases hmeta
    rw [he]
    refine .bind (hnswEntryCandidate_returns hlive hu) ?_
    rintro _ u₁ ⟨rfl, hu₁⟩
    refine .bind (scanUpperLayers_untraced ht₁ hu₁ ⟨_, _, hrun, rfl⟩) ?_
    rintro ⟨ep, r⟩ u₂ hep
    simp only at hep
    subst hep
    obtain ⟨etup, hetup⟩ := Option.isSome_iff_exists.mp hentry
    have htid : (diskElement index entry).tid = entry :=
      congrArg HnswElement.tid (diskElement_of_live hetup)
    exact .ret (congrArg some htid)
  refine .bind (P := fun r t => r = ([diskCandidate ctx index value entry],
    trace, allocated) ∧ t = t₂) ⟨_, _, hrun, rfl, rfl⟩ ?_
  rintro _ _ ⟨rfl, rfl⟩
  have hoff : settings.iterativeScan ≠ .off := by
    rw [hscan.relaxed]
    decide
  simp only [if_neg hoff]
  refine .bind
    (scanGroundLayer_first maxScanTuples { so with q := value, m := index.metapage.m }
      hscan rfl rfl hmemory hentry trace allocated ht₂) ?_
  rintro ⟨w, st⟩ u ⟨hu, d, hd⟩
  exact .ret ⟨hu, entry, d, hground, hd⟩

/-! ## Calls -/

theorem observe_returns (hs : Calm self index tests s) :
    (observe : HnswProgram V Observation).Returns (hnswHandler self) s fun _ t =>
      Calm self index tests t :=
  .step rfl (.ret ⟨hs.same, hs.alone, hs.tested⟩)

theorem hnswgettuple_calm
    {Q : HnswScanOpaque V D × Option ItemPointer → List (Nat × Nat) → Prop}
    (hQ : ∀ so heaptid trace tests, Q (so, heaptid) tests →
      Q ({ so with trace := trace }, heaptid) tests)
    (hsearch : ∀ s, Calm self index tests s →
      (searchAndFetch ctx settings so).Returns (hnswHandler self) s fun r t =>
        ∃ tests', Calm self index tests' t ∧ Q r tests')
    (hs : Calm self index tests s) :
    (hnswgettuple ctx settings so).Returns (hnswHandler self) s fun r t =>
      ∃ tests', Calm self index tests' t ∧ Q r tests' := by
  unfold hnswgettuple
  split
  · refine .bind (observe_returns hs) ?_
    intro before t ht
    refine .bind (hsearch t ht) ?_
    rintro ⟨so', heaptid⟩ t₁ ⟨tests', ht₁, hr⟩
    refine .bind (emit_returns rfl ht₁) ?_
    intro _ t₂ ht₂
    refine .bind (observe_returns ht₂) ?_
    intro after t₃ ht₃
    exact .ret ⟨tests', ht₃, hQ so' heaptid _ tests' hr⟩
  · exact hsearch s hs

def Fetched (ctx : ScanContext V D) (index : HnswIndex V) (value : Option V)
    (maxScanTuples maxMemory : Nat) (entry : ItemPointer)
    (yielded : Multiset ItemPointer)
    (r : HnswScanOpaque V D × Option ItemPointer) (tests : List (Nat × Nat)) : Prop :=
  ∃ d, (∃ heaptid, r.2 = some heaptid ∧
      ScanProgress ctx index value maxScanTuples maxMemory entry tests
        (heaptid ::ₘ yielded) d r.1) ∨
    (r.2 = none ∧ r.1.w = [] ∧ d.elems = 0 ∧
      ScanProgress ctx index value maxScanTuples maxMemory entry tests yielded d r.1)

theorem Fetched.withTrace {heaptid : Option ItemPointer}
    (h : Fetched ctx index value maxScanTuples maxMemory entry yielded (so, heaptid)
      tests) (trace : HnswTraceStats) :
    Fetched ctx index value maxScanTuples maxMemory entry yielded
      ({ so with trace := trace }, heaptid) tests := by
  obtain ⟨d, ⟨tid, htid, hso⟩ | ⟨hnone, hw, hd, hso⟩⟩ := h
  · exact ⟨d, .inl ⟨tid, htid, { hso with }⟩⟩
  · exact ⟨d, .inr ⟨hnone, hw, hd, { hso with }⟩⟩

theorem fetchLoop_fetched (hscan : ScansGraph ctx settings index)
    (hso : ScanProgress ctx index value settings.maxScanTuples maxMemory entry tests
      yielded d so) (hs : Calm self index tests s) :
    (fetchLoop ctx settings ctx.fuel so).Returns (hnswHandler self) s fun r t =>
      ∃ tests', Calm self index tests' t ∧
        Fetched ctx index value settings.maxScanTuples maxMemory entry yielded r tests' := by
  have hturns : so.w.length + d.elems.card + index.elements.length < ctx.fuel + so.v.length := by
    obtain ⟨gone, hgone⟩ := hso.accounted
    have hcard := congrArg Multiset.card hgone
    simp only [candidateTids, Multiset.card_add, Multiset.card_map, Multiset.coe_card] at hcard
    have hfuel := hscan.fuel
    omega
  refine (fetchLoop_returns hscan ctx.fuel hso hs hturns).mono ?_
  rintro r t ⟨tests', d', ht, hr⟩
  exact ⟨tests', ht, d', hr⟩

omit [LinearOrder D] in
theorem card_storedTids_le (index : HnswIndex V) (tids : List ItemPointer) :
    (storedTids index tids).card ≤ hnswHeaptids * tids.length := by
  induction tids with
  | nil => simp [storedTids]
  | cons tid rest ih =>
    have hone : (index.liveTids tid).length ≤ hnswHeaptids := by
      unfold HnswIndex.liveTids
      cases index.live? tid with
      | none => exact Nat.zero_le _
      | some etup =>
        rw [← etup.heaptids_length]
        exact (List.takeWhile_sublist _).length_le
    simp only [storedTids, ← Multiset.cons_coe, Multiset.cons_bind, Multiset.card_add,
      Multiset.coe_card, List.length_cons, Nat.mul_succ] at ih ⊢
    omega

/-- A scan that has ended: the heap TIDs in `r` were returned after `yielded`. -/
def Exhausted (self : ThreadId) (ctx : ScanContext V D) (index : HnswIndex V)
    (value : Option V) (maxScanTuples maxMemory : Nat) (entry : ItemPointer)
    (yielded : Multiset ItemPointer) (r : HnswScanOpaque V D × List ItemPointer)
    (t : Shared V) : Prop :=
  ∃ tests d, Calm self index tests t ∧
    ScanProgress ctx index value maxScanTuples maxMemory entry tests
      (r.2 + yielded) d r.1 ∧ r.1.w = [] ∧ d.elems = 0

theorem continueFetching_returns {calls : Nat} {heaptid : Option ItemPointer}
    (hrest : ∀ yielded d, ScanProgress ctx index value settings.maxScanTuples maxMemory
        entry tests yielded d so →
      hnswHeaptids * index.elements.length < calls + yielded.card →
      (fetchUntilExhausted ctx settings calls so).Returns (hnswHandler self) s
        (Exhausted self ctx index value settings.maxScanTuples maxMemory entry yielded))
    (hfetched : Fetched ctx index value settings.maxScanTuples maxMemory entry yielded
      (so, heaptid) tests)
    (hcalls : hnswHeaptids * index.elements.length < calls + 1 + yielded.card)
    (hs : Calm self index tests s) :
    (continueFetching (fetchUntilExhausted ctx settings calls) (so, heaptid)).Returns
      (hnswHandler self) s
      (Exhausted self ctx index value settings.maxScanTuples maxMemory entry yielded) := by
  obtain ⟨d, ⟨tid, htid, hso⟩ | ⟨hnone, hw, hd, hso⟩⟩ := hfetched
  · simp only at htid hso
    subst htid
    refine .bind (hrest (tid ::ₘ yielded) d hso (by rw [Multiset.card_cons]; omega)) ?_
    rintro ⟨so', heaptids⟩ u ⟨tests', d', hu, hso', hw, hd⟩
    refine .ret ⟨tests', d', hu, ?_, hw, hd⟩
    rwa [← Multiset.cons_coe, Multiset.cons_add, ← Multiset.add_cons]
  · simp only at hnone hw hso
    subst hnone
    refine .ret ⟨tests, d, hs, ?_, hw, hd⟩
    simpa using hso

theorem fetchUntilExhausted_returns (hscan : ScansGraph ctx settings index) (calls : Nat)
    (hso : ScanProgress ctx index value settings.maxScanTuples maxMemory entry tests yielded d so)
    (hcalls : hnswHeaptids * index.elements.length < calls + yielded.card)
    (hs : Calm self index tests s) :
    (fetchUntilExhausted ctx settings calls so).Returns (hnswHandler self) s
      (Exhausted self ctx index value settings.maxScanTuples maxMemory entry yielded) := by
  induction calls generalizing so d s tests yielded with
  | zero =>
    have hcard := congrArg Multiset.card hso.conserved
    have hstored := card_storedTids_le index so.v
    have hmet := ground_bound so.v hso.nodup hso.known
    have hmul := Nat.mul_le_mul_left hnswHeaptids hmet
    simp only [Multiset.card_add] at hcard
    omega
  | succ calls ih =>
    have hsearch : ∀ s, Calm self index tests s →
        (searchAndFetch ctx settings so).Returns (hnswHandler self) s fun r t =>
          ∃ tests', Calm self index tests' t ∧
            Fetched ctx index value settings.maxScanTuples maxMemory entry yielded r tests' := by
      intro s hs
      have hfirst : firstScan ctx settings so = .ret so := by
        rw [firstScan, hso.first]
        rfl
      rw [searchAndFetch, hfirst]
      exact fetchLoop_fetched hscan hso hs
    refine .bind
      (hnswgettuple_calm (fun so heaptid trace tests h => h.withTrace trace) hsearch hs) ?_
    rintro ⟨so', heaptid⟩ t ⟨tests', ht, hfetched⟩
    exact continueFetching_returns (fun yielded d hso hcalls => ih hso hcalls ht) hfetched hcalls ht

structure Restarted (argument : Option V) (maxMemory : Nat)
    (so : HnswScanOpaque V D) : Prop where
  first : so.first = true
  v : so.v = []
  discarded : so.discarded = none
  memory : so.maxMemory = maxMemory
  orderByData : so.orderByData = some argument
  previousDistance : so.previousDistance = ⊥

omit [LinearOrder D] in
theorem hnswrescan_restarted {norderbys : Nat} (horder : norderbys ≠ 0)
    (memory : HnswScanOpaque V D) (workMem : Nat) (scanMemMultiplier : ℚ)
    (argument : Option V) (hs : Calm self index tests s) :
    (hnswrescan settings (hnswbeginscan memory workMem scanMemMultiplier norderbys)
      (some argument)).Returns (hnswHandler self) s fun so t =>
        Calm self index tests t ∧
          Restarted argument (scanMaxMemory workMem scanMemMultiplier) so := by
  have hdata : (hnswbeginscan memory workMem scanMemMultiplier norderbys).orderByData.map
      (fun _ => argument) = some argument := by
    simp [hnswbeginscan, horder]
  refine .bind (emit_returns rfl hs) ?_
  intro _ t ht
  split
  · refine .bind (emit_returns rfl ht) ?_
    intro _ t₁ ht₁
    refine .perform rfl ?_
    refine .bind (observe_returns ⟨ht₁.same, ht₁.alone, ht₁.tested⟩) ?_
    intro now t₂ ht₂
    exact .ret ⟨ht₂, rfl, rfl, rfl, rfl, hdata, rfl⟩
  · exact .ret ⟨ht, rfl, rfl, rfl, rfl, hdata, rfl⟩

variable {argument : Option V}

theorem firstScan_locked {Q : HnswScanOpaque V D → Prop} (hmvcc : ctx.mvccSnapshot = true)
    (hso : Restarted argument maxMemory so)
    (hitems : ∀ so s, Restarted argument maxMemory so → Calm self index tests s →
      (getScanItems ctx settings so (getScanValue ctx argument).1).Returns
        (hnswHandler self) s fun so' t =>
          Calm self index tests t ∧ Q { so' with first := false })
    (hs : Calm self index tests s) :
    (firstScan ctx settings so).Returns (hnswHandler self) s fun so' t =>
      Calm self index tests t ∧ Q so' := by
  unfold firstScan
  rw [if_pos hso.first, hso.orderByData]
  dsimp only
  rw [if_pos hmvcc]
  refine .perform hs.locked.1 ?_
  refine .bind (hitems _ _ { hso with } hs.locked.2) ?_
  rintro so' t ⟨ht, hQ⟩
  exact .perform rfl (.ret ⟨⟨ht.same, alone_erase ht.alone _, ht.tested⟩, hQ⟩)

theorem fetchUntilExhausted_nothing (hgraph : index.IsGraph)
    (hfuel : index.elements.length < ctx.fuel) (hmvcc : ctx.mvccSnapshot = true)
    (hso : Restarted argument maxMemory so) (hnone : index.metapage.entryPoint = none)
    {calls : Nat} (hcalls : 0 < calls) (hs : Calm self index tests s) :
    (fetchUntilExhausted ctx settings calls so).Returns (hnswHandler self) s fun r _ =>
      r.1.v = [] ∧ r.2 = [] := by
  have hsearch : ∀ s, Calm self index tests s →
      (searchAndFetch ctx settings so).Returns (hnswHandler self) s fun r t =>
        ∃ tests', Calm self index tests' t ∧ r.1.v = [] ∧ r.2 = none := by
    intro s hs
    have hfirst : (firstScan ctx settings so).Returns (hnswHandler self) s fun so' t =>
        Calm self index tests t ∧ so'.w = [] ∧ so'.v = [] ∧ so'.discarded = none := by
      refine firstScan_locked hmvcc hso (fun so s hso hs => ?_) hs
      refine .bind (hnswGetMetaPageInfo_calm hgraph hs) ?_
      rintro ⟨m, entryPoint⟩ t ⟨hmeta, ht⟩
      cases hmeta
      rw [hnone]
      exact .ret ⟨ht, rfl, hso.v, hso.discarded⟩
    refine .bind hfirst ?_
    rintro so' t ⟨ht, hw, hv, hdiscarded⟩
    obtain ⟨fuel, hpos⟩ := Nat.exists_eq_add_of_lt (Nat.zero_lt_of_lt hfuel)
    rw [hpos, Nat.zero_add, fetchLoop]
    have hrefill : refill ctx settings so' = .ret so' := by
      simp [refill, hw, hdiscarded]
    rw [hrefill]
    simp only [Program.ret_bind, hw, List.isEmpty_nil, if_true]
    exact .ret ⟨tests, ht, hv, rfl⟩
  obtain ⟨n, hn⟩ := Nat.exists_eq_add_of_lt hcalls
  rw [hn, Nat.zero_add]
  refine .bind (hnswgettuple_calm (fun so heaptid trace tests h => h) hsearch hs) ?_
  rintro ⟨so', heaptid⟩ t ⟨tests', ht, hv, hnone⟩
  simp only at hv hnone
  subst hnone
  exact .ret ⟨hv, rfl⟩

theorem fetchUntilExhausted_first (hscan : ScansGraph ctx settings index)
    (hmvcc : ctx.mvccSnapshot = true)
    (hso : Restarted argument maxMemory so) {e : EntryPoint}
    (he : index.metapage.entryPoint = some e) {calls : Nat}
    (hcalls : hnswHeaptids * index.elements.length < calls)
    (hs : Calm self index tests s) :
    (fetchUntilExhausted ctx settings calls so).Returns (hnswHandler self) s fun r t =>
      ∃ entry, EntersAt self ctx index (getScanValue ctx argument).1 entry ∧
        Exhausted self ctx index (getScanValue ctx argument).1 settings.maxScanTuples
          maxMemory entry 0 r t := by
  have hsearch : ∀ s, Calm self index tests s →
      (searchAndFetch ctx settings so).Returns (hnswHandler self) s fun r t =>
        ∃ tests', Calm self index tests' t ∧ ∃ entry,
          EntersAt self ctx index (getScanValue ctx argument).1 entry ∧
          Fetched ctx index (getScanValue ctx argument).1 settings.maxScanTuples
            maxMemory entry 0 r tests' := by
    intro s hs
    have hitems := firstScan_locked (Q := fun so' => ∃ entry d,
        EntersAt self ctx index (getScanValue ctx argument).1 entry ∧
        ScanProgress ctx index (getScanValue ctx argument).1 settings.maxScanTuples
          maxMemory entry tests 0 d so') hmvcc hso
      (fun so s hso hs => getScanItems_progress _ hscan he hso.memory hs) hs
    refine .bind hitems ?_
    rintro so' t ⟨ht, entry, d, hground, hprogress⟩
    refine (fetchLoop_fetched hscan hprogress ht).mono ?_
    rintro r u ⟨tests', hu, hfetched⟩
    exact ⟨tests', hu, entry, hground, hfetched⟩
  obtain ⟨n, hn⟩ := Nat.exists_eq_add_of_lt (Nat.zero_lt_of_lt hcalls)
  rw [hn, Nat.zero_add] at hcalls ⊢
  refine .bind (hnswgettuple_calm ?_ hsearch hs) ?_
  · rintro so heaptid trace tests ⟨entry, hground, h⟩
    exact ⟨entry, hground, h.withTrace trace⟩
  rintro ⟨so', heaptid⟩ t ⟨tests', ht, entry, hground, hfetched⟩
  refine (continueFetching_returns (fun yielded d hso hcalls =>
    fetchUntilExhausted_returns hscan n hso hcalls ht) hfetched (by simpa using hcalls)
    ht).mono ?_
  intro r u hr
  exact ⟨entry, hground, hr⟩

theorem ScanProgress.mem_visited_iff (hso : ScanProgress ctx index value maxScanTuples
      maxMemory entry tests yielded d so) (hd : d.elems = 0)
    (hlimits : WithinLimits ctx maxScanTuples maxMemory tests) (tid : ItemPointer) :
    tid ∈ so.v ↔ index.Reachable 0 entry tid := by
  constructor
  · intro htid
    exact (hso.known tid htid).2
  · intro hreach
    induction hreach with
    | refl => exact hso.entry_mem
    | tail hreach hlink ih =>
      refine hso.expanded hlimits _ ih ?_ _ hlink
      simp [candidateTids, hd]

/--
A scan in relaxed order, run alone on a graph until it is exhausted.  It returns
the heap TIDs of the elements it has met, each once, whatever the limits are; if
no test found a limit to be reached, these are the elements that links at layer 0
lead to from the element where the search of that layer started.
-/
theorem relaxed_scan_exactly_once (self : ThreadId) (ctx : ScanContext V D)
    (settings : ScanSettings) (memory : HnswScanOpaque V D) (workMem : Nat)
    (scanMemMultiplier : ℚ) (norderbys : Nat) (argument : Option V) (calls : Nat)
    (s : Shared V) (hgraph : s.index.IsGraph) (halone : Alone self s)
    (hlog : s.log self = []) (hmvcc : ctx.mvccSnapshot = true)
    (horder : norderbys ≠ 0) (hrelaxed : settings.iterativeScan = .relaxed)
    (hef : 1 ≤ settings.efSearch) (hfuel : s.index.elements.length < ctx.fuel)
    (hcalls : hnswHeaptids * s.index.elements.length < calls) :
    (do
      let so ← hnswrescan settings
        (hnswbeginscan memory workMem scanMemMultiplier norderbys) (some argument)
      fetchUntilExhausted ctx settings calls so).Returns (hnswHandler self) s
      fun r t =>
        r.1.v.Nodup ∧ r.2.Perm (r.1.v.flatMap s.index.liveTids) ∧
        (WithinLimits ctx settings.maxScanTuples
            (scanMaxMemory workMem scanMemMultiplier) (limitTests (t.log self)) →
          ∃ entry : Option ItemPointer,
            (groundEntry ctx (getScanValue ctx argument).1).Returns (hnswHandler self) s
              (fun r _ => r = entry) ∧
            ∀ tid, tid ∈ r.1.v ↔ ∃ e ∈ entry, s.index.Reachable 0 e tid) := by
  have hs : Calm self s.index [] s := ⟨rfl, halone, by rw [hlog]; rfl⟩
  refine .bind (hnswrescan_restarted horder memory workMem scanMemMultiplier argument hs) ?_
  rintro so t ⟨ht, hso⟩
  cases he : s.index.metapage.entryPoint with
  | none =>
    refine (fetchUntilExhausted_nothing hgraph hfuel hmvcc hso he
      (Nat.zero_lt_of_lt hcalls) ht).mono ?_
    rintro r u ⟨hv, hr⟩
    rw [hv, hr]
    refine ⟨List.nodup_nil, .refl _, fun _ => ⟨none, ?_, by simp⟩⟩
    refine .perform hs.locked.1 ?_
    refine .bind (hnswGetMetaPageInfo_calm hgraph hs.locked.2) ?_
    rintro ⟨m, entryPoint⟩ u ⟨hmeta, -⟩
    cases hmeta
    rw [he]
    exact .ret rfl
  | some e =>
    refine (fetchUntilExhausted_first ⟨hgraph, hfuel, hef, hrelaxed⟩ hmvcc hso he hcalls ht).mono ?_
    rintro ⟨so', heaptids⟩ u ⟨entry, hground, tests, d, hu, hprogress, hw, hd⟩
    simp only at hw hprogress
    refine ⟨hprogress.nodup, ?_, fun hlimits => ⟨some entry, hground s [] hs, ?_⟩⟩
    · have hconserved := hprogress.conserved
      rw [hw, hd] at hconserved
      simp only [heaptidsLeft, storedTids, Multiset.coe_nil, Multiset.zero_bind,
        add_zero, Multiset.coe_bind] at hconserved
      exact Multiset.coe_eq_coe.mp hconserved
    · intro tid
      rw [hu.tested] at hlimits
      rw [hprogress.mem_visited_iff hd hlimits tid]
      simp

end Progress

theorem threeElementShared_isGraph : threeElementShared.index.IsGraph :=
  HnswIndex.isGraph_of_elements rfl (by decide) (by decide)

def fetchThree : HnswProgram Nat (HnswScanOpaque Nat Nat × List ItemPointer) := do
  let so ← hnswrescan (relaxedSettings 1) (hnswbeginscan default 64 1 1) (some (some 0))
  fetchUntilExhausted (serverContext 4) (relaxedSettings 1) 31 so

/-- Three elements, with a memory limit that none of the tests reaches. -/
theorem relaxed_scan_exactly_once_three :
    fetchThree.Returns (hnswHandler 0) threeElementShared fun r _ =>
      r.2 = [⟨3, 1⟩, ⟨3, 2⟩, ⟨3, 3⟩] ∧ r.1.v.Nodup ∧
        ∀ tid, tid ∈ r.1.v ↔ threeElementShared.index.Reachable 0 ⟨1, 1⟩ tid := by
  obtain ⟨r, t, hrun, hnodup, -, hreached⟩ :=
    relaxed_scan_exactly_once 0 (serverContext 4) (relaxedSettings 1) default 64 1 1
      (some 0) 31 threeElementShared threeElementShared_isGraph (rowShared_alone 1 2 3) rfl rfl
      one_ne_zero rfl le_rfl (by decide) (by decide)
  have hfetched : (fetchThree.run (hnswHandler 0) threeElementShared).1.value?.map Prod.snd =
      some [⟨3, 1⟩, ⟨3, 2⟩, ⟨3, 3⟩] := by decide +kernel
  have hlimits : ∀ test ∈ limitTests ((fetchThree.run (hnswHandler 0) threeElementShared).2.log 0),
      test.1 < 20000 ∧ (serverContext 4).memAllocated test.2 ≤ scanMaxMemory 64 1 := by
    decide +kernel
  have hground : ((groundEntry (serverContext 4) (some 0)).run (hnswHandler 0)
      threeElementShared).1.value? = some (some ⟨1, 1⟩) := by decide +kernel
  change fetchThree.run _ _ = _ at hrun
  rw [hrun] at hfetched hlimits
  obtain ⟨entry, ⟨a, u, hentry, rfl⟩, hiff⟩ := hreached hlimits
  change (groundEntry (serverContext 4) (some 0)).run _ _ = _ at hentry
  rw [hentry] at hground
  obtain rfl := Option.some.inj hground
  exact ⟨r, t, hrun, Option.some.inj hfetched, hnodup, by simpa using hiff⟩

end PgVector.Hnsw
