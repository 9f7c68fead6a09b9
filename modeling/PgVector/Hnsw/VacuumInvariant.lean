import PgVector.Hnsw.PairingInvariant
import PgVector.Hnsw.ScanSafe
import PgVector.Hnsw.TraceInterference
import PgVector.Hnsw.VacuumSafe

/-!
# No deleted element is loaded

Inserts, scans and one vacuum at a time, aborted at any point, work on an index that was
built and flushed.  Scans that finish their search under one lock never load an element
that is marked as deleted.  A scan that keeps candidates for another search does, if the
vacuum is marking a candidate's neighbors when the candidate is expanded.  The vacuum finds
the graph repaired, unless an element that it has recorded is in use again.
-/

namespace PgVector.Hnsw

open Foundation

open Tracked

variable {V D F : Type}

/-! ## All tasks together -/

section Sound

def Ends (t : Task V D F) (h h' : History) : Prop :=
  h'.condemned = h.condemned ∧ (h'.recorded = h.recorded ∨ t.isVacuum = true ∧ h'.recorded = [])

theorem ends_finish (t : Task V D F) (h : History) : Ends t h (t.finish h) := by
  cases t with
  | insert ctx value heaptid drawnLevel =>
    simp only [Task.finish]
    split <;> exact ⟨rfl, .inl rfl⟩
  | vacuum ctx callback => exact ⟨rfl, .inr ⟨rfl, rfl⟩⟩
  | scan ctx last calls so => exact ⟨rfl, .inl rfl⟩

theorem ends_abort (t : Task V D F) (h : History) : Ends t h (t.abort h) := by
  cases t with
  | insert ctx value heaptid drawnLevel => exact ⟨rfl, .inl rfl⟩
  | vacuum ctx callback => exact ⟨rfl, .inr ⟨rfl, rfl⟩⟩
  | scan ctx last calls so => exact ⟨rfl, .inl rfl⟩

variable [LinearOrder D] [LinearOrder F] [DecidableEq V] {strict : Prop}
  {scans : ScanSettings → Prop} {may : Monitored V → Task V D F → HnswOp V → Prop}
  {self : ThreadId} {t : Task V D F} {x : Tracked V}

theorem exists_ended {s : Shared V} {h : History} (hx : Invariant strict x)
    (hends : Ends t x.state.history h) (hindex : s.index = x.index)
    (hself : s.locksOf self = []) (hothers : ∀ j, j ≠ self → s.locksOf j = x.locksOf j) :
    ∃ y : Tracked V, y.state = ⟨s, h⟩ ∧ Invariant strict y ∧ y.locksOf self = [] ∧
      (vacuumArgument strict scans may).Unnoticed self t x y := by
  obtain ⟨hcondemned, hrecorded⟩ := hends
  let y : Tracked V := ⟨⟨s, h⟩, x.doomed, x.settled⟩
  have hreclaim : y.reclaim = x.reclaim := by
    change (⟨s.index.net, {tid | tid ∈ h.condemned}, _, _⟩ : Reclaim ItemPointer) = _
    rw [hindex, hcondemned]
    rfl
  have hinv : Invariant strict y := by
    refine ⟨?_, ?_, ?_⟩
    · change s.index.WellFormed
      rw [hindex]
      exact hx.wellFormed
    · rw [hreclaim]
      exact hx.valid
    · intro hs tid htid
      change tid ∈ s.index.net.emptied
      change tid ∈ h.recorded at htid
      rcases hrecorded with hsame | ⟨-, hnone⟩
      · rw [hsame] at htid
        rw [hindex]
        exact hx.recorded hs tid htid
      · rw [hnone] at htid
        cases htid
  have hevolves : Evolves x.index y.index := by
    change Evolves _ s.index
    rw [hindex]
    exact .refl _
  refine ⟨y, rfl, hinv, hself, (guar_of_stays hevolves hothers (fun _ _ => ?_) ?_).1⟩
  · rw [hreclaim]
    exact .refl _
  · rcases hrecorded with hsame | ⟨ht, -⟩
    · refine .inr ⟨?_, hsame⟩
      rw [hreclaim]
      exact .refl _
    · exact .inl ht

theorem vacuumArgument_sound (hreuse : strict → ∀ s t o, may s t o → ReusesUnrecorded s t o)
    (hscan : ∀ self ctx last calls so, ∃ Good iterative,
      ScanKeeps strict scans may self (.scan ctx last calls so) Good iterative) :
    (vacuumArgument strict scans may).Sound where
  start := fun _ _ _ _ _ _ => trivial
  program := by
    intro i t x hstart hx hrest
    cases t with
    | insert ctx value heaptid drawnLevel =>
      exact insert_safe (fun hs s o => hreuse hs s _ o) ctx value drawnLevel hstart hrest
    | vacuum ctx callback => exact vacuum_safe rfl ctx callback hrest
    | scan ctx last calls so =>
      obtain ⟨⟨settings, orderbys, rest, rfl⟩, hcalls⟩ := hstart
      obtain ⟨Good, iterative, hkeeps⟩ := hscan i ctx last _ so
      refine (scan_safe hkeeps ctx last settings orderbys hcalls so hrest).seq ?_
      exact fun _ y _ hy z hyz _ => hyz.locks.trans hy
  finish := fun i t x hx hpost =>
    exists_ended hx (ends_finish t _) rfl hpost fun _ _ => rfl
  abort := by
    intro i t x _ hx _
    refine exists_ended hx (ends_abort t _) rfl ?_ fun j hj => ?_
    · exact locksOf_releaseLocks.trans (if_pos rfl)
    · exact locksOf_releaseLocks.trans (if_neg hj)

end Sound

/-! ## The flushed index -/

theorem FlushedTo.reclaimable {m : Nat} {graph : HnswGraph V F} {index : HnswIndex V}
    {position : Nat → FlushPosition} (h : FlushedTo m graph index position)
    (hgraph : graph.Formed m) : (⟨index.net, ∅, ∅, False⟩ : Reclaim ItemPointer).Valid where
  emptied_present := fun tid ⟨etup, hetup, _⟩ => ⟨etup, hetup⟩
  doomed_emptied := Set.empty_subset _
  condemned_doomed := subset_rfl
  deleted_condemned := by
    rintro tid ⟨etup, hetup, hdeleted⟩
    obtain ⟨ptr, e, -, -, rfl⟩ := h.exists_element hetup
    cases hdeleted
  names_present := by
    rintro tid b ⟨etup, ntup, hetup, hntup, hmem, hvalid⟩
    obtain ⟨ptr, e, he, -, rfl⟩ := h.exists_element hetup
    obtain rfl := Option.some.inj (hntup.symm.trans (h.neighbors he))
    obtain ⟨tids, htids, hb⟩ := mem_neighborSlots hmem hvalid
    obtain ⟨layer, hlayer, rfl⟩ := List.mem_map.mp htids
    obtain ⟨hc, hhc, rfl⟩ := List.mem_map.mp hb
    have hlt := (hgraph.elements e (List.mem_of_getElem? he)).refers layer hlayer hc hhc
    exact ⟨_, h.element (List.getElem?_eq_getElem hlt)⟩
  names_doomed := fun _ _ _ _ => Set.notMem_empty _
  names_condemned := fun _ _ _ _ => Set.notMem_empty _
  names_deleted := by
    rintro tid ⟨etup, hetup, hdeleted⟩
    obtain ⟨ptr, e, -, -, rfl⟩ := h.exists_element hetup
    cases hdeleted
  entry_present := by
    intro tid htid
    change index.metapage.entryPoint.map EntryPoint.tid = some tid at htid
    rw [h.entryPoint] at htid
    obtain ⟨entry, hentry, rfl⟩ := Option.map_eq_some_iff.mp htid
    obtain ⟨ptr, -, hptr⟩ := Option.bind_eq_some_iff.mp hentry
    obtain ⟨e, he, rfl⟩ := Option.map_eq_some_iff.mp hptr
    exact ⟨_, h.element he⟩
  entry_doomed := fun _ _ => Set.notMem_empty _

section Reached

variable [LinearOrder D] [LinearOrder F] [DecidableEq V] {strict : Prop}
  {scans : ScanSettings → Prop} {may : Monitored V → Task V D F → HnswOp V → Prop}

theorem vacuum_holds (hreuse : strict → ∀ s t o, may s t o → ReusesUnrecorded s t o)
    (hscan : ∀ self ctx last calls so, ∃ Good iterative,
      ScanKeeps strict scans may self (.scan ctx last calls so) Good iterative)
    {ctx : InsertContext V D F} {m : Nat} (hm : 2 ≤ m ∧ m ≤ 100) {valueSize : V → Nat}
    {built : Pool (memorySignature V F) (MemoryState V F) (MemoryInsert V)}
    (hbuilt : (memorySystem ctx m True).Reaches (Pool.idle .init) built)
    {s : Shared V} (hlocks : s.locks = [])
    (hflush : flushPages valueSize m built.shared.graph = .ok s.index)
    {pool : Pool (hnswSignature V) (Monitored V) (Task V D F)}
    (hreach : (hnswSystem scans may).Reaches (Pool.idle ⟨s, .start⟩) pool) :
    ∃ y, (vacuumArgument strict scans may).Holds pool y := by
  have hformed := (memory_reaches hbuilt).1.formed
  obtain ⟨-, position, hflushed, hordered⟩ := flushPages_ok hm hformed hflush
  let x : Tracked V := ⟨⟨s, .start⟩, ∅, False⟩
  have hreclaim : x.reclaim = ⟨s.index.net, ∅, ∅, False⟩ := by
    have hnone : {tid : ItemPointer | tid ∈ History.start.condemned} = ∅ := by
      simp [History.start]
    change (⟨_, {tid | tid ∈ History.start.condemned}, _, _⟩ : Reclaim ItemPointer) = _
    rw [hnone]
    rfl
  have hinv : Invariant strict x := by
    refine ⟨(hflushed.matched hformed hordered).toWellFormed, ?_, fun _ _ h => nomatch h⟩
    rw [hreclaim]
    exact hflushed.reclaimable hformed
  have hrest : ∀ i, x.locksOf i = [] := by
    intro i
    change s.locks.filter _ = []
    rw [hlocks]
    rfl
  exact (vacuumArgument_sound hreuse hscan).reaches (System.Argument.holds_idle hinv hrest) hreach

/-! ## Scans that search once -/

/--
No insert, no repair and no scan loads an element that is marked as deleted, and the
entry point is never one.
-/
theorem deleted_never_loaded (ctx : InsertContext V D F) (m : Nat) (hm : 2 ≤ m ∧ m ≤ 100)
    (valueSize : V → Nat)
    (built : Pool (memorySignature V F) (MemoryState V F) (MemoryInsert V))
    (hbuilt : (memorySystem ctx m True).Reaches (Pool.idle .init) built)
    (s : Shared V) (hlocks : s.locks = [])
    (hflush : flushPages valueSize m built.shared.graph = .ok s.index)
    (pool : Pool (hnswSignature V) (Monitored V) (Task V D F))
    (hreach : (hnswSystem (fun settings => settings.iterativeScan = .off)
      fun _ _ _ => True).Reaches (Pool.idle ⟨s, .start⟩) pool) :
    (∀ i t, pool.threads i ≠ some (t, .fail .cannotLoadDeletedElement)) ∧
      ∀ e, pool.shared.shared.index.metapage.entryPoint = some e →
        ∃ etup, pool.shared.shared.index.element? e.tid = some etup ∧ etup.deleted = false := by
  obtain ⟨y, hy⟩ : ∃ y, (vacuumArgument False _ _).Holds pool y :=
    vacuum_holds False.elim (fun self ctx last calls so => ⟨_, False, scanKeeps_once fun _ h => h⟩)
      hm hbuilt hlocks hflush hreach
  constructor
  · intro i t hi
    exact (hy.allowed hi).1 rfl
  · intro e he
    have hstate : y.state = pool.shared := hy.shared
    rw [← hstate] at he ⊢
    have hload := loadable_of_entry hy.inv .update he
    obtain ⟨etup, hetup⟩ := hload.present
    exact ⟨etup, hetup, deleted_eq_false hy.inv hload hetup⟩

/-! ## Scans that search again -/

/-- No scan reads the neighbors of an element while the vacuum is about to mark it. -/
theorem deleted_not_loaded_intact (ctx : InsertContext V D F) (m : Nat) (hm : 2 ≤ m ∧ m ≤ 100)
    (valueSize : V → Nat)
    (built : Pool (memorySignature V F) (MemoryState V F) (MemoryInsert V))
    (hbuilt : (memorySystem ctx m True).Reaches (Pool.idle .init) built)
    (s : Shared V) (hlocks : s.locks = [])
    (hflush : flushPages valueSize m built.shared.graph = .ok s.index)
    (pool : Pool (hnswSignature V) (Monitored V) (Task V D F))
    (hreach : (hnswSystem (fun _ => True) ExpandsIntact).Reaches (Pool.idle ⟨s, .start⟩) pool)
    (i : Nat) (t : Task V D F) :
    pool.threads i ≠ some (t, .fail .cannotLoadDeletedElement) := by
  obtain ⟨y, hy⟩ : ∃ y, (vacuumArgument False _ _).Holds pool y :=
    vacuum_holds False.elim
      (fun self ctx last calls so =>
        ⟨_, True, scanKeeps_intact ⟨ctx, last, calls, so, rfl⟩ fun _ _ h => h⟩)
      hm hbuilt hlocks hflush hreach
  exact fun hi => (hy.allowed hi).1 rfl

/-! ## Elements that are used again -/

/-- No insert takes the place of an element that the vacuum at work has recorded. -/
theorem graph_repaired_unreused (ctx : InsertContext V D F) (m : Nat) (hm : 2 ≤ m ∧ m ≤ 100)
    (valueSize : V → Nat)
    (built : Pool (memorySignature V F) (MemoryState V F) (MemoryInsert V))
    (hbuilt : (memorySystem ctx m True).Reaches (Pool.idle .init) built)
    (s : Shared V) (hlocks : s.locks = [])
    (hflush : flushPages valueSize m built.shared.graph = .ok s.index)
    (pool : Pool (hnswSignature V) (Monitored V) (Task V D F))
    (hreach : (hnswSystem (fun settings => settings.iterativeScan = .off)
      ReusesUnrecorded).Reaches (Pool.idle ⟨s, .start⟩) pool) (i : Nat) (t : Task V D F) :
    pool.threads i ≠ some (t, .fail .graphNotRepaired) := by
  obtain ⟨y, hy⟩ : ∃ y, (vacuumArgument True _ _).Holds pool y :=
    vacuum_holds (fun _ _ _ _ h => h)
      (fun self ctx last calls so => ⟨_, False, scanKeeps_once fun _ h => h⟩)
      hm hbuilt hlocks hflush hreach
  exact fun hi => (hy.allowed hi).2.2 trivial rfl

end Reached

/-! ## Runs -/

/-- Vectors of 990 dimensions: two elements fill a page, if both are of level 0. -/
def wideInserts : InsertContext Nat Nat Nat :=
  { numberInserts 6 with valueSize := fun _ => 3968 }

def wideElement (value : Nat) (heaptid neighbortid : ItemPointer) : Item (IndexTuple Nat) :=
  ⟨4040, .element (hnswSetElementTuple 0 1 [heaptid] value neighbortid)⟩

def wideNeighbors (tids : List ItemPointer) : Item (IndexTuple Nat) :=
  ⟨32, .neighbor ⟨1, tids ++ List.replicate (4 - tids.length) .invalid⟩⟩

def wideShared (entry : ItemPointer) (items : List (Item (IndexTuple Nat))) : Shared Nat :=
  (emptyShared 2).withIndex
    { metapage := ⟨hnswMagicNumber, 2, some ⟨entry, 0⟩, some 1⟩
      pages := [{ items := items, nextblkno := none }] }

def halfFull : Shared Nat :=
  wideShared ⟨1, 1⟩ [wideElement 1 ⟨0, 1⟩ ⟨1, 2⟩, wideNeighbors []]

theorem halfFull_built :
    ∃ built, (memorySystem wideInserts 2 True).Reaches (Pool.idle .init) built ∧
      flushPages (fun _ => 3968) 2 built.shared.graph = .ok halfFull.index :=
  System.reaches_observed (memorySystem wideInserts 2 True)
    [.start 0 ⟨1, ⟨0, 1⟩, 0⟩, .run 0 40] .init
    (fun pool => flushPages (fun _ => 3968) 2 pool.shared.graph) (.ok halfFull.index)
    (by simp [System.Turn.tasks, memorySystem, ItemPointer.isValid, invalidOffsetNumber])
    (List.pairwise_singleton ..) (by decide +kernel)

/-- A scan that asks for two tuples. -/
def twoTupleScan (settings : ScanSettings) : Task Nat Nat Nat :=
  .scan (serverContext 6) settings
    [(settings, .rescan (some (some 0))), (settings, .gettuple), (settings, .gettuple)]
    (hnswbeginscan default 4096 1 1)

/-- The second tuple comes from another search. -/
def resumedScan : Task Nat Nat Nat := twoTupleScan (relaxedSettings 1)

def onceScan : Task Nat Nat Nat :=
  twoTupleScan { relaxedSettings 2 with iterativeScan := .off }

/--
An element of level 1 is on the second page.  A scan has found the first element and put
this one aside.  Another element is inserted, on the first page, where it is linked with
both.  A vacuum empties all of them, and has marked the first page when the scan goes on.
-/
theorem deleted_loaded_resumed :
    ∃ built, (memorySystem wideInserts 2 True).Reaches (Pool.idle .init) built ∧
      flushPages (fun _ => 3968) 2 built.shared.graph = .ok halfFull.index ∧
      ∃ (pool : Pool _ _ (Task Nat Nat Nat)) (t : Task Nat Nat Nat),
        (hnswSystem (fun _ => True) fun _ _ _ => True).Reaches (Pool.idle ⟨halfFull, .start⟩) pool ∧
        pool.threads 1 = some (t, .fail .cannotLoadDeletedElement) := by
  obtain ⟨built, hbuilt, hflush⟩ := halfFull_built
  obtain ⟨pool, hreach, herror⟩ := System.reaches_observed
    (hnswSystem (fun _ => True) fun _ _ _ => True)
    [.start 0 (.insert wideInserts (some 5) ⟨0, 2⟩ 1), .run 0 40,
      .start 1 resumedScan, .run 1 14,
      .start 2 (.insert wideInserts (some 9) ⟨0, 3⟩ 0), .run 2 60,
      .start 3 (.vacuum wideInserts fun _ => true), .run 3 21, .run 1 10]
    ⟨halfFull, .start⟩ (System.error? 1) (some .cannotLoadDeletedElement)
    (by simp [System.Turn.tasks, hnswSystem, resumedScan, twoTupleScan, ItemPointer.isValid,
      invalidOffsetNumber])
    (by simp [System.Turn.tasks, hnswSystem, Task.isVacuum, resumedScan, twoTupleScan])
    (by decide +kernel)
  obtain ⟨t, ht⟩ := System.threads_of_error? herror
  exact ⟨built, hbuilt, hflush, pool, t, hreach, ht⟩

/-- Two elements, of which the second is the entry point. -/
def full : Shared Nat :=
  wideShared ⟨1, 3⟩ [wideElement 5 ⟨0, 2⟩ ⟨1, 2⟩, wideNeighbors [⟨1, 3⟩],
    wideElement 1 ⟨0, 1⟩ ⟨1, 4⟩, wideNeighbors [⟨1, 1⟩]]

theorem full_built :
    ∃ built, (memorySystem wideInserts 2 True).Reaches (Pool.idle .init) built ∧
      flushPages (fun _ => 3968) 2 built.shared.graph = .ok full.index :=
  System.reaches_observed (memorySystem wideInserts 2 True)
    [.start 0 ⟨1, ⟨0, 1⟩, 0⟩, .run 0 40, .start 1 ⟨5, ⟨0, 2⟩, 0⟩, .run 1 40] .init
    (fun pool => flushPages (fun _ => 3968) 2 pool.shared.graph) (.ok full.index)
    (by simp [System.Turn.tasks, memorySystem, ItemPointer.isValid, invalidOffsetNumber])
    (by simp [System.Turn.tasks, memorySystem]) (by decide +kernel)

/-- A vacuum that deletes the first element. -/
def firstVacuum : Task Nat Nat Nat :=
  .vacuum wideInserts fun tid => tid.offno == 2

/-- The elements with their values, which the deleted ones have lost. -/
def HnswIndex.values {V : Type} (index : HnswIndex V) : List (ItemPointer × Option V) :=
  index.elements.map fun e => (e.1, e.2.data)

/--
An element is inserted while the vacuum empties the first one, and a scan runs before the
vacuum marks it.
-/
theorem deleted_never_loaded_vacuumed :
    ∃ pool : Pool (hnswSignature Nat) (Monitored Nat) (Task Nat Nat Nat),
      (hnswSystem (fun settings => settings.iterativeScan = .off) fun _ _ _ => True).Reaches
        (Pool.idle ⟨full, .start⟩) pool ∧
      (System.returned 1 pool && System.returned 2 pool) = true ∧
      pool.shared.shared.index.values = [(⟨1, 1⟩, none), (⟨1, 3⟩, some 1), (⟨2, 1⟩, some 9)] ∧
      (∀ i t, pool.threads i ≠ some (t, .fail .cannotLoadDeletedElement)) ∧
      ∀ e, pool.shared.shared.index.metapage.entryPoint = some e →
        ∃ etup, pool.shared.shared.index.element? e.tid = some etup ∧ etup.deleted = false := by
  obtain ⟨built, hbuilt, hflush⟩ := full_built
  obtain ⟨pool, hreach, hobserve⟩ := System.reaches_observed
    (hnswSystem (fun settings => settings.iterativeScan = .off) fun _ _ _ => True)
    [.start 0 firstVacuum, .run 0 2, .start 1 (.insert wideInserts (some 9) ⟨0, 3⟩ 0), .run 1 60,
      .run 0 20, .start 2 onceScan, .run 2 40, .run 0 40]
    ⟨full, .start⟩
    (fun pool => (System.returned 1 pool && System.returned 2 pool,
      pool.shared.shared.index.values))
    (true, [(⟨1, 1⟩, none), (⟨1, 3⟩, some 1), (⟨2, 1⟩, some 9)])
    (by
      simp [System.Turn.tasks, hnswSystem, firstVacuum, onceScan, twoTupleScan,
        ItemPointer.isValid, invalidOffsetNumber]
      rintro settings call (⟨rfl, -⟩ | ⟨rfl, -⟩) <;> rfl)
    (by simp [System.Turn.tasks, hnswSystem, Task.isVacuum, firstVacuum, onceScan, twoTupleScan])
    (by decide +kernel)
  obtain ⟨hreturned, hvalues⟩ := Prod.mk.inj hobserve
  exact ⟨pool, hreach, hreturned, hvalues, deleted_never_loaded wideInserts 2 (by decide)
    (fun _ => 3968) built hbuilt full rfl hflush pool hreach⟩

/--
A scan has found the second element, the nearest, and put the first one aside.  The vacuum
has emptied the second one and is about to mark it when the scan goes on from the first.
-/
theorem deleted_not_loaded_intact_resumed :
    ∃ pool : Pool (hnswSignature Nat) (Monitored Nat) (Task Nat Nat Nat),
      (hnswSystem (fun _ => True) ExpandsIntact).Reaches (Pool.idle ⟨full, .start⟩) pool ∧
      System.returned 0 pool = true ∧ pool.shared.history.condemned = [⟨1, 3⟩] ∧
      pool.shared.shared.index.values = [(⟨1, 1⟩, some 5), (⟨1, 3⟩, none)] ∧
      ∀ i t, pool.threads i ≠ some (t, .fail .cannotLoadDeletedElement) := by
  obtain ⟨built, hbuilt, hflush⟩ := full_built
  obtain ⟨pool, hreach, hobserve⟩ := System.reaches_observed
    (hnswSystem (fun _ => True) ExpandsIntact)
    [.start 0 resumedScan, .run 0 10,
      .start 1 (.vacuum wideInserts fun tid => tid.offno == 1), .run 1 36,
      .run 0 40, .run 1 1]
    ⟨full, .start⟩
    (fun pool => (System.returned 0 pool, pool.shared.history.condemned,
      pool.shared.shared.index.values))
    (true, [⟨1, 3⟩], [(⟨1, 1⟩, some 5), (⟨1, 3⟩, none)])
    (by simp [System.Turn.tasks, hnswSystem, resumedScan, twoTupleScan])
    (by simp [System.Turn.tasks, hnswSystem, Task.isVacuum, resumedScan, twoTupleScan])
    (by decide +kernel)
  obtain ⟨hreturned, hobserve⟩ := Prod.mk.inj hobserve
  obtain ⟨hcondemned, hvalues⟩ := Prod.mk.inj hobserve
  exact ⟨pool, hreach, hreturned, hcondemned, hvalues, fun i t => deleted_not_loaded_intact
    wideInserts 2 (by decide) (fun _ => 3968) built hbuilt full rfl hflush pool hreach i t⟩

/-- The index when the vacuum has deleted the first element. -/
def recycled : Monitored Nat :=
  let s := (firstVacuum.program.run (monitoredHandler 0) ⟨full, .start⟩).2
  ⟨s.shared, firstVacuum.finish s.history⟩

def HnswIndex.repaired {V : Type} (index : HnswIndex V) : Bool :=
  index.elements.all fun (_, etup) => etup.isEmptied ||
    (index.neighbor? etup.neighbortid).all fun ntup => ntup.indextids.all fun tid =>
      !tid.isValid || (index.element? tid).any fun etup => !etup.isEmptied

theorem dirty_of_repaired {index : HnswIndex V} (h : index.repaired = true) :
    index.net.dirty = ∅ := by
  refine Set.eq_empty_iff_forall_notMem.mpr ?_
  rintro tid ⟨hfull, b, ⟨etup, ntup, hetup, hntup, hmem, hvalid⟩, etup', hetup', hempty⟩
  have hall := List.all_eq_true.mp h _ (HnswIndex.mem_elements.mpr hetup)
  have hetupFull : etup.isEmptied = false := by
    rw [Bool.eq_false_iff]
    exact fun hflag => hfull ⟨etup, hetup, hflag⟩
  simp only [hetupFull, hntup, Bool.false_or, Option.all_some, List.all_eq_true] at hall
  simpa [hvalid, hetup', hempty] using hall b hmem

/--
A vacuum has recorded the deleted element.  An insert takes its place and is linked with
the other element, which names what was recorded when the vacuum confirms the repair.
-/
theorem graph_not_repaired_reused :
    ∃ built, (memorySystem wideInserts 2 True).Reaches (Pool.idle .init) built ∧
      flushPages (fun _ => 3968) 2 built.shared.graph = .ok full.index ∧
      ∃ (pool : Pool _ _ (Task Nat Nat Nat)) (t : Task Nat Nat Nat),
        (hnswSystem (fun _ => True) fun _ _ _ => True).Reaches (Pool.idle ⟨full, .start⟩) pool ∧
        pool.threads 1 = some (t, .fail .graphNotRepaired) ∧
        pool.shared.shared.index.net.dirty = ∅ := by
  obtain ⟨built, hbuilt, hflush⟩ := full_built
  have hdelete : (hnswSystem (fun _ => True) fun _ _ _ => True).Reaches
      (Pool.idle ⟨full, .start⟩) (Pool.idle recycled) :=
    System.reaches_alone (fun _ _ _ => trivial) 0 firstVacuum _ (by exact trivial) rfl rfl
  obtain ⟨pool, hreach, herror⟩ := System.reaches_observed
    (hnswSystem (fun _ => True) fun _ _ _ => True)
    [.start 1 (.vacuum wideInserts fun _ => false), .run 1 2,
      .start 2 (.insert wideInserts (some 9) ⟨0, 3⟩ 0), .run 2 60, .run 1 40] recycled
    (fun pool => (System.error? 1 pool, pool.shared.shared.index.repaired))
    (some .graphNotRepaired, true)
    (by simp [System.Turn.tasks, hnswSystem, ItemPointer.isValid, invalidOffsetNumber])
    (by simp [System.Turn.tasks, hnswSystem, Task.isVacuum]) (by decide +kernel)
  obtain ⟨herror, hrepaired⟩ := Prod.mk.inj herror
  obtain ⟨t, ht⟩ := System.threads_of_error? herror
  exact ⟨built, hbuilt, hflush, pool, t, hdelete.trans hreach, ht, dirty_of_repaired hrepaired⟩

/--
An element is inserted while the vacuum has recorded the first one.  Once the vacuum has
confirmed the repair and marked it, another element takes its place.
-/
theorem graph_repaired_unreused_placed :
    ∃ pool : Pool (hnswSignature Nat) (Monitored Nat) (Task Nat Nat Nat),
      (hnswSystem (fun settings => settings.iterativeScan = .off) ReusesUnrecorded).Reaches
        (Pool.idle ⟨full, .start⟩) pool ∧
      System.returned 0 pool = true ∧ pool.shared.shared.index.values =
        [(⟨1, 1⟩, some 7), (⟨1, 3⟩, some 1), (⟨2, 1⟩, some 9)] ∧
      ∀ i t, pool.threads i ≠ some (t, .fail .graphNotRepaired) := by
  obtain ⟨built, hbuilt, hflush⟩ := full_built
  obtain ⟨pool, hreach, hobserve⟩ := System.reaches_observed
    (hnswSystem (fun settings => settings.iterativeScan = .off) ReusesUnrecorded)
    [.start 0 firstVacuum, .run 0 2, .start 1 (.insert wideInserts (some 9) ⟨0, 3⟩ 0), .run 1 60,
      .run 0 60, .start 2 (.insert wideInserts (some 7) ⟨0, 4⟩ 0), .run 2 60]
    ⟨full, .start⟩ (fun pool => (System.returned 0 pool, pool.shared.shared.index.values))
    (true, [(⟨1, 1⟩, some 7), (⟨1, 3⟩, some 1), (⟨2, 1⟩, some 9)])
    (by simp [System.Turn.tasks, hnswSystem, firstVacuum, ItemPointer.isValid, invalidOffsetNumber])
    (by simp [System.Turn.tasks, hnswSystem, Task.isVacuum, firstVacuum]) (by decide +kernel)
  obtain ⟨hreturned, hvalues⟩ := Prod.mk.inj hobserve
  exact ⟨pool, hreach, hreturned, hvalues, fun i t => graph_repaired_unreused wideInserts 2
    (by decide) (fun _ => 3968) built hbuilt full rfl hflush pool hreach i t⟩

end PgVector.Hnsw
