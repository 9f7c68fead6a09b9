import PgVector.Foundation.PairingHeap
import PgVector.Ivfflat.Backend

/-!
# Scans of an IVFFlat index

A scan chooses the lists that are nearest to the query, and then visits them in
batches: the tuples of the lists of one batch are sorted by distance and returned
one by one.  Sorting is left to `tuplesort`, of which only the contract is used.
-/

namespace PgVector.Ivfflat

open Foundation
open Hnsw (BlockNumber OffsetNumber ItemPointer Page Item firstOffsetNumber)

/-- `tuplesort_performsort` returns what was put, in ascending order of the distance. -/
structure Tuplesort (D : Type) [LinearOrder D] where
  performsort : List (D × ItemPointer) → List (D × ItemPointer)
  perm : ∀ tuples, (performsort tuples).Perm tuples
  sorted : ∀ tuples, (performsort tuples).Pairwise fun t t' => t.1 ≤ t'.1

structure IvfflatScanList (D : Type) where
  startPage : Option BlockNumber
  distance : D
  deriving DecidableEq, Repr

/-- The settings of a session; `ivfflat.probes` is at least one. -/
structure IvfflatScanSettings where
  probes : Nat
  maxProbes : Nat
  /-- `ivfflat_iterative_scan != IVFFLAT_ITERATIVE_SCAN_OFF`. -/
  iterativeScan : Bool
  probes_pos : 1 ≤ probes

structure IvfflatScanDesc (V : Type) where
  /-- `scan->orderByData`; its argument may be null. -/
  orderByData : Option (Option V)
  isMVCCSnapshot : Bool

structure IvfflatScanOpaque (V D : Type) where
  first : Bool
  probes : Nat
  maxProbes : Nat
  listIndex : Nat
  listPages : List (Option BlockNumber)
  /-- What the sort has still to return. -/
  sortstate : List (D × ItemPointer)
  /-- `so->distfunc`, for `so->value`. -/
  distance : V → D

section Scan

variable {V D : Type} [LinearOrder D]

/-! ## Choosing the lists -/

/-- `CompareLists`: the queue has the furthest list first. -/
def compareLists (a b : IvfflatScanList D) : Bool := decide (a.distance < b.distance)

structure ListQueue (D : Type) where
  listQueue : PairingHeap (IvfflatScanList D)
  listCount : Nat
  maxDistance : D

/-- The queue with its new maximum; `none` if it is empty. -/
def ListQueue.setMax (listQueue : PairingHeap (IvfflatScanList D)) (listCount : Nat) :
    Option (ListQueue D) :=
  listQueue.first?.map fun furthest => ⟨listQueue, listCount, furthest.distance⟩

def ListQueue.consider (maxProbes : Nat) (distance : V → D) (q : ListQueue D)
    (list : IvfflatList V) : Option (ListQueue D) :=
  let scanlist : IvfflatScanList D := ⟨list.startPage, distance list.center⟩
  if q.listCount < maxProbes then
    let listQueue := q.listQueue.add compareLists scanlist
    if q.listCount + 1 = maxProbes then ListQueue.setMax listQueue (q.listCount + 1)
    else some ⟨listQueue, q.listCount + 1, q.maxDistance⟩
  else if scanlist.distance < q.maxDistance then
    match q.listQueue.removeFirst? compareLists with
    | none => none
    | some (_, rest) => ListQueue.setMax (rest.add compareLists scanlist) q.listCount
  else some q

def scanListPages (maxProbes : Nat) (distance : V → D) :
    Nat → Option BlockNumber → ListQueue D → IvfflatProgram V (ListQueue D)
  | _, none, q => .ret q
  | 0, some _, _ => .fail .outOfFuel
  | fuel + 1, some nextblkno, q => do
    match ← IvfflatOp.exec (.readListPage nextblkno) with
    | none => .fail .corrupted
    | some page =>
      match (page.items.map Item.tuple).foldlM
          (ListQueue.consider maxProbes distance) q with
      | none => .fail .corrupted
      | some q => scanListPages maxProbes distance fuel page.nextblkno q

variable (ctx : IvfflatContext V D)

/-- `GetScanLists`; the result is `so->listPages`. -/
def getScanLists (maxProbes : Nat) (distance : V → D) :
    IvfflatProgram V (List (Option BlockNumber)) := do
  let q ← scanListPages maxProbes distance ctx.fuel (some ivfflatHeadBlkno)
    ⟨.nil, 0, ctx.dblMax⟩
  -- the furthest list is removed first and goes last
  return ((q.listQueue.take compareLists q.listCount).1.reverse).map IvfflatScanList.startPage

/-! ## Visiting the lists -/

def scanTuples (distance : V → D) (page : Page (IndexTuple V)) : List (D × ItemPointer) :=
  page.items.map fun item => (distance item.tuple.value, item.tuple.tid)

/-- The entry pages of one list; the tuples that were put to the sort are collected. -/
def scanEntryPages (distance : V → D) :
    Nat → Option BlockNumber → List (D × ItemPointer) → IvfflatProgram V (List (D × ItemPointer))
  | _, none, tuples => .ret tuples
  | 0, some _, _ => .fail .outOfFuel
  | fuel + 1, some searchPage, tuples => do
    match ← IvfflatOp.exec (.readEntryPage searchPage) with
    | none => .fail .corrupted
    | some page =>
      scanEntryPages distance fuel page.nextblkno (tuples ++ scanTuples distance page)

/-- The loop of `GetScanItems`, with the number of lists that are left to the batch. -/
def scanBatch (fuel : Nat) (so : IvfflatScanOpaque V D) :
    Nat → Nat → List (D × ItemPointer) → IvfflatProgram V (Nat × List (D × ItemPointer))
  | 0, listIndex, tuples => .ret (listIndex, tuples)
  | batchProbes + 1, listIndex, tuples =>
    if listIndex < so.maxProbes then
      match so.listPages[listIndex]? with
      | none => .fail .corrupted
      | some searchPage => do
        let tuples ← scanEntryPages so.distance fuel searchPage tuples
        scanBatch fuel so batchProbes (listIndex + 1) tuples
    else .ret (listIndex, tuples)

def getScanItems (sort : Tuplesort D)
    (so : IvfflatScanOpaque V D) : IvfflatProgram V (IvfflatScanOpaque V D) := do
  let (listIndex, tuples) ← scanBatch ctx.fuel so so.probes so.listIndex []
  return { so with listIndex := listIndex, sortstate := sort.performsort tuples }

/-! ## The scan -/

/-- `GetScanValue`, with the function that measures the distance to it. -/
def getScanValue (argument : Option V) : V → D :=
  match argument with
  | none => fun _ => ctx.zeroDistance
  | some value => fun datum => ctx.distance datum (ctx.normValue value)

def ivfflatbeginscan (settings : IvfflatScanSettings) :
    IvfflatProgram V (IvfflatScanOpaque V D) := do
  let metap ← ivfflatGetMetaPageInfo
  let maxProbes :=
    if settings.iterativeScan then max settings.maxProbes settings.probes
    else settings.probes
  return {
    first := true
    probes := min settings.probes metap.lists
    maxProbes := min maxProbes metap.lists
    listIndex := 0
    listPages := []
    sortstate := []
    -- not set before the first tuple is fetched
    distance := fun _ => ctx.zeroDistance }

def ivfflatrescan (so : IvfflatScanOpaque V D) : IvfflatScanOpaque V D :=
  { so with first := true, listIndex := 0 }

def fetchTuple (sort : Tuplesort D) :
    Nat → IvfflatScanOpaque V D → IvfflatProgram V (Option ItemPointer × IvfflatScanOpaque V D)
  | 0, _ => .fail .outOfFuel
  | fuel + 1, so =>
    match so.sortstate with
    | (_, heaptid) :: rest => .ret (some heaptid, { so with sortstate := rest })
    | [] =>
      if so.listIndex = so.maxProbes then .ret (none, so)
      else do
        let so ← getScanItems ctx sort so
        fetchTuple sort fuel so

def ivfflatgettuple (sort : Tuplesort D) (scan : IvfflatScanDesc V) (so : IvfflatScanOpaque V D) :
    IvfflatProgram V (Option ItemPointer × IvfflatScanOpaque V D) :=
  if so.first then
    match scan.orderByData with
    | none => .fail .cannotScanWithoutOrder
    | some argument =>
      if scan.isMVCCSnapshot then do
        let distance := getScanValue ctx argument
        let listPages ← getScanLists ctx so.maxProbes distance
        let so ← getScanItems ctx sort
          { so with listPages := listPages, distance := distance }
        fetchTuple ctx sort (so.maxProbes + 1) { so with first := false }
      else .fail .nonMVCCSnapshot
  else fetchTuple ctx sort (so.maxProbes + 1) so

def fetchAll (sort : Tuplesort D) (scan : IvfflatScanDesc V) :
    Nat → IvfflatScanOpaque V D → IvfflatProgram V (List ItemPointer)
  | 0, _ => .fail .outOfFuel
  | calls + 1, so => do
    match ← ivfflatgettuple ctx sort scan so with
    | (none, _) => return []
    | (some heaptid, so) => do
      let heaptids ← fetchAll sort scan calls so
      return heaptid :: heaptids

end Scan

end PgVector.Ivfflat
