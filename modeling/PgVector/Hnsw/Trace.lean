import PgVector.Hnsw.Page

/-!
# Trace statistics of a scan

The counters that a traced scan collects and the line it reports.  The arrays of
a trace live in the scan's memory context, and memory handed out by the
allocator holds whatever was there before; an array is therefore a function of
the index, defined past the capacity as well.
-/

namespace PgVector.Hnsw

/-- What a backend reads off its environment: `pgBufferUsage` and the clock. -/
structure Observation where
  sharedBlksHit : Int
  sharedBlksRead : Int
  time : Int
  deriving DecidableEq, Inhabited, Repr

def hnswTraceMaxPages : Nat := 8192

def hnswTraceMaxTids : Nat := 1000

structure PageCounters where
  loads : Nat
  pageRuns : Nat
  distinctPages : Nat
  lastPage : BlockNumber
  pagesSeen : Nat → BlockNumber
  pagesCapacity : Nat
  deriving Inhabited

structure HnswTraceStats where
  latency : Int
  hnswSearchTime : Int
  heapFetchTime : Int
  distanceComputeCount : Nat
  visitedNodes : Nat
  heapFetchCount : Nat
  element : PageCounters
  neighbor : PageCounters
  blksHitBefore : Int
  blksReadBefore : Int
  blksHitAfter : Int
  blksReadAfter : Int
  idxBlksHit : Int
  idxBlksRead : Int
  heapBlksHit : Int
  heapBlksRead : Int
  returnedTids : Nat → ItemPointer
  returnedTidsCapacity : Nat
  scanStart : Int
  inIndexTime : Int
  deriving Inhabited

structure TraceLine where
  queryId : Nat
  latency : Int
  topk : Nat
  hnswSearchTime : Int
  heapFetchTime : Int
  distanceComputeCount : Nat
  visitedNodes : Nat
  heapFetchCount : Nat
  indexElementLoads : Nat
  indexElementPageRuns : Nat
  indexElementDistinctPages : Nat
  indexNeighborLoads : Nat
  indexNeighborPageRuns : Nat
  indexNeighborDistinctPages : Nat
  blksHitBefore : Int
  blksHitAfter : Int
  blksReadBefore : Int
  blksReadAfter : Int
  idxBlksHit : Int
  idxBlksRead : Int
  heapBlksHit : Int
  heapBlksRead : Int
  topkIds : List ItemPointer
  deriving DecidableEq, Repr

/-- The body shared by `HnswTraceRecordElementPage` and `HnswTraceRecordNeighborPage`. -/
def PageCounters.record (c : PageCounters) (blkno : BlockNumber) : PageCounters :=
  let loads := c.loads + 1
  let pageRuns :=
    if loads = 1 ∨ blkno ≠ c.lastPage then c.pageRuns + 1 else c.pageRuns
  if (List.range c.distinctPages).any fun i => c.pagesSeen i == blkno then
    { c with loads := loads, pageRuns := pageRuns, lastPage := blkno }
  else
    { c with
      loads := loads
      pageRuns := pageRuns
      lastPage := blkno
      pagesSeen :=
        if c.distinctPages < c.pagesCapacity then
          fun i => if i = c.distinctPages then blkno else c.pagesSeen i
        else c.pagesSeen
      distinctPages := c.distinctPages + 1 }

def hnswTraceRecordElementPage (trace : HnswTraceStats) (blkno : BlockNumber) : HnswTraceStats :=
  { trace with element := trace.element.record blkno }

def hnswTraceRecordNeighborPage (trace : HnswTraceStats) (blkno : BlockNumber) : HnswTraceStats :=
  { trace with neighbor := trace.neighbor.record blkno }

/-- The counters after `memset`; the array is allocated but not cleared. -/
def PageCounters.start (memory : Nat → BlockNumber) : PageCounters where
  loads := 0
  pageRuns := 0
  distinctPages := 0
  lastPage := invalidBlockNumber
  pagesSeen := memory
  pagesCapacity := hnswTraceMaxPages

def hnswTraceInit (t : HnswTraceStats) (now : Observation) : HnswTraceStats where
  latency := 0
  hnswSearchTime := 0
  heapFetchTime := 0
  distanceComputeCount := 0
  visitedNodes := 0
  heapFetchCount := 0
  element := PageCounters.start t.element.pagesSeen
  neighbor := PageCounters.start t.neighbor.pagesSeen
  blksHitBefore := now.sharedBlksHit
  blksReadBefore := now.sharedBlksRead
  blksHitAfter := 0
  blksReadAfter := 0
  idxBlksHit := 0
  idxBlksRead := 0
  heapBlksHit := 0
  heapBlksRead := 0
  returnedTids := t.returnedTids
  returnedTidsCapacity := hnswTraceMaxTids
  scanStart := now.time
  inIndexTime := 0

def hnswTraceInitBytes : Nat :=
  4 * hnswTraceMaxPages + 4 * hnswTraceMaxPages + sizeOfItemPointerData * hnswTraceMaxTids

/-- The bookkeeping of `hnswgettuple` when it returns, with or without a tuple. -/
def HnswTraceStats.leaveIndex (t : HnswTraceStats) (entry exit : Observation) : HnswTraceStats :=
  { t with
    idxBlksHit := t.idxBlksHit + (exit.sharedBlksHit - entry.sharedBlksHit)
    idxBlksRead := t.idxBlksRead + (exit.sharedBlksRead - entry.sharedBlksRead)
    inIndexTime := t.inIndexTime + (exit.time - entry.time) }

def HnswTraceStats.recordTid (t : HnswTraceStats) (heaptid : ItemPointer) : HnswTraceStats :=
  { t with
    returnedTids :=
      if t.heapFetchCount < t.returnedTidsCapacity then
        fun i => if i = t.heapFetchCount then heaptid else t.returnedTids i
      else t.returnedTids
    heapFetchCount := t.heapFetchCount + 1 }

/-- `HnswTraceEmit`: the derived fields and the line that is reported. -/
def hnswTraceEmit (t : HnswTraceStats) (queryId resultCount : Nat)
    (now : Observation) : TraceLine :=
  let latency := now.time - t.scanStart
  let heapFetchTime := latency - t.inIndexTime
  { queryId := queryId
    latency := latency
    topk := resultCount
    hnswSearchTime := t.inIndexTime
    heapFetchTime := if heapFetchTime < 0 then 0 else heapFetchTime
    distanceComputeCount := t.distanceComputeCount
    visitedNodes := t.visitedNodes
    heapFetchCount := t.heapFetchCount
    indexElementLoads := t.element.loads
    indexElementPageRuns := t.element.pageRuns
    indexElementDistinctPages := t.element.distinctPages
    indexNeighborLoads := t.neighbor.loads
    indexNeighborPageRuns := t.neighbor.pageRuns
    indexNeighborDistinctPages := t.neighbor.distinctPages
    blksHitBefore := t.blksHitBefore
    blksHitAfter := now.sharedBlksHit
    blksReadBefore := t.blksReadBefore
    blksReadAfter := now.sharedBlksRead
    idxBlksHit := t.idxBlksHit
    idxBlksRead := t.idxBlksRead
    heapBlksHit := now.sharedBlksHit - t.blksHitBefore - t.idxBlksHit
    heapBlksRead := now.sharedBlksRead - t.blksReadBefore - t.idxBlksRead
    topkIds :=
      (List.range (min t.heapFetchCount t.returnedTidsCapacity)).map t.returnedTids }

/-! ## Events -/

inductive Event where
  | contextReset
  | traceInit
  | traceAccess
  | traceLine (line : TraceLine)
  /-- A test of the limits of an iterative scan; `more` if candidates are left. -/
  | limitTest (tuples allocated : Nat) (more : Bool)
  /-- `ConfirmRepaired` has returned. -/
  | repairConfirmed
  /-- `HnswGetDistance` was called for an element of a page. -/
  | distanceCall
  /-- A neighbor tuple was there and is the one of the element. -/
  | neighborsPassed
  deriving DecidableEq, Repr

end PgVector.Hnsw
