import Mathlib.Data.Rat.Floor
import Mathlib.Order.WithBot
import PgVector.Hnsw.Search

/-!
# Index scans

A scan is begun once and may be restarted any number of times; each restart is
followed by calls that fetch one heap TID each.  The settings of the session can
change between any two calls, so every call takes its own.
-/

namespace PgVector.Hnsw

open Foundation

inductive IterativeScan where
  | off
  | relaxed
  | strict
  deriving DecidableEq, Repr

structure ScanSettings where
  efSearch : Nat
  iterativeScan : IterativeScan
  maxScanTuples : Nat
  traceEnabled : Bool
  deriving DecidableEq, Repr

structure ScanContext (V D : Type) where
  support : HnswSupport V D
  sizes : AllocSizes
  /-- The bytes `HnswNormValue` allocates. -/
  normValueBytes : Nat
  /-- `MemoryContextMemAllocated`, from the bytes allocated since the last reset. -/
  memAllocated : Nat → Nat
  memAllocated_mono : Monotone memAllocated
  mvccSnapshot : Bool
  /-- A bound on the turns of every loop. -/
  fuel : Nat

structure HnswScanOpaque (V D : Type) where
  first : Bool
  w : List (DiskCandidate V D)
  v : List ItemPointer
  discarded : Option (PairingHeap (DiskCandidate V D))
  q : Option V
  m : Nat
  tuples : Nat
  /-- The bottom element stands for minus infinity. -/
  previousDistance : WithBot D
  maxMemory : Nat
  /-- The bytes allocated in `tmpCtx` since it was last reset. -/
  tmpCtx : Nat
  trace : HnswTraceStats
  queryId : Nat
  /-- `scan->orderByData`: no clause, a null argument, or a value. -/
  orderByData : Option (Option V)

instance {V D : Type} : Inhabited (HnswScanOpaque V D) where
  default :=
    { first := false, w := [], v := [], discarded := none, q := none, m := 0
      tuples := 0, previousDistance := ⊥, maxMemory := 0, tmpCtx := 0
      trace := default, queryId := 0, orderByData := none }

section Scan

variable {V D : Type} [LinearOrder D]

/-- `hnsw_trace_enabled ? &so->trace : NULL`. -/
def HnswScanOpaque.tracePointer (so : HnswScanOpaque V D) (settings : ScanSettings) :
    Option HnswTraceStats :=
  if settings.traceEnabled then some so.trace else none

def HnswScanOpaque.leaveSearch (so : HnswScanOpaque V D)
    (st : SearchState (HnswElement V) ItemPointer D) : HnswScanOpaque V D :=
  { so with
    v := st.visited
    discarded := st.discarded
    tuples := st.tuples
    trace := st.trace.getD so.trace
    tmpCtx := st.allocated }

variable (ctx : ScanContext V D) (settings : ScanSettings)

def scanUpperLayers (q : Option V) (m : Nat) : Nat → List (DiskCandidate V D) →
      Option HnswTraceStats → Nat →
      HnswProgram V (List (DiskCandidate V D) × Option HnswTraceStats × Nat)
  | 0, ep, trace, allocated => .ret (ep, trace, allocated)
  | lc + 1, ep, trace, allocated => do
    let (w, st) ← hnswSearchLayer (diskAccess ctx.support q m (lc + 1) false)
      ctx.sizes ctx.fuel ep 1 (lc + 1) m false true
      { candidates := .nil, results := .nil, wlen := 0, visited := []
        discarded := none, tuples := 0, trace := trace, allocated := allocated }
    scanUpperLayers q m lc w st.trace st.allocated

/-- Search layer 0 with the visited table and discarded candidates of the scan. -/
def scanGroundLayer (so : HnswScanOpaque V D) (ep : List (DiskCandidate V D))
    (discarded : Option (PairingHeap (DiskCandidate V D)))
    (initVisited : Bool) (trace : Option HnswTraceStats) (allocated : Nat) :
    HnswProgram V (List (DiskCandidate V D) × SearchState (HnswElement V) ItemPointer D) :=
  hnswSearchLayer (diskAccess ctx.support so.q so.m 0 false) ctx.sizes ctx.fuel
    ep settings.efSearch 0 so.m false initVisited
    { candidates := .nil, results := .nil, wlen := 0, visited := so.v
      discarded := discarded, tuples := so.tuples, trace := trace
      allocated := allocated }

def getScanItems (so : HnswScanOpaque V D) (value : Option V) :
    HnswProgram V (HnswScanOpaque V D) := do
  let (m, entryPoint) ← hnswGetMetaPageInfo
  let so := { so with q := value, m := m }
  match entryPoint with
  | none => return { so with w := [] }
  | some e => do
    let ep ← hnswEntryCandidate ctx.support e.tid value false
    let allocated := so.tmpCtx + ctx.sizes.element + ctx.sizes.searchCandidate +
      ctx.sizes.list 1
    let (ep, trace, allocated) ← scanUpperLayers ctx value m ep.element.level
      [ep] (so.tracePointer settings) allocated
    -- without iterative scans no heap is passed and `so->discarded` stays NULL
    let discarded :=
      if settings.iterativeScan = .off then none else some .nil
    let (w, st) ← scanGroundLayer ctx settings so ep discarded true trace allocated
    let so' := so.leaveSearch st
    return { so' with
      w := w
      discarded :=
        if settings.iterativeScan = .off then so.discarded else st.discarded }

def resumeScanItems (so : HnswScanOpaque V D) (discarded : PairingHeap (DiskCandidate V D)) :
    HnswProgram V (HnswScanOpaque V D) :=
  if discarded.isEmpty then .ret { so with w := [] }
  else do
    let batch := discarded.take compareNearestCandidates settings.efSearch
    let (w, st) ← scanGroundLayer ctx settings so batch.1 (some batch.2) false
      (so.tracePointer settings) (so.tmpCtx + ctx.sizes.list batch.1.length)
    let so' := so.leaveSearch st
    return { so' with w := w }

def getScanValue : Option V → Option V × Nat
  | none => (none, 0)
  | some value =>
    match ctx.support.normalize with
    | none => (some value, 0)
    | some normalize => (some (normalize value), ctx.normValueBytes)

def lockedScanItems (so : HnswScanOpaque V D) (value : Option V × Nat) :
    HnswProgram V (HnswScanOpaque V D) := do
  lockPage .scan .share
  let so ← getScanItems ctx settings { so with tmpCtx := so.tmpCtx + value.2 } value.1
  unlockPage .scan .share
  return { so with first := false }

def firstScan (so : HnswScanOpaque V D) : HnswProgram V (HnswScanOpaque V D) :=
  if so.first then
    match so.orderByData with
    | none => .fail .cannotScanWithoutOrder
    | some argument =>
      if ctx.mvccSnapshot then
        lockedScanItems ctx settings so (getScanValue ctx argument)
      else .fail .nonMVCCSnapshot
  else .ret so

/-- `so->tuples >= hnsw_max_scan_tuples` or the memory limit is exceeded. -/
def limitReached (so : HnswScanOpaque V D) : Bool :=
  decide (settings.maxScanTuples ≤ so.tuples) || decide (so.maxMemory < ctx.memAllocated so.tmpCtx)

omit [LinearOrder D] in
theorem limitReached_iff (so : HnswScanOpaque V D) : limitReached ctx settings so = true ↔
      settings.maxScanTuples ≤ so.tuples ∨ so.maxMemory < ctx.memAllocated so.tmpCtx := by
  simp [limitReached]

def returnRemaining (so : HnswScanOpaque V D) (discarded : PairingHeap (DiskCandidate V D)) :
    HnswScanOpaque V D :=
  match discarded.removeFirst? compareNearestCandidates with
  | none => so
  | some (sc, discarded) =>
    { so with
      w := so.w ++ [sc]
      discarded := some discarded
      tmpCtx := so.tmpCtx + ctx.sizes.list 1 }

/--
The next search.  The lock ensures that the elements that neighbors refer to are
not deleted during the iteration.
-/
def lockedResume (so : HnswScanOpaque V D) (discarded : PairingHeap (DiskCandidate V D)) :
    HnswProgram V (HnswScanOpaque V D) := do
  lockPage .scan .share
  let so ← resumeScanItems ctx settings so discarded
  unlockPage .scan .share
  return so

/-- Find more candidates when `w` is empty; the scan ends if it stays empty. -/
def refill (so : HnswScanOpaque V D) : HnswProgram V (HnswScanOpaque V D) :=
  if !so.w.isEmpty then .ret so
  else if settings.iterativeScan = .off then .ret so
  else
    match so.discarded with
    | none => .ret so
    | some discarded => do
      emit (.limitTest so.tuples so.tmpCtx (!discarded.isEmpty))
      if limitReached ctx settings so then return returnRemaining ctx so discarded
      else lockedResume ctx settings so discarded

/-- Take one heap TID off the last candidate of `w`; `none` when it has none left. -/
def takeHeaptid (so : HnswScanOpaque V D) : HnswScanOpaque V D × Option ItemPointer :=
  match so.w.getLast? with
  | none => (so, none)
  | some sc =>
    match sc.element.heaptids.getLast? with
    | none => ({ so with w := so.w.dropLast }, none)
    | some heaptid =>
      let element :=
        { sc.element with heaptids := sc.element.heaptids.dropLast }
      let so := { so with w := so.w.dropLast ++ [{ sc with element := element }] }
      if settings.iterativeScan = .strict then
        if (sc.distance : WithBot D) < so.previousDistance then (so, none)
        else ({ so with previousDistance := sc.distance }, some heaptid)
      else (so, some heaptid)

def fetchLoop : Nat → HnswScanOpaque V D → HnswProgram V (HnswScanOpaque V D × Option ItemPointer)
  | 0, _ => .fail .outOfFuel
  | fuel + 1, so => do
    let so ← refill ctx settings so
    if so.w.isEmpty then return (so, none)
    else
      match takeHeaptid settings so with
      | (so, some heaptid) => return (so, some heaptid)
      | (so, none) => fetchLoop fuel so

def searchAndFetch (so : HnswScanOpaque V D) :
    HnswProgram V (HnswScanOpaque V D × Option ItemPointer) := do
  let so ← firstScan ctx settings so
  fetchLoop ctx settings ctx.fuel so

def hnswgettuple (so : HnswScanOpaque V D) :
    HnswProgram V (HnswScanOpaque V D × Option ItemPointer) :=
  if settings.traceEnabled then do
    let entry ← observe
    let (so, heaptid) ← searchAndFetch ctx settings so
    emit .traceAccess
    let exit ← observe
    let trace := heaptid.elim so.trace so.trace.recordTid
    return ({ so with trace := trace.leaveIndex entry exit }, heaptid)
  else searchAndFetch ctx settings so

/-! ## Beginning, restarting and ending a scan -/

/-- `so->maxMemory`: 256 bytes more, to fill the last block when close. -/
def scanMaxMemory (workMem : Nat) (scanMemMultiplier : ℚ) : Nat :=
  min (workMem * scanMemMultiplier * 1024 + 256).floor.toNat ((2 ^ 64 - 1) / 2)

/-- The opaque is not cleared: what is not set here is what `memory` held. -/
def hnswbeginscan (memory : HnswScanOpaque V D) (workMem : Nat)
    (scanMemMultiplier : ℚ) (norderbys : Nat) : HnswScanOpaque V D :=
  { memory with
    tmpCtx := 0
    maxMemory := scanMaxMemory workMem scanMemMultiplier
    orderByData :=
      if norderbys = 0 then none else some (memory.orderByData.getD none) }

def hnswrescan (so : HnswScanOpaque V D)
    (orderbys : Option (Option V)) : HnswProgram V (HnswScanOpaque V D) := do
  let so :=
    { so with
      first := true
      v := []
      discarded := none
      tuples := 0
      previousDistance := ⊥
      tmpCtx := 0
      orderByData := so.orderByData.map fun old => orderbys.getD old }
  emit .contextReset
  if settings.traceEnabled then
    emit .traceInit
    let queryId ← nextQueryId
    let now ← observe
    return { so with
      trace := hnswTraceInit so.trace now
      tmpCtx := hnswTraceInitBytes
      queryId := queryId }
  else return so

def hnswendscan (so : HnswScanOpaque V D) : HnswProgram V Unit :=
  if settings.traceEnabled && !so.first then do
    emit .traceAccess
    let now ← observe
    emit (.traceLine (hnswTraceEmit so.trace so.queryId so.trace.heapFetchCount now))
  else return ()

/-! ## The calls made on one scan -/

inductive ScanCall (V : Type) where
  | rescan (orderbys : Option (Option V))
  | gettuple

inductive ScanReturn where
  | rescanned
  | returned (heaptid : ItemPointer)
  | exhausted
  deriving DecidableEq, Repr

def scanCall : ScanCall V → HnswScanOpaque V D → HnswProgram V (HnswScanOpaque V D × ScanReturn)
  | .rescan orderbys, so => do
    let so ← hnswrescan settings so orderbys
    return (so, .rescanned)
  | .gettuple, so => do
    let (so, heaptid) ← hnswgettuple ctx settings so
    return (so, heaptid.elim .exhausted .returned)

/--
The calls made on a scan, each with the settings of its moment, and
`hnswendscan` with the settings `last`.
-/
def scanRun (last : ScanSettings) :
    List (ScanSettings × ScanCall V) → HnswScanOpaque V D → HnswProgram V (List ScanReturn)
  | [], so => do
    hnswendscan last so
    return []
  | (settings, call) :: calls, so => do
    let (so, result) ← scanCall ctx settings call so
    let results ← scanRun last calls so
    return result :: results

end Scan

end PgVector.Hnsw
