import PgVector.Foundation.PairingHeap
import PgVector.Hnsw.Machine

/-!
# Searching a layer

`hnswSearchLayer` is the search of one layer.  It runs on the pages of the index
and, during a build, on the graph in memory; what differs between the two is a
`SearchAccess`: how neighbors are found, how an element is loaded, and what
identifies it in the table of visited elements.
-/

namespace PgVector.Hnsw

open Foundation

structure HnswSupport (V D : Type) where
  distance : V → V → D
  /-- The distance reported for a null query. -/
  zero : D
  normalize : Option (V → V)

/-- `HnswGetDistance`; a null query is at the same distance from everything. -/
def hnswGetDistance {V D : Type} (support : HnswSupport V D) :
    Option V → Option V → D
  | some a, some b => support.distance a b
  | _, _ => support.zero

structure HnswSearchCandidate (E D : Type) where
  element : E
  distance : D
  deriving DecidableEq, Repr

section Compare

variable {E D : Type} [LinearOrder D]

/-- The comparator of `C` and of the discarded candidates: nearer is higher. -/
def compareNearestCandidates (a b : HnswSearchCandidate E D) : Bool :=
  decide (b.distance < a.distance)

/-- The comparator of `W`: further is higher. -/
def compareFurthestCandidates (a b : HnswSearchCandidate E D) : Bool :=
  decide (a.distance < b.distance)

theorem isComparator_nearest :
    PairingHeap.IsComparator (compareNearestCandidates (E := E) (D := D)) := by
  constructor
  · intro a b h
    simp only [compareNearestCandidates, decide_eq_true_eq, decide_eq_false_iff_not, not_lt] at h ⊢
    exact h.le
  · intro a b c hab hbc
    simp only [compareNearestCandidates, decide_eq_false_iff_not, not_lt] at hab hbc ⊢
    exact hab.trans hbc

theorem isComparator_furthest :
    PairingHeap.IsComparator (compareFurthestCandidates (E := E) (D := D)) := by
  constructor
  · intro a b h
    simp only [compareFurthestCandidates, decide_eq_true_eq, decide_eq_false_iff_not, not_lt] at h ⊢
    exact h.le
  · intro a b c hab hbc
    simp only [compareFurthestCandidates, decide_eq_false_iff_not, not_lt] at hab hbc ⊢
    exact hbc.trans hab

end Compare

structure AllocSizes where
  pairingheap : Nat
  searchCandidate : Nat
  element : Nat
  unvisited : Nat → Nat
  tidhash : Nat → Nat
  /-- Growing the table of visited elements to `n` members. -/
  tidhashGrow : Nat → Nat
  list : Nat → Nat
  deriving Inhabited

structure SearchState (E K D : Type) where
  candidates : PairingHeap (HnswSearchCandidate E D)
  results : PairingHeap (HnswSearchCandidate E D)
  wlen : Nat
  visited : List K
  /-- `none` when the caller passes no heap for discarded candidates. -/
  discarded : Option (PairingHeap (HnswSearchCandidate E D))
  tuples : Nat
  trace : Option HnswTraceStats
  allocated : Nat

structure SearchAccess (L : Signature) (E N K D : Type) where
  elementKey : E → K
  neighborKey : N → K
  level : E → Nat
  heaptidsLength : E → Nat
  loadNeighbors : E → Option HnswTraceStats → Program L (List N × Option HnswTraceStats)
  /-- The distance, and the element unless it is not below the given maximum. -/
  loadElement : N → Option D → Option HnswTraceStats →
    Program L (D × Option E × Option HnswTraceStats)
  touchTrace : Option HnswTraceStats → (HnswTraceStats → HnswTraceStats) →
    Program L (Option HnswTraceStats)
  corrupted : L.Err
  outOfFuel : L.Err

section SearchLayer

variable {L : Signature} {E N K D : Type}

/-- `AddToVisited` on each neighbor in turn: those not met before, in order. -/
def addToVisited [DecidableEq K] (key : N → K) : List N → List K →
    List N × List K
  | [], visited => ([], visited)
  | n :: rest, visited =>
    if key n ∈ visited then addToVisited key rest visited
    else
      let found := addToVisited key rest (key n :: visited)
      (n :: found.1, found.2)

/-- `CountElement`: while vacuuming, elements being deleted do not count. -/
def countElement (A : SearchAccess L E N K D) (skip : Bool) (e : E) : Bool :=
  !skip || A.heaptidsLength e != 0

variable [LinearOrder D]

def addEntryPoint [DecidableEq K] (A : SearchAccess L E N K D) (skip : Bool)
    (initVisited : Bool) (st : SearchState E K D)
    (sc : HnswSearchCandidate E D) : SearchState E K D :=
  { st with
    visited :=
      if initVisited && !decide (A.elementKey sc.element ∈ st.visited) then
        A.elementKey sc.element :: st.visited
      else st.visited
    tuples := if initVisited then st.tuples + 1 else st.tuples
    candidates := st.candidates.add compareNearestCandidates sc
    results := st.results.add compareFurthestCandidates sc
    wlen := if countElement A skip sc.element then st.wlen + 1 else st.wlen }

/-- What becomes of a candidate that leaves or does not enter `W`. -/
def discard (st : SearchState E K D) (sc : HnswSearchCandidate E D) : SearchState E K D :=
  { st with
    discarded := st.discarded.map fun d => d.add compareNearestCandidates sc }

def pushCandidate (st : SearchState E K D) (sc : HnswSearchCandidate E D) : SearchState E K D :=
  { st with
    candidates := st.candidates.add compareNearestCandidates sc
    results := st.results.add compareFurthestCandidates sc }

def evictFurthest (st : SearchState E K D) : SearchState E K D :=
  match st.results.removeFirst? compareFurthestCandidates with
  | none => st
  | some (d, results) => discard { st with results := results } d

/-- The candidate enters `C` and `W`; the furthest one leaves a full `W`. -/
def addCandidate (A : SearchAccess L E N K D) (ef : Nat) (skip : Bool)
    (st : SearchState E K D) (sc : HnswSearchCandidate E D) :
    SearchState E K D :=
  if countElement A skip sc.element then
    -- no need to decrement wlen
    if ef < st.wlen + 1 then
      evictFurthest (pushCandidate { st with wlen := st.wlen + 1 } sc)
    else pushCandidate { st with wlen := st.wlen + 1 } sc
  else pushCandidate st sc

/-- `eDistance < f->distance || alwaysAdd`, with `f` the furthest of `W`. -/
def isAdded (ef wlen : Nat) (f : HnswSearchCandidate E D) (eDistance : D) : Bool :=
  decide (eDistance < f.distance) || decide (wlen < ef)

/-- An element that was loaded, at distance `eDistance`; `f` is the furthest of `W`. -/
def visitElement (A : SearchAccess L E N K D) (sizes : AllocSizes) (ef lc : Nat)
    (skip : Bool) (st : SearchState E K D) (f : HnswSearchCandidate E D)
    (eElement : E) (eDistance : D) : SearchState E K D :=
  if !isAdded ef st.wlen f eDistance then
    if st.discarded.isSome then
      discard { st with allocated := st.allocated + sizes.searchCandidate }
        ⟨eElement, eDistance⟩
    else st
  else if A.level eElement < lc then st
  else
    addCandidate A ef skip
      { st with allocated := st.allocated + sizes.searchCandidate }
      ⟨eElement, eDistance⟩

/-- The distance above which an element is not needed; avoids allocations. -/
def loadLimit (ef wlen : Nat) (keepsDiscarded : Bool) (f : HnswSearchCandidate E D) : Option D :=
  if decide (wlen < ef) || keepsDiscarded then none else some f.distance

def visitUnvisited (A : SearchAccess L E N K D) (sizes : AllocSizes)
    (ef lc : Nat) (skip : Bool) :
    List N → SearchState E K D → Program L (SearchState E K D)
  | [], st => .ret st
  | n :: rest, st =>
    match st.results.first? with
    | none => .fail A.corrupted
    | some f => do
      let (eDistance, eElement, trace) ←
        A.loadElement n (loadLimit ef st.wlen st.discarded.isSome f) st.trace
      match eElement with
      | none => visitUnvisited A sizes ef lc skip rest { st with trace := trace }
      | some e =>
        visitUnvisited A sizes ef lc skip rest
          (visitElement A sizes ef lc skip
            { st with
              trace := trace
              allocated := st.allocated + sizes.element }
            f e eDistance)

def expandCandidate [DecidableEq K] (A : SearchAccess L E N K D)
    (sizes : AllocSizes) (ef lc : Nat) (skip : Bool) (c : E)
    (st : SearchState E K D) : Program L (SearchState E K D) := do
  let (neighbors, trace) ← A.loadNeighbors c st.trace
  let unvisited := (addToVisited A.neighborKey neighbors st.visited).1
  let visited := (addToVisited A.neighborKey neighbors st.visited).2
  let trace ← A.touchTrace trace fun t =>
    { t with visitedNodes := t.visitedNodes + unvisited.length }
  visitUnvisited A sizes ef lc skip unvisited
    { st with
      visited := visited
      tuples := st.tuples + unvisited.length
      trace := trace
      allocated := st.allocated +
        (sizes.tidhashGrow visited.length - sizes.tidhashGrow st.visited.length) }

def searchLoop [DecidableEq K] (A : SearchAccess L E N K D) (sizes : AllocSizes)
    (ef lc : Nat) (skip : Bool) :
    Nat → SearchState E K D → Program L (SearchState E K D)
  | 0, _ => .fail A.outOfFuel
  | fuel + 1, st =>
    match st.candidates.removeFirst? compareNearestCandidates with
    | none => .ret st
    | some (c, candidates) =>
      match st.results.first? with
      | none => .fail A.corrupted
      | some f =>
        if f.distance < c.distance then
          .ret { st with candidates := candidates }
        else do
          let st ← expandCandidate A sizes ef lc skip c.element
            { st with candidates := candidates }
          searchLoop A sizes ef lc skip fuel st

/-- The state in which a search starts, before its entry points are added. -/
def searchStart (sizes : AllocSizes) (ef m lm : Nat) (initVisited : Bool)
    (st : SearchState E K D) : SearchState E K D :=
  let allocated := st.allocated + 2 * sizes.pairingheap + sizes.unvisited lm
  let st := { st with candidates := .nil, results := .nil, wlen := 0 }
  if initVisited then
    { st with
      visited := []
      discarded := st.discarded.map fun _ => .nil
      allocated := allocated + sizes.tidhash (ef * m * 2) +
        if st.discarded.isSome then sizes.pairingheap else 0 }
  else { st with allocated := allocated }

/--
`HnswSearchLayer`.  The state brings in the visited table, the discarded
candidates, the tuple count and the trace of the caller, and takes them out.
-/
def hnswSearchLayer [DecidableEq K] (A : SearchAccess L E N K D)
    (sizes : AllocSizes) (fuel : Nat) (ep : List (HnswSearchCandidate E D))
    (ef lc m : Nat) (skip initVisited : Bool) (st : SearchState E K D) :
    Program L (List (HnswSearchCandidate E D) × SearchState E K D) := do
  let st := searchStart sizes ef m (hnswGetLayerM m lc) initVisited st
  let st := ep.foldl (addEntryPoint A skip initVisited) st
  let st ← searchLoop A sizes ef lc skip fuel st
  let w := st.results.drain compareFurthestCandidates
  return (w,
    { st with
      results := .nil
      allocated := st.allocated + sizes.list w.length })

end SearchLayer

/-! ## Loading from disk -/

/-- An element loaded into memory; `value` is set when the vector is loaded too. -/
structure HnswElement (V : Type) where
  tid : ItemPointer
  level : Nat
  deleted : Bool
  version : Nat
  heaptids : List ItemPointer
  neighbortid : ItemPointer
  value : Option V
  deriving DecidableEq

abbrev DiskCandidate (V D : Type) := HnswSearchCandidate (HnswElement V) D

section Disk

variable {V D : Type}

def hnswLoadElementFromTuple (tid : ItemPointer) (etup : HnswElementTuple V)
    (loadVec : Bool) : HnswElement V where
  tid := tid
  level := etup.level
  deleted := etup.deleted
  version := etup.version
  heaptids := etup.liveTids
  neighbortid := etup.neighbortid
  value := if loadVec then etup.data else none

def readElementTuple (tid : ItemPointer) :
    HnswProgram V (HnswElementTuple V) := do
  match ← HnswOp.exec (.readTuple tid) with
  | some (.element etup) => return etup
  | _ => .fail .corrupted

def readNeighborTuple (tid : ItemPointer) :
    HnswProgram V HnswNeighborTuple := do
  match ← HnswOp.exec (.readTuple tid) with
  | some (.neighbor ntup) => return ntup
  | _ => .fail .corrupted

def touchTrace (trace : Option HnswTraceStats)
    (f : HnswTraceStats → HnswTraceStats) :
    HnswProgram V (Option HnswTraceStats) :=
  match trace with
  | none => .ret none
  | some t => do
    emit .traceAccess
    return some (f t)

def countDistance (q : Option V) (trace : Option HnswTraceStats) :
    HnswProgram V (Option HnswTraceStats) :=
  if q.isNone then .ret trace
  else do
    emit .distanceCall
    touchTrace trace fun t =>
      { t with distanceComputeCount := t.distanceComputeCount + 1 }

variable [LinearOrder D]

def hnswLoadElementImpl (support : HnswSupport V D) (tid : ItemPointer)
    (q : Option V) (loadVec : Bool) (maxDistance : Option D)
    (trace : Option HnswTraceStats) :
    HnswProgram V (D × Option (HnswElement V) × Option HnswTraceStats) := do
  let etup ← readElementTuple tid
  if etup.deleted then .fail .cannotLoadDeletedElement
  else
    let distance := hnswGetDistance support q etup.data
    let trace ← countDistance q trace
    let element :=
      if maxDistance.all fun d => decide (distance < d) then
        some (hnswLoadElementFromTuple tid etup loadVec)
      else none
    let trace ← touchTrace trace fun t => hnswTraceRecordElementPage t tid.blkno
    return (distance, element, trace)

/-- `HnswLoadElement` without a query. -/
def hnswLoadElement (tid : ItemPointer) (loadVec : Bool) :
    HnswProgram V (HnswElement V) := do
  let etup ← readElementTuple tid
  if etup.deleted then .fail .cannotLoadDeletedElement
  else return hnswLoadElementFromTuple tid etup loadVec

/--
`HnswLoadNeighborTids`: the slots of one layer, unless the neighbor tuple was
deleted or replaced since the element was loaded.
-/
def hnswLoadNeighborTids (element : HnswElement V) (m lc : Nat)
    (trace : Option HnswTraceStats) :
    HnswProgram V (Option (List ItemPointer) × Option HnswTraceStats) := do
  let ntup ← readNeighborTuple element.neighbortid
  if ntup.version ≠ element.version ∨ ntup.count ≠ (element.level + 2) * m then
    return (none, trace)
  else
    let indextids :=
      ntup.layer ((element.level - lc) * m) (hnswGetLayerM m lc)
    let trace ← touchTrace trace fun t =>
      hnswTraceRecordNeighborPage t element.neighbortid.blkno
    return (some indextids, trace)

def diskNeighbors (m lc : Nat) (element : HnswElement V)
    (trace : Option HnswTraceStats) :
    HnswProgram V (List ItemPointer × Option HnswTraceStats) := do
  let (indextids, trace) ← hnswLoadNeighborTids element m lc trace
  match indextids with
  | none => return ([], trace)
  | some tids => do
    emit .neighborsPassed
    return (tids.takeWhile ItemPointer.isValid, trace)

/-- Searching the pages of the index for the neighbors of `q` at layer `lc`. -/
def diskAccess (support : HnswSupport V D) (q : Option V) (m lc : Nat)
    (inserting : Bool) :
    SearchAccess (hnswSignature V) (HnswElement V) ItemPointer ItemPointer D where
  elementKey := HnswElement.tid
  neighborKey := id
  level := HnswElement.level
  heaptidsLength := fun e => e.heaptids.length
  loadNeighbors := diskNeighbors m lc
  loadElement := fun tid maxDistance trace =>
    hnswLoadElementImpl support tid q inserting maxDistance trace
  touchTrace := touchTrace
  corrupted := .corrupted
  outOfFuel := .outOfFuel

/-- `HnswEntryCandidate` on disk; its load is not traced. -/
def hnswEntryCandidate (support : HnswSupport V D) (tid : ItemPointer)
    (q : Option V) (loadVec : Bool) :
    HnswProgram V (DiskCandidate V D) := do
  let (distance, element, _) ←
    hnswLoadElementImpl support tid q loadVec none none
  match element with
  | none => .fail .corrupted
  | some e => return ⟨e, distance⟩

def hnswGetMetaPageInfo : HnswProgram V (Nat × Option EntryPoint) := do
  let metap ← HnswOp.exec .getMetaPage
  if metap.magicNumber ≠ hnswMagicNumber then .fail .indexNotValid
  else return (metap.m, metap.entryPoint)

end Disk

end PgVector.Hnsw
