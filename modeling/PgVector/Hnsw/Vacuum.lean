import PgVector.Hnsw.Insert

/-!
# Vacuuming

`hnswbulkdelete` makes three passes over the pages.  The first removes heap TIDs
and records the elements that have none left, the second repairs the neighbors of
the other elements, the third marks the recorded elements as deleted.  A backend
reads or changes one page at a time; `HNSW_UPDATE_LOCK` and `HNSW_SCAN_LOCK` are
taken and released between the passes to wait for inserts and for scans.
-/

namespace PgVector.Hnsw

open Foundation

structure VacuumState where
  deleted : List ItemPointer
  highestPoint : Option EntryPoint
  fallbackPoint : Option EntryPoint
  deriving DecidableEq, Repr

namespace VacuumState

def start : VacuumState := ⟨[], none, none⟩

def notePoint (st : VacuumState) (point : EntryPoint) : VacuumState :=
  match st.highestPoint with
  | none => { st with highestPoint := some point }
  | some highest =>
    if highest.level < point.level then
      { st with highestPoint := some point, fallbackPoint := some highest }
    else
      match st.fallbackPoint with
      | none => { st with fallbackPoint := some point }
      | some fallback =>
        if fallback.level < point.level then
          { st with fallbackPoint := some point }
        else st

/-- What `RemoveHeapTids` does with an element tuple once it has been compacted. -/
def visit (blkno : BlockNumber) (st : VacuumState) (e : VisitedElement) : VacuumState :=
  if e.emptied then { st with deleted := st.deleted ++ [⟨blkno, e.offno⟩] }
  else st.notePoint ⟨⟨blkno, e.offno⟩, e.level⟩

end VacuumState

/-! ## Removing heap TIDs -/

def removeHeapTids {V : Type} (callback : ItemPointer → Bool) :
    Nat → BlockNumber → VacuumState → HnswProgram V VacuumState
  | 0, _, _ => .fail .outOfFuel
  | fuel + 1, blkno, st => do
    match ← HnswOp.exec (.removeHeapTids blkno callback) with
    | none => .fail .corrupted
    | some reply =>
      let st := reply.visited.foldl (VacuumState.visit blkno) st
      match reply.nextblkno with
      | none => return st
      | some next => removeHeapTids callback fuel next st

/-! ## Repairing the graph -/

def HnswNeighborTuple.namesDeleted (ntup : HnswNeighborTuple) (deleted : List ItemPointer) : Bool :=
  ntup.indextids.any fun tid => tid.isValid && deleted.contains tid

/-- `NeedsUpdated`: also if layer 0 is not full. -/
def needsUpdated {V : Type} (deleted : List ItemPointer) (element : HnswElement V) :
    HnswProgram V Bool := do
  let ntup ← readNeighborTuple element.neighbortid
  return ntup.namesDeleted deleted || ntup.indextids.getLast?.any fun tid => !tid.isValid

/-- The elements that `RepairGraph` loads from a page, without heap TIDs. -/
def repairableElements {V : Type} (blkno : BlockNumber)
    (page : Page (IndexTuple V)) : List (HnswElement V) :=
  page.elements.filterMap fun (offno, etup) =>
    if etup.isEmptied then none
    else
      some
        { hnswLoadElementFromTuple ⟨blkno, offno⟩ etup true with heaptids := [] }

section Repair

variable {V D F : Type} [LinearOrder D] [LinearOrder F] [DecidableEq V]

def overwriteNeighbors (element : HnswElement V) (m : Nat)
    (layers : List (List ItemPointer)) : HnswProgram V Unit := do
  match ← HnswOp.exec
      (.overwriteNeighbor element.neighbortid (hnswSetNeighborTuple m element.version layers)
        (hnswNeighborTupleSize element.level m)) with
  | .missing => .fail .corrupted
  | .failed => .fail .failedToAddIndexItem
  | .written => return ()

variable (ctx : InsertContext V D F) (m : Nat)

def repairGraphElement (element : HnswElement V) (entryPoint : Option EntryPoint) :
    HnswProgram V (Option EntryPoint) :=
  -- skip if element is entry point
  if entryPoint.map EntryPoint.tid = some element.tid then .ret entryPoint
  else do
    let found ← findNeighborsOnDisk ctx element.value element.level m
      (entryPoint.map EntryPoint.tid) (some element.tid)
    overwriteNeighbors element m (layerTids found.layers)
    hnswUpdateNeighborsOnDisk ctx { element with heaptids := [] } m true found.layers
    return found.loadedEntry entryPoint

def repairIfNeeded (deleted : List ItemPointer) (element : HnswElement V)
    (entryPoint : Option EntryPoint) : HnswProgram V Unit := do
  let needed ← needsUpdated deleted element
  if needed then
    let _ ← repairGraphElement ctx m element entryPoint
    return ()
  else return ()

/-- The highest point is loaded, which sets its level, and repaired if needed. -/
def repairPoint (deleted : List ItemPointer) (entryPoint : Option EntryPoint) :
    Option EntryPoint → HnswProgram V (Option EntryPoint)
  | none => .ret none
  | some point => do
    let element ← hnswLoadElement point.tid true
    repairIfNeeded ctx m deleted element entryPoint
    return some ⟨point.tid, element.level⟩

/-- The first half of `RepairGraphEntryPoint`, and the highest point it ends with. -/
def repairHighestPoint (st : VacuumState) : HnswProgram V (Option EntryPoint) :=
  match st.highestPoint with
  | none => .ret none
  | some highest => do
    lockPage .update .share
    let entryPoint ← hnswGetEntryPoint
    let point ← repairPoint ctx m st.deleted entryPoint
      -- use fallback point if highest point is entry point
      (if entryPoint.map EntryPoint.tid = some highest.tid then st.fallbackPoint
        else some highest)
    unlockPage .update .share
    return point

/-- Replace the entry point by the highest point, or repair it from there. -/
def replaceEntryPoint (deleted : List ItemPointer) (highestPoint : Option EntryPoint) :
    Option EntryPoint → HnswProgram V Unit
  | none => .ret ()
  | some entryPoint =>
    if deleted.contains entryPoint.tid then
      HnswOp.exec (.updateMetaPage .always highestPoint none)
    else do
      let element ← hnswLoadElement entryPoint.tid true
      repairIfNeeded ctx m deleted element highestPoint

def repairGraphEntryPoint (st : VacuumState) : HnswProgram V Unit := do
  let highestPoint ← repairHighestPoint ctx m st
  -- prevent concurrent inserts when possibly updating entry point
  lockPage .update .exclusive
  let entryPoint ← hnswGetEntryPoint
  replaceEntryPoint ctx m st.deleted highestPoint entryPoint
  unlockPage .update .exclusive

def repairLocked (element : HnswElement V) (entryPoint : Option EntryPoint) (lockmode : LockMode) :
    HnswProgram V Unit := do
  let entryPoint ← repairGraphElement ctx m element entryPoint
  updateEntryPoint element.tid element.level entryPoint
  unlockPage .update lockmode

def repairElement (element : HnswElement V) : HnswProgram V Unit := do
  lockPage .update .share
  let entryPoint ← hnswGetEntryPoint
  if replacesEntry element.level (entryPoint.map EntryPoint.level) then
    unlockPage .update .share
    lockPage .update .exclusive
    let entryPoint ← hnswGetEntryPoint
    repairLocked ctx m element entryPoint .exclusive
  else repairLocked ctx m element entryPoint .share

def repairElements (deleted : List ItemPointer) : List (HnswElement V) → HnswProgram V Unit
  | [] => .ret ()
  | element :: rest => do
    let needed ← needsUpdated deleted element
    if needed then
      repairElement ctx m element
      repairElements deleted rest
    else repairElements deleted rest

def repairPages (deleted : List ItemPointer) : Nat → BlockNumber → HnswProgram V Unit
  | 0, _ => .fail .outOfFuel
  | fuel + 1, blkno => do
    match ← HnswOp.exec (.readPage blkno) with
    | none => .fail .corrupted
    | some page =>
      repairElements ctx m deleted (repairableElements blkno page)
      match page.nextblkno with
      | none => return ()
      | some next => repairPages deleted fuel next

def repairGraph (st : VacuumState) : HnswProgram V Unit := do
  lockPage .update .exclusive
  unlockPage .update .exclusive
  repairGraphEntryPoint ctx m st
  repairPages ctx m st.deleted ctx.fuel hnswHeadBlkno

end Repair

/-! ## Marking elements as deleted -/

section Mark

variable {V : Type}

def confirmElements (deleted : List ItemPointer) :
    List (OffsetNumber × HnswElementTuple V) → HnswProgram V Unit
  | [] => .ret ()
  | (_, etup) :: rest =>
    if etup.isEmptied then confirmElements deleted rest
    else do
      let ntup ← readNeighborTuple etup.neighbortid
      if ntup.namesDeleted deleted then .fail .graphNotRepaired
      else confirmElements deleted rest

def confirmRepaired (deleted : List ItemPointer) : Nat → BlockNumber → HnswProgram V Unit
  | 0, _ => .fail .outOfFuel
  | fuel + 1, blkno => do
    match ← HnswOp.exec (.readPage blkno) with
    | none => .fail .corrupted
    | some page =>
      confirmElements deleted page.elements
      match page.nextblkno with
      | none => return ()
      | some next => confirmRepaired deleted fuel next

/-- The elements of a page, marked one by one; the insert page is the first freed. -/
def markElements (blkno : BlockNumber) :
    List (OffsetNumber × HnswElementTuple V) → Option BlockNumber →
      HnswProgram V (Option BlockNumber)
  | [], insertPage => .ret insertPage
  | (offno, _) :: rest, insertPage => do
    match ← HnswOp.exec (.markDeleted ⟨blkno, offno⟩) with
    | .missing => .fail .corrupted
    | .skipped => markElements blkno rest insertPage
    | .alreadyDeleted | .marked =>
      markElements blkno rest (some (insertPage.getD blkno))

def markPages : Nat → BlockNumber → Option BlockNumber → HnswProgram V (Option BlockNumber)
  | 0, _, _ => .fail .outOfFuel
  | fuel + 1, blkno, insertPage => do
    match ← HnswOp.exec (.readPage blkno) with
    | none => .fail .corrupted
    | some page =>
      let insertPage ← markElements blkno page.elements insertPage
      match page.nextblkno with
      | none => return insertPage
      | some next => markPages fuel next insertPage

/-- Inserts and scans before the locks may visit tuples about to be deleted. -/
def markDeleted (fuel : Nat) (deleted : List ItemPointer) : HnswProgram V Unit := do
  lockPage .update .exclusive
  unlockPage .update .exclusive
  confirmRepaired deleted fuel hnswHeadBlkno
  emit .repairConfirmed
  lockPage .scan .exclusive
  unlockPage .scan .exclusive
  let insertPage ← markPages fuel hnswHeadBlkno none
  HnswOp.exec (.updateMetaPage .no none insertPage)

end Mark

def hnswbulkdelete {V D F : Type} [LinearOrder D] [LinearOrder F] [DecidableEq V]
    (ctx : InsertContext V D F) (callback : ItemPointer → Bool) :
    HnswProgram V Unit := do
  let (m, _) ← hnswGetMetaPageInfo
  let st ← removeHeapTids callback ctx.fuel hnswHeadBlkno .start
  repairGraph ctx m st
  markDeleted ctx.fuel st.deleted

end PgVector.Hnsw
