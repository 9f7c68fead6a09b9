import PgVector.Hnsw.Select

/-!
# Inserting on disk

`hnswInsertTupleOnDisk` finds the neighbors of a new element, adds its tuples to
the pages of the index, and then links the neighbors back to it, one neighbor
tuple at a time.  It holds `HNSW_UPDATE_LOCK` throughout.
-/

namespace PgVector.Hnsw

open Foundation

structure InsertContext (V D F : Type) where
  support : HnswSupport V D
  toFloat : D → F
  sizes : AllocSizes
  /-- Where the objects of one call are allocated. -/
  address : Nat → Nat
  address_injective : Function.Injective address
  efConstruction : Nat
  /-- `VARSIZE_ANY` of a value. -/
  valueSize : V → Nat
  /-- `typeInfo->checkValue`. -/
  checkValue : V → Bool
  /-- `HnswCheckNorm`. -/
  checkNorm : V → Bool
  /-- A bound on the turns of every loop. -/
  fuel : Nat

/-! ## Tuples -/

def heaptidSlots (heaptids : List ItemPointer) : List ItemPointer :=
  heaptids.take hnswHeaptids ++ List.replicate (hnswHeaptids - heaptids.length) ItemPointer.invalid

theorem heaptidSlots_length (heaptids : List ItemPointer) :
    (heaptidSlots heaptids).length = hnswHeaptids := by
  simp only [heaptidSlots, List.length_append, List.length_take, List.length_replicate]
  omega

def hnswSetElementTuple {V : Type} (level version : Nat)
    (heaptids : List ItemPointer) (value : V) (neighbortid : ItemPointer) :
    HnswElementTuple V where
  level := level
  deleted := false
  version := version
  heaptids := heaptidSlots heaptids
  heaptids_length := heaptidSlots_length heaptids
  neighbortid := neighbortid
  data := some value
  data_isSome := fun _ => rfl

def layerSlots (lm : Nat) (tids : List ItemPointer) : List ItemPointer :=
  tids.take lm ++ List.replicate (lm - tids.length) ItemPointer.invalid

/-- The slots of all layers; the layers come highest first. -/
def neighborSlots (m : Nat) : List (List ItemPointer) → List ItemPointer
  | [] => []
  | tids :: lower =>
    layerSlots (hnswGetLayerM m lower.length) tids ++ neighborSlots m lower

def hnswSetNeighborTuple (m version : Nat) (layers : List (List ItemPointer)) :
    HnswNeighborTuple where
  version := version
  indextids := neighborSlots m layers

/-! ## Finding neighbors -/

section Insert

variable {V D F : Type} [LinearOrder D] [LinearOrder F] [DecidableEq V]
  (ctx : InsertContext V D F)

def InsertContext.elementDistance (a b : HnswElement V) : F :=
  ctx.toFloat (hnswGetDistance ctx.support a.value b.value)

/-- `RemoveElements`: drop the element being repaired and those being deleted. -/
def removeElements {F : Type} (skipElement : Option ItemPointer)
    (w : List (HnswCandidate (HnswElement V) F)) :
    List (HnswCandidate (HnswElement V) F) :=
  w.filter fun hc =>
    decide (skipElement ≠ some hc.element.tid) && !hc.element.heaptids.isEmpty

/--
The search for neighbors on disk.  The candidates that it passes to
`SelectNeighbors` are not sorted there, so their addresses do not matter.
-/
def InsertContext.neighborSearch (q : Option V) (m : Nat) (skipElement : Option ItemPointer) :
    NeighborSearch (hnswSignature V) (HnswElement V) ItemPointer ItemPointer D F where
  access lc := diskAccess ctx.support q m lc true
  selection := { distance := ctx.elementDistance, pointer := fun _ => 0 }
  toFloat := ctx.toFloat
  removeElements := removeElements skipElement
  sizes := ctx.sizes
  fuel := ctx.fuel
  m := m
  efConstruction := ctx.efConstruction
  existing := skipElement.isSome

/-- The entry point is loaded; its level is the one found in the element. -/
def diskEntryCandidate (q : Option V) (tid : ItemPointer) :
    HnswProgram V (DiskCandidate V D × Nat) := do
  let entry ← hnswEntryCandidate ctx.support tid q true
  return (entry, entry.element.level)

def findNeighborsOnDisk (q : Option V) (level m : Nat)
    (entryPoint skipElement : Option ItemPointer) :
    HnswProgram V (FoundNeighbors (HnswElement V) F) :=
  hnswFindElementNeighbors (ctx.neighborSearch q m skipElement) level
    (entryPoint.map (diskEntryCandidate ctx q))

def layerTids {F : Type} (layers : List (List (HnswCandidate (HnswElement V) F))) :
    List (List ItemPointer) :=
  layers.map fun layer => layer.map fun hc => hc.element.tid

/-! ## Linking the neighbors back -/

structure AllocatedElement (V : Type) where
  object : Nat
  element : HnswElement V

def InsertContext.selection : Selection (AllocatedElement V) F where
  distance a b := ctx.elementDistance a.element b.element
  pointer a := ctx.address a.object

/--
`LoadElementsForInsert`, after `loaded`.  An element being deleted is pruned at
once, and its index returned.
-/
def loadElementsForInsert (q : Option V) :
    List ItemPointer → List (HnswCandidate (AllocatedElement V) F) →
      HnswProgram V (List (HnswCandidate (AllocatedElement V) F) × Option Nat)
  | [], loaded => .ret (loaded, none)
  | tid :: rest, loaded => do
    let (distance, element, _) ←
      hnswLoadElementImpl ctx.support tid q true none none
    match element with
    | none => .fail .corrupted
    | some e =>
      if e.heaptids.isEmpty then return (loaded, some loaded.length)
      else
        loadElementsForInsert q rest
          (loaded ++ [⟨⟨loaded.length + 1, e⟩, ctx.toFloat distance, false⟩])

/-- `GetUpdateIndex`: which slot of the neighbor's layer takes the new element. -/
def getUpdateIndex (element newElement : HnswElement V)
    (distance : F) (m lc : Nat) : HnswProgram V UpdateIdx := do
  let (tids, _) ← diskNeighbors m lc element none
  let lm := hnswGetLayerM m lc
  if tids.length < lm then return .free
  else do
    let (loaded, pruned) ← loadElementsForInsert ctx element.value tids []
    match pruned with
    | some i => return .slot i
    | none =>
      return (hnswUpdateConnection ctx.selection ⟨loaded, false⟩ ⟨0, newElement⟩ distance lm).2

/-- `UpdateNeighborOnDisk`, unless the new element was not selected. -/
def updateNeighborOnDisk (element newElement : HnswElement V) (idx : UpdateIdx)
    (m lc : Nat) (checkExisting : Bool) : HnswProgram V Unit :=
  if idx = .unchanged then .ret ()
  else do
    let there ← HnswOp.exec
      (.updateNeighbor element.neighbortid newElement.tid idx
        ((element.level - lc) * m) (hnswGetLayerM m lc) checkExisting)
    if there then return () else .fail .corrupted

def updateLayerOnDisk (e : HnswElement V) (m lc : Nat) (checkExisting : Bool) :
    List (HnswCandidate (HnswElement V) F) → HnswProgram V Unit
  | [] => .ret ()
  | hc :: rest => do
    let idx ← getUpdateIndex ctx hc.element e hc.distance m lc
    updateNeighborOnDisk hc.element e idx m lc checkExisting
    updateLayerOnDisk e m lc checkExisting rest

/-- `HnswUpdateNeighborsOnDisk`; the layers come highest first. -/
def hnswUpdateNeighborsOnDisk (e : HnswElement V) (m : Nat) (checkExisting : Bool) :
    List (List (HnswCandidate (HnswElement V) F)) → HnswProgram V Unit
  | [] => .ret ()
  | layer :: lower => do
    updateLayerOnDisk ctx e m lower.length checkExisting layer
    hnswUpdateNeighborsOnDisk e m checkExisting lower

/-! ## Adding an element -/

/-- `FindDuplicateOnDisk`, over the neighbors at layer 0 that are left. -/
def findDuplicateOnDisk (value : V) (heaptid : ItemPointer) :
    List (HnswCandidate (HnswElement V) F) → HnswProgram V Bool
  | [] => .ret false
  | neighbor :: rest =>
    -- exit early since ordered by distance
    if neighbor.element.value ≠ some value then .ret false
    else do
      match ← HnswOp.exec
          (.addDuplicate neighbor.element.tid heaptid) with
      | none => .fail .corrupted
      | some true => return true
      | some false => findDuplicateOnDisk value heaptid rest

def InsertContext.addRequest (value : V)
    (heaptid : ItemPointer) (level m : Nat) (layers : List (List ItemPointer)) :
    AddElementRequest V where
  etup := hnswSetElementTuple level 1 [heaptid] value ItemPointer.invalid
  ntup := hnswSetNeighborTuple m 1 layers
  etupSize := hnswElementTupleSize (ctx.valueSize value)
  ntupSize := hnswNeighborTupleSize level m
  minCombinedSize := hnswElementTupleSize (ctx.valueSize value) +
    hnswNeighborTupleSize 0 m + sizeOfItemIdData

structure Placement where
  tid : ItemPointer
  neighbortid : ItemPointer
  newInsertPage : BlockNumber
  deriving DecidableEq, Repr

def addElementLoop (request : AddElementRequest V) :
    Nat → BlockNumber → Option BlockNumber → HnswProgram V Placement
  | 0, _, _ => .fail .outOfFuel
  | fuel + 1, blkno, newInsertPage => do
    match ← HnswOp.exec
        (.addElement request blkno newInsertPage) with
    | .next next newInsertPage =>
      addElementLoop request fuel next newInsertPage
    | .placed tid neighbortid insertPage =>
      return ⟨tid, neighbortid, insertPage⟩
    | .failed error => .fail error

def getInsertPage : HnswProgram V BlockNumber := do
  let metap ← HnswOp.exec .getMetaPage
  match metap.insertPage with
  | none => .fail .corrupted
  | some blkno => return blkno

/-- The metapage is written only if the insert page has changed. -/
def updateInsertPage (insertPage newInsertPage : BlockNumber) : HnswProgram V Unit :=
  if newInsertPage = insertPage then .ret ()
  else
    HnswOp.exec (.updateMetaPage .no none (some newInsertPage))

def replacesEntry (level : Nat) : Option Nat → Bool
  | none => true
  | some entryLevel => decide (entryLevel < level)

def updateEntryPoint (tid : ItemPointer) (level : Nat)
    (entryPoint : Option EntryPoint) : HnswProgram V Unit :=
  if replacesEntry level (entryPoint.map EntryPoint.level) then
    HnswOp.exec (.updateMetaPage .greater (some ⟨tid, level⟩) none)
  else .ret ()

def placedElement (value : V) (heaptid : ItemPointer) (level : Nat)
    (p : Placement) : HnswElement V where
  tid := p.tid
  level := level
  deleted := false
  version := 1
  heaptids := [heaptid]
  neighbortid := p.neighbortid
  value := some value

def FoundNeighbors.loadedEntry {E F : Type} (found : FoundNeighbors E F)
    (entryPoint : Option EntryPoint) : Option EntryPoint :=
  entryPoint.map fun e => { e with level := found.entryLevel.getD e.level }

/-- `UpdateGraphOnDisk` for an element that is not a duplicate. -/
def addToGraphOnDisk (value : V)
    (heaptid : ItemPointer) (level m : Nat) (entryPoint : Option EntryPoint)
    (layers : List (List (HnswCandidate (HnswElement V) F))) :
    HnswProgram V Unit := do
  let insertPage ← getInsertPage
  let p ← addElementLoop (ctx.addRequest value heaptid level m (layerTids layers))
    ctx.fuel insertPage none
  updateInsertPage insertPage p.newInsertPage
  hnswUpdateNeighborsOnDisk ctx (placedElement value heaptid level p) m false layers
  updateEntryPoint p.tid level entryPoint

def updateGraphOnDisk (value : V)
    (heaptid : ItemPointer) (level m : Nat) (entryPoint : Option EntryPoint)
    (layers : List (List (HnswCandidate (HnswElement V) F))) :
    HnswProgram V Unit := do
  let duplicate ← findDuplicateOnDisk value heaptid (layers.getLast?.getD [])
  if duplicate then return ()
  else addToGraphOnDisk ctx value heaptid level m entryPoint layers

/-! ## Inserting a tuple -/

def hnswGetEntryPoint : HnswProgram V (Option EntryPoint) := do
  let (_, entryPoint) ← hnswGetMetaPageInfo
  return entryPoint

def insertLocked (value : V) (heaptid : ItemPointer)
    (level m : Nat) (entryPoint : Option EntryPoint) (lockmode : LockMode) :
    HnswProgram V Unit := do
  let found ← findNeighborsOnDisk ctx (some value) level m
    (entryPoint.map EntryPoint.tid) none
  updateGraphOnDisk ctx value heaptid level m (found.loadedEntry entryPoint) found.layers
  unlockPage .update lockmode

/--
`HnswInsertTupleOnDisk`, with the level that `HnswInitElement` draws.  An insert
that is likely to update the entry point keeps other inserts out.
-/
def hnswInsertTupleOnDisk (value : V)
    (heaptid : ItemPointer) (drawnLevel : Nat) : HnswProgram V Unit := do
  lockPage .update .share
  let (m, entryPoint) ← hnswGetMetaPageInfo
  let level := min drawnLevel (hnswGetMaxLevel m)
  if replacesEntry level (entryPoint.map EntryPoint.level) then
    unlockPage .update .share
    lockPage .update .exclusive
    let entryPoint ← hnswGetEntryPoint
    insertLocked ctx value heaptid level m entryPoint .exclusive
  else insertLocked ctx value heaptid level m entryPoint .share

/-- `HnswFormIndexValue`; `none` when the value is not indexed. -/
def hnswFormIndexValue (value : V) : Option V :=
  match ctx.support.normalize with
  | none => some value
  | some normalize => if ctx.checkNorm value then some (normalize value) else none

/-- `hnswinsert`; nulls are skipped. -/
def hnswinsert (value : Option V) (heaptid : ItemPointer) (drawnLevel : Nat) : HnswProgram V Unit :=
  match value with
  | none => .ret ()
  | some value =>
    if ctx.checkValue value then
      match hnswFormIndexValue ctx value with
      | none => .ret ()
      | some value => hnswInsertTupleOnDisk ctx value heaptid drawnLevel
    else .fail .valueNotAccepted

end Insert

end PgVector.Hnsw
