import PgVector.Hnsw.Insert

/-!
# Building in memory

During a build the graph is first held in memory, where elements are known by
pointer and keep their neighbors, with distances, in arrays.  When the memory is
used up, or all tuples are in, the graph is flushed to the pages of the index.
An instruction below is one section of the source under the lock of an element or
of the graph; a pointer is the number of the element.
-/

namespace PgVector.Hnsw

open Foundation

structure GraphElement (V F : Type) where
  level : Nat
  version : Nat
  heaptids : List ItemPointer
  value : V
  /-- The neighbors at every layer, highest first. -/
  layers : List (HnswNeighborArray Nat F)

/-- New elements are appended; `graph->head` is the last one. -/
structure HnswGraph (V F : Type) where
  elements : List (GraphElement V F)
  entryPoint : Option Nat

namespace HnswGraph

variable {V F : Type}

def init : HnswGraph V F := ⟨[], none⟩

def neighbors (graph : HnswGraph V F) (ptr lc : Nat) : List (HnswCandidate Nat F) :=
  match graph.elements[ptr]? with
  | none => []
  | some element =>
    if element.level < lc then []
    else (element.layers[element.level - lc]?.map fun a => a.items).getD []

end HnswGraph

structure GraphPointer (V : Type) where
  ptr : Nat
  level : Nat
  value : V
  deriving DecidableEq, Repr

/-! ## Instructions -/

inductive GraphOp (V F : Type) where
  | getEntryPoint
  | readElement (ptr : Nat)
  | copyNeighbors (ptr lc : Nat)
  | addDuplicate (ptr : Nat) (heaptid : ItemPointer)
  | addElement (element : GraphElement V F)
  | updateConnection (ptr lc newElement : Nat) (distance : F) (lm : Nat)
  | setEntryPoint (ptr : Nat)

@[reducible] def GraphOp.Res {V F : Type} : GraphOp V F → Type
  | .getEntryPoint => Option (GraphPointer V)
  | .readElement _ => Option (GraphPointer V)
  | .copyNeighbors _ _ => List (HnswCandidate Nat F)
  | .addDuplicate _ _ => Bool
  | .addElement _ => Nat
  | .updateConnection _ _ _ _ _ => Unit
  | .setEntryPoint _ => Unit

abbrev graphSignature (V F : Type) : Signature where
  Op := GraphOp V F
  Res := GraphOp.Res
  Err := HnswError

abbrev GraphProgram (V F α : Type) := Program (graphSignature V F) α

abbrev GraphOp.exec {V F : Type} (o : GraphOp V F) : GraphProgram V F o.Res :=
  Program.exec (L := graphSignature V F) o

section Instructions

variable {V D F : Type} [LinearOrder F]

def HnswGraph.pointer? (graph : HnswGraph V F) (ptr : Nat) : Option (GraphPointer V) :=
  graph.elements[ptr]?.map fun e => ⟨ptr, e.level, e.value⟩

/-- `AddDuplicateInMemory` on one element; a full element takes no heap TID. -/
def GraphElement.addDuplicate? (element : GraphElement V F)
    (heaptid : ItemPointer) : Option (GraphElement V F) :=
  if element.heaptids.length = hnswHeaptids then none
  else some { element with heaptids := element.heaptids ++ [heaptid] }

def HnswGraph.addDuplicate (graph : HnswGraph V F) (ptr : Nat)
    (heaptid : ItemPointer) : Bool × HnswGraph V F :=
  match graph.elements[ptr]?.bind fun e => e.addDuplicate? heaptid with
  | none => (false, graph)
  | some e => (true, { graph with elements := graph.elements.set ptr e })

def HnswGraph.selection (ctx : InsertContext V D F) (graph : HnswGraph V F) :
    Selection Nat F where
  distance a b :=
    ctx.toFloat (hnswGetDistance ctx.support (graph.elements[a]?.map GraphElement.value)
      (graph.elements[b]?.map GraphElement.value))
  pointer := ctx.address

/-- `HnswUpdateConnection` on the neighbors of an element at layer `lc`. -/
def HnswGraph.updateConnection (ctx : InsertContext V D F) (graph : HnswGraph V F)
    (ptr lc newElement : Nat) (distance : F) (lm : Nat) : HnswGraph V F :=
  { graph with
    elements := graph.elements.modify ptr fun e =>
      if e.level < lc then e
      else
        { e with
          layers := e.layers.modify (e.level - lc) fun a =>
            (hnswUpdateConnection (graph.selection ctx) a newElement distance lm).1 } }

def graphHandler (ctx : InsertContext V D F) :
    Handler (graphSignature V F) (HnswGraph V F)
  | .getEntryPoint, graph => some (graph.entryPoint.bind graph.pointer?, graph)
  | .readElement ptr, graph => some (graph.pointer? ptr, graph)
  | .copyNeighbors ptr lc, graph => some (graph.neighbors ptr lc, graph)
  | .addDuplicate ptr heaptid, graph => some (graph.addDuplicate ptr heaptid)
  | .addElement element, graph =>
    some (graph.elements.length,
      { graph with elements := graph.elements ++ [element] })
  | .updateConnection ptr lc newElement distance lm, graph =>
    some ((), graph.updateConnection ctx ptr lc newElement distance lm)
  | .setEntryPoint ptr, graph => some ((), { graph with entryPoint := some ptr })

end Instructions

/-! ## Inserting in memory -/

section Insert

variable {V D F : Type} [LinearOrder D] [LinearOrder F] [DecidableEq V]

def readPointer (ptr : Nat) : GraphProgram V F (GraphPointer V) := do
  match ← GraphOp.exec (.readElement ptr) with
  | none => .fail .corrupted
  | some p => return p

/-- Searching the graph in memory; there is no trace. -/
def memoryAccess (support : HnswSupport V D) (q : V) (lc : Nat) :
    SearchAccess (graphSignature V F) (GraphPointer V) Nat Nat D where
  elementKey := GraphPointer.ptr
  neighborKey := id
  level := GraphPointer.level
  -- not accessed while building
  heaptidsLength := fun _ => 0
  loadNeighbors := fun e trace => do
    let items ← GraphOp.exec (.copyNeighbors e.ptr lc)
    return (items.map HnswCandidate.element, trace)
  loadElement := fun ptr _ trace => do
    let e ← readPointer ptr
    return (support.distance q e.value, some e, trace)
  touchTrace := fun trace _ => .ret trace
  corrupted := .corrupted
  outOfFuel := .outOfFuel

def InsertContext.memorySearch (ctx : InsertContext V D F) (q : V) (m : Nat) :
    NeighborSearch (graphSignature V F) (GraphPointer V) Nat Nat D F where
  access lc := memoryAccess ctx.support q lc
  selection :=
    { distance := fun a b => ctx.toFloat (ctx.support.distance a.value b.value)
      pointer := fun e => ctx.address e.ptr }
  toFloat := ctx.toFloat
  removeElements := id
  sizes := ctx.sizes
  fuel := ctx.fuel
  m := m
  efConstruction := ctx.efConstruction
  existing := false

def memoryEntryCandidate (ctx : InsertContext V D F) (q : V)
    (entryPoint : GraphPointer V) :
    GraphProgram V F (HnswSearchCandidate (GraphPointer V) D × Nat) :=
  .ret (⟨entryPoint, ctx.support.distance q entryPoint.value⟩, entryPoint.level)

/-- `FindDuplicateInMemory`, over the neighbors at layer 0 that are left. -/
def findDuplicateInMemory (value : V) (heaptid : ItemPointer) :
    List (HnswCandidate (GraphPointer V) F) → GraphProgram V F Bool
  | [] => .ret false
  | neighbor :: rest =>
    if neighbor.element.value ≠ value then .ret false
    else do
      let added ← GraphOp.exec
        (.addDuplicate neighbor.element.ptr heaptid)
      if added then return true
      else findDuplicateInMemory value heaptid rest

def updateLayerInMemory (ptr m lc : Nat) :
    List (HnswCandidate Nat F) → GraphProgram V F Unit
  | [] => .ret ()
  | hc :: rest => do
    GraphOp.exec (.updateConnection hc.element lc ptr hc.distance (hnswGetLayerM m lc))
    updateLayerInMemory ptr m lc rest

def updateNeighborsInMemory (ptr m : Nat) : Nat → GraphProgram V F Unit
  | 0 => .ret ()
  | lc + 1 => do
    let neighbors ← GraphOp.exec (.copyNeighbors ptr lc)
    updateLayerInMemory ptr m lc neighbors
    updateNeighborsInMemory ptr m lc

def setEntryPoint (ptr level : Nat) (entryPoint : Option (GraphPointer V)) :
    GraphProgram V F Unit :=
  if replacesEntry level (entryPoint.map GraphPointer.level) then
    GraphOp.exec (.setEntryPoint ptr)
  else .ret ()

def newGraphElement (value : V) (heaptid : ItemPointer) (level : Nat)
    (layers : List (List (HnswCandidate (GraphPointer V) F))) :
    GraphElement V F where
  level := level
  version := 1
  heaptids := [heaptid]
  value := value
  layers := layers.map fun layer =>
    { items := layer.map fun hc => ⟨hc.element.ptr, hc.distance, hc.closer⟩
      closerSet := false }

def updateGraphInMemory (value : V) (heaptid : ItemPointer) (level m : Nat)
    (entryPoint : Option (GraphPointer V))
    (layers : List (List (HnswCandidate (GraphPointer V) F))) :
    GraphProgram V F Unit := do
  let duplicate ← findDuplicateInMemory value heaptid (layers.getLast?.getD [])
  if duplicate then return ()
  else do
    let ptr ← GraphOp.exec
      (.addElement (newGraphElement value heaptid level layers))
    updateNeighborsInMemory ptr m (level + 1)
    setEntryPoint ptr level entryPoint

def insertFromEntry (ctx : InsertContext V D F) (m : Nat) (value : V)
    (heaptid : ItemPointer) (level : Nat) (entryPoint : Option (GraphPointer V)) :
    GraphProgram V F Unit := do
  let found ← hnswFindElementNeighbors (ctx.memorySearch value m) level
    (entryPoint.map (memoryEntryCandidate ctx value))
  updateGraphInMemory value heaptid level m entryPoint found.layers

end Insert

/-! ## Flushing the graph -/

structure FlushPosition where
  tid : ItemPointer
  neighbortid : ItemPointer
  deriving DecidableEq, Repr

structure FlushState (V : Type) where
  full : List (Page (IndexTuple V))
  page : Page (IndexTuple V)
  positions : List FlushPosition

section Flush

variable {V F : Type}

namespace FlushState

def start : FlushState V := ⟨[], Page.init, []⟩

def blkno (st : FlushState V) : BlockNumber := st.full.length + 1

def appendPage (st : FlushState V) : FlushState V :=
  { st with
    full := st.full ++ [{ st.page with nextblkno := some (st.blkno + 1) }]
    page := Page.init }

def ensure (st : FlushState V) (needsPage : Bool) : FlushState V :=
  if needsPage then st.appendPage else st

/-- `PageAddItem`, which has to give out the offset that was predicted. -/
def addItem (st : FlushState V) (tuple : IndexTuple V) (size : Nat)
    (offno : OffsetNumber) : Except HnswError (FlushState V) :=
  match st.page.addItem tuple size with
  | none => .error .failedToAddIndexItem
  | some (page, added) =>
    if added = offno then .ok { st with page := page }
    else .error .failedToAddIndexItem

end FlushState

/-- Where `CreateGraphPages` expects an element that starts at `offno`. -/
def predictPosition (blkno : BlockNumber) (offno : OffsetNumber)
    (combinedSize : Nat) : FlushPosition where
  tid := ⟨blkno, offno⟩
  neighbortid :=
    if combinedSize ≤ hnswMaxSize then ⟨blkno, offno + 1⟩
    else ⟨blkno + 1, firstOffsetNumber⟩

def placeElement (valueSize : V → Nat) (m : Nat) (st : FlushState V)
    (element : GraphElement V F) : Except HnswError (FlushState V) :=
  let etupSize := hnswElementTupleSize (valueSize element.value)
  let ntupSize := hnswNeighborTupleSize element.level m
  let combinedSize := etupSize + ntupSize + sizeOfItemIdData
  if hnswTupleAllocSize < etupSize then .error .indexTupleTooLarge
  else do
    -- keep element and neighbors on the same page if possible
    let st := st.ensure
      (decide (st.page.freeSpace < etupSize) ||
        (decide (combinedSize ≤ hnswMaxSize) && decide (st.page.freeSpace < combinedSize)))
    let position := predictPosition st.blkno (st.page.maxOffsetNumber + 1) combinedSize
    let etup := hnswSetElementTuple element.level element.version element.heaptids
      element.value position.neighbortid
    let st ← st.addItem (.element etup) etupSize position.tid.offno
    -- add placeholder for neighbors
    let st ← (st.ensure (decide (st.page.freeSpace < ntupSize))).addItem
      .placeholder ntupSize position.neighbortid.offno
    return { st with positions := st.positions ++ [position] }

def createGraphPages (valueSize : V → Nat) (m : Nat)
    (elements : List (GraphElement V F)) : Except HnswError (FlushState V) :=
  elements.foldlM (placeElement valueSize m) FlushState.start

def FlushPosition.invalid : FlushPosition :=
  ⟨ItemPointer.invalid, ItemPointer.invalid⟩

/-- The positions by pointer: the newest element comes first in the list. -/
def FlushState.position (st : FlushState V) (ptr : Nat) : FlushPosition :=
  (st.positions.reverse[ptr]?).getD .invalid

def GraphElement.layerTids (element : GraphElement V F)
    (position : Nat → FlushPosition) : List (List ItemPointer) :=
  element.layers.map fun a => a.items.map fun hc => (position hc.element).tid

def writeNeighborTuple (m : Nat) (position : Nat → FlushPosition)
    (index : HnswIndex V) (element : GraphElement V F × Nat) :
    Except HnswError (HnswIndex V) :=
  match overwriteNeighborOnPage index (position element.2).neighbortid
      (hnswSetNeighborTuple m element.1.version (element.1.layerTids position))
      (hnswNeighborTupleSize element.1.level m) with
  | none => .error .failedToAddIndexItem
  | some index => .ok index

/-- `CreateMetaPage`, and the entry point and insert page set once the pages exist. -/
def flushedMetaPage (m : Nat) (graph : HnswGraph V F) (st : FlushState V) : HnswMetaPage :=
  hnswUpdateMetaPageInfo
    { magicNumber := hnswMagicNumber, m := m, entryPoint := none, insertPage := none }
    .always
    (graph.entryPoint.bind fun ptr =>
      graph.elements[ptr]?.map fun e => ⟨(st.position ptr).tid, e.level⟩)
    (some st.blkno)

def flushedPages (m : Nat) (graph : HnswGraph V F) (st : FlushState V) :
    HnswIndex V where
  metapage := flushedMetaPage m graph st
  pages := st.full ++ [st.page]

def flushPages (valueSize : V → Nat) (m : Nat) (graph : HnswGraph V F) :
    Except HnswError (HnswIndex V) := do
  let st ← createGraphPages valueSize m graph.elements.reverse
  (graph.elements.zipIdx.reverse).foldlM (writeNeighborTuple m st.position)
    (flushedPages m graph st)

end Flush

end PgVector.Hnsw
