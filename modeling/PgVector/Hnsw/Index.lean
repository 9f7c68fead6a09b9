import PgVector.Hnsw.Trace

/-!
# The index on disk

Element tuples and neighbor tuples on a chain of pages, and the metapage.  The
definitions below are the sections of the source that run under one buffer lock
(or under two, taken one inside the other): each is one atomic change of the
index.
-/

namespace PgVector.Hnsw

def hnswHeaptids : Nat := 10

structure HnswElementTuple (V : Type) where
  level : Nat
  deleted : Bool
  version : Nat
  heaptids : List ItemPointer
  heaptids_length : heaptids.length = hnswHeaptids
  neighbortid : ItemPointer
  /-- `none` once `MarkDeleted` has cleared the value. -/
  data : Option V
  data_isSome : deleted = false → data.isSome = true
  deriving DecidableEq

structure HnswNeighborTuple where
  version : Nat
  /-- All `count` slots, the invalid ones included. -/
  indextids : List ItemPointer
  deriving DecidableEq, Repr

def HnswNeighborTuple.count (ntup : HnswNeighborTuple) : Nat :=
  ntup.indextids.length

/-- The `type` byte; `placeholder` is a zeroed tuple written during the flush. -/
inductive IndexTuple (V : Type) where
  | element (etup : HnswElementTuple V)
  | neighbor (ntup : HnswNeighborTuple)
  | placeholder
  deriving DecidableEq

structure EntryPoint where
  tid : ItemPointer
  level : Nat
  deriving DecidableEq, Repr

def hnswMagicNumber : Nat := 0xA953A953

structure HnswMetaPage where
  magicNumber : Nat
  m : Nat
  /-- `none` stands for an invalid `entryBlkno` with `entryLevel = -1`. -/
  entryPoint : Option EntryPoint
  insertPage : Option BlockNumber
  deriving DecidableEq, Repr

/-- Block 0 is the metapage; block `b + 1` is `pages[b]`. -/
structure HnswIndex (V : Type) where
  metapage : HnswMetaPage
  pages : List (Page (IndexTuple V))
  deriving DecidableEq

def hnswHeadBlkno : BlockNumber := 1

namespace HnswElementTuple

variable {V : Type}

/-- The heap TIDs that are read back: loading stops at the first invalid one. -/
def liveTids (etup : HnswElementTuple V) : List ItemPointer :=
  etup.heaptids.takeWhile ItemPointer.isValid

/-- All heap TIDs have been removed: `heaptids[0]` is invalid. -/
def isEmptied (etup : HnswElementTuple V) : Bool := etup.liveTids.isEmpty

end HnswElementTuple

namespace HnswIndex

variable {V : Type} (index : HnswIndex V)

def page? (blkno : BlockNumber) : Option (Page (IndexTuple V)) :=
  if blkno = 0 then none else index.pages[blkno - 1]?

def setPage (blkno : BlockNumber) (page : Page (IndexTuple V)) : HnswIndex V :=
  if blkno = 0 then index
  else { index with pages := index.pages.set (blkno - 1) page }

def tuple? (tid : ItemPointer) : Option (IndexTuple V) :=
  (index.page? tid.blkno).bind fun page => page.tuple? tid.offno

def element? (tid : ItemPointer) : Option (HnswElementTuple V) :=
  match index.tuple? tid with
  | some (.element etup) => some etup
  | _ => none

def neighbor? (tid : ItemPointer) : Option HnswNeighborTuple :=
  match index.tuple? tid with
  | some (.neighbor ntup) => some ntup
  | _ => none

def modifyTuple (tid : ItemPointer) (f : IndexTuple V → IndexTuple V) : HnswIndex V :=
  match index.page? tid.blkno with
  | none => index
  | some page => index.setPage tid.blkno (page.modify tid.offno f)

def nextBlock : BlockNumber := index.pages.length + 1

end HnswIndex

/-! ## The metapage -/

inductive UpdateEntry where
  | no
  | greater
  | always
  deriving DecidableEq, Repr

def hnswUpdateMetaPageInfo (metap : HnswMetaPage) (updateEntry : UpdateEntry)
    (entryPoint : Option EntryPoint) (insertPage : Option BlockNumber) :
    HnswMetaPage :=
  let metap :=
    match updateEntry, entryPoint with
    | .no, _ => metap
    | _, none => { metap with entryPoint := none }
    | .always, some e => { metap with entryPoint := some e }
    | .greater, some e =>
      match metap.entryPoint with
      | none => { metap with entryPoint := some e }
      | some old =>
        if old.level < e.level then { metap with entryPoint := some e }
        else metap
  match insertPage with
  | none => metap
  | some blkno => { metap with insertPage := some blkno }

/-! ## Adding an element -/

inductive HnswError where
  | cannotLoadDeletedElement
  | graphNotRepaired
  | failedToAddIndexItem
  | indexNotValid
  | indexTupleTooLarge
  | cannotScanWithoutOrder
  | nonMVCCSnapshot
  /-- `typeInfo->checkValue` does not accept the value. -/
  | valueNotAccepted
  /-- The code would read a tuple that is not there. -/
  | corrupted
  /-- A loop of the model was cut off; the code has no such limit. -/
  | outOfFuel
  deriving DecidableEq, Repr

structure AddElementRequest (V : Type) where
  etup : HnswElementTuple V
  ntup : HnswNeighborTuple
  etupSize : Nat
  ntupSize : Nat
  minCombinedSize : Nat

def AddElementRequest.combinedSize {V : Type} (r : AddElementRequest V) : Nat :=
  r.etupSize + r.ntupSize + sizeOfItemIdData

inductive AddElementReply where
  | next (blkno : BlockNumber) (newInsertPage : Option BlockNumber)
  | placed (tid neighbortid : ItemPointer) (newInsertPage : BlockNumber)
  | failed (error : HnswError)
  deriving DecidableEq, Repr

structure FreeOffset where
  freeOffno : OffsetNumber
  neighbortid : ItemPointer
  tupleVersion : Nat
  deriving DecidableEq, Repr

section AddElement

variable {V : Type} (index : HnswIndex V)

def hnswFreeSpaceCheck (blkno : BlockNumber)
    (page : Page (IndexTuple V)) (eitem : Item (IndexTuple V))
    (neighbortid : ItemPointer) (etupSize ntupSize : Nat) : Bool :=
  let pageFree := eitem.size + page.exactFreeSpace
  match index.page? neighbortid.blkno with
  | none => false
  | some npage =>
    match npage.item? neighbortid.offno with
    | none => false
    | some nitem =>
      let npageFree :=
        if neighbortid.blkno ≠ blkno then nitem.size + npage.exactFreeSpace
        else if etupSize ≤ pageFree then nitem.size + (pageFree - etupSize)
        else nitem.size
      decide (etupSize ≤ pageFree) && decide (ntupSize ≤ npageFree)

/--
`HnswFreeOffset`.  The search ends at a deleted element without neighbors, which the
space check cannot read.
-/
def hnswFreeOffset (blkno : BlockNumber) (page : Page (IndexTuple V)) (etupSize ntupSize : Nat) :
    List OffsetNumber → Option BlockNumber → Option FreeOffset × Option BlockNumber
  | [], newInsertPage => (none, newInsertPage)
  | offno :: rest, newInsertPage =>
    match page.item? offno with
    | some ⟨size, .element etup⟩ =>
      if etup.deleted then
        let newInsertPage := newInsertPage.getD blkno
        if (index.neighbor? etup.neighbortid).isNone ||
            hnswFreeSpaceCheck index blkno page ⟨size, .element etup⟩
              etup.neighbortid etupSize ntupSize then
          (some ⟨offno, etup.neighbortid, etup.version⟩, some newInsertPage)
        else
          hnswFreeOffset blkno page etupSize ntupSize rest (some newInsertPage)
      else
        hnswFreeOffset blkno page etupSize ntupSize rest newInsertPage
    | _ => hnswFreeOffset blkno page etupSize ntupSize rest newInsertPage

/-- `HnswInsertAppendPage`: extend the relation and link the new page. -/
def hnswInsertAppendPage (blkno : BlockNumber)
    (page : Page (IndexTuple V)) : HnswIndex V × BlockNumber :=
  let nblkno := index.nextBlock
  let index := index.setPage blkno { page with nextblkno := some nblkno }
  ({ index with pages := index.pages ++ [Page.init] }, nblkno)

def addNewElement (r : AddElementRequest V)
    (blkno nblkno : BlockNumber) (newInsertPage : Option BlockNumber) :
    AddElementReply × HnswIndex V :=
  match index.page? blkno with
  | none => (.failed .failedToAddIndexItem, index)
  | some page =>
    let offno := page.maxOffsetNumber + 1
    let noffno := if nblkno = blkno then offno + 1 else firstOffsetNumber
    let etup := { r.etup with neighbortid := ⟨nblkno, noffno⟩ }
    match page.addItem (.element etup) r.etupSize with
    | none => (.failed .failedToAddIndexItem, index)
    | some (page', offno') =>
      if offno' ≠ offno then (.failed .failedToAddIndexItem, index)
      else
        let index' := index.setPage blkno page'
        match index'.page? nblkno with
        | none => (.failed .failedToAddIndexItem, index)
        | some npage =>
          match npage.addItem (.neighbor r.ntup) r.ntupSize with
          | none => (.failed .failedToAddIndexItem, index)
          | some (npage', noffno') =>
            if noffno' ≠ noffno then (.failed .failedToAddIndexItem, index)
            else
              (.placed ⟨blkno, offno⟩ ⟨nblkno, noffno⟩
                (newInsertPage.getD nblkno),
                index'.setPage nblkno npage')

/-- Overwrite a deleted element and its neighbors; both keep the slot's version. -/
def reuseElement (r : AddElementRequest V) (blkno : BlockNumber) (free : FreeOffset)
    (newInsertPage : Option BlockNumber) : AddElementReply × HnswIndex V :=
  if (index.neighbor? free.neighbortid).isNone then (.failed .corrupted, index)
  else match index.page? blkno with
  | none => (.failed .failedToAddIndexItem, index)
  | some page =>
    let etup :=
      { r.etup with
        version := free.tupleVersion
        neighbortid := free.neighbortid }
    let ntup := { r.ntup with version := free.tupleVersion }
    match page.overwrite free.freeOffno (.element etup) r.etupSize with
    | none => (.failed .failedToAddIndexItem, index)
    | some page' =>
      let index' := index.setPage blkno page'
      match index'.page? free.neighbortid.blkno with
      | none => (.failed .failedToAddIndexItem, index)
      | some npage =>
        match npage.overwrite free.neighbortid.offno (.neighbor ntup)
            r.ntupSize with
        | none => (.failed .failedToAddIndexItem, index)
        | some npage' =>
          (.placed ⟨blkno, free.freeOffno⟩ free.neighbortid
            (newInsertPage.getD free.neighbortid.blkno),
            index'.setPage free.neighbortid.blkno npage')

/--
One turn of the loop of `AddElementOnDisk`, on page `blkno`.  A page that is
appended stays locked until the tuples are on it, so appending it and filling it
is one change.
-/
def addElementOnPage (r : AddElementRequest V)
    (blkno : BlockNumber) (newInsertPage : Option BlockNumber) :
    AddElementReply × HnswIndex V :=
  match index.page? blkno with
  | none => (.failed .failedToAddIndexItem, index)
  | some page =>
    let newInsertPage :=
      if newInsertPage.isNone && decide (r.minCombinedSize ≤ page.freeSpace) then
        some blkno
      else newInsertPage
    -- first, space for both tuples on the current page
    if r.combinedSize ≤ page.freeSpace then
      addNewElement index r blkno blkno newInsertPage
    else
      -- next, space from a deleted element
      match hnswFreeOffset index blkno page r.etupSize r.ntupSize
          (List.range' 1 page.maxOffsetNumber) newInsertPage with
      | (some free, newInsertPage) =>
        reuseElement index r blkno free newInsertPage
      | (none, newInsertPage) =>
        -- finally, space for the element only if this is the last page
        if hnswMaxSize < r.combinedSize ∧ r.etupSize ≤ page.freeSpace ∧
            page.nextblkno = none then
          let (index, nblkno) := hnswInsertAppendPage index blkno page
          addNewElement index r blkno nblkno newInsertPage
        else
          match page.nextblkno with
          | some next => (.next next newInsertPage, index)
          | none =>
            let (index, newblkno) := hnswInsertAppendPage index blkno page
            if (Page.init : Page (IndexTuple V)).freeSpace <
                r.combinedSize then
              let (index, nblkno) :=
                hnswInsertAppendPage index newblkno Page.init
              addNewElement index r newblkno nblkno newInsertPage
            else addNewElement index r newblkno newblkno newInsertPage

end AddElement

/-! ## Updating a neighbor tuple -/

/-- The `idx` of `GetUpdateIndex`: -1, -2, or a position in the layer. -/
inductive UpdateIdx where
  | unchanged
  | free
  | slot (i : Nat)
  deriving DecidableEq, Repr

namespace HnswNeighborTuple

def layer (ntup : HnswNeighborTuple) (startIdx lm : Nat) : List ItemPointer :=
  (ntup.indextids.drop startIdx).take lm

/-- `ConnectionExists`: the search stops at the first invalid slot. -/
def connectionExists (ntup : HnswNeighborTuple) (tid : ItemPointer) (startIdx lm : Nat) : Bool :=
  ((ntup.layer startIdx lm).takeWhile ItemPointer.isValid).contains tid

/-- The slot that `UpdateNeighborOnDisk` writes to, if it writes. -/
def updateSlot (ntup : HnswNeighborTuple) (tid : ItemPointer) (idx : UpdateIdx)
    (startIdx lm : Nat) (checkExisting : Bool) : Option Nat :=
  if checkExisting && ntup.connectionExists tid startIdx lm then none
  else
    match idx with
    | .unchanged => none
    | .free =>
      ((ntup.layer startIdx lm).findIdx? fun t => !t.isValid).map (startIdx + ·)
    | .slot i => some (startIdx + i)

/-- The change `UpdateNeighborOnDisk` makes; a slot past the end is ignored. -/
def update (ntup : HnswNeighborTuple) (tid : ItemPointer) (idx : UpdateIdx)
    (startIdx lm : Nat) (checkExisting : Bool) : HnswNeighborTuple :=
  match ntup.updateSlot tid idx startIdx lm checkExisting with
  | none => ntup
  | some i => { ntup with indextids := ntup.indextids.set i tid }

end HnswNeighborTuple

/-! ## Heap TIDs -/

namespace HnswElementTuple

variable {V : Type}

/-- `AddDuplicateOnDisk`: an emptied or a full element takes no heap TID. -/
def addDuplicate? (etup : HnswElementTuple V) (heaptid : ItemPointer) :
    Option (HnswElementTuple V) :=
  let i := etup.liveTids.length
  if i = 0 ∨ i = hnswHeaptids then none
  else
    some
      { etup with
        heaptids := etup.heaptids.set i heaptid
        heaptids_length := by simpa using etup.heaptids_length }

def removedTids (etup : HnswElementTuple V) (callback : ItemPointer → Bool) : List ItemPointer :=
  etup.liveTids.filter callback

/-- `RemoveHeapTids` on one element tuple: the TIDs kept move to the front. -/
def removeHeapTids (etup : HnswElementTuple V) (callback : ItemPointer → Bool) :
    HnswElementTuple V :=
  if (etup.removedTids callback).isEmpty then etup
  else
    let kept := etup.liveTids.filter fun tid => !callback tid
    { etup with
      heaptids :=
        kept ++ List.replicate (hnswHeaptids - kept.length) ItemPointer.invalid
      heaptids_length := by
        have hlive : etup.liveTids.length ≤ etup.heaptids.length :=
          (List.takeWhile_sublist _).length_le
        have hkept : kept.length ≤ etup.liveTids.length :=
          List.length_filter_le _ _
        rw [etup.heaptids_length] at hlive
        rw [List.length_append, List.length_replicate]
        omega }

def markDeleted (etup : HnswElementTuple V) : HnswElementTuple V :=
  { etup with
    deleted := true
    data := none
    data_isSome := by simp
    version := if etup.version + 1 > 15 then 1 else etup.version + 1 }

end HnswElementTuple

/-- `MarkDeleted` on the neighbors of an element whose new version is `version`. -/
def HnswNeighborTuple.markDeleted (ntup : HnswNeighborTuple) (version : Nat) :
    HnswNeighborTuple where
  version := version
  indextids := ntup.indextids.map fun _ => ItemPointer.invalid

structure VisitedElement where
  offno : OffsetNumber
  level : Nat
  emptied : Bool
  deriving DecidableEq, Repr

structure RemoveHeapTidsReply where
  visited : List VisitedElement
  removed : List ItemPointer
  nextblkno : Option BlockNumber
  deriving DecidableEq, Repr

inductive MarkReply where
  | skipped
  | alreadyDeleted
  | marked
  /-- The neighbor tuple is not there. -/
  | missing
  deriving DecidableEq, Repr

section Vacuum

variable {V : Type}

def IndexTuple.removeHeapTids (callback : ItemPointer → Bool) :
    IndexTuple V → IndexTuple V
  | .element etup => .element (etup.removeHeapTids callback)
  | tuple => tuple

def removeHeapTidsItem (callback : ItemPointer → Bool)
    (item : Item (IndexTuple V)) : Item (IndexTuple V) :=
  { item with tuple := item.tuple.removeHeapTids callback }

def Page.elements (page : Page (IndexTuple V)) : List (OffsetNumber × HnswElementTuple V) :=
  (page.items.zipIdx 1).filterMap fun (item, offno) =>
    match item.tuple with
    | .element etup => some (offno, etup)
    | _ => none

def removeHeapTidsOnPage (index : HnswIndex V) (blkno : BlockNumber)
    (callback : ItemPointer → Bool) :
    Option (RemoveHeapTidsReply × HnswIndex V) :=
  match index.page? blkno with
  | none => none
  | some page =>
    let page' :=
      { page with items := page.items.map (removeHeapTidsItem callback) }
    some
      ({ visited := page'.elements.map fun (offno, etup) =>
            ⟨offno, etup.level, etup.isEmptied⟩
         removed := page.elements.flatMap fun (_, etup) =>
            etup.removedTids callback
         nextblkno := page.nextblkno },
        index.setPage blkno page')

def markDeletedAt (index : HnswIndex V) (tid : ItemPointer) : MarkReply × HnswIndex V :=
  match index.element? tid with
  | none => (.skipped, index)
  | some etup =>
    if etup.deleted then (.alreadyDeleted, index)
    else if !etup.isEmptied then (.skipped, index)
    else if (index.neighbor? etup.neighbortid).isNone then (.missing, index)
    else
      let etup' := etup.markDeleted
      let index := index.modifyTuple tid fun _ => .element etup'
      (.marked,
        index.modifyTuple etup.neighbortid fun
          | .neighbor ntup => .neighbor (ntup.markDeleted etup'.version)
          | tuple => tuple)

end Vacuum

end PgVector.Hnsw
