import PgVector.Foundation.Blocks
import PgVector.Hnsw.Page

/-!
# The IVFFlat index on disk

Block 0 is the metapage.  The lists are tuples on a chain of list pages that
starts at `IVFFLAT_HEAD_BLKNO`; every list has a chain of entry pages of its own,
from `startPage` on, which holds the indexed values.  As for HNSW, what the source
does under one buffer lock is one change of the index.
-/

namespace PgVector.Ivfflat

open Foundation
open Hnsw (BlockNumber OffsetNumber ItemPointer Page Item)

structure IvfflatList (V : Type) where
  startPage : Option BlockNumber
  insertPage : Option BlockNumber
  center : V
  deriving DecidableEq, Repr

/-- An index tuple: the heap TID and the indexed value. -/
structure IndexTuple (V : Type) where
  tid : ItemPointer
  value : V
  deriving DecidableEq, Repr

inductive IvfflatPage (V : Type) where
  | lists (page : Page (IvfflatList V))
  | entries (page : Page (IndexTuple V))
  deriving DecidableEq, Repr

def ivfflatMagicNumber : Nat := 0x14FF1A7

structure IvfflatMetaPage where
  magicNumber : Nat
  dimensions : Nat
  lists : Nat
  deriving DecidableEq, Repr

/-- Block 0 is the metapage; block `b + 1` is `pages[b]`. -/
structure IvfflatIndex (V : Type) where
  metapage : IvfflatMetaPage
  pages : List (IvfflatPage V)
  deriving DecidableEq, Repr

def ivfflatHeadBlkno : BlockNumber := 1

structure ListInfo where
  blkno : BlockNumber
  offno : OffsetNumber
  deriving DecidableEq, Repr

namespace IvfflatIndex

variable {V : Type}

def page? (index : IvfflatIndex V) (blkno : BlockNumber) : Option (IvfflatPage V) :=
  block? index.pages blkno

def setPage (index : IvfflatIndex V) (blkno : BlockNumber) (page : IvfflatPage V) :
    IvfflatIndex V :=
  { index with pages := setBlock index.pages blkno page }

def listPage? (index : IvfflatIndex V) (blkno : BlockNumber) : Option (Page (IvfflatList V)) :=
  match index.page? blkno with
  | some (.lists page) => some page
  | _ => none

def entryPage? (index : IvfflatIndex V) (blkno : BlockNumber) : Option (Page (IndexTuple V)) :=
  match index.page? blkno with
  | some (.entries page) => some page
  | _ => none

def list? (index : IvfflatIndex V) (info : ListInfo) : Option (IvfflatList V) :=
  (index.listPage? info.blkno).bind fun page => page.tuple? info.offno

def nextBlock (index : IvfflatIndex V) : BlockNumber := index.pages.length + 1

/-- `IvfflatNewBuffer` and `IvfflatInitPage`, with the block number it is given. -/
def newBuffer (index : IvfflatIndex V) (page : IvfflatPage V) : IvfflatIndex V :=
  { index with pages := index.pages ++ [page] }

end IvfflatIndex

/-! ## Updating a list -/

def IvfflatList.update {V : Type} (list : IvfflatList V)
    (insertPage originalInsertPage startPage : Option BlockNumber) : IvfflatList V :=
  let list :=
    match insertPage with
    | none => list
    | some blkno =>
      -- skip if the insert page is lower than the original insert page
      if list.insertPage ≠ some blkno ∧ originalInsertPage.all (· ≤ blkno) then
        { list with insertPage := some blkno }
      else list
  match startPage with
  | none => list
  | some blkno => { list with startPage := some blkno }

/-- `IvfflatUpdateList`; `none` if there is no such list. -/
def ivfflatUpdateList {V : Type} (index : IvfflatIndex V) (info : ListInfo)
    (insertPage originalInsertPage startPage : Option BlockNumber) :
    Option (IvfflatIndex V) :=
  match index.listPage? info.blkno with
  | none => none
  | some page =>
    match page.tuple? info.offno with
    | none => none
    | some _ =>
      some (index.setPage info.blkno (.lists (page.modify info.offno fun list =>
        list.update insertPage originalInsertPage startPage)))

/-! ## Entry pages -/

inductive PlaceReply where
  | placed (insertPage : BlockNumber)
  | next (insertPage : BlockNumber)
  | failed
  /-- There is no such entry page. -/
  | missing
  deriving DecidableEq, Repr

/-- Put an index tuple on a page: `PageAddItem` at the next offset. -/
def addToPage {V : Type} (index : IvfflatIndex V) (blkno : BlockNumber)
    (page : Page (IndexTuple V)) (itup : IndexTuple V) (itemsz : Nat) :
    PlaceReply × IvfflatIndex V :=
  match page.addItem itup itemsz with
  | none => (.failed, index)
  | some (page', _) => (.placed blkno, index.setPage blkno (.entries page'))

/--
One turn of the loop of `InsertTuple`, with the item added at its end.  The page
that is appended stays locked until the item is on it.
-/
def insertOnPage {V : Type} (index : IvfflatIndex V) (blkno : BlockNumber)
    (itup : IndexTuple V) (itemsz : Nat) : PlaceReply × IvfflatIndex V :=
  match index.entryPage? blkno with
  | none => (.missing, index)
  | some page =>
    if itemsz ≤ page.freeSpace then addToPage index blkno page itup itemsz
    else
      match page.nextblkno with
      | some next => (.next next, index)
      | none =>
        let newblkno := index.nextBlock
        let index := (index.setPage blkno
          (.entries { page with nextblkno := some newblkno })).newBuffer (.entries Page.init)
        addToPage index newblkno Page.init itup itemsz

structure BulkDeleteReply where
  removed : List ItemPointer
  nextblkno : Option BlockNumber
  deriving DecidableEq, Repr

/-- One entry page of `ivfflatbulkdelete`: `PageIndexMultiDelete`. -/
def bulkDeleteOnPage {V : Type} (index : IvfflatIndex V) (blkno : BlockNumber)
    (callback : ItemPointer → Bool) : Option (BulkDeleteReply × IvfflatIndex V) :=
  match index.entryPage? blkno with
  | none => none
  | some page =>
    let deletable := page.items.filter fun item => callback item.tuple.tid
    some
      ({ removed := deletable.map fun item => item.tuple.tid
         nextblkno := page.nextblkno },
        if deletable.isEmpty then index
        else
          index.setPage blkno (.entries
            { page with items := page.items.filter fun item => !callback item.tuple.tid }))

end PgVector.Ivfflat
