import Mathlib.Order.Lattice
import PgVector.Foundation.Program
import PgVector.Ivfflat.Index

/-!
# Inserts and vacuums of an IVFFlat index

The functions of the access method that change an index, as programs over the
sections of the source that run under one buffer lock.  Distances are `double`s of
a type `D`.
-/

namespace PgVector.Ivfflat

open Foundation
open Hnsw (BlockNumber OffsetNumber ItemPointer Page Item firstOffsetNumber)

inductive IvfflatError where
  | indexNotValid
  | failedToAddIndexItem
  | cannotScanWithoutOrder
  | nonMVCCSnapshot
  /-- The code would read a tuple that is not there. -/
  | corrupted
  /-- A loop of the model was cut off; the code has no such limit. -/
  | outOfFuel
  deriving DecidableEq, Repr

inductive IvfflatOp (V : Type) where
  | getMetaPage
  | readListPage (blkno : BlockNumber)
  | readEntryPage (blkno : BlockNumber)
  | insertOnPage (blkno : BlockNumber) (itup : IndexTuple V) (itemsz : Nat)
  | updateList (info : ListInfo)
      (insertPage originalInsertPage startPage : Option BlockNumber)
  | bulkDelete (blkno : BlockNumber) (callback : ItemPointer → Bool)

@[reducible] def IvfflatOp.Res {V : Type} : IvfflatOp V → Type
  | .getMetaPage => IvfflatMetaPage
  | .readListPage _ => Option (Page (IvfflatList V))
  | .readEntryPage _ => Option (Page (IndexTuple V))
  | .insertOnPage _ _ _ => PlaceReply
  | .updateList _ _ _ _ => Bool
  | .bulkDelete _ _ => Option BulkDeleteReply

abbrev ivfflatSignature (V : Type) : Signature where
  Op := IvfflatOp V
  Res := IvfflatOp.Res
  Err := IvfflatError

abbrev IvfflatProgram (V α : Type) := Program (ivfflatSignature V) α

abbrev IvfflatOp.exec {V : Type} (o : IvfflatOp V) : IvfflatProgram V o.Res :=
  Program.exec (L := ivfflatSignature V) o

def ivfflatHandler {V : Type} : Handler (ivfflatSignature V) (IvfflatIndex V)
  | .getMetaPage, index => some (index.metapage, index)
  | .readListPage blkno, index => some (index.listPage? blkno, index)
  | .readEntryPage blkno, index => some (index.entryPage? blkno, index)
  | .insertOnPage blkno itup itemsz, index => some (insertOnPage index blkno itup itemsz)
  | .updateList info insertPage originalInsertPage startPage, index =>
    match ivfflatUpdateList index info insertPage originalInsertPage startPage with
    | none => some (false, index)
    | some index => some (true, index)
  | .bulkDelete blkno callback, index =>
    match bulkDeleteOnPage index blkno callback with
    | none => some (none, index)
    | some (reply, index) => some (some reply, index)

structure IvfflatContext (V D : Type) where
  distance : V → V → D
  /-- `DBL_MAX`. -/
  dblMax : D
  /-- `Float8GetDatum(0.0)`. -/
  zeroDistance : D
  /-- `IvfflatCheckNorm`; always true without a function for the norm. -/
  checkNorm : V → Bool
  /-- `IvfflatNormValue`; the identity without a function for the norm. -/
  normValue : V → V
  /-- `MAXALIGN(IndexTupleSize(itup))`. -/
  itemSize : V → Nat
  fuel : Nat

def ivfflatGetMetaPageInfo {V : Type} : IvfflatProgram V IvfflatMetaPage := do
  let metap ← IvfflatOp.exec .getMetaPage
  if metap.magicNumber ≠ ivfflatMagicNumber then .fail .indexNotValid else return metap

/-! ## Inserts -/

structure InsertChoice (D : Type) where
  minDistance : D
  insertPage : Option BlockNumber
  listInfo : ListInfo
  deriving DecidableEq, Repr

section Insert

variable {V D : Type} [LinearOrder D] (ctx : IvfflatContext V D)

def InsertChoice.start : InsertChoice D :=
  ⟨ctx.dblMax, none, ⟨ivfflatHeadBlkno, firstOffsetNumber⟩⟩

def InsertChoice.consider (value : V) (blkno : BlockNumber)
    (choice : InsertChoice D) (list : IvfflatList V) (offno : OffsetNumber) :
    InsertChoice D :=
  let distance := ctx.distance value list.center
  if distance < choice.minDistance ∨ choice.insertPage = none then
    ⟨distance, list.insertPage, ⟨blkno, offno⟩⟩
  else choice

def InsertChoice.considerPage (value : V)
    (blkno : BlockNumber) (page : Page (IvfflatList V)) (choice : InsertChoice D) :
    InsertChoice D :=
  (page.items.zipIdx firstOffsetNumber).foldl
    (fun choice (item, offno) => choice.consider ctx value blkno item.tuple offno) choice

def findInsertPage (value : V) :
    Nat → Option BlockNumber → InsertChoice D → IvfflatProgram V (InsertChoice D)
  | _, none, choice => .ret choice
  | 0, some _, _ => .fail .outOfFuel
  | fuel + 1, some blkno, choice => do
    match ← IvfflatOp.exec (.readListPage blkno) with
    | none => .fail .corrupted
    | some page =>
      findInsertPage value fuel page.nextblkno (choice.considerPage ctx value blkno page)

/-- The loop of `InsertTuple`; the result is the page the item went to. -/
def insertLoop (itup : IndexTuple V) (itemsz : Nat) :
    Nat → BlockNumber → IvfflatProgram V BlockNumber
  | 0, _ => .fail .outOfFuel
  | fuel + 1, insertPage => do
    match ← IvfflatOp.exec
        (.insertOnPage insertPage itup itemsz) with
    | .placed insertPage => return insertPage
    | .next insertPage => insertLoop itup itemsz fuel insertPage
    | .failed => .fail .failedToAddIndexItem
    | .missing => .fail .corrupted

def updateList (info : ListInfo) (insertPage originalInsertPage startPage : Option BlockNumber) :
    IvfflatProgram V Unit := do
  let found ← IvfflatOp.exec
    (.updateList info insertPage originalInsertPage startPage)
  if found then return () else .fail .corrupted

def insertFrom (itup : IndexTuple V) (listInfo : ListInfo)
    (originalInsertPage : BlockNumber) : IvfflatProgram V Unit := do
  let insertPage ← insertLoop itup (ctx.itemSize itup.value) ctx.fuel originalInsertPage
  if insertPage ≠ originalInsertPage then
    updateList listInfo (some insertPage) (some originalInsertPage) none
  else return ()

def insertTuple (value : V) (heaptid : ItemPointer) : IvfflatProgram V Unit := do
  let _ ← ivfflatGetMetaPageInfo
  let choice ← findInsertPage ctx value ctx.fuel (some ivfflatHeadBlkno)
    (InsertChoice.start ctx)
  match choice.insertPage with
  | none => .fail .corrupted
  | some insertPage => insertFrom ctx ⟨heaptid, value⟩ choice.listInfo insertPage

def formIndexValue (value : Option V) : Option V :=
  value.bind fun v => if ctx.checkNorm v then some (ctx.normValue v) else none

def ivfflatinsert (value : Option V) (heaptid : ItemPointer) :
    IvfflatProgram V Unit :=
  match formIndexValue ctx value with
  | none => .ret ()
  | some value => insertTuple ctx value heaptid

end Insert

/-! ## Vacuum -/

section Vacuum

variable {V : Type}

/-- The entry pages of one list; the result is the first page with freed space. -/
def vacuumEntries (callback : ItemPointer → Bool) :
    Nat → Option BlockNumber → Option BlockNumber → IvfflatProgram V (Option BlockNumber)
  | _, none, insertPage => .ret insertPage
  | 0, some _, _ => .fail .outOfFuel
  | fuel + 1, some searchPage, insertPage => do
    match ← IvfflatOp.exec (.bulkDelete searchPage callback) with
    | none => .fail .corrupted
    | some reply =>
      -- must be set before the search page is updated
      let insertPage :=
        if insertPage.isNone && !reply.removed.isEmpty then some searchPage
        else insertPage
      vacuumEntries callback fuel reply.nextblkno insertPage

/-- The lists of one list page, with the start pages that were read from it. -/
def vacuumLists (callback : ItemPointer → Bool) (fuel : Nat) (blkno : BlockNumber) :
    List (Option BlockNumber × OffsetNumber) → IvfflatProgram V Unit
  | [] => .ret ()
  | (startPage, coffno) :: rest => do
    let insertPage ← vacuumEntries callback fuel startPage none
    -- update after all tuples are deleted
    if insertPage.isSome then updateList ⟨blkno, coffno⟩ insertPage none none
    vacuumLists callback fuel blkno rest

def startPages (page : Page (IvfflatList V)) : List (Option BlockNumber × OffsetNumber) :=
  (page.items.zipIdx firstOffsetNumber).map fun (item, offno) =>
    (item.tuple.startPage, offno)

def vacuumListPages (callback : ItemPointer → Bool) (entryFuel : Nat) :
    Nat → Option BlockNumber → IvfflatProgram V Unit
  | _, none => .ret ()
  | 0, some _ => .fail .outOfFuel
  | fuel + 1, some blkno => do
    match ← IvfflatOp.exec (.readListPage blkno) with
    | none => .fail .corrupted
    | some page =>
      vacuumLists callback entryFuel blkno (startPages page)
      vacuumListPages callback entryFuel fuel page.nextblkno

def ivfflatbulkdelete {D : Type} (ctx : IvfflatContext V D)
    (callback : ItemPointer → Bool) : IvfflatProgram V Unit :=
  vacuumListPages callback ctx.fuel ctx.fuel (some ivfflatHeadBlkno)

end Vacuum

end PgVector.Ivfflat
