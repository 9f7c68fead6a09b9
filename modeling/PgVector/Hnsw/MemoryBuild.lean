import Mathlib.Data.Nat.Dist
import PgVector.Foundation.Embedding
import PgVector.Foundation.Interleaving
import PgVector.Foundation.Locks
import PgVector.Hnsw.Build

/-!
# Participants that build in memory

The participants of a build insert into one graph.  The entry point is guarded by
a pair of locks: an insert that is likely to replace it keeps the others out, and
lets those that come later wait until it has the lock.
-/

namespace PgVector.Hnsw

open Foundation

inductive EntryLock where
  | entryLock
  | entryWaitLock
  deriving DecidableEq, Repr

inductive MemoryOp (V F : Type) where
  | acquire (lock : EntryLock) (mode : AccessMode)
  | release (lock : EntryLock) (mode : AccessMode)
  | graph (o : GraphOp V F)

@[reducible] def MemoryOp.Res {V F : Type} : MemoryOp V F → Type
  | .acquire _ _ => Unit
  | .release _ _ => Unit
  | .graph o => o.Res

abbrev memorySignature (V F : Type) : Signature where
  Op := MemoryOp V F
  Res := MemoryOp.Res
  Err := HnswError

abbrev MemoryProgram (V F α : Type) := Program (memorySignature V F) α

abbrev MemoryOp.exec {V F : Type} (o : MemoryOp V F) : MemoryProgram V F o.Res :=
  Program.exec (L := memorySignature V F) o

structure MemoryState (V F : Type) where
  graph : HnswGraph V F
  locks : LockTable EntryLock
  /-- The heap TIDs of the inserts that are done; no instruction reads them. -/
  inserted : List ItemPointer

def MemoryState.init {V F : Type} : MemoryState V F := ⟨.init, [], []⟩

section Memory

variable {V D F : Type} [LinearOrder F]

def memoryHandler (ctx : InsertContext V D F) (self : ThreadId) :
    Handler (memorySignature V F) (MemoryState V F)
  | .acquire lock mode, s =>
    (s.locks.acquire self lock mode).map fun locks => ((), { s with locks := locks })
  | .release lock mode, s =>
    some ((), { s with locks := s.locks.release self lock mode })
  | .graph o, s =>
    (graphHandler ctx o s.graph).map fun reply =>
      (reply.1, { s with graph := reply.2 })

def graphEmbedding : Embedding (graphSignature V F) (memorySignature V F) where
  op := .graph
  reply _ r := r
  err := id

variable [LinearOrder D] [DecidableEq V]

def insertLockedInMemory (ctx : InsertContext V D F) (m : Nat) (value : V)
    (heaptid : ItemPointer) (level : Nat) (entryPoint : Option (GraphPointer V))
    (mode : AccessMode) : MemoryProgram V F Unit := do
  (insertFromEntry ctx m value heaptid level entryPoint).embed graphEmbedding
  MemoryOp.exec (.release .entryLock mode)

/-- `InsertTupleInMemory` with its locks, for an element that has been allocated. -/
def insertTupleInMemoryAmong (ctx : InsertContext V D F) (m : Nat) (value : V)
    (heaptid : ItemPointer) (level : Nat) : MemoryProgram V F Unit := do
  -- wait if another participant needs the entry lock exclusively
  MemoryOp.exec (.acquire .entryWaitLock .exclusive)
  MemoryOp.exec (.release .entryWaitLock .exclusive)
  MemoryOp.exec (.acquire .entryLock .shared)
  let entryPoint ← MemoryOp.exec (.graph .getEntryPoint)
  if replacesEntry level (entryPoint.map GraphPointer.level) then
    MemoryOp.exec (.release .entryLock .shared)
    -- tell the others to wait
    MemoryOp.exec (.acquire .entryWaitLock .exclusive)
    MemoryOp.exec (.acquire .entryLock .exclusive)
    MemoryOp.exec (.release .entryWaitLock .exclusive)
    let entryPoint ← MemoryOp.exec (.graph .getEntryPoint)
    insertLockedInMemory ctx m value heaptid level entryPoint .exclusive
  else insertLockedInMemory ctx m value heaptid level entryPoint .shared

structure MemoryInsert (V : Type) where
  value : V
  heaptid : ItemPointer
  drawnLevel : Nat
  deriving DecidableEq, Repr

def MemoryInsert.level {V : Type} (t : MemoryInsert V) (m : Nat) : Nat :=
  min t.drawnLevel (hnswGetMaxLevel m)

/-- Inserts into the graph, which overlap if `overlap` holds. -/
def memorySystem (ctx : InsertContext V D F) (m : Nat) (overlap : Prop) :
    System (memorySignature V F) (MemoryState V F) (MemoryInsert V) where
  handler := memoryHandler ctx
  program t := insertTupleInMemoryAmong ctx m t.value t.heaptid (t.level m)
  starts t := t.heaptid.isValid = true
  beside _ _ := overlap
  beside_symm := id
  may _ _ _ := True
  aborts _ := False
  finish _ t s := { s with inserted := s.inserted ++ [t.heaptid] }
  abort _ _ s := s

instance (ctx : InsertContext V D F) (m : Nat) (overlap : Prop) (s : MemoryState V F)
    (t : MemoryInsert V) (o : MemoryOp V F) : Decidable ((memorySystem ctx m overlap).may s t o) :=
  inferInstanceAs (Decidable True)

end Memory

/-- Numbers of eight bytes; every loop may take `fuel` turns. -/
def numberInserts (fuel : Nat) : InsertContext Nat Nat Nat where
  support := ⟨Nat.dist, 0, none⟩
  toFloat := id
  sizes := default
  address := id
  address_injective := Function.injective_id
  efConstruction := 4
  valueSize := fun _ => 8
  checkValue := fun _ => true
  checkNorm := fun _ => true
  fuel := fuel

end PgVector.Hnsw
