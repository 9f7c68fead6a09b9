import PgVector.Foundation.Interleaving
import PgVector.Hnsw.Graph
import PgVector.Hnsw.Links
import PgVector.Hnsw.Vacuum

/-!
# Backends at work

Any number of inserts and scans, and one vacuum at a time, take turns on an
index.  Beside the shared state a history is kept, which no instruction reads: it
serves to say under which circumstances something can or cannot happen.
-/

namespace PgVector.Hnsw

open Foundation

structure History where
  /-- Elements that the vacuum is marking: emptied when it last waited for scans. -/
  condemned : List ItemPointer
  /-- The table of deleted elements of the vacuum at work, until the repair is confirmed. -/
  recorded : List ItemPointer
  inserted : List ItemPointer
  abandoned : List ItemPointer
  removed : List ItemPointer
  deriving DecidableEq, Repr

def History.start : History := ⟨[], [], [], [], []⟩

structure Monitored (V : Type) where
  shared : Shared V
  history : History

section System

variable {V D F : Type}

def HnswIndex.emptiedTids (index : HnswIndex V) : List ItemPointer :=
  (index.elements.filter fun e => e.2.isEmptied).map Prod.fst

def History.note (h : History) (before : Shared V) : (o : HnswOp V) → o.Res → History
  | .lockPage .scan .exclusive, _ => { h with condemned := before.index.emptiedTids }
  | .addElement _ _ _, .placed tid _ _ =>
    { h with condemned := h.condemned.filter fun t => decide (t ≠ tid) }
  | .removeHeapTids blkno _, some reply =>
    { h with
      recorded := h.recorded ++
        (reply.visited.filter VisitedElement.emptied).map fun e => ⟨blkno, e.offno⟩
      removed := h.removed ++ reply.removed }
  | .emit .repairConfirmed, _ => { h with recorded := [] }
  | _, _ => h

def monitoredHandler (self : ThreadId) : Handler (hnswSignature V) (Monitored V) :=
  fun o s => (hnswHandler self o s.shared).map fun reply =>
    (reply.1, ⟨reply.2, s.history.note s.shared o reply.1⟩)

inductive Task (V D F : Type) where
  | insert (ctx : InsertContext V D F) (value : Option V) (heaptid : ItemPointer)
      (drawnLevel : Nat)
  | vacuum (ctx : InsertContext V D F) (callback : ItemPointer → Bool)
  | scan (ctx : ScanContext V D) (last : ScanSettings)
      (calls : List (ScanSettings × ScanCall V)) (so : HnswScanOpaque V D)

def Task.isVacuum : Task V D F → Bool
  | .vacuum _ _ => true
  | _ => false

def Task.program [LinearOrder D] [LinearOrder F] [DecidableEq V] :
    Task V D F → HnswProgram V Unit
  | .insert ctx value heaptid drawnLevel => hnswinsert ctx value heaptid drawnLevel
  | .vacuum ctx callback => hnswbulkdelete ctx callback
  | .scan ctx last calls so => do
    let _ ← scanRun ctx last calls so
    return ()

def indexes (ctx : InsertContext V D F) (value : Option V) : Bool :=
  value.any fun v => ctx.checkValue v && (hnswFormIndexValue ctx v).isSome

def Task.finish : Task V D F → History → History
  | .insert ctx value heaptid _, h =>
    if indexes ctx value then { h with inserted := h.inserted ++ [heaptid] } else h
  | .vacuum _ _, h => { h with recorded := [] }
  | .scan _ _ _ _, h => h

def Task.abort : Task V D F → History → History
  | .insert _ _ heaptid _, h => { h with abandoned := h.abandoned ++ [heaptid] }
  | .vacuum _ _, h => { h with recorded := [] }
  | .scan _ _ _ _, h => h

def Shared.releaseLocks (s : Shared V) (self : ThreadId) : Shared V :=
  { s with locks := s.locks.filter fun held => held.thread != self }

/--
Inserts, vacuums and scans, the latter with settings in `scans`.  The executor
restarts a scan before it fetches from it.
-/
def hnswSystem [LinearOrder D] [LinearOrder F] [DecidableEq V] (scans : ScanSettings → Prop)
    (may : Monitored V → Task V D F → HnswOp V → Prop) :
    System (hnswSignature V) (Monitored V) (Task V D F) where
  handler := monitoredHandler
  program := Task.program
  starts
    | .insert _ _ heaptid _ => heaptid.isValid = true
    | .vacuum _ _ => True
    | .scan _ _ calls _ => (∃ settings orderbys rest,
        calls = (settings, .rescan orderbys) :: rest) ∧ ∀ call ∈ calls, scans call.1
  beside t t' := ¬(t.isVacuum = true ∧ t'.isVacuum = true)
  beside_symm := fun h h' => h ⟨h'.2, h'.1⟩
  may := may
  aborts _ := True
  finish _ t s := ⟨s.shared, t.finish s.history⟩
  abort i t s := ⟨s.shared.releaseLocks i, t.abort s.history⟩

instance [LinearOrder D] [LinearOrder F] [DecidableEq V] (scans : ScanSettings → Prop)
    (may : Monitored V → Task V D F → HnswOp V → Prop) [hmay : ∀ s t o, Decidable (may s t o)]
    (s : Monitored V) (t : Task V D F) (o : HnswOp V) :
    Decidable ((hnswSystem scans may).may s t o) := hmay s t o

/-- A scan reads the neighbors of no element that the vacuum is about to mark. -/
def ExpandsIntact (s : Monitored V) : Task V D F → HnswOp V → Prop
  | .scan _ _ _ _, .readTuple ntid =>
    ∀ tid ∈ s.history.condemned, ∀ etup, s.shared.index.element? tid = some etup →
      etup.neighbortid = ntid → etup.deleted = true
  | _, _ => True

/--
An insert does not reuse an element that the vacuum at work has recorded, as long as the
vacuum has not confirmed the repair.
-/
def ReusesUnrecorded (s : Monitored V) : Task V D F → HnswOp V → Prop
  | _, .addElement request blkno newInsertPage =>
    ∀ tid neighbortid insertPage,
      (addElementOnPage s.shared.index request blkno newInsertPage).1 =
        .placed tid neighbortid insertPage → tid ∉ s.history.recorded
  | _, _ => True

instance (s : Monitored V) (t : Task V D F) (o : HnswOp V) : Decidable (ExpandsIntact s t o) :=
  decidable_of_iff
    ((match t, o with
      | .scan _ _ _ _, .readTuple ntid =>
        decide (∀ tid ∈ s.history.condemned, ∀ etup ∈ s.shared.index.element? tid,
          etup.neighbortid = ntid → etup.deleted = true)
      | _, _ => true) = true)
    (by unfold ExpandsIntact; split <;> simp)

instance (s : Monitored V) (t : Task V D F) (o : HnswOp V) : Decidable (ReusesUnrecorded s t o) :=
  decidable_of_iff
    ((match o with
      | .addElement request blkno newInsertPage =>
        match (addElementOnPage s.shared.index request blkno newInsertPage).1 with
        | .placed tid _ _ => decide (tid ∉ s.history.recorded)
        | _ => true
      | _ => true) = true)
    (by
      unfold ReusesUnrecorded
      split
      · next request blkno newInsertPage =>
        cases hreply : (addElementOnPage s.shared.index request blkno newInsertPage).1 <;>
          simp [hreply]
      · simp)

end System

/-! ## Locks -/

section Locks

variable {V : Type} {self other : ThreadId} {s : Shared V}

def Shared.locksOf (s : Shared V) (self : ThreadId) : List HeldLock :=
  s.locks.filter fun held => held.thread == self

theorem locksOf_withLock (held : HeldLock) :
    (s.withLock held).locksOf self =
      if held.thread = self then held :: s.locksOf self else s.locksOf self := by
  by_cases h : held.thread = self <;> simp [Shared.locksOf, Shared.withLock, h]

theorem locksOf_erase (held : HeldLock) :
    ({ s with locks := s.locks.erase held } : Shared V).locksOf self =
      (s.locksOf self).erase held := by
  simp only [Shared.locksOf]
  exact List.erase_filter.symm

theorem locksOf_releaseLocks :
    (s.releaseLocks self).locksOf other = if other = self then [] else s.locksOf other := by
  unfold Shared.locksOf Shared.releaseLocks
  split
  · next h =>
    subst h
    simp [List.filter_filter]
  · next h =>
    simp only [List.filter_filter]
    apply List.filter_congr
    intro held _
    by_cases hh : held.thread = other <;> simp [hh, h]

theorem locksOf_of_exclusive {lock : PageLock} (hne : other ≠ self)
    (h : s.conflicts self lock .exclusive = false) :
    ∀ held ∈ s.locksOf other, held.lock ≠ lock := by
  intro held hheld heq
  simp only [Shared.locksOf, List.mem_filter, beq_iff_eq] at hheld
  have hany := List.any_eq_false.mp h held hheld.1
  simp [heq, hheld.2, hne] at hany

end Locks

end PgVector.Hnsw
