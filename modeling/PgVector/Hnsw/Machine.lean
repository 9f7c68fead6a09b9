import Mathlib.Logic.Function.Basic
import PgVector.Foundation.Program
import PgVector.Hnsw.Index

/-!
# Instructions of a backend

The functions of the access method are programs over the instructions below.
Every instruction is one section of the source under a buffer lock, one call of
`LockPage` or `UnlockPage`, or one look at the environment.
-/

namespace PgVector.Hnsw

open Foundation

abbrev ThreadId := Nat

inductive PageLock where
  | update
  | scan
  deriving DecidableEq, Repr

inductive LockMode where
  | share
  | exclusive
  deriving DecidableEq, Repr

inductive HnswOp (V : Type) where
  | observe
  | emit (event : Event)
  | nextQueryId
  | lockPage (lock : PageLock) (mode : LockMode)
  | unlockPage (lock : PageLock) (mode : LockMode)
  | getMetaPage
  | updateMetaPage (updateEntry : UpdateEntry) (entryPoint : Option EntryPoint)
      (insertPage : Option BlockNumber)
  | readTuple (tid : ItemPointer)
  | readPage (blkno : BlockNumber)
  | addElement (request : AddElementRequest V) (blkno : BlockNumber)
      (newInsertPage : Option BlockNumber)
  | updateNeighbor (neighbortid tid : ItemPointer) (idx : UpdateIdx)
      (startIdx lm : Nat) (checkExisting : Bool)
  | overwriteNeighbor (neighbortid : ItemPointer) (ntup : HnswNeighborTuple)
      (ntupSize : Nat)
  | addDuplicate (tid heaptid : ItemPointer)
  | removeHeapTids (blkno : BlockNumber) (callback : ItemPointer → Bool)
  | markDeleted (tid : ItemPointer)

inductive OverwriteReply where
  /-- The neighbor tuple is not there. -/
  | missing
  | failed
  | written
  deriving DecidableEq, Repr

@[reducible] def HnswOp.Res {V : Type} : HnswOp V → Type
  | .observe => Observation
  | .emit _ => Unit
  | .nextQueryId => Nat
  | .lockPage _ _ => Unit
  | .unlockPage _ _ => Unit
  | .getMetaPage => HnswMetaPage
  | .updateMetaPage _ _ _ => Unit
  | .readTuple _ => Option (IndexTuple V)
  | .readPage _ => Option (Page (IndexTuple V))
  | .addElement _ _ _ => AddElementReply
  | .updateNeighbor _ _ _ _ _ _ => Bool
  | .overwriteNeighbor _ _ _ => OverwriteReply
  | .addDuplicate _ _ => Option Bool
  | .removeHeapTids _ _ => Option RemoveHeapTidsReply
  | .markDeleted _ => MarkReply

abbrev hnswSignature (V : Type) : Signature where
  Op := HnswOp V
  Res := HnswOp.Res
  Err := HnswError

abbrev HnswProgram (V α : Type) := Program (hnswSignature V) α

abbrev HnswOp.exec {V : Type} (o : HnswOp V) : HnswProgram V o.Res :=
  Program.exec (L := hnswSignature V) o

section Instructions

variable {V : Type}

def observe : HnswProgram V Observation := .step .observe .ret

def nextQueryId : HnswProgram V Nat := .step .nextQueryId .ret

def emit (event : Event) : HnswProgram V Unit := .step (.emit event) .ret

def lockPage (lock : PageLock) (mode : LockMode) : HnswProgram V Unit :=
  .step (.lockPage lock mode) .ret

def unlockPage (lock : PageLock) (mode : LockMode) : HnswProgram V Unit :=
  .step (.unlockPage lock mode) .ret

end Instructions

structure HeldLock where
  thread : ThreadId
  lock : PageLock
  mode : LockMode
  deriving DecidableEq, Repr

/--
The state that backends share, and their environment: `env` is what successive
looks at the buffer counters and the clock show.
-/
structure Shared (V : Type) where
  index : HnswIndex V
  locks : List HeldLock
  env : Nat → Observation
  observed : Nat
  queryCounter : Nat
  log : ThreadId → List Event

namespace Shared

variable {V : Type}

def conflicts (s : Shared V) (self : ThreadId) (lock : PageLock) (mode : LockMode) : Bool :=
  s.locks.any fun held =>
    held.thread != self && held.lock == lock && (mode == .exclusive || held.mode == .exclusive)

def withIndex (s : Shared V) (index : HnswIndex V) : Shared V :=
  { s with index := index }

def withLock (s : Shared V) (held : HeldLock) : Shared V :=
  { s with locks := held :: s.locks }

@[simp] theorem withIndex_index (s : Shared V) (index : HnswIndex V) :
    (s.withIndex index).index = index := rfl

@[simp] theorem withIndex_locks (s : Shared V) (index : HnswIndex V) :
    (s.withIndex index).locks = s.locks := rfl

end Shared

def updateNeighborOnPage {V : Type} (index : HnswIndex V)
    (neighbortid tid : ItemPointer) (idx : UpdateIdx) (startIdx lm : Nat)
    (checkExisting : Bool) : HnswIndex V :=
  index.modifyTuple neighbortid fun
    | .neighbor ntup =>
      .neighbor (ntup.update tid idx startIdx lm checkExisting)
    | tuple => tuple

def overwriteNeighborOnPage {V : Type} (index : HnswIndex V)
    (neighbortid : ItemPointer) (ntup : HnswNeighborTuple) (ntupSize : Nat) :
    Option (HnswIndex V) :=
  (index.page? neighbortid.blkno).bind fun page =>
    (page.overwrite neighbortid.offno (.neighbor ntup) ntupSize).map
      (index.setPage neighbortid.blkno)

def addDuplicateOnPage {V : Type} (index : HnswIndex V)
    (tid heaptid : ItemPointer) : Option (Bool × HnswIndex V) :=
  (index.element? tid).map fun etup =>
    match etup.addDuplicate? heaptid with
    | none => (false, index)
    | some etup' => (true, index.modifyTuple tid fun _ => .element etup')

def hnswHandler {V : Type} (self : ThreadId) :
    Handler (hnswSignature V) (Shared V)
  | .observe, s =>
    some (s.env s.observed, { s with observed := s.observed + 1 })
  | .emit event, s =>
    some ((),
      { s with log := Function.update s.log self (s.log self ++ [event]) })
  | .nextQueryId, s =>
    some (s.queryCounter + 1, { s with queryCounter := s.queryCounter + 1 })
  | .lockPage lock mode, s =>
    if s.conflicts self lock mode then none
    else some ((), s.withLock ⟨self, lock, mode⟩)
  | .unlockPage lock mode, s =>
    some ((), { s with locks := s.locks.erase ⟨self, lock, mode⟩ })
  | .getMetaPage, s => some (s.index.metapage, s)
  | .updateMetaPage updateEntry entryPoint insertPage, s =>
    some ((),
      s.withIndex
        { s.index with
          metapage :=
            hnswUpdateMetaPageInfo s.index.metapage updateEntry entryPoint insertPage })
  | .readTuple tid, s => some (s.index.tuple? tid, s)
  | .readPage blkno, s => some (s.index.page? blkno, s)
  | .addElement request blkno newInsertPage, s =>
    let reply := addElementOnPage s.index request blkno newInsertPage
    some (reply.1, s.withIndex reply.2)
  | .updateNeighbor neighbortid tid idx startIdx lm checkExisting, s =>
    some ((s.index.neighbor? neighbortid).isSome,
      s.withIndex (updateNeighborOnPage s.index neighbortid tid idx startIdx lm checkExisting))
  | .overwriteNeighbor neighbortid ntup ntupSize, s =>
    if (s.index.neighbor? neighbortid).isNone then some (.missing, s)
    else
      match overwriteNeighborOnPage s.index neighbortid ntup ntupSize with
      | none => some (.failed, s)
      | some index => some (.written, s.withIndex index)
  | .addDuplicate tid heaptid, s =>
    match addDuplicateOnPage s.index tid heaptid with
    | none => some (none, s)
    | some (added, index) => some (some added, s.withIndex index)
  | .removeHeapTids blkno callback, s =>
    match removeHeapTidsOnPage s.index blkno callback with
    | none => some (none, s)
    | some (reply, index) => some (some reply, s.withIndex index)
  | .markDeleted tid, s =>
    let reply := markDeletedAt s.index tid
    some (reply.1, s.withIndex reply.2)

theorem hnswHandler_overwriteNeighbor {V : Type} {self : ThreadId} {ntid : ItemPointer}
    {ntup : HnswNeighborTuple} {ntupSize : Nat} {s s' : Shared V} {reply : OverwriteReply}
    (hexec : hnswHandler self (.overwriteNeighbor ntid ntup ntupSize) s = some (reply, s')) :
    (s' = s ∧ reply ≠ .written) ∨
      ∃ index', overwriteNeighborOnPage s.index ntid ntup ntupSize = some index' ∧
        s' = s.withIndex index' := by
  simp only [hnswHandler] at hexec
  split at hexec
  · cases hexec
    exact .inl ⟨rfl, by simp⟩
  · split at hexec
    · cases hexec
      exact .inl ⟨rfl, by simp⟩
    · next index' hwrite =>
      cases hexec
      exact .inr ⟨index', hwrite, rfl⟩

theorem hnswHandler_lockPage {V : Type} {self : ThreadId} {lock : PageLock}
    {mode : LockMode} {s : Shared V} (h : s.conflicts self lock mode = false) :
    hnswHandler self (.lockPage lock mode) s = some ((), s.withLock ⟨self, lock, mode⟩) := by
  simp [hnswHandler, h]

theorem hnswHandler_lockPage_eq_some {V : Type} {self : ThreadId} {lock : PageLock}
    {mode : LockMode} {s s' : Shared V} {r : Unit}
    (hexec : hnswHandler self (.lockPage lock mode) s = some (r, s')) :
    ¬ s.conflicts self lock mode = true ∧ s' = s.withLock ⟨self, lock, mode⟩ := by
  simp only [hnswHandler] at hexec
  split at hexec
  · cases hexec
  · next hfree =>
    cases hexec
    exact ⟨hfree, rfl⟩

theorem hnswHandler_unlockPage {V : Type} (self : ThreadId) (lock : PageLock)
    (mode : LockMode) (s : Shared V) :
    hnswHandler self (.unlockPage lock mode) (s.withLock ⟨self, lock, mode⟩) = some ((), s) := by
  simp [hnswHandler, Shared.withLock]

/-! ## A backend that runs alone -/

section Alone

variable {V : Type} {self : ThreadId} {s : Shared V}

def Alone (self : ThreadId) (s : Shared V) : Prop :=
  ∀ held ∈ s.locks, held.thread = self

theorem conflicts_of_alone (lock : PageLock) (mode : LockMode)
    (hs : Alone self s) : s.conflicts self lock mode = false := by
  unfold Shared.conflicts
  rw [List.any_eq_false]
  intro held hheld
  simp [hs held hheld]

theorem alone_withLock (lock : PageLock) (mode : LockMode) (hs : Alone self s) :
    Alone self (s.withLock ⟨self, lock, mode⟩) := by
  intro held hheld
  rcases List.mem_cons.mp hheld with rfl | hheld
  · rfl
  · exact hs held hheld

theorem alone_erase (hs : Alone self s) (lock : HeldLock) :
    Alone self { s with locks := s.locks.erase lock } :=
  fun held hheld => hs held (List.mem_of_mem_erase hheld)

end Alone

/-! ## Logs -/

theorem log_hnswHandler {V : Type} {self : ThreadId} {o : HnswOp V}
    {s t : Shared V} {r : HnswOp.Res o} (ho : ∀ event, o ≠ .emit event)
    (hexec : hnswHandler self o s = some (r, t)) : t.log = s.log := by
  cases o with
  | emit event => exact absurd rfl (ho event)
  | lockPage lock mode =>
    obtain ⟨-, rfl⟩ := hnswHandler_lockPage_eq_some hexec
    rfl
  | overwriteNeighbor =>
    rcases hnswHandler_overwriteNeighbor hexec with ⟨rfl, -⟩ | ⟨index', -, rfl⟩ <;> rfl
  | addDuplicate | removeHeapTids =>
    simp only [hnswHandler] at hexec
    split at hexec <;> cases hexec <;> rfl
  | _ =>
    cases hexec
    rfl

theorem mem_log_hnswHandler {V : Type} {self : ThreadId} {o : HnswOp V}
    {s t : Shared V} {r : HnswOp.Res o} (hexec : hnswHandler self o s = some (r, t))
    (thread : ThreadId) {event : Event} (hevent : event ∈ s.log thread) :
    event ∈ t.log thread := by
  by_cases hemit : ∃ event, o = .emit event
  · obtain ⟨emitted, rfl⟩ := hemit
    cases hexec
    by_cases hthread : thread = self
    · subst hthread
      simp [hevent]
    · simpa [Function.update_of_ne hthread] using hevent
  · rwa [log_hnswHandler (fun event he => hemit ⟨event, he⟩) hexec]

section Earlier

variable {V α : Type} (self : ThreadId) (earlier : List Event)

/-- The log of `self` goes on from `earlier`. -/
def Shared.logAfter (s : Shared V) : Shared V :=
  { s with log := Function.update s.log self (earlier ++ s.log self) }

theorem hnswHandler_logAfter (o : HnswOp V) (s : Shared V) :
    hnswHandler self o (s.logAfter self earlier) =
      (hnswHandler self o s).map fun reply => (reply.1, reply.2.logAfter self earlier) := by
  have hindex : (s.logAfter self earlier).index = s.index := rfl
  cases o with
  | emit event => simp [hnswHandler, Shared.logAfter]
  | lockPage lock mode =>
    have hconflicts : (s.logAfter self earlier).conflicts self lock mode =
        s.conflicts self lock mode := rfl
    simp only [hnswHandler, hconflicts]
    cases s.conflicts self lock mode <;> rfl
  | overwriteNeighbor ntid ntup ntupSize =>
    simp only [hnswHandler, hindex]
    cases s.index.neighbor? ntid with
    | none => rfl
    | some old => cases overwriteNeighborOnPage s.index ntid ntup ntupSize <;> rfl
  | addDuplicate tid heaptid =>
    simp only [hnswHandler, hindex]
    cases addDuplicateOnPage s.index tid heaptid <;> rfl
  | removeHeapTids blkno callback =>
    simp only [hnswHandler, hindex]
    cases removeHeapTidsOnPage s.index blkno callback <;> rfl
  | _ => rfl

theorem run_logAfter (p : HnswProgram V α) (s : Shared V) :
    p.run (hnswHandler self) (s.logAfter self earlier) =
      ((p.run (hnswHandler self) s).1, (p.run (hnswHandler self) s).2.logAfter self earlier) := by
  induction p generalizing s with
  | ret a => rfl
  | fail e => rfl
  | step o k ih =>
    rw [Program.run_step, Program.run_step, hnswHandler_logAfter]
    cases hnswHandler self o s with
    | none => rfl
    | some reply => exact ih reply.1 reply.2

def Shared.freshLog (s : Shared V) : Shared V :=
  { s with log := Function.update s.log self [] }

/-- What a run adds to the log does not depend on what was logged before. -/
theorem run_freshLog (p : HnswProgram V α) (s : Shared V) :
    (p.run (hnswHandler self) (s.freshLog self)).1 = (p.run (hnswHandler self) s).1 ∧
      (p.run (hnswHandler self) (s.freshLog self)).2.log self =
        ((p.run (hnswHandler self) s).2.log self).drop (s.log self).length := by
  have hs : s = (s.freshLog self).logAfter self (s.log self) := by
    simp [Shared.freshLog, Shared.logAfter]
  have hrun := run_logAfter self (s.log self) p (s.freshLog self)
  rw [← hs] at hrun
  rw [hrun]
  simp [Shared.logAfter]

end Earlier

end PgVector.Hnsw
