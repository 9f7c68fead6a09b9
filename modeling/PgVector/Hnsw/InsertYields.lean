import PgVector.Hnsw.Flush
import PgVector.Hnsw.SearchYields
import PgVector.Hnsw.Vacuum

/-!
# The instructions of inserts, vacuums and scans

Whatever the replies, an insert, the repair of an element and a scan execute only
instructions of a few kinds, with arguments that fit the index parameter and the
element.
-/

namespace PgVector.Hnsw

open Foundation

variable {V D F : Type}

/-! ## Finding neighbors -/

section Find

variable {L : Signature} {E N K : Type} [LinearOrder D] [LinearOrder F] [DecidableEq K]
  {A : NeighborSearch L E N K D F} {uses : L.Op → Prop}
  (hA : ∀ lc, AccessYields (A.access lc) uses none)
include hA

omit [LinearOrder F] in
theorem NeighborSearch.searchLayer_yields (ep : List (HnswSearchCandidate E D))
    (ef lc : Nat) : (A.searchLayer ep ef lc).Yields uses fun _ => True := by
  exact (hnswSearchLayer_yields (hA lc) A.sizes A.fuel ep ef lc A.m A.existing true
    freshSearch rfl).bind fun _ _ => trivial

omit [LinearOrder F] in
theorem NeighborSearch.descend_yields (level turns : Nat)
    (ep : List (HnswSearchCandidate E D)) :
    (A.descend level turns ep).Yields uses fun _ => True := by
  induction turns generalizing ep with
  | zero => trivial
  | succ turns ih => exact (A.searchLayer_yields hA ep _ _).bind fun w _ => ih w

theorem NeighborSearch.connect_yields (layers : Nat)
    (ep : List (HnswSearchCandidate E D)) :
    (A.connect layers ep).Yields uses fun found => found.length = layers := by
  induction layers generalizing ep with
  | zero => rfl
  | succ lc ih =>
    refine (A.searchLayer_yields hA ep _ _).bind fun w _ => ?_
    refine (ih w).bind fun lower hlower => ?_
    simpa [Program.Yields] using hlower

theorem hnswFindElementNeighbors_yields (level : Nat)
    {entryPoint : Option (Program L (HnswSearchCandidate E D × Nat))}
    (hentry : ∀ p ∈ entryPoint, p.Yields uses fun _ => True) :
    (hnswFindElementNeighbors A level entryPoint).Yields uses
      fun found => found.layers.length = level + 1 := by
  cases entryPoint with
  | none => simp [hnswFindElementNeighbors, Program.Yields]
  | some p =>
    refine (hentry p rfl).bind ?_
    rintro ⟨entry, entryLevel⟩ -
    refine (A.descend_yields hA level _ _).bind fun ep _ => ?_
    refine (A.connect_yields hA _ ep).bind fun found hfound => ?_
    simp only [Program.pure_eq, Program.Yields, List.length_append, List.length_replicate, hfound]
    omega

end Find

/-! ## Linking on disk -/

def LinkUses (o : HnswOp V) : Prop :=
  SearchUses none o ∨
    ∃ ntid tid idx startIdx lm checkExisting,
      o = .updateNeighbor ntid tid idx startIdx lm checkExisting

section Link

variable [LinearOrder D] [LinearOrder F] (ctx : InsertContext V D F)

theorem findNeighborsOnDisk_yields (q : Option V) (level m : Nat)
    (entryPoint skipElement : Option ItemPointer) :
    (findNeighborsOnDisk ctx q level m entryPoint skipElement).Yields (SearchUses none)
      fun found => found.layers.length = level + 1 := by
  apply hnswFindElementNeighbors_yields
  · exact fun lc => diskAccess_yields ctx.support q m lc true
  · intro p hp
    obtain ⟨tid, -, rfl⟩ := Option.map_eq_some_iff.mp hp
    exact (hnswEntryCandidate_yields ctx.support tid q true).bind fun _ _ => trivial

omit [LinearOrder F] in
theorem loadElementsForInsert_yields (q : Option V) (tids : List ItemPointer)
    (loaded : List (HnswCandidate (AllocatedElement V) F)) :
    (loadElementsForInsert ctx q tids loaded).Yields (SearchUses none) fun _ => True := by
  induction tids generalizing loaded with
  | nil => trivial
  | cons tid rest ih =>
    refine (hnswLoadElementImpl_yields ctx.support tid q true none none rfl).bind ?_
    rintro ⟨distance, element, trace⟩ -
    cases element with
    | none => trivial
    | some e =>
      change Program.Yields _ _ (if _ then _ else _)
      split
      · trivial
      · exact ih _

theorem getUpdateIndex_yields (element newElement : HnswElement V) (distance : F)
    (m lc : Nat) :
    (getUpdateIndex ctx element newElement distance m lc).Yields (SearchUses none)
      fun _ => True := by
  refine (diskNeighbors_yields m lc element none rfl).bind ?_
  rintro ⟨tids, trace⟩ -
  change Program.Yields _ _ (if _ then _ else _)
  split
  · trivial
  · refine (loadElementsForInsert_yields ctx _ _ _).bind ?_
    rintro ⟨loaded, pruned⟩ -
    cases pruned <;> trivial

theorem hnswUpdateNeighborsOnDisk_yields (e : HnswElement V) (m : Nat)
    (checkExisting : Bool) (layers : List (List (HnswCandidate (HnswElement V) F))) :
    (hnswUpdateNeighborsOnDisk ctx e m checkExisting layers).Yields LinkUses fun _ => True := by
  induction layers with
  | nil => trivial
  | cons layer lower ih =>
    have hlayer : (updateLayerOnDisk ctx e m lower.length checkExisting layer).Yields
        LinkUses fun _ => True := by
      induction layer with
      | nil => trivial
      | cons hc rest ihlayer =>
        refine ((getUpdateIndex_yields ctx hc.element e hc.distance m _).uses_mono
          fun _ ho => .inl ho).bind fun idx _ => ?_
        have hupdate : (updateNeighborOnDisk hc.element e idx m lower.length
            checkExisting).Yields LinkUses fun _ => True := by
          unfold updateNeighborOnDisk
          split
          · trivial
          · refine ⟨.inr ⟨_, _, _, _, _, _, rfl⟩, fun there => ?_⟩
            cases there <;> trivial
        exact hupdate.bind fun _ _ => ihlayer
    exact hlayer.bind fun _ _ => ih

end Link

/-! ## Inserting -/

theorem hnswGetEntryPoint_yields :
    (hnswGetEntryPoint : HnswProgram V (Option EntryPoint)).Yields (SearchUses none)
      fun _ => True :=
  hnswGetMetaPageInfo_yields.bind fun _ _ => trivial

def InsertUses (m : Nat) (heaptid : ItemPointer) : HnswOp V → Prop
  | .addElement r _ _ =>
    r.etup.deleted = false ∧ r.ntup.version = r.etup.version ∧
      r.ntup.count = (r.etup.level + 2) * m ∧ r.etup.heaptids = heaptidSlots [heaptid]
  | .addDuplicate _ tid => tid = heaptid
  | .overwriteNeighbor _ _ _ => False
  | .removeHeapTids _ _ => False
  | .markDeleted _ => False
  | _ => True

variable {o : HnswOp V}

theorem insertUses_of_link {m : Nat} {heaptid : ItemPointer} (h : LinkUses o) :
    InsertUses m heaptid o := by
  rcases h with h | ⟨_, _, _, _, _, _, rfl⟩
  · cases o <;> trivial
  · trivial

section Insert

variable [LinearOrder D] [LinearOrder F] [DecidableEq V] (ctx : InsertContext V D F)

theorem count_hnswSetNeighborTuple {m version level : Nat} {layers : List (List ItemPointer)}
    (h : layers.length = level + 1) :
    (hnswSetNeighborTuple m version layers).count = (level + 2) * m := by
  cases layers with
  | nil => simp at h
  | cons tids lower =>
    obtain rfl : lower.length = level := by simpa using h
    exact neighborSlots_length m tids lower

variable {m : Nat} {value : V} {heaptid : ItemPointer} {level : Nat}
  {entryPoint : Option EntryPoint} {layers : List (List (HnswCandidate (HnswElement V) F))}

omit [LinearOrder D] [LinearOrder F] in
theorem findDuplicateOnDisk_yields (neighbors : List (HnswCandidate (HnswElement V) F)) :
    (findDuplicateOnDisk value heaptid neighbors).Yields
      (fun o => ∃ tid, o = HnswOp.addDuplicate tid heaptid) fun _ => True := by
  induction neighbors with
  | nil => trivial
  | cons neighbor rest ih =>
    unfold findDuplicateOnDisk
    split
    · trivial
    · refine ⟨⟨_, rfl⟩, ?_⟩
      intro r
      match r with
      | none => trivial
      | some true => trivial
      | some false => exact ih

omit [LinearOrder D] [LinearOrder F] [DecidableEq V] in
theorem addElementLoop_yields {request : AddElementRequest V} (fuel : Nat)
    (blkno : BlockNumber) (newInsertPage : Option BlockNumber)
    (hrequest : ∀ blkno newInsertPage,
      InsertUses m heaptid (.addElement request blkno newInsertPage)) :
    (addElementLoop request fuel blkno newInsertPage).Yields (InsertUses m heaptid)
      fun _ => True := by
  induction fuel generalizing blkno newInsertPage with
  | zero => trivial
  | succ fuel ih =>
    refine ⟨hrequest _ _, ?_⟩
    intro r
    match r with
    | .next _ _ => exact ih _ _
    | .placed _ _ _ => trivial
    | .failed _ => trivial

omit [DecidableEq V] in
theorem addToGraphOnDisk_yields (hlayers : layers.length = level + 1) :
    (addToGraphOnDisk ctx value heaptid level m entryPoint layers).Yields
      (InsertUses m heaptid) fun _ => True := by
  have hpage : (getInsertPage : HnswProgram V BlockNumber).Yields (InsertUses m heaptid)
      fun _ => True := by
    refine ⟨trivial, ?_⟩
    intro metap
    dsimp only [Program.bind]
    split <;> trivial
  refine hpage.bind fun insertPage _ => ?_
  refine (addElementLoop_yields ctx.fuel insertPage none ?_).bind fun p _ => ?_
  · intro blkno newInsertPage
    have hcount : (hnswSetNeighborTuple m 1 (layerTids layers)).count = (level + 2) * m :=
      count_hnswSetNeighborTuple (by simp [layerTids, hlayers])
    exact ⟨rfl, rfl, hcount, rfl⟩
  · have hinsert : (updateInsertPage insertPage p.newInsertPage : HnswProgram V Unit).Yields
        (InsertUses m heaptid) fun _ => True := by
      unfold updateInsertPage
      split
      · trivial
      · exact ⟨trivial, fun _ => trivial⟩
    refine hinsert.bind fun _ _ => ?_
    refine ((hnswUpdateNeighborsOnDisk_yields ctx _ m false layers).uses_mono
      fun _ => insertUses_of_link).bind fun _ _ => ?_
    unfold updateEntryPoint
    split
    · exact ⟨trivial, fun _ => trivial⟩
    · trivial

theorem insertLocked_yields (lockmode : LockMode) :
    (insertLocked ctx value heaptid level m entryPoint lockmode).Yields
      (InsertUses m heaptid) fun _ => True := by
  refine ((findNeighborsOnDisk_yields ctx _ level m _ none).uses_mono
    fun _ ho => insertUses_of_link (.inl ho)).bind fun found hfound => ?_
  have hgraph : (updateGraphOnDisk ctx value heaptid level m (found.loadedEntry entryPoint)
      found.layers).Yields (InsertUses m heaptid) fun _ => True := by
    have hduplicate : (findDuplicateOnDisk value heaptid (found.layers.getLast?.getD [])).Yields
        (InsertUses m heaptid) fun _ => True := by
      refine (findDuplicateOnDisk_yields _).uses_mono ?_
      rintro _ ⟨tid, rfl⟩
      rfl
    refine hduplicate.bind fun duplicate _ => ?_
    cases duplicate with
    | true => trivial
    | false => exact addToGraphOnDisk_yields ctx hfound
  exact hgraph.bind fun _ _ => ⟨trivial, fun _ => trivial⟩

theorem insertFromMeta_yields (replaces : Bool) :
    (if replaces = true then do
        unlockPage .update .share
        lockPage .update .exclusive
        let entryPoint ← hnswGetEntryPoint
        insertLocked ctx value heaptid level m entryPoint .exclusive
      else insertLocked ctx value heaptid level m entryPoint .share :
      HnswProgram V Unit).Yields (InsertUses m heaptid) fun _ => True := by
  split
  · refine ⟨trivial, fun _ => ⟨trivial, fun _ => ?_⟩⟩
    have hentry : (hnswGetEntryPoint : HnswProgram V (Option EntryPoint)).Yields
        (InsertUses m heaptid) fun _ => True :=
      hnswGetEntryPoint_yields.uses_mono fun _ ho => insertUses_of_link (.inl ho)
    exact hentry.bind fun entryPoint _ => insertLocked_yields ctx .exclusive
  · exact insertLocked_yields ctx .share

end Insert

/-! ## Repairing -/

def RepairUses (m : Nat) (e : HnswElement V) : HnswOp V → Prop
  | .addElement _ _ _ => False
  | .addDuplicate _ _ => False
  | .overwriteNeighbor ntid ntup _ =>
    ntid = e.neighbortid ∧ ntup.version = e.version ∧ ntup.count = (e.level + 2) * m
  | .removeHeapTids _ _ => False
  | .markDeleted _ => False
  | _ => True

def SparesInsertPage : HnswOp V → Prop
  | .updateMetaPage _ _ (some _) => False
  | _ => True

theorem sparesInsertPage_of_link (h : LinkUses o) : SparesInsertPage o := by
  rcases h with h | ⟨_, _, _, _, _, _, rfl⟩
  · cases o with
    | updateMetaPage _ _ _ => exact h.elim
    | _ => trivial
  · trivial

/-- The instructions of `RepairGraphElement` and of what is done around it. -/
def RepairsOnly (m : Nat) (e : HnswElement V) (o : HnswOp V) : Prop :=
  RepairUses m e o ∧ SparesInsertPage o

theorem repairsOnly_of_link {m : Nat} {e : HnswElement V} (h : LinkUses o) : RepairsOnly m e o := by
  refine ⟨?_, sparesInsertPage_of_link h⟩
  rcases h with h | ⟨_, _, _, _, _, _, rfl⟩
  · cases o <;> trivial
  · trivial

section Repair

variable [LinearOrder D] [LinearOrder F] (ctx : InsertContext V D F)
  {m : Nat} {e : HnswElement V}

theorem repairGraphElement_yields (entryPoint : Option EntryPoint) :
    (repairGraphElement ctx m e entryPoint).Yields (RepairsOnly m e) fun _ => True := by
  unfold repairGraphElement
  split
  · trivial
  · refine ((findNeighborsOnDisk_yields ctx _ e.level m _ _).uses_mono
      fun _ ho => repairsOnly_of_link (.inl ho)).bind fun found hfound => ?_
    have hover : (overwriteNeighbors e m (layerTids found.layers)).Yields (RepairsOnly m e)
        fun _ => True := by
      refine ⟨⟨⟨rfl, rfl, count_hnswSetNeighborTuple (by simp [layerTids, hfound])⟩, trivial⟩, ?_⟩
      intro done
      cases done <;> trivial
    refine hover.bind fun _ _ => ?_
    exact ((hnswUpdateNeighborsOnDisk_yields ctx _ m true found.layers).uses_mono
      fun _ => repairsOnly_of_link).bind fun _ _ => trivial

omit [LinearOrder D] [LinearOrder F] in
theorem needsUpdated_yields (deleted : List ItemPointer) (element : HnswElement V) :
    (needsUpdated deleted element).Yields (SearchUses none) fun _ => True :=
  (readNeighborTuple_yields element.neighbortid).bind fun _ _ => trivial

omit [LinearOrder D] [LinearOrder F] in
theorem hnswLoadElement_yields (tid : ItemPointer) (loadVec : Bool) :
    (hnswLoadElement tid loadVec : HnswProgram V (HnswElement V)).Yields (SearchUses none)
      fun _ => True := by
  refine (readElementTuple_yields tid).bind fun etup _ => ?_
  split <;> trivial

theorem repairIfNeeded_yields (deleted : List ItemPointer) (entryPoint : Option EntryPoint) :
    (repairIfNeeded ctx m deleted e entryPoint).Yields (RepairsOnly m e) fun _ => True := by
  refine ((needsUpdated_yields deleted e).uses_mono
    fun _ ho => repairsOnly_of_link (.inl ho)).bind fun needed _ => ?_
  cases needed with
  | true => exact (repairGraphElement_yields ctx entryPoint).bind fun _ _ => trivial
  | false => trivial

theorem repairLocked_yields (entryPoint : Option EntryPoint) (lockmode : LockMode) :
    (repairLocked ctx m e entryPoint lockmode).Yields (RepairsOnly m e) fun _ => True := by
  refine (repairGraphElement_yields ctx entryPoint).bind fun entry _ => ?_
  have hupdate : (updateEntryPoint e.tid e.level entry : HnswProgram V Unit).Yields
      (RepairsOnly m e) fun _ => True := by
    unfold updateEntryPoint
    split
    · exact ⟨⟨trivial, trivial⟩, fun _ => trivial⟩
    · trivial
  exact hupdate.bind fun _ _ => ⟨⟨trivial, trivial⟩, fun _ => trivial⟩

theorem repairElement_yields : (repairElement ctx m e).Yields (RepairsOnly m e) fun _ => True := by
  have hentry : (hnswGetEntryPoint : HnswProgram V (Option EntryPoint)).Yields
      (RepairsOnly m e) fun _ => True :=
    hnswGetEntryPoint_yields.uses_mono fun _ ho => repairsOnly_of_link (.inl ho)
  refine ⟨⟨trivial, trivial⟩, fun _ => hentry.bind fun entryPoint _ => ?_⟩
  split
  · refine ⟨⟨trivial, trivial⟩, fun _ => ⟨⟨trivial, trivial⟩, fun _ => ?_⟩⟩
    exact hentry.bind fun entryPoint _ => repairLocked_yields ctx entryPoint .exclusive
  · exact repairLocked_yields ctx entryPoint .share

end Repair

/-! ## Marking -/

def MarkUses : HnswOp V → Prop
  | .addElement _ _ _ => False
  | .addDuplicate _ _ => False
  | .overwriteNeighbor _ _ _ => False
  | .removeHeapTids _ _ => False
  | _ => True

section Mark

def ConfirmUses (o : HnswOp V) : Prop :=
  SearchUses none o ∨ ∃ blkno, o = .readPage blkno

theorem confirmElements_yields (deleted : List ItemPointer)
    (elements : List (OffsetNumber × HnswElementTuple V)) :
    (confirmElements deleted elements).Yields ConfirmUses fun _ => True := by
  induction elements with
  | nil => trivial
  | cons element rest ih =>
    unfold confirmElements
    split
    · exact ih
    · have hread : (readNeighborTuple element.2.neighbortid : HnswProgram V _).Yields
          ConfirmUses fun _ => True :=
        (@readNeighborTuple_yields V none _).uses_mono fun _ ho => .inl ho
      refine hread.bind fun ntup _ => ?_
      split
      · trivial
      · exact ih

theorem confirmRepaired_yields (deleted : List ItemPointer) (fuel : Nat)
    (blkno : BlockNumber) :
    (confirmRepaired deleted fuel blkno : HnswProgram V Unit).Yields ConfirmUses fun _ => True := by
  induction fuel generalizing blkno with
  | zero => trivial
  | succ fuel ih =>
    refine ⟨.inr ⟨blkno, rfl⟩, fun page => ?_⟩
    cases page with
    | none => trivial
    | some page =>
      refine (confirmElements_yields deleted page.elements).bind fun _ _ => ?_
      split
      · trivial
      · exact ih _

theorem markElements_yields (blkno : BlockNumber)
    (elements : List (OffsetNumber × HnswElementTuple V)) (insertPage : Option BlockNumber) :
    (markElements blkno elements insertPage).Yields MarkUses fun _ => True := by
  induction elements generalizing insertPage with
  | nil => trivial
  | cons element rest ih =>
    refine ⟨trivial, fun reply => ?_⟩
    match reply with
    | .missing => trivial
    | .skipped => exact ih _
    | .alreadyDeleted => exact ih _
    | .marked => exact ih _

theorem markPages_yields (fuel : Nat) (blkno : BlockNumber)
    (insertPage : Option BlockNumber) :
    (markPages fuel blkno insertPage : HnswProgram V _).Yields MarkUses fun _ => True := by
  induction fuel generalizing blkno insertPage with
  | zero => trivial
  | succ fuel ih =>
    refine ⟨trivial, fun page => ?_⟩
    cases page with
    | none => trivial
    | some page =>
      refine (markElements_yields blkno page.elements insertPage).bind fun insertPage _ => ?_
      split
      · trivial
      · exact ih _ _

theorem markDeleted_yields (fuel : Nat) (deleted : List ItemPointer) :
    (markDeleted fuel deleted : HnswProgram V Unit).Yields MarkUses fun _ => True := by
  refine ⟨trivial, fun _ => ⟨trivial, fun _ => ?_⟩⟩
  have hconfirm : (confirmRepaired deleted fuel hnswHeadBlkno : HnswProgram V Unit).Yields
      MarkUses fun _ => True := by
    refine (confirmRepaired_yields deleted fuel hnswHeadBlkno).uses_mono ?_
    rintro o (ho | ⟨blkno, rfl⟩)
    · cases o <;> trivial
    · trivial
  refine hconfirm.bind fun _ _ => ?_
  refine ⟨trivial, fun _ => ⟨trivial, fun _ => ⟨trivial, fun _ => ?_⟩⟩⟩
  exact (markPages_yields fuel hnswHeadBlkno none).bind fun _ _ => ⟨trivial, fun _ => trivial⟩

end Mark

/-! ## Scanning -/

def ScanUses : HnswOp V → Prop
  | .observe | .emit _ | .nextQueryId | .getMetaPage | .readTuple _ => True
  | .lockPage .scan .share | .unlockPage .scan .share => True
  | _ => False

theorem scanUses_of_search {kept : Option HnswTraceStats} (h : SearchUses kept o) : ScanUses o := by
  match o, h with
  | .readTuple _, _ => trivial
  | .getMetaPage, _ => trivial
  | .lockPage .scan .share, _ => trivial
  | .unlockPage .scan .share, _ => trivial
  | .emit _, _ => trivial

section Scan

variable [LinearOrder D] (ctx : ScanContext V D)

theorem hnswgettuple_yields (settings : ScanSettings) (so : HnswScanOpaque V D) :
    (hnswgettuple ctx settings so).Yields ScanUses fun _ => True := by
  have hsearch : (searchAndFetch ctx settings so).Yields ScanUses fun _ => True :=
    ((searchAndFetch_yields ctx settings so).uses_mono fun _ => scanUses_of_search).mono
      fun _ _ => trivial
  unfold hnswgettuple
  split
  · refine ⟨trivial, fun entry => hsearch.bind ?_⟩
    rintro ⟨so, heaptid⟩ -
    exact ⟨trivial, fun _ => ⟨trivial, fun _ => trivial⟩⟩
  · exact hsearch

omit [LinearOrder D] in
theorem hnswrescan_yields (settings : ScanSettings) (so : HnswScanOpaque V D)
    (orderbys : Option (Option V)) :
    (hnswrescan settings so orderbys).Yields ScanUses fun _ => True := by
  refine ⟨trivial, fun _ => ?_⟩
  split
  · exact ⟨trivial, fun _ => ⟨trivial, fun _ => ⟨trivial, fun _ => trivial⟩⟩⟩
  · trivial

theorem scanRun_yields (last : ScanSettings) (calls : List (ScanSettings × ScanCall V))
    (so : HnswScanOpaque V D) :
    (scanRun ctx last calls so).Yields ScanUses fun _ => True := by
  induction calls generalizing so with
  | nil =>
    have hend : (hnswendscan last so).Yields ScanUses fun _ => True := by
      unfold hnswendscan
      split
      · exact ⟨trivial, fun _ => ⟨trivial, fun _ => ⟨trivial, fun _ => trivial⟩⟩⟩
      · trivial
    exact hend.bind fun _ _ => trivial
  | cons call calls ih =>
    obtain ⟨settings, call⟩ := call
    have hcall : (scanCall ctx settings call so).Yields ScanUses fun _ => True := by
      cases call with
      | rescan orderbys => exact (hnswrescan_yields settings so orderbys).bind fun _ _ => trivial
      | gettuple => exact (hnswgettuple_yields ctx settings so).bind fun _ _ => trivial
    refine hcall.bind ?_
    rintro ⟨so, result⟩ -
    exact (ih so).bind fun _ _ => trivial

end Scan

end PgVector.Hnsw
