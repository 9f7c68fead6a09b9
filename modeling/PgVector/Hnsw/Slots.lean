import PgVector.Hnsw.Pairing

/-!
# What happens to the slot of an element

An element tuple stays at its TID for good.  It is marked as deleted by `MarkDeleted`,
taken over by `AddElementOnDisk` once it is marked, and otherwise changes in its heap
TIDs only.
-/

namespace PgVector.Hnsw

open Foundation

variable {V : Type}

structure HnswElementTuple.SameSlot (etup etup' : HnswElementTuple V) : Prop where
  deleted : etup'.deleted = etup.deleted
  level : etup'.level = etup.level
  version : etup'.version = etup.version
  neighbortid : etup'.neighbortid = etup.neighbortid

theorem HnswElementTuple.SameSlot.refl (etup : HnswElementTuple V) : etup.SameSlot etup :=
  ⟨rfl, rfl, rfl, rfl⟩

def HnswOp.isMark (tid : ItemPointer) : (o : HnswOp V) → o.Res → Bool
  | .markDeleted t, .marked => decide (t = tid)
  | _, _ => false

inductive SlotStep (tid : ItemPointer) : (o : HnswOp V) → o.Res →
    Option (HnswElementTuple V) → Option (HnswElementTuple V) → Prop
  | kept {o : HnswOp V} {r : o.Res} {before after : Option (HnswElementTuple V)} :
      HnswOp.isMark tid o r = false →
      (∀ etup', after = some etup' → ∃ etup, before = some etup ∧ etup.SameSlot etup') →
      SlotStep tid o r before after
  | marked {etup : HnswElementTuple V} : etup.deleted = false →
      SlotStep tid (.markDeleted tid) .marked (some etup) (some etup.markDeleted)
  | placed {request : AddElementRequest V} {blkno p : BlockNumber}
      {newInsertPage : Option BlockNumber} {ntid : ItemPointer}
      {before : Option (HnswElementTuple V)} {new : HnswElementTuple V} :
      (∀ old, before = some old → old.deleted = true ∧ new.version = old.version) →
      new.deleted = request.etup.deleted →
      SlotStep tid (.addElement request blkno newInsertPage) (.placed tid ntid p) before (some new)

section Steps

variable {index index' : HnswIndex V} {tid : ItemPointer} {o : HnswOp V} {r : o.Res}

theorem SlotStep.of_eq (hmark : HnswOp.isMark tid o r = false)
    (h : index'.element? tid = index.element? tid) :
    SlotStep tid o r (index.element? tid) (index'.element? tid) :=
  .kept hmark fun etup' hetup' => ⟨etup', h ▸ hetup', .refl etup'⟩

theorem addElementOnPage_slot (hwf : index.WellFormed) (request : AddElementRequest V)
    (blkno : BlockNumber) (newInsertPage : Option BlockNumber) (tid : ItemPointer) :
    SlotStep tid (.addElement request blkno newInsertPage)
      (addElementOnPage index request blkno newInsertPage).1 (index.element? tid)
      ((addElementOnPage index request blkno newInsertPage).2.element? tid) := by
  rcases addElementOnPage_cases index request blkno newInsertPage with ⟨hsame, -⟩ | ⟨hplaced, -⟩
  · rw [hsame]
    exact .of_eq rfl rfl
  · rcases hplaced.tuples hwf with ⟨-, -, helement, -⟩ |
      ⟨t, new, ntup, p, hreply, hwritten, htuples⟩
    · exact .of_eq rfl (by rw [helement])
    · by_cases ht : tid = t
      · subst ht
        rw [hreply, hwritten.element, Function.update_self]
        refine .placed ?_ htuples.named.2.2
        intro old hold
        rcases htuples with ⟨hfree, -, -⟩ | ⟨old', hold', hdeleted, hnew, -⟩
        · simp [HnswIndex.element?, HnswIndex.tuple?_eq, hfree] at hold
        · obtain rfl := Option.some.inj (hold'.symm.trans hold)
          exact ⟨hdeleted, by rw [hnew]⟩
      · exact .of_eq rfl (by rw [hwritten.element, Function.update_of_ne ht])

theorem overwriteNeighborOnPage_slot {ntid : ItemPointer} {ntup : HnswNeighborTuple}
    {ntupSize : Nat} (hwrite : overwriteNeighborOnPage index ntid ntup ntupSize = some index')
    (tid : ItemPointer) (hmark : HnswOp.isMark tid o r = false) :
    SlotStep tid o r (index.element? tid) (index'.element? tid) := by
  have hitem := (item?_overwriteNeighborOnPage hwrite).1
  rw [element?_update _ hitem]
  by_cases ht : tid = ntid
  · subst ht
    exact .kept hmark (by simp)
  · rw [Function.update_of_ne ht]
    exact .of_eq hmark rfl

theorem addDuplicateOnPage_slot {t heaptid : ItemPointer} {added : Bool}
    (hadd : addDuplicateOnPage index t heaptid = some (added, index')) (tid : ItemPointer)
    (hmark : HnswOp.isMark tid o r = false) :
    SlotStep tid o r (index.element? tid) (index'.element? tid) := by
  rcases addDuplicateOnPage_eq_some hadd with ⟨-, rfl⟩ |
    ⟨size, etup, etup', hitem, hdup, -, hitem', -⟩
  · exact .of_eq hmark rfl
  · have hetup := HnswIndex.element?_of_item? hitem
    rw [(element_written hetup hitem').1]
    by_cases ht : tid = t
    · subst ht
      rw [hetup, Function.update_self]
      refine .kept hmark ?_
      rintro _ ⟨⟩
      unfold HnswElementTuple.addDuplicate? at hdup
      dsimp only at hdup
      split at hdup
      · cases hdup
      · cases hdup
        exact ⟨etup, rfl, rfl, rfl, rfl, rfl⟩
    · rw [Function.update_of_ne ht]
      exact .of_eq hmark rfl

theorem removeHeapTidsOnPage_slot {blkno : BlockNumber} {callback : ItemPointer → Bool}
    {reply : RemoveHeapTidsReply}
    (hremove : removeHeapTidsOnPage index blkno callback = some (reply, index'))
    (tid : ItemPointer) (hmark : HnswOp.isMark tid o r = false) :
    SlotStep tid o r (index.element? tid) (index'.element? tid) := by
  rw [(removeHeapTidsOnPage_tuples hremove).1]
  split
  · refine .kept hmark ?_
    intro etup' hetup'
    obtain ⟨etup, hetup, rfl⟩ := Option.map_eq_some_iff.mp hetup'
    refine ⟨etup, hetup, ?_⟩
    unfold HnswElementTuple.removeHeapTids
    split <;> exact ⟨rfl, rfl, rfl, rfl⟩
  · exact .of_eq hmark rfl

theorem markDeletedAt_slot (hwf : index.WellFormed) (t tid : ItemPointer) :
    SlotStep tid (.markDeleted t) (markDeletedAt index t).1 (index.element? tid)
      ((markDeletedAt index t).2.element? tid) := by
  cases hetup : index.element? t with
  | none =>
    simp only [markDeletedAt, hetup]
    exact .of_eq rfl rfl
  | some etup =>
    obtain ⟨size, hitem⟩ := HnswIndex.item?_of_element? hetup
    cases hlive : etup.deleted with
    | true =>
      simp only [markDeletedAt, hetup, hlive, if_true]
      exact .of_eq rfl rfl
    | false =>
      cases hempty : etup.isEmptied with
      | false =>
        simp only [markDeletedAt, hetup, hlive, hempty, Bool.not_false, if_true,
          Bool.false_eq_true, if_false]
        exact .of_eq rfl rfl
      | true =>
        obtain ⟨ntup, hntup⟩ := hwf.neighbortid hetup
        obtain ⟨hreply, hwritten, -⟩ :=
          markDeletedAt_marked hitem hlive hempty (Option.isSome_of_eq_some hntup)
        obtain ⟨nsize, hnitem⟩ := HnswIndex.item?_of_neighbor? hntup
        have hboth : BothWritten _ _ t etup.markDeleted _ :=
          .again hwf hetup rfl (hwritten nsize ntup hnitem)
        rw [hreply, hboth.element]
        by_cases ht : tid = t
        · subst ht
          rw [hetup, Function.update_self]
          exact .marked hlive
        · rw [Function.update_of_ne ht]
          exact .of_eq (decide_eq_false (Ne.symm ht)) rfl

theorem hnswHandler_slot {self : ThreadId} {s s' : Shared V} (hwf : s.index.WellFormed)
    (hexec : hnswHandler self o s = some (r, s')) (tid : ItemPointer) :
    SlotStep tid o r (s.index.element? tid) (s'.index.element? tid) := by
  cases o with
  | addElement request blkno newInsertPage =>
    cases hexec
    exact addElementOnPage_slot hwf request blkno newInsertPage tid
  | updateNeighbor ntid t idx startIdx lm checkExisting =>
    cases hexec
    exact .of_eq rfl (by rw [Shared.withIndex_index, (updateNeighborOnPage_tuples _ _ _ _ _ _ _).1])
  | overwriteNeighbor ntid ntup ntupSize =>
    rcases hnswHandler_overwriteNeighbor hexec with ⟨rfl, -⟩ | ⟨index', hwrite, rfl⟩
    · exact .of_eq rfl rfl
    · exact overwriteNeighborOnPage_slot hwrite tid rfl
  | addDuplicate t heaptid =>
    simp only [hnswHandler] at hexec
    split at hexec
    · cases hexec
      exact .of_eq rfl rfl
    · next added index' hadd =>
      cases hexec
      exact addDuplicateOnPage_slot hadd tid rfl
  | removeHeapTids blkno callback =>
    simp only [hnswHandler] at hexec
    split at hexec
    · cases hexec
      exact .of_eq rfl rfl
    · next reply index' hremove =>
      cases hexec
      exact removeHeapTidsOnPage_slot hremove tid rfl
  | markDeleted t =>
    cases hexec
    exact markDeletedAt_slot hwf t tid
  | lockPage lock mode =>
    obtain ⟨-, rfl⟩ := hnswHandler_lockPage_eq_some hexec
    exact .of_eq rfl rfl
  | _ =>
    cases hexec
    exact .of_eq rfl rfl

end Steps

end PgVector.Hnsw
