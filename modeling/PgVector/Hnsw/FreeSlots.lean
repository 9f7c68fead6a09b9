import PgVector.Hnsw.Insert
import PgVector.Hnsw.Slots

/-!
# Finding a deleted slot

`AddElementOnDisk` goes through the pages from the insert page on and takes the first
deleted slot with room for the new tuples.  The insert page that it leaves is never after
a deleted element, and it adds a page only if no deleted slot at all has room.
-/

namespace PgVector.Hnsw

open Foundation

variable {V : Type} {index : HnswIndex V} {r : AddElementRequest V} {blkno : BlockNumber}

structure HnswIndex.FirstFree (index : HnswIndex V) (blkno : BlockNumber) : Prop where
  page : (index.page? blkno).isSome
  least : ∀ tid ∈ index.net.deleted, blkno ≤ tid.blkno

/-- The deleted element at `tid` leaves enough space for the tuples of a request. -/
def HnswIndex.RoomAt (index : HnswIndex V) (r : AddElementRequest V) (tid : ItemPointer) : Prop :=
  ∃ page size etup, index.page? tid.blkno = some page ∧
    page.item? tid.offno = some ⟨size, .element etup⟩ ∧ etup.deleted = true ∧
    hnswFreeSpaceCheck index tid.blkno page ⟨size, .element etup⟩ etup.neighbortid
      r.etupSize r.ntupSize = true

/-! ## The insert page kept by the search -/

/-- The new insert page before and after page `blkno`: once set it stays. -/
structure CarriedOver (blkno : BlockNumber) (before after : Option BlockNumber) : Prop where
  set : ∀ q, after = some q → q = before.getD blkno
  unset : after = none → before = none

theorem CarriedOver.refl (blkno : BlockNumber) (before : Option BlockNumber) :
    CarriedOver blkno before before := by
  constructor
  · rintro q rfl
    rfl
  · exact id

variable {after : Option BlockNumber}

theorem CarriedOver.trans {before between : Option BlockNumber}
    (h : CarriedOver blkno before between) (h' : CarriedOver blkno between after) :
    CarriedOver blkno before after := by
  constructor
  · intro q hq
    have hset := h'.set q hq
    cases between with
    | none => rwa [h.unset rfl]
    | some q' => exact hset.trans (h.set q' rfl)
  · exact fun hnone => h.unset (h'.unset hnone)

theorem CarriedOver.some (blkno : BlockNumber) (before : Option BlockNumber) :
    CarriedOver blkno before (some (before.getD blkno)) := by
  constructor
  · intro q hq
    exact (Option.some.inj hq).symm
  · exact fun hnone => by cases hnone

theorem CarriedOver.getD {before : Option BlockNumber} (h : CarriedOver blkno before after)
    (hsome : after.isSome) (other : BlockNumber) : after.getD other = before.getD blkno := by
  obtain ⟨q, rfl⟩ := Option.isSome_iff_exists.mp hsome
  exact h.set q rfl

theorem CarriedOver.getD_same {before : Option BlockNumber} (h : CarriedOver blkno before after) :
    after.getD blkno = before.getD blkno := by
  cases after with
  | none => rw [h.unset rfl]
  | some q => exact h.set q rfl

/-! ## The slots of a page -/

/-- What `HnswFreeOffset` has found out about the line pointers `offsets` of a page. -/
structure PageScanned (index : HnswIndex V) (blkno : BlockNumber) (page : Page (IndexTuple V))
    (etupSize ntupSize : Nat) (offsets : List OffsetNumber) (before : Option BlockNumber)
    (result : Option FreeOffset × Option BlockNumber) : Prop where
  carried : CarriedOver blkno before result.2
  found : result.1.isSome → result.2.isSome
  rejected : result.1 = none → ∀ offno ∈ offsets, ∀ size etup,
    page.item? offno = some ⟨size, .element etup⟩ → etup.deleted = true →
    result.2.isSome ∧ hnswFreeSpaceCheck index blkno page ⟨size, .element etup⟩
      etup.neighbortid etupSize ntupSize = false

variable {page : Page (IndexTuple V)} {etupSize ntupSize : Nat} {offno : OffsetNumber}
  {offsets : List OffsetNumber} {before : Option BlockNumber}
  {result : Option FreeOffset × Option BlockNumber}

theorem PageScanned.skip (h : PageScanned index blkno page etupSize ntupSize offsets before result)
    (hskip : ∀ size etup, page.item? offno = some ⟨size, .element etup⟩ → etup.deleted = false) :
    PageScanned index blkno page etupSize ntupSize (offno :: offsets) before result := by
  refine ⟨h.carried, h.found, fun hnone o ho size etup hitem hdeleted => ?_⟩
  rcases List.mem_cons.mp ho with rfl | ho
  · rw [hskip size etup hitem] at hdeleted
    cases hdeleted
  · exact h.rejected hnone o ho size etup hitem hdeleted

theorem PageScanned.reject {size : Nat} {etup : HnswElementTuple V}
    (h : PageScanned index blkno page etupSize ntupSize offsets (some (before.getD blkno)) result)
    (hitem : page.item? offno = some ⟨size, .element etup⟩)
    (hcheck : hnswFreeSpaceCheck index blkno page ⟨size, .element etup⟩ etup.neighbortid etupSize
      ntupSize = false) :
    PageScanned index blkno page etupSize ntupSize (offno :: offsets) before result := by
  have hset : result.2.isSome := by
    rw [Option.isSome_iff_ne_none]
    exact fun hnone => nomatch h.carried.unset hnone
  refine ⟨(CarriedOver.some blkno before).trans h.carried, h.found,
    fun hnone o ho size' etup' hitem' hdeleted => ?_⟩
  rcases List.mem_cons.mp ho with rfl | ho
  · obtain ⟨rfl, rfl⟩ : size = size' ∧ etup = etup' := by
      simpa using hitem.symm.trans hitem'
    exact ⟨hset, hcheck⟩
  · exact h.rejected hnone o ho size' etup' hitem' hdeleted

theorem hnswFreeOffset_scanned (index : HnswIndex V) (blkno : BlockNumber)
    (page : Page (IndexTuple V)) (etupSize ntupSize : Nat) (offsets : List OffsetNumber)
    (before : Option BlockNumber) :
    PageScanned index blkno page etupSize ntupSize offsets before
      (hnswFreeOffset index blkno page etupSize ntupSize offsets before) := by
  induction offsets generalizing before with
  | nil => exact ⟨.refl _ _, by simp [hnswFreeOffset], by simp⟩
  | cons offno rest ih =>
    unfold hnswFreeOffset
    split
    · next size etup hitem =>
      split
      · dsimp only
        split
        · exact ⟨.some _ _, by simp, by simp⟩
        · next hcheck =>
          exact (ih _).reject hitem (Bool.or_eq_false_iff.mp (Bool.not_eq_true _ ▸ hcheck)).2
      · next hlive =>
        refine (ih before).skip ?_
        intro size' etup' hitem'
        rw [hitem] at hitem'
        cases hitem'
        simpa using hlive
    · next hother =>
      refine (ih before).skip ?_
      intro size etup hitem
      exact absurd hitem (hother size etup)

/-! ## A turn of the search -/

structure PutReply (index : HnswIndex V) (q : BlockNumber)
    (result : AddElementReply × HnswIndex V) : Prop where
  length : result.2.pages.length = index.pages.length
  reply : (∃ e, result.1 = .failed e) ∨ ∃ tid ntid, result.1 = .placed tid ntid q

theorem PutReply.failed (index : HnswIndex V) (q : BlockNumber) (e : HnswError) :
    PutReply index q (.failed e, index) := ⟨rfl, .inl ⟨e, rfl⟩⟩

theorem addNewElement_reply (index : HnswIndex V) (r : AddElementRequest V)
    (blkno nblkno : BlockNumber) (newInsertPage : Option BlockNumber) :
    PutReply index (newInsertPage.getD nblkno)
      (addNewElement index r blkno nblkno newInsertPage) := by
  unfold addNewElement
  split
  · exact .failed _ _ _
  · dsimp only
    generalize (if nblkno = blkno then _ else _ : OffsetNumber) = noffno
    repeat' split
    all_goals first
      | exact .failed _ _ _
      | exact ⟨by simp, .inr ⟨_, _, rfl⟩⟩

theorem reuseElement_reply (index : HnswIndex V) (r : AddElementRequest V) (blkno : BlockNumber)
    (free : FreeOffset) (newInsertPage : Option BlockNumber) :
    PutReply index (newInsertPage.getD free.neighbortid.blkno)
      (reuseElement index r blkno free newInsertPage) := by
  unfold reuseElement
  split
  · exact .failed _ _ _
  · dsimp only
    repeat' split
    all_goals first
      | exact .failed _ _ _
      | exact ⟨by simp, .inr ⟨_, _, rfl⟩⟩

theorem page?_appended (h : index.page? blkno = some page) :
    (hnswInsertAppendPage index blkno page).1.page? (hnswInsertAppendPage index blkno page).2 =
      some Page.init := by
  rw [page?_hnswInsertAppendPage h]
  exact Function.update_self ..

structure PassedOver (index : HnswIndex V) (r : AddElementRequest V) (blkno : BlockNumber)
    (before after : Option BlockNumber) : Prop where
  carried : CarriedOver blkno before after
  noted : after = none → ∀ tid ∈ index.net.deleted, tid.blkno ≠ blkno
  noRoom : ∀ tid, tid.blkno = blkno → ¬ index.RoomAt r tid

theorem PageScanned.passedOver {roomy : Option BlockNumber}
    (h : PageScanned index blkno page r.etupSize r.ntupSize (List.range' 1 page.maxOffsetNumber)
      roomy (none, after)) (hpage : index.page? blkno = some page)
    (hcarried : CarriedOver blkno before roomy) : PassedOver index r blkno before after := by
  have hscanned {offno : OffsetNumber} {item : Item (IndexTuple V)}
      (hitem : page.item? offno = some item) : offno ∈ List.range' 1 page.maxOffsetNumber := by
    unfold Page.item? at hitem
    split at hitem
    · cases hitem
    · next hzero =>
      have hle := (pred_lt_iff hzero).mp (List.getElem?_eq_some_iff.mp hitem).1
      exact List.mem_range'_1.mpr ⟨Nat.one_le_iff_ne_zero.mpr hzero, Nat.lt_one_add_iff.mpr hle⟩
  refine ⟨hcarried.trans h.carried, ?_, ?_⟩
  · rintro rfl tid ⟨etup, hetup, hdeleted⟩ rfl
    obtain ⟨size, hitem⟩ := HnswIndex.item?_of_element? hetup
    rw [HnswIndex.item?, hpage] at hitem
    have hnone := (h.rejected rfl tid.offno (hscanned hitem) size etup hitem hdeleted).1
    cases hnone
  · rintro tid rfl ⟨page', size, etup, hpage', hitem, hdeleted, hcheck⟩
    obtain rfl := Option.some.inj (hpage.symm.trans hpage')
    have hfalse := (h.rejected rfl tid.offno (hscanned hitem) size etup hitem hdeleted).2
    rw [hfalse] at hcheck
    cases hcheck

/-- How the turn of a page ends: the search goes on, the element is put on pages that are
there, or the last page has been passed over as well and pages are added. -/
inductive PageTurn (index : HnswIndex V) (r : AddElementRequest V) (blkno : BlockNumber)
    (before : Option BlockNumber) : AddElementReply × HnswIndex V → Prop
  | next {after : Option BlockNumber} (next : BlockNumber) {page : Page (IndexTuple V)} :
      index.page? blkno = some page → page.nextblkno = some next →
      PassedOver index r blkno before after →
      PageTurn index r blkno before (.next next after, index)
  | put {result : AddElementReply × HnswIndex V} :
      PutReply index (before.getD blkno) result → PageTurn index r blkno before result
  | extended {after : Option BlockNumber} {extended : HnswIndex V} {nblkno : BlockNumber}
      {page : Page (IndexTuple V)} {result : AddElementReply × HnswIndex V} :
      index.page? blkno = some page → page.nextblkno = none →
      PassedOver index r blkno before after →
      PutReply extended (after.getD nblkno) result → (extended.page? nblkno).isSome →
      PageTurn index r blkno before result

theorem addElementOnPage_turn (index : HnswIndex V) (r : AddElementRequest V)
    (blkno : BlockNumber) (before : Option BlockNumber) :
    PageTurn index r blkno before (addElementOnPage index r blkno before) := by
  unfold addElementOnPage
  split
  · exact .put (.failed _ _ _)
  · next page hpage =>
    dsimp only
    generalize hroom : (if before.isNone && decide (r.minCombinedSize ≤ page.freeSpace) then
      some blkno else before) = roomy
    have hcarried : CarriedOver blkno before roomy := by
      rw [← hroom]
      split
      · next hnone =>
        simp only [Bool.and_eq_true, Option.isNone_iff_eq_none] at hnone
        rw [hnone.1]
        exact .some blkno none
      · exact .refl _ _
    split
    · -- both tuples go on the current page
      have hput := addNewElement_reply index r blkno blkno roomy
      rw [hcarried.getD_same] at hput
      exact .put hput
    · have hscan := hnswFreeOffset_scanned index blkno page r.etupSize r.ntupSize
        (List.range' 1 page.maxOffsetNumber) roomy
      split
      · next free after hfree =>
        rw [hfree] at hscan
        have hput := reuseElement_reply index r blkno free after
        rw [(hcarried.trans hscan.carried).getD (hscan.found rfl)] at hput
        exact .put hput
      · next after hfree =>
        rw [hfree] at hscan
        have hpassed : PassedOver index r blkno before after :=
          hscan.passedOver hpage hcarried
        split
        · next hlast =>
          exact .extended hpage hlast.2.2 hpassed (addNewElement_reply _ _ _ _ _)
            (by rw [page?_appended hpage]; rfl)
        · split
          · next next hnext => exact .next next hpage hnext hpassed
          · next hlast =>
            have hnew := page?_appended hpage
            split
            · exact .extended hpage hlast hpassed (addNewElement_reply _ _ _ _ _)
                (by rw [page?_appended hnew]; rfl)
            · exact .extended hpage hlast hpassed (addNewElement_reply _ _ _ _ _)
                (by rw [hnew]; rfl)

/-! ## The search -/

section Search

theorem PassedOver.least {before after : Option BlockNumber}
    (h : PassedOver index r blkno before after)
    (hleast : ∀ tid ∈ index.net.deleted, before.getD blkno ≤ tid.blkno) :
    ∀ tid ∈ index.net.deleted, after.getD (blkno + 1) ≤ tid.blkno := by
  intro tid htid
  cases after with
  | some q => exact (h.carried.set q rfl).le.trans (hleast tid htid)
  | none =>
    have hle := hleast tid htid
    rw [h.carried.unset rfl] at hle
    exact Nat.succ_le_of_lt (Nat.lt_of_le_of_ne hle fun heq => h.noted rfl tid htid heq.symm)

theorem blkno_of_deleted {tid : ItemPointer} (h : tid ∈ index.net.deleted) :
    1 ≤ tid.blkno ∧ tid.blkno ≤ index.pages.length := by
  obtain ⟨etup, hetup, -⟩ := h
  exact HnswIndex.blkno_of_element? hetup

theorem run_addElementLoop (self : ThreadId) (s : Shared V) (r : AddElementRequest V) (fuel : Nat)
    (blkno : BlockNumber) (before : Option BlockNumber) :
    (addElementLoop r (fuel + 1) blkno before).run (hnswHandler self) s =
      Program.run (hnswHandler self)
        (match (addElementOnPage s.index r blkno before).1 with
          | .next next after => addElementLoop r fuel next after
          | .placed tid neighbortid q => .ret ⟨tid, neighbortid, q⟩
          | .failed error => .fail error)
        (s.withIndex (addElementOnPage s.index r blkno before).2) := by
  have hexec : hnswHandler self (.addElement r blkno before) s =
      some ((addElementOnPage s.index r blkno before).1,
        s.withIndex (addElementOnPage s.index r blkno before).2) := rfl
  rw [addElementLoop, Program.exec_bind, Program.run_step_some hexec]
  cases (addElementOnPage s.index r blkno before).1 <;> rfl

theorem addElementLoop_extends {self : ThreadId} {s s' : Shared V} (hchained : s.index.Chained)
    (fuel : Nat) {blkno : BlockNumber} {before : Option BlockNumber} {p : Placement}
    (hbefore : ∀ tid, tid.blkno < blkno → ¬ s.index.RoomAt r tid)
    (hrun : (addElementLoop r fuel blkno before).run (hnswHandler self) s = (.done p, s'))
    (hextends : s.index.pages.length < s'.index.pages.length) (tid : ItemPointer) :
    ¬ s.index.RoomAt r tid := by
  induction fuel generalizing blkno before with
  | zero => cases hrun
  | succ fuel ih =>
    have hturn := addElementOnPage_turn s.index r blkno before
    rw [run_addElementLoop] at hrun
    generalize addElementOnPage s.index r blkno before = result at hturn hrun
    cases hturn with
    | next next hpage hnext hpassed =>
      obtain ⟨rfl, -⟩ := hchained.next_eq hpage hnext
      refine ih (fun t ht => ?_) hrun
      rcases Nat.lt_succ_iff_lt_or_eq.mp ht with hlt | heq
      · exact hbefore t hlt
      · exact hpassed.noRoom t heq
    | put hput =>
      rcases hput.reply with ⟨e, hreply⟩ | ⟨t, nt, hreply⟩
      · rw [hreply] at hrun
        cases hrun
      · rw [hreply] at hrun
        obtain ⟨-, rfl⟩ := Prod.mk.inj hrun
        exact absurd hput.length hextends.ne'
    | extended hpage hlast hpassed =>
      have hend := hchained.last_eq hpage hlast
      rintro ⟨page', size, etup, hpage', hroom⟩
      have hle := (HnswIndex.page?_isSome.mp (Option.isSome_of_eq_some hpage')).2
      rcases Nat.lt_or_eq_of_le (hle.trans hend.ge) with hlt | heq
      · exact hbefore tid hlt ⟨page', size, etup, hpage', hroom⟩
      · exact hpassed.noRoom tid heq ⟨page', size, etup, hpage', hroom⟩

end Search

end PgVector.Hnsw
