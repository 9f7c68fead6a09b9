import PgVector.Hnsw.PairingInvariant

/-!
# Room for the tuples of an element

`AddElementOnDisk` looks for a page with room, decides where the two tuples go
and then relies on the page to put them there.  A page of an index never holds
more than it has room for, whatever is done to it: so the space that the page
reports is really there, and placing the tuples cannot fail.
-/

namespace PgVector.Hnsw

open Foundation

/-! ## Space on a page -/

theorem sum_map_set {α : Type} {l : List α} {i : Nat} {old : α} (h : l[i]? = some old)
    (f : α → Nat) (new : α) :
    ((l.set i new).map f).sum + f old = (l.map f).sum + f new := by
  induction l generalizing i with
  | nil => simp at h
  | cons a l ih =>
    cases i with
    | zero =>
      obtain rfl : a = old := by simpa using h
      simp only [List.set_cons_zero, List.map_cons, List.sum_cons]
      omega
    | succ i =>
      have htail := ih (by simpa using h)
      simp only [List.set_cons_succ, List.map_cons, List.sum_cons]
      omega

namespace Page

variable {T : Type} {page page' : Page T}

def used (page : Page T) : Nat := 4 * page.items.length + page.tupleBytes

theorem withinBlock_iff : page.WithinBlock ↔ page.used ≤ 8160 := by
  simp only [WithinBlock, used, lower, blcksz, maxAlign, sizeOfPageOpaqueData,
    sizeOfPageHeaderData, sizeOfItemIdData]
  omega

theorem exactFreeSpace_eq (page : Page T) : page.exactFreeSpace = 8160 - page.used := by
  simp only [exactFreeSpace, used, upper, lower, blcksz, maxAlign, sizeOfPageOpaqueData,
    sizeOfPageHeaderData, sizeOfItemIdData]
  omega

theorem used_append (page : Page T) (item : Item T) :
    ({ page with items := page.items ++ [item] } : Page T).used =
      page.used + 4 + maxAlign item.size := by
  simp only [used, tupleBytes, List.length_append, List.length_singleton, List.map_append,
    List.sum_append, List.map_cons, List.map_nil, List.sum_singleton]
  omega

theorem used_set {i : Nat} {old : Item T} (h : page.items[i]? = some old) (item : Item T) :
    ({ page with items := page.items.set i item } : Page T).used + maxAlign old.size =
      page.used + maxAlign item.size := by
  have hsum := sum_map_set h (fun item => maxAlign item.size) item
  simp only [used, tupleBytes, List.length_set]
  omega

variable {size : Nat} {offno : OffsetNumber}

theorem addItem_eq_some {tuple : T} (h : page.addItem tuple size = some (page', offno)) :
    page' = { page with items := page.items ++ [⟨size, tuple⟩] } ∧
      page.used + 4 + maxAlign size ≤ 8160 := by
  unfold addItem at h
  split at h
  · next hroom =>
    cases h
    refine ⟨rfl, ?_⟩
    simp only [upper, lower, blcksz, maxAlign, sizeOfPageOpaqueData, sizeOfPageHeaderData,
      sizeOfItemIdData] at hroom
    simp only [used, maxAlign]
    omega
  · cases h

theorem withinBlock_addItem {tuple : T} (h : page.addItem tuple size = some (page', offno)) :
    page'.WithinBlock := by
  obtain ⟨rfl, hroom⟩ := addItem_eq_some h
  rw [withinBlock_iff, used_append]
  exact hroom

theorem withinBlock_overwrite {tuple : T} (hpage : page.WithinBlock)
    (h : page.overwrite offno tuple size = some page') : page'.WithinBlock := by
  unfold overwrite at h
  split at h
  · cases h
  · next old hold =>
    split at h
    · next hroom =>
      cases h
      unfold item? at hold
      split at hold
      · cases hold
      · have hused : _ = _ + maxAlign size := used_set hold ⟨size, tuple⟩
        rw [exactFreeSpace_eq] at hroom
        rw [withinBlock_iff] at hpage ⊢
        omega
    · cases h

theorem overwrite_of_le {old : Item T} (tuple : T) (hold : page.item? offno = some old)
    (haligned : maxAlign size = size) (h : size ≤ old.size + page.exactFreeSpace) :
    page.overwrite offno tuple size =
      some { page with items := page.items.set (offno - 1) ⟨size, tuple⟩ } := by
  have hroom : maxAlign size ≤ maxAlign old.size + page.exactFreeSpace := by
    have hsize := le_maxAlign old.size
    omega
  simp only [overwrite, hold, if_pos hroom]

theorem exactFreeSpace_set {old : Item T} (tuple : T) (hpage : page.WithinBlock)
    (hold : page.item? offno = some old) (haligned : maxAlign size = size) :
    page.exactFreeSpace + old.size ≤
      ({ page with items := page.items.set (offno - 1) ⟨size, tuple⟩ } :
        Page T).exactFreeSpace + size := by
  unfold item? at hold
  split at hold
  · cases hold
  · have hused : _ = _ + maxAlign size := used_set hold ⟨size, tuple⟩
    have hsize := le_maxAlign old.size
    rw [withinBlock_iff] at hpage
    rw [exactFreeSpace_eq, exactFreeSpace_eq]
    omega

theorem withinBlock_of_sizes {items : List (Item T)} {next : Option BlockNumber}
    (hpage : page.WithinBlock) (hsizes : items.map Item.size = page.items.map Item.size) :
    (⟨items, next⟩ : Page T).WithinBlock := by
  have hlength : items.length = page.items.length := by
    simpa using congrArg List.length hsizes
  have hbytes : items.map (fun item => maxAlign item.size) =
      page.items.map fun item => maxAlign item.size := by
    have h := congrArg (List.map maxAlign) hsizes
    rwa [List.map_map, List.map_map] at h
  rw [withinBlock_iff] at hpage ⊢
  simp only [used, tupleBytes] at hpage ⊢
  rw [hlength, hbytes]
  exact hpage

theorem withinBlock_init : (init : Page T).WithinBlock := by
  rw [withinBlock_iff]
  exact Nat.zero_le _

end Page

/-! ## No page is ever too full -/

section Packed

variable {V : Type} {index index' : HnswIndex V}

def HnswIndex.Packed (index : HnswIndex V) : Prop :=
  ∀ page ∈ index.pages, page.WithinBlock

namespace HnswIndex

theorem mem_pages {blkno : BlockNumber} {page : Page (IndexTuple V)}
    (h : index.page? blkno = some page) : page ∈ index.pages := by
  unfold page? at h
  split at h
  · cases h
  · exact List.mem_of_getElem? h

theorem Packed.page? (h : index.Packed) {blkno : BlockNumber} {page : Page (IndexTuple V)}
    (hpage : index.page? blkno = some page) : page.WithinBlock :=
  h page (mem_pages hpage)

theorem Packed.setPage (h : index.Packed) (blkno : BlockNumber) {page : Page (IndexTuple V)}
    (hpage : page.WithinBlock) : (index.setPage blkno page).Packed := by
  unfold HnswIndex.setPage
  split
  · exact h
  · intro page' hpage'
    rcases List.mem_or_eq_of_mem_set hpage' with hmem | rfl
    · exact h page' hmem
    · exact hpage

theorem Packed.modifyTuple (h : index.Packed) (tid : ItemPointer)
    (f : IndexTuple V → IndexTuple V) : (index.modifyTuple tid f).Packed := by
  unfold HnswIndex.modifyTuple
  split
  · exact h
  · next page hpage =>
    apply h.setPage
    unfold Page.modify
    split
    · exact h.page? hpage
    · apply Page.withinBlock_of_sizes (h.page? hpage)
      apply List.ext_getElem?
      intro i
      simp only [List.getElem?_map, List.getElem?_modify]
      split <;> cases page.items[i]? <;> rfl

theorem Packed.hnswInsertAppendPage (h : index.Packed) {blkno : BlockNumber}
    {page : Page (IndexTuple V)} (hpage : index.page? blkno = some page) :
    (hnswInsertAppendPage index blkno page).1.Packed := by
  intro page' hpage'
  rcases List.mem_append.mp hpage' with hmem | hmem
  · exact h.setPage blkno (Page.withinBlock_of_sizes (h.page? hpage) rfl) page' hmem
  · rw [List.mem_singleton.mp hmem]
    exact Page.withinBlock_init

theorem Packed.addNewElement (h : index.Packed) (r : AddElementRequest V)
    (blkno nblkno : BlockNumber) (newInsertPage : Option BlockNumber) :
    (addNewElement index r blkno nblkno newInsertPage).2.Packed := by
  unfold Hnsw.addNewElement
  split
  · exact h
  · next page hpage =>
    simp only
    generalize (if nblkno = blkno then page.maxOffsetNumber + 1 + 1
      else firstOffsetNumber) = noffno
    split
    · exact h
    · next page' offno hadd =>
      split
      · exact h
      · split
        · exact h
        · split
          · exact h
          · next npage' noffno hnadd =>
            split
            · exact h
            · exact (h.setPage blkno (Page.withinBlock_addItem hadd)).setPage nblkno
                (Page.withinBlock_addItem hnadd)

theorem Packed.reuseElement (h : index.Packed) (r : AddElementRequest V)
    (blkno : BlockNumber) (free : FreeOffset) (newInsertPage : Option BlockNumber) :
    (reuseElement index r blkno free newInsertPage).2.Packed := by
  unfold Hnsw.reuseElement
  split
  · exact h
  split
  · exact h
  · next page hpage =>
    simp only
    split
    · exact h
    · next page' hover =>
      have hfirst := h.setPage blkno (Page.withinBlock_overwrite (h.page? hpage) hover)
      split
      · exact h
      · next npage hnpage =>
        split
        · exact h
        · next npage' hover' =>
          exact hfirst.setPage _ (Page.withinBlock_overwrite (hfirst.page? hnpage) hover')

theorem Packed.addElementOnPage (h : index.Packed) (r : AddElementRequest V)
    (blkno : BlockNumber) (newInsertPage : Option BlockNumber) :
    (addElementOnPage index r blkno newInsertPage).2.Packed := by
  unfold Hnsw.addElementOnPage
  split
  · exact h
  · next page hpage =>
    simp only
    split
    · exact h.addNewElement _ _ _ _
    · split
      · exact h.reuseElement _ _ _ _
      · split
        · exact (h.hnswInsertAppendPage hpage).addNewElement _ _ _ _
        · split
          · exact h
          · split
            · have hnew : (Hnsw.hnswInsertAppendPage index blkno page).1.page?
                  index.nextBlock = some Page.init := by
                rw [page?_hnswInsertAppendPage hpage, Function.update_self]
              exact ((h.hnswInsertAppendPage hpage).hnswInsertAppendPage hnew).addNewElement _ _ _ _
            · exact (h.hnswInsertAppendPage hpage).addNewElement _ _ _ _

theorem Packed.overwriteNeighborOnPage (h : index.Packed) {ntid : ItemPointer}
    {ntup : HnswNeighborTuple} {ntupSize : Nat}
    (hwrite : overwriteNeighborOnPage index ntid ntup ntupSize = some index') :
    index'.Packed := by
  obtain ⟨page, hpage, hmap⟩ := Option.bind_eq_some_iff.mp hwrite
  obtain ⟨page', hover, rfl⟩ := Option.map_eq_some_iff.mp hmap
  exact h.setPage _ (Page.withinBlock_overwrite (h.page? hpage) hover)

theorem Packed.addDuplicateOnPage (h : index.Packed) {tid heaptid : ItemPointer}
    {added : Bool} (hadd : addDuplicateOnPage index tid heaptid = some (added, index')) :
    index'.Packed := by
  obtain ⟨etup, -, hreply⟩ := Option.map_eq_some_iff.mp hadd
  split at hreply
  · cases hreply
    exact h
  · cases hreply
    exact h.modifyTuple _ _

theorem Packed.removeHeapTidsOnPage (h : index.Packed) {blkno : BlockNumber}
    {callback : ItemPointer → Bool} {reply : RemoveHeapTidsReply}
    (hremove : removeHeapTidsOnPage index blkno callback = some (reply, index')) :
    index'.Packed := by
  unfold Hnsw.removeHeapTidsOnPage at hremove
  split at hremove
  · cases hremove
  · next page hpage =>
    cases hremove
    apply h.setPage
    apply Page.withinBlock_of_sizes (h.page? hpage)
    rw [List.map_map]
    rfl

theorem Packed.markDeletedAt (h : index.Packed) (tid : ItemPointer) :
    (markDeletedAt index tid).2.Packed := by
  unfold Hnsw.markDeletedAt
  split
  · exact h
  · split
    · exact h
    · split
      · exact h
      · split
        · exact h
        · exact (h.modifyTuple _ _).modifyTuple _ _

end HnswIndex

theorem hnswHandler_packed {self : ThreadId} {o : HnswOp V} {s s' : Shared V} {r : o.Res}
    (h : s.index.Packed) (hexec : hnswHandler self o s = some (r, s')) :
    s'.index.Packed := by
  cases o with
  | addElement request blkno newInsertPage =>
    cases hexec
    exact h.addElementOnPage request blkno newInsertPage
  | updateNeighbor ntid tid idx startIdx lm checkExisting =>
    cases hexec
    exact h.modifyTuple ntid _
  | overwriteNeighbor ntid ntup ntupSize =>
    rcases hnswHandler_overwriteNeighbor hexec with ⟨rfl, -⟩ | ⟨index', hwrite, rfl⟩
    · exact h
    · exact h.overwriteNeighborOnPage hwrite
  | addDuplicate tid heaptid =>
    simp only [hnswHandler] at hexec
    split at hexec
    · cases hexec
      exact h
    · next added index' hadd =>
      cases hexec
      exact h.addDuplicateOnPage hadd
  | removeHeapTids blkno callback =>
    simp only [hnswHandler] at hexec
    split at hexec
    · cases hexec
      exact h
    · next reply index' hremove =>
      cases hexec
      exact h.removeHeapTidsOnPage hremove
  | markDeleted tid =>
    cases hexec
    exact h.markDeletedAt tid
  | lockPage lock mode =>
    obtain ⟨-, rfl⟩ := hnswHandler_lockPage_eq_some hexec
    exact h
  | _ =>
    cases hexec
    exact h

end Packed

/-! ## Every turn goes through -/

section Turn

variable {V : Type} {index : HnswIndex V} {r : AddElementRequest V} {blkno : BlockNumber}

structure AddElementRequest.Fits (r : AddElementRequest V) : Prop where
  etup : ∃ size, r.etupSize = hnswElementTupleSize size
  ntup : ∃ level m, r.ntupSize = hnswNeighborTupleSize level m
  etupSize : r.etupSize ≤ hnswMaxSize
  ntupSize : r.ntupSize ≤ hnswMaxSize

theorem AddElementRequest.Fits.etup_aligned (hr : r.Fits) :
    maxAlign r.etupSize = r.etupSize ∧ 0 < r.etupSize := by
  obtain ⟨size, hsize⟩ := hr.etup
  rw [hsize]
  exact ⟨maxAlign_hnswElementTupleSize size, hnswElementTupleSize_pos size⟩

theorem AddElementRequest.Fits.ntup_aligned (hr : r.Fits) :
    maxAlign r.ntupSize = r.ntupSize ∧ 0 < r.ntupSize := by
  obtain ⟨level, m, hsize⟩ := hr.ntup
  rw [hsize]
  exact ⟨maxAlign_hnswNeighborTupleSize level m, hnswNeighborTupleSize_pos level m⟩

theorem addNewElement_same (hr : r.Fits) {page : Page (IndexTuple V)}
    (hpage : index.page? blkno = some page) (hroom : r.combinedSize ≤ page.freeSpace)
    (newInsertPage : Option BlockNumber) :
    ∀ e, (addNewElement index r blkno blkno newInsertPage).1 ≠ .failed e := by
  obtain ⟨heal, hepos⟩ := hr.etup_aligned
  obtain ⟨hnal, hnpos⟩ := hr.ntup_aligned
  unfold AddElementRequest.combinedSize sizeOfItemIdData at hroom
  have hetup : r.etupSize ≤ page.freeSpace := by omega
  unfold addNewElement
  rw [hpage]
  simp only [if_true]
  rw [Page.addItem_of_le _ heal hepos hetup]
  simp only [ne_eq, not_true_eq_false, if_false]
  rw [HnswIndex.page?_setPage _ hpage, Function.update_self]
  simp only
  rw [Page.addItem_of_le _ hnal hnpos (by rw [Page.freeSpace_append heal]; omega)]
  simp [Page.maxOffsetNumber]

theorem addNewElement_append (hr : r.Fits) {page : Page (IndexTuple V)}
    (hpage : index.page? blkno = some page) (hroom : r.etupSize ≤ page.freeSpace)
    (newInsertPage : Option BlockNumber) :
    ∀ e, (addNewElement (hnswInsertAppendPage index blkno page).1 r blkno index.nextBlock
      newInsertPage).1 ≠ .failed e := by
  obtain ⟨heal, hepos⟩ := hr.etup_aligned
  obtain ⟨hnal, hnpos⟩ := hr.ntup_aligned
  have hne : blkno ≠ index.nextBlock := by
    rintro rfl
    rw [nextBlock_not_page] at hpage
    cases hpage
  have hpages := page?_hnswInsertAppendPage hpage
  obtain ⟨linked, hlinked, hroom⟩ : ∃ linked,
      (hnswInsertAppendPage index blkno page).1.page? blkno = some linked ∧
        r.etupSize ≤ linked.freeSpace := by
    refine ⟨{ page with nextblkno := some index.nextBlock }, ?_, hroom⟩
    rw [hpages, Function.update_of_ne hne, Function.update_self]
  have hnew : (hnswInsertAppendPage index blkno page).1.page? index.nextBlock = some Page.init := by
    rw [hpages, Function.update_self]
  generalize (hnswInsertAppendPage index blkno page).1 = appended at *
  unfold addNewElement
  rw [hlinked]
  simp only [if_neg hne.symm]
  rw [Page.addItem_of_le _ heal hepos hroom]
  simp only [ne_eq, Page.maxOffsetNumber, not_true_eq_false, if_false]
  rw [HnswIndex.page?_setPage _ hlinked, Function.update_of_ne hne.symm, hnew]
  simp only
  rw [Page.addItem_of_le _ hnal hnpos (by rw [Page.freeSpace_init]; exact hr.ntupSize)]
  simp [Page.maxOffsetNumber, Page.init, firstOffsetNumber]

theorem reuseElement_room (hr : r.Fits) (hindex : index.Packed) {page : Page (IndexTuple V)}
    {free : FreeOffset} {size : Nat} {old : HnswElementTuple V}
    (hpage : index.page? blkno = some page)
    (hold : page.item? free.freeOffno = some ⟨size, .element old⟩)
    (hneighbor : free.neighbortid = old.neighbortid)
    (hntup : ∃ ntup, index.neighbor? old.neighbortid = some ntup)
    (hcheck : hnswFreeSpaceCheck index blkno page ⟨size, .element old⟩ old.neighbortid
      r.etupSize r.ntupSize = true)
    (newInsertPage : Option BlockNumber) :
    ∀ e, (reuseElement index r blkno free newInsertPage).1 ≠ .failed e := by
  obtain ⟨heal, -⟩ := hr.etup_aligned
  obtain ⟨hnal, -⟩ := hr.ntup_aligned
  rw [← hneighbor] at hntup hcheck
  obtain ⟨ntup, hntup⟩ := hntup
  obtain ⟨nsize, hnitem⟩ := HnswIndex.item?_of_neighbor? hntup
  obtain ⟨npage, hnpage, hnitem⟩ := HnswIndex.item?_eq_some.mp hnitem
  unfold hnswFreeSpaceCheck at hcheck
  rw [hnpage] at hcheck
  simp only [hnitem, Bool.and_eq_true, decide_eq_true_eq] at hcheck
  obtain ⟨hetup, hfits⟩ := hcheck
  unfold reuseElement
  rw [if_neg (by simp [hntup]), hpage]
  simp only
  rw [Page.overwrite_of_le _ hold heal hetup]
  simp only
  rw [HnswIndex.page?_setPage _ hpage]
  by_cases hsame : free.neighbortid.blkno = blkno
  · -- the element has been overwritten on the same page
    rw [hsame, hpage] at hnpage
    cases hnpage
    rw [if_neg (not_not.mpr hsame), if_pos hetup] at hfits
    rw [hsame, Function.update_self]
    have hne : free.neighbortid.offno ≠ free.freeOffno := by
      intro heq
      rw [heq, hold] at hnitem
      cases hnitem
    simp only
    generalize IndexTuple.element { r.etup with
      version := free.tupleVersion, neighbortid := free.neighbortid } = tuple
    have hspace := Page.exactFreeSpace_set tuple (hindex.page? hpage) hold heal
    have hnitem' :
        ({ page with items := page.items.set (free.freeOffno - 1) ⟨r.etupSize, tuple⟩ } :
          Page (IndexTuple V)).item? free.neighbortid.offno = some ⟨nsize, .neighbor ntup⟩ := by
      rw [Page.item?_set hold, Function.update_of_ne hne, hnitem]
    rw [Page.overwrite_of_le _ hnitem' hnal (by simp only at hspace hfits ⊢; omega)]
    simp
  · rw [if_pos hsame] at hfits
    rw [Function.update_of_ne hsame, hnpage]
    simp only
    rw [Page.overwrite_of_le _ hnitem hnal hfits]
    simp

theorem addElementOnPage_room (hr : r.Fits) (hformed : index.WellFormed)
    (hindex : index.Packed) (hblkno : (index.page? blkno).isSome)
    (newInsertPage : Option BlockNumber) :
    ∀ e, (addElementOnPage index r blkno newInsertPage).1 ≠ .failed e := by
  obtain ⟨page, hpage⟩ := Option.isSome_iff_exists.mp hblkno
  unfold addElementOnPage
  rw [hpage]
  simp only
  generalize (if newInsertPage.isNone && decide (r.minCombinedSize ≤ page.freeSpace)
    then some blkno else newInsertPage) = insertPage
  split
  · next hroom => exact addNewElement_same hr hpage hroom insertPage
  · split
    · next free insertPage' hfree =>
      obtain ⟨size, old, hold, -, hneighbor, -, hcheck⟩ := hnswFreeOffset_eq_some hfree
      have hetup : index.element? ⟨blkno, free.freeOffno⟩ = some old :=
        HnswIndex.element?_of_item? (HnswIndex.item?_eq_some.mpr ⟨page, hpage, hold⟩)
      obtain ⟨ntup, hntup⟩ := hformed.neighbortid hetup
      exact reuseElement_room hr hindex hpage hold hneighbor ⟨ntup, hntup⟩
        (hcheck (Option.isSome_of_eq_some hntup)) insertPage'
    · next insertPage' hfree =>
      split
      · next hspace => exact addNewElement_append hr hpage hspace.2.1 insertPage'
      · split
        · simp
        · -- a new page, and a second one if it has no room for both
          have hnew : (hnswInsertAppendPage index blkno page).1.page? index.nextBlock =
              some Page.init := by
            rw [page?_hnswInsertAppendPage hpage, Function.update_self]
          split
          · exact addNewElement_append hr hnew
              (by rw [Page.freeSpace_init]; exact hr.etupSize) insertPage'
          · next hsmall =>
            exact addNewElement_same hr hnew (Nat.le_of_not_lt hsmall) insertPage'

end Turn

/-! ## The loop -/

section Loop

variable {V : Type} {index : HnswIndex V} {r : AddElementRequest V}

inductive Turned (index : HnswIndex V) (r : AddElementRequest V) (blkno : BlockNumber) :
    AddElementReply → HnswIndex V → Prop
  | next (newInsertPage : Option BlockNumber) :
      (index.page? (blkno + 1)).isSome →
      Turned index r blkno (.next (blkno + 1) newInsertPage) index
  | placed (tid neighbortid : ItemPointer) (newInsertPage : BlockNumber)
      {after : HnswIndex V} :
      Placed index r (.placed tid neighbortid newInsertPage) after →
      Turned index r blkno (.placed tid neighbortid newInsertPage) after

theorem addElementOnPage_turned (hr : r.Fits) (hformed : index.WellFormed)
    (hindex : index.Packed) {blkno : BlockNumber} (hblkno : (index.page? blkno).isSome)
    (newInsertPage : Option BlockNumber) :
    Turned index r blkno (addElementOnPage index r blkno newInsertPage).1
      (addElementOnPage index r blkno newInsertPage).2 := by
  have hroom := addElementOnPage_room hr hformed hindex hblkno newInsertPage
  rcases addElementOnPage_cases index r blkno newInsertPage with
    ⟨hsame, page, next, insertPage, hpage, hnext, hreply⟩ | ⟨hplaced, -⟩
  · have hchain := hformed.chained blkno page hpage
    rw [hnext] at hchain
    split at hchain
    · next hlt =>
      cases hchain
      rw [hsame, hreply]
      refine .next insertPage (HnswIndex.page?_isSome.mpr ⟨Nat.succ_le_succ (Nat.zero_le _), ?_⟩)
      exact hlt
    · cases hchain
  · cases hreply : (addElementOnPage index r blkno newInsertPage).1 with
    | failed e => exact absurd hreply (hroom e)
    | next next insertPage =>
      rw [hreply] at hplaced
      cases hplaced
    | placed tid neighbortid insertPage =>
      rw [hreply] at hplaced
      exact .placed tid neighbortid insertPage hplaced

theorem addElementLoop_returns (hr : r.Fits) {s : Shared V} (hformed : s.index.WellFormed)
    (hindex : s.index.Packed) (self : ThreadId) (fuel : Nat) {blkno : BlockNumber}
    (hblkno : (s.index.page? blkno).isSome) (hfuel : s.index.pages.length < blkno + fuel)
    (newInsertPage : Option BlockNumber) :
    (addElementLoop r fuel blkno newInsertPage).Returns (hnswHandler self) s fun p s' =>
      Placed s.index r (.placed p.tid p.neighbortid p.newInsertPage) s'.index := by
  induction fuel generalizing blkno newInsertPage with
  | zero =>
    have hle := (HnswIndex.page?_isSome.mp hblkno).2
    exact absurd hfuel (Nat.not_lt.mpr hle)
  | succ fuel ih =>
    have hturn := addElementOnPage_turned hr hformed hindex hblkno newInsertPage
    refine Program.Returns.perform (show hnswHandler self
      (.addElement r blkno newInsertPage) s = some (_, _) from rfl) ?_
    generalize addElementOnPage s.index r blkno newInsertPage = turn at hturn ⊢
    obtain ⟨reply, after⟩ := turn
    cases hturn with
    | next insertPage hnext => exact ih hnext (by omega) insertPage
    | placed tid neighbortid insertPage hplaced => exact .ret hplaced

end Loop

/-! ## The pages of a flushed index -/

section Flushed

variable {V F : Type}

theorem foldlM_invariant {α β ε : Type} {f : β → α → Except ε β} {I : β → Prop}
    (hstep : ∀ {b a b'}, I b → f b a = .ok b' → I b') {l : List α} {b b' : β}
    (h : l.foldlM f b = .ok b') (hb : I b) : I b' := by
  induction l generalizing b with
  | nil =>
    cases h
    exact hb
  | cons a l ih =>
    rw [List.foldlM_cons] at h
    cases hfirst : f b a with
    | error e =>
      rw [hfirst] at h
      cases h
    | ok b₁ =>
      rw [hfirst] at h
      exact ih h (hstep hb hfirst)

namespace FlushState

variable {st st' : FlushState V}

def Packed (st : FlushState V) : Prop := ∀ page ∈ st.full ++ [st.page], page.WithinBlock

theorem packed_iff : st.Packed ↔ (∀ page ∈ st.full, page.WithinBlock) ∧ st.page.WithinBlock := by
  simp [Packed, or_imp, forall_and]

theorem Packed.ensure (h : st.Packed) (needsPage : Bool) : (st.ensure needsPage).Packed := by
  unfold FlushState.ensure
  split
  · rw [packed_iff] at h
    rw [packed_iff]
    refine ⟨?_, Page.withinBlock_init⟩
    intro page hpage
    rcases List.mem_append.mp hpage with hmem | hmem
    · exact h.1 page hmem
    · rw [List.mem_singleton.mp hmem]
      exact Page.withinBlock_of_sizes h.2 rfl
  · exact h

theorem Packed.addItem (h : st.Packed) {tuple : IndexTuple V} {size : Nat}
    {offno : OffsetNumber} (hadd : st.addItem tuple size offno = .ok st') : st'.Packed := by
  unfold FlushState.addItem at hadd
  split at hadd
  · cases hadd
  · next page added hpage =>
    split at hadd
    · cases hadd
      rw [packed_iff] at h
      exact packed_iff.mpr ⟨h.1, Page.withinBlock_addItem hpage⟩
    · cases hadd

theorem Packed.placeElement (h : st.Packed) {valueSize : V → Nat} {m : Nat}
    {e : GraphElement V F} (hplace : placeElement valueSize m st e = .ok st') :
    st'.Packed := by
  unfold Hnsw.placeElement at hplace
  dsimp only at hplace
  split at hplace
  · cases hplace
  · generalize hfirst : FlushState.addItem (FlushState.ensure st _) _ _ _ = first at hplace
    cases first with
    | error e => cases hplace
    | ok st₁ =>
      change (FlushState.addItem (FlushState.ensure st₁ _) _ _ _ >>= _) = _ at hplace
      generalize hsecond : FlushState.addItem (FlushState.ensure st₁ _) _ _ _ = second at hplace
      cases second with
      | error e => cases hplace
      | ok st₂ =>
        have h₂ := (((h.ensure _).addItem hfirst).ensure _).addItem hsecond
        cases hplace
        exact h₂

end FlushState

theorem flushPages_packed {valueSize : V → Nat} {m : Nat} {graph : HnswGraph V F}
    {index : HnswIndex V} (h : flushPages valueSize m graph = .ok index) : index.Packed := by
  unfold flushPages at h
  cases hcreate : createGraphPages valueSize m graph.elements.reverse with
  | error e =>
    rw [hcreate] at h
    cases h
  | ok st =>
    rw [hcreate] at h
    have hst : st.Packed := by
      refine foldlM_invariant (fun hb hstep => hb.placeElement hstep) hcreate ?_
      exact FlushState.packed_iff.mpr ⟨by simp [FlushState.start], Page.withinBlock_init⟩
    refine foldlM_invariant (I := HnswIndex.Packed) ?_ h hst
    intro index element index' hindex hwrite
    unfold writeNeighborTuple at hwrite
    split at hwrite
    · cases hwrite
    · next after hover =>
      cases hwrite
      exact hindex.overwriteNeighborOnPage hover

end Flushed

/-! ## Placing an element -/

section Place

variable {V D F : Type} [LinearOrder D] [LinearOrder F] [DecidableEq V]

/--
Whatever has been done to an index, an element that fits can be placed on it: no
turn of the loop fails, and the loop ends once it has gone through the chain.
-/
theorem adding_element_succeeds (ctx : InsertContext V D F) (m : Nat) (hm : 2 ≤ m ∧ m ≤ 100)
    (valueSize : V → Nat)
    (built : Pool (memorySignature V F) (MemoryState V F) (MemoryInsert V))
    (hbuilt : (memorySystem ctx m True).Reaches (Pool.idle .init) built)
    (s : Monitored V) (hflush : flushPages valueSize m built.shared.graph = .ok s.shared.index)
    (pool : Pool (hnswSignature V) (Monitored V) (Task V D F))
    (hreach : (hnswSystem (fun _ => True) (fun _ _ _ => True)).Reaches (Pool.idle s) pool)
    (r : AddElementRequest V) (hr : r.Fits) (blkno : BlockNumber)
    (hblkno : (pool.shared.shared.index.page? blkno).isSome) :
    (∀ newInsertPage, Turned pool.shared.shared.index r blkno
      (addElementOnPage pool.shared.shared.index r blkno newInsertPage).1
      (addElementOnPage pool.shared.shared.index r blkno newInsertPage).2) ∧
    ∀ (self : ThreadId) (fuel : Nat), pool.shared.shared.index.pages.length < blkno + fuel →
      (addElementLoop r fuel blkno none).Returns (hnswHandler self) pool.shared.shared
        fun p s' => Placed pool.shared.shared.index r
          (.placed p.tid p.neighbortid p.newInsertPage) s'.index := by
  have hformed := (matched_reaches hm hbuilt hflush hreach).1.toWellFormed
  have hpacked : pool.shared.shared.index.Packed := by
    refine System.Reaches.invariant (I := fun s : Monitored V => s.shared.index.Packed) ?_ ?_
      ?_ hreach (flushPages_packed hflush)
    · intro i o s₁ reply s₂ hs hexec
      obtain ⟨⟨reply', s'⟩, hhandler, heq⟩ := Option.map_eq_some_iff.mp hexec
      cases heq
      exact hnswHandler_packed hs hhandler
    · exact fun _ _ _ hs => hs
    · exact fun _ _ _ hs => hs
  refine ⟨fun newInsertPage => addElementOnPage_turned hr hformed hpacked hblkno newInsertPage,
    fun self fuel hfuel => ?_⟩
  exact addElementLoop_returns hr hformed hpacked self fuel hblkno hfuel none

end Place

/-- A second number is placed on the page of the first. -/
theorem adding_element_succeeds_two :
    (addElementLoop ((numberInserts 4).addRequest 7 ⟨0, 2⟩ 0 2 [[]]) 1 1 none).Returns
      (hnswHandler 0) flushedElementShared.shared fun p s' =>
        Placed oneElementIndex ((numberInserts 4).addRequest 7 ⟨0, 2⟩ 0 2 [[]])
          (.placed p.tid p.neighbortid p.newInsertPage) s'.index := by
  obtain ⟨built, hbuilt, hflush⟩ := oneElementIndex_built
  exact (adding_element_succeeds (numberInserts 4) 2 (by decide) (fun _ => 8) built hbuilt
    flushedElementShared hflush (Pool.idle flushedElementShared) .refl _
    ⟨⟨_, rfl⟩, ⟨_, _, rfl⟩, by decide, by decide⟩ 1 rfl).2 0 1 (by decide)

end PgVector.Hnsw
