import Mathlib.Algebra.Order.Group.Multiset
import PgVector.Foundation.Chain
import PgVector.Hnsw.Storage
import PgVector.Ivfflat.Backend

/-!
# The chains of the lists

`Laid index chains` says which entry pages belong to which list: the chain of each
list is found by following the links from its start page, block numbers increase
along it, no page is on two chains and none is on no chain, and the insert page of
a list is on its chain.  There is one lemma for each change that the access method
makes to an index.
-/

namespace PgVector.Ivfflat

open Foundation
open Hnsw (BlockNumber OffsetNumber ItemPointer Page Item firstOffsetNumber)

theorem mem_zipIdx_iff_item? {T : Type} {page : Page T} {item : Item T}
    {offno : OffsetNumber} :
    (item, offno) ∈ page.items.zipIdx firstOffsetNumber ↔ page.item? offno = some item := by
  rw [List.mk_mem_zipIdx_iff_le_and_getElem?_sub, firstOffsetNumber, Page.item?]
  by_cases hzero : offno = 0
  · simp [hzero]
  · simp [hzero, Nat.one_le_iff_ne_zero]

namespace IvfflatIndex

variable {V : Type} {index index' : IvfflatIndex V}

/-! ## Pages -/

theorem page?_setPage {blkno : BlockNumber} {old : IvfflatPage V}
    (h : index.page? blkno = some old) (page : IvfflatPage V) :
    (index.setPage blkno page).page? = Function.update index.page? blkno (some page) :=
  block?_setBlock h page

@[simp] theorem length_setPage (index : IvfflatIndex V) (blkno : BlockNumber)
    (page : IvfflatPage V) :
    (index.setPage blkno page).pages.length = index.pages.length :=
  length_setBlock index.pages blkno page

theorem page?_newBuffer (index : IvfflatIndex V) (page : IvfflatPage V) :
    (index.newBuffer page).page? = Function.update index.page? index.nextBlock (some page) :=
  block?_append index.pages page

theorem page?_nextBlock (index : IvfflatIndex V) : index.page? index.nextBlock = none :=
  block?_length_succ index.pages

theorem entryPage?_eq_some {blkno : BlockNumber} {page : Page (IndexTuple V)} :
    index.entryPage? blkno = some page ↔ index.page? blkno = some (.entries page) := by
  unfold entryPage?
  split <;> simp_all

theorem listPage?_eq_some {blkno : BlockNumber} {page : Page (IvfflatList V)} :
    index.listPage? blkno = some page ↔ index.page? blkno = some (.lists page) := by
  unfold listPage?
  split <;> simp_all

theorem list?_eq_some {info : ListInfo} {list : IvfflatList V} :
    index.list? info = some list ↔
      ∃ page, index.page? info.blkno = some (.lists page) ∧ page.tuple? info.offno = some list := by
  simp only [list?, Option.bind_eq_some_iff, listPage?_eq_some]

def entryNext (index : IvfflatIndex V) (blkno : BlockNumber) : Option (Option BlockNumber) :=
  (index.entryPage? blkno).map Page.nextblkno

def listNext (index : IvfflatIndex V) (blkno : BlockNumber) : Option (Option BlockNumber) :=
  (index.listPage? blkno).map Page.nextblkno

def tidsAt (index : IvfflatIndex V) (blkno : BlockNumber) : Multiset ItemPointer :=
  match index.entryPage? blkno with
  | none => 0
  | some page => (page.items.map fun item => item.tuple.tid : List ItemPointer)

theorem entryNext_eq_some {blkno : BlockNumber} {link : Option BlockNumber} :
    index.entryNext blkno = some link ↔
      ∃ page, index.page? blkno = some (.entries page) ∧ page.nextblkno = link := by
  simp only [entryNext, Option.map_eq_some_iff, entryPage?_eq_some]

theorem entryNext_bounds {blkno : BlockNumber} {link : Option BlockNumber}
    (h : index.entryNext blkno = some link) : 1 ≤ blkno ∧ blkno ≤ index.pages.length := by
  obtain ⟨page, hpage, -⟩ := entryNext_eq_some.mp h
  exact bounds_of_block? hpage

/-! ## The same after a change of one page -/

section Update

variable {blkno : BlockNumber}

variable {page : Page (IndexTuple V)}

theorem entryPage?_update_entries
    (h : index'.page? = Function.update index.page? blkno (some (.entries page))) :
    index'.entryPage? = Function.update index.entryPage? blkno (some page) := by
  funext b
  unfold entryPage?
  rw [h]
  by_cases hb : b = blkno
  · subst hb
    simp
  · simp [Function.update_of_ne hb]

theorem entryPage?_update_lists {page : Page (IvfflatList V)} (hold : index.entryPage? blkno = none)
    (h : index'.page? = Function.update index.page? blkno (some (.lists page))) :
    index'.entryPage? = index.entryPage? := by
  funext b
  by_cases hb : b = blkno
  · subst hb
    rw [hold]
    simp [entryPage?, h]
  · simp [entryPage?, h, Function.update_of_ne hb]

theorem listPage?_update_entries (hold : index.listPage? blkno = none)
    (h : index'.page? = Function.update index.page? blkno (some (.entries page))) :
    index'.listPage? = index.listPage? := by
  funext b
  by_cases hb : b = blkno
  · subst hb
    rw [hold]
    simp [listPage?, h]
  · simp [listPage?, h, Function.update_of_ne hb]

theorem listPage?_of_entries (h : index.page? blkno = some (.entries page)) :
    index.listPage? blkno = none := by
  simp [listPage?, h]

theorem entryPage?_of_lists {page : Page (IvfflatList V)}
    (h : index.page? blkno = some (.lists page)) : index.entryPage? blkno = none := by
  simp [entryPage?, h]

theorem entryNext_congr (h : index'.entryPage? = index.entryPage?) :
    index'.entryNext = index.entryNext := by
  funext b
  simp [entryNext, h]

theorem tidsAt_congr (h : index'.entryPage? = index.entryPage?) : index'.tidsAt = index.tidsAt := by
  funext b
  simp [tidsAt, h]

theorem list?_congr (h : index'.listPage? = index.listPage?) : index'.list? = index.list? := by
  funext info
  simp [list?, h]

theorem entryNext_update
    (h : index'.entryPage? = Function.update index.entryPage? blkno (some page)) :
    index'.entryNext = Function.update index.entryNext blkno (some page.nextblkno) := by
  funext b
  by_cases hb : b = blkno
  · subst hb
    simp [entryNext, h]
  · simp [entryNext, h, Function.update_of_ne hb]

theorem tidsAt_update (h : index'.entryPage? = Function.update index.entryPage? blkno (some page)) :
    index'.tidsAt = Function.update index.tidsAt blkno
      (page.items.map fun item => item.tuple.tid : List ItemPointer) := by
  funext b
  by_cases hb : b = blkno
  · subst hb
    simp [tidsAt, h]
  · simp [tidsAt, h, Function.update_of_ne hb]

end Update

end IvfflatIndex

/-! ## The layout -/

def IvfflatIndex.root {V : Type} (index : IvfflatIndex V) (info : ListInfo) :
    Option (Option BlockNumber) :=
  (index.list? info).map IvfflatList.startPage

structure Laid {V : Type} (index : IvfflatIndex V)
    (chains : ListInfo → List BlockNumber) : Prop where
  linked : Chains index.entryNext index.root chains
  insertPage : ∀ info list, index.list? info = some list →
    ∀ blkno, list.insertPage = some blkno → blkno ∈ chains info

def Covers {V ι : Type} (index : IvfflatIndex V) (chains : ι → List BlockNumber) : Prop :=
  ∀ blkno link, index.entryNext blkno = some link → ∃ i, blkno ∈ chains i

def ListsLinked {V : Type} (index : IvfflatIndex V) (blocks : List BlockNumber) : Prop :=
  Chain index.listNext (some ivfflatHeadBlkno) blocks ∧ blocks.Pairwise (· < ·) ∧
    ∀ blkno link, index.listNext blkno = some link → blkno ∈ blocks

structure WellFormed {V : Type} (index : IvfflatIndex V)
    (chains : ListInfo → List BlockNumber) : Prop where
  laid : Laid index chains
  covers : Covers index chains
  ready : ∀ info list, index.list? info = some list → ∃ blkno, list.insertPage = some blkno
  lists : ∃ blocks, ListsLinked index blocks
  /-- The metapage knows how many lists there are. -/
  listCount : ∃ infos : List ListInfo, infos.Nodup ∧
    infos.length = index.metapage.lists ∧
    ∀ info, info ∈ infos ↔ ∃ list, index.list? info = some list
  lists_pos : 1 ≤ index.metapage.lists
  magicNumber : index.metapage.magicNumber = ivfflatMagicNumber

namespace Laid

variable {V : Type} {index index' : IvfflatIndex V} {chains : ListInfo → List BlockNumber}
  {info : ListInfo} {blkno : BlockNumber}

theorem exists_list (h : Laid index chains) (hmem : blkno ∈ chains info) :
    ∃ list, index.list? info = some list := by
  obtain ⟨start, hroot⟩ := h.linked.exists_root hmem
  obtain ⟨list, hlist, -⟩ := Option.map_eq_some_iff.mp hroot
  exact ⟨list, hlist⟩

theorem start_mem (h : Laid index chains) {list : IvfflatList V}
    (hlist : index.list? info = some list) (hstart : list.startPage = some blkno) :
    blkno ∈ chains info := by
  apply h.linked.root_mem
  simp [IvfflatIndex.root, hlist, hstart]

theorem congr (h : Laid index chains) (hnext : index'.entryNext = index.entryNext)
    (hlist : index'.list? = index.list?) : Laid index' chains := by
  have hroot : index'.root = index.root := by
    funext info
    simp [IvfflatIndex.root, hlist]
  constructor
  · rw [hnext, hroot]
    exact h.linked
  · rw [hlist]
    exact h.insertPage

theorem updateList (h : Laid index chains) {list list' : IvfflatList V}
    (hlist : index.list? info = some list) (hstart : list'.startPage = list.startPage)
    (hinsert : ∀ b, list'.insertPage = some b → b ∈ chains info)
    (hnext : index'.entryNext = index.entryNext)
    (hlist' : index'.list? = Function.update index.list? info (some list')) :
    Laid index' chains := by
  have hroot : index'.root = index.root := by
    funext info'
    by_cases hinfo : info' = info
    · subst hinfo
      simp [IvfflatIndex.root, hlist', hlist, hstart]
    · simp [IvfflatIndex.root, hlist', Function.update_of_ne hinfo]
  constructor
  · rw [hnext, hroot]
    exact h.linked
  · intro info' l hl b hb
    rw [hlist'] at hl
    by_cases hinfo : info' = info
    · subst hinfo
      rw [Function.update_self] at hl
      cases hl
      exact hinsert b hb
    · rw [Function.update_of_ne hinfo] at hl
      exact h.insertPage info' l hl b hb

end Laid

/-! ## What the changes of an index do -/

section Changes

variable {V : Type} {index index' : IvfflatIndex V} {blkno : BlockNumber}

theorem addToPage_cases (index : IvfflatIndex V) (blkno : BlockNumber)
    (page : Page (IndexTuple V)) (itup : IndexTuple V) (itemsz : Nat) :
    addToPage index blkno page itup itemsz = (.failed, index) ∨
      ∃ page', addToPage index blkno page itup itemsz =
          (.placed blkno, index.setPage blkno (.entries page')) ∧
        page'.nextblkno = page.nextblkno ∧
        page'.items = page.items ++ [⟨itemsz, itup⟩] := by
  unfold addToPage
  rcases hadd : page.addItem itup itemsz with _ | ⟨page', offno⟩
  · exact .inl rfl
  · refine .inr ⟨page', rfl, ?_⟩
    unfold Page.addItem at hadd
    split at hadd
    · obtain ⟨rfl, -⟩ := Prod.mk.inj (Option.some.inj hadd)
      exact ⟨rfl, rfl⟩
    · cases hadd

/-- The page of an index that one turn of the loop of `InsertTuple` looks at. -/
inductive InsertTurn (index : IvfflatIndex V) (blkno : BlockNumber)
    (page : Page (IndexTuple V)) (itup : IndexTuple V) (itemsz : Nat) :
    PlaceReply → IvfflatIndex V → Prop
  | refused : itemsz ≤ page.freeSpace → InsertTurn index blkno page itup itemsz .failed index
  | placed {page' : Page (IndexTuple V)} {index' : IvfflatIndex V} :
      itemsz ≤ page.freeSpace →
      index'.page? = Function.update index.page? blkno (some (.entries page')) →
      index'.pages.length = index.pages.length →
      index'.metapage = index.metapage →
      page'.nextblkno = page.nextblkno →
      page'.items = page.items ++ [⟨itemsz, itup⟩] →
      InsertTurn index blkno page itup itemsz (.placed blkno) index'
  | next {next : BlockNumber} : ¬itemsz ≤ page.freeSpace → page.nextblkno = some next →
      InsertTurn index blkno page itup itemsz (.next next) index
  | extended {reply : PlaceReply} {page' : Page (IndexTuple V)} {index' : IvfflatIndex V} :
      ¬itemsz ≤ page.freeSpace → page.nextblkno = none →
      index'.page? = Function.update (Function.update index.page? blkno
        (some (.entries { page with nextblkno := some index.nextBlock })))
          index.nextBlock (some (.entries page')) →
      index'.pages.length = index.pages.length + 1 →
      index'.metapage = index.metapage →
      page'.nextblkno = none →
      (reply = .failed ∧ page'.items = [] ∨
        reply = .placed index.nextBlock ∧ page'.items = [⟨itemsz, itup⟩]) →
      InsertTurn index blkno page itup itemsz reply index'

variable {page page' : Page (IndexTuple V)}

theorem insertOnPage_turn (hpage : index.page? blkno = some (.entries page)) (itup : IndexTuple V)
    (itemsz : Nat) :
    InsertTurn index blkno page itup itemsz (insertOnPage index blkno itup itemsz).1
      (insertOnPage index blkno itup itemsz).2 := by
  have hentry : index.entryPage? blkno = some page :=
    IvfflatIndex.entryPage?_eq_some.mpr hpage
  unfold insertOnPage
  rw [hentry]
  dsimp only
  split
  · next hroom =>
    rcases addToPage_cases index blkno page itup itemsz with hadd | ⟨page', hadd, hn, hi⟩
    · rw [hadd]
      exact .refused hroom
    · rw [hadd]
      exact .placed hroom (IvfflatIndex.page?_setPage hpage _) (by simp) rfl hn hi
  · next hroom =>
    split
    · next next hnext => exact .next hroom hnext
    · next hnext =>
      -- the index with the new page linked, still empty
      have hlinked := IvfflatIndex.page?_newBuffer (index.setPage blkno
        (.entries { page with nextblkno := some index.nextBlock })) (.entries Page.init)
      have hblock : (index.setPage blkno (.entries
          { page with nextblkno := some index.nextBlock })).nextBlock = index.nextBlock := by
        simp [IvfflatIndex.nextBlock]
      rw [hblock, IvfflatIndex.page?_setPage hpage] at hlinked
      rcases addToPage_cases ((index.setPage blkno (.entries
          { page with nextblkno := some index.nextBlock })).newBuffer
            (.entries Page.init)) index.nextBlock Page.init itup itemsz with
        hadd | ⟨page', hadd, hn, hi⟩
      · rw [hadd]
        exact .extended hroom hnext hlinked
          (by simp [IvfflatIndex.newBuffer]) rfl rfl
          (.inl ⟨rfl, rfl⟩)
      · rw [hadd]
        have hwritten := IvfflatIndex.page?_setPage
          (congrFun hlinked index.nextBlock |>.trans (Function.update_self ..))
          (.entries page')
        rw [hlinked, Function.update_idem] at hwritten
        exact .extended hroom hnext hwritten
          (by simp [IvfflatIndex.newBuffer]) rfl hn
          (.inr ⟨rfl, hi⟩)

def IvfflatIndex.entryTids (index : IvfflatIndex V) : Multiset ItemPointer :=
  sumBlocks index.pages.length index.tidsAt

def PlaceReply.stored (reply : PlaceReply) (tid : ItemPointer) : Multiset ItemPointer :=
  match reply with
  | .placed _ => {tid}
  | _ => 0

def Extends {ι : Type} (chains chains' : ι → List BlockNumber) : Prop :=
  ∀ i, ∀ blkno ∈ chains i, blkno ∈ chains' i

theorem Extends.refl {ι : Type} (chains : ι → List BlockNumber) : Extends chains chains :=
  fun _ _ h => h

theorem Extends.trans {ι : Type} {chains₁ chains₂ chains₃ : ι → List BlockNumber}
    (h : Extends chains₁ chains₂) (h' : Extends chains₂ chains₃) :
    Extends chains₁ chains₃ :=
  fun i b hb => h' i b (h i b hb)

structure KeepsLists (index index' : IvfflatIndex V) : Prop where
  listPage : index'.listPage? = index.listPage?
  metapage : index'.metapage = index.metapage

theorem KeepsLists.list (h : KeepsLists index index') : index'.list? = index.list? :=
  IvfflatIndex.list?_congr h.listPage

theorem KeepsLists.root (h : KeepsLists index index') : index'.root = index.root := by
  funext info
  simp [IvfflatIndex.root, h.list]

theorem KeepsLists.listNext (h : KeepsLists index index') : index'.listNext = index.listNext := by
  funext b
  simp [IvfflatIndex.listNext, h.listPage]

theorem ListsLinked.congr {blocks : List BlockNumber} (h : ListsLinked index blocks)
    (hnext : index'.listNext = index.listNext) : ListsLinked index' blocks := by
  unfold ListsLinked
  rw [hnext]
  exact h

theorem WellFormed.of_keepsLists {chains chains' : ListInfo → List BlockNumber}
    (h : WellFormed index chains) (hkeeps : KeepsLists index index')
    (hlaid : Laid index' chains') (hcovers : Covers index' chains') :
    WellFormed index' chains' where
  laid := hlaid
  covers := hcovers
  ready := by
    rw [hkeeps.list]
    exact h.ready
  lists := by
    obtain ⟨blocks, hblocks⟩ := h.lists
    exact ⟨blocks, hblocks.congr hkeeps.listNext⟩
  listCount := by
    rw [hkeeps.list, hkeeps.metapage]
    exact h.listCount
  lists_pos := by
    rw [hkeeps.metapage]
    exact h.lists_pos
  magicNumber := by
    rw [hkeeps.metapage]
    exact h.magicNumber

theorem items_written (hpage : index.page? blkno = some (.entries page))
    (hindex : index'.page? = Function.update index.page? blkno (some (.entries page')))
    (hnext : page'.nextblkno = page.nextblkno) :
    index'.entryNext = index.entryNext ∧ index'.listPage? = index.listPage? := by
  have hentry := IvfflatIndex.entryPage?_update_entries hindex
  constructor
  · rw [IvfflatIndex.entryNext_update hentry, hnext, Function.update_eq_self_iff]
    exact (IvfflatIndex.entryNext_eq_some.mpr ⟨page, hpage, rfl⟩).symm
  · exact IvfflatIndex.listPage?_update_entries (IvfflatIndex.listPage?_of_entries hpage) hindex

theorem entryTids_written (hpage : index.page? blkno = some (.entries page))
    (hindex : index'.page? = Function.update index.page? blkno (some (.entries page')))
    (hlen : index'.pages.length = index.pages.length) :
    index'.entryTids + (page.items.map fun item => item.tuple.tid : List ItemPointer) =
      index.entryTids + (page'.items.map fun item => item.tuple.tid : List ItemPointer) := by
  have htids := IvfflatIndex.tidsAt_update (IvfflatIndex.entryPage?_update_entries hindex)
  have hold : index.tidsAt blkno =
      (page.items.map fun item => item.tuple.tid : List ItemPointer) := by
    simp [IvfflatIndex.tidsAt, IvfflatIndex.entryPage?_eq_some.mpr hpage]
  unfold IvfflatIndex.entryTids
  rw [hlen, htids, ← hold]
  exact sumBlocks_update (bounds_of_block? hpage) _

theorem page_linked (hpage : index.page? blkno = some (.entries page))
    (hindex : index'.page? = Function.update (Function.update index.page? blkno
      (some (.entries { page with nextblkno := some index.nextBlock })))
      index.nextBlock (some (.entries page')))
    (hnext : page'.nextblkno = none) :
    index'.entryNext = Function.update (Function.update index.entryNext blkno
        (some (some index.nextBlock))) index.nextBlock (some none) ∧
      index'.listPage? = index.listPage? := by
  have hne : blkno ≠ index.nextBlock :=
    Nat.ne_of_lt (Nat.lt_succ_of_le (bounds_of_block? hpage).2)
  let mid : IvfflatIndex V := index.setPage blkno
    (.entries { page with nextblkno := some index.nextBlock })
  have hmid : mid.page? = Function.update index.page? blkno
      (some (.entries { page with nextblkno := some index.nextBlock })) :=
    IvfflatIndex.page?_setPage hpage _
  rw [← hmid] at hindex
  constructor
  · have hlinks := IvfflatIndex.entryNext_update (IvfflatIndex.entryPage?_update_entries hindex)
    rw [IvfflatIndex.entryNext_update (IvfflatIndex.entryPage?_update_entries hmid),
      hnext] at hlinks
    exact hlinks
  · have hmidNew : mid.page? index.nextBlock = none := by
      rw [hmid, Function.update_of_ne (Ne.symm hne), IvfflatIndex.page?_nextBlock]
    refine (IvfflatIndex.listPage?_update_entries ?_ hindex).trans
      (IvfflatIndex.listPage?_update_entries (IvfflatIndex.listPage?_of_entries hpage) hmid)
    simp [IvfflatIndex.listPage?, hmidNew]

theorem InsertTurn.links (hpage : index.page? blkno = some (.entries page)) {itup : IndexTuple V}
    {itemsz : Nat} {reply : PlaceReply}
    (hturn : InsertTurn index blkno page itup itemsz reply index') :
    index'.listPage? = index.listPage? ∧
      (index'.entryNext = index.entryNext ∨
        index'.entryNext = Function.update (Function.update index.entryNext blkno
          (some (some index.nextBlock))) index.nextBlock (some none)) := by
  cases hturn with
  | refused _ => exact ⟨rfl, .inl rfl⟩
  | placed _ hindex _ _ hnext _ =>
    obtain ⟨hlinks, hlists⟩ := items_written hpage hindex hnext
    exact ⟨hlists, .inl hlinks⟩
  | next _ _ => exact ⟨rfl, .inl rfl⟩
  | extended _ _ hindex _ _ hnext _ =>
    obtain ⟨hlinks, hlists⟩ := page_linked hpage hindex hnext
    exact ⟨hlists, .inr hlinks⟩

theorem InsertTurn.chains {ι : Type} [DecidableEq ι] {root : ι → Option (Option BlockNumber)}
    {chains : ι → List BlockNumber} {i : ι} (h : Chains index.entryNext root chains)
    (hcovers : Covers index chains) (hmem : blkno ∈ chains i)
    (hpage : index.page? blkno = some (.entries page)) {itup : IndexTuple V} {itemsz : Nat}
    {reply : PlaceReply} (hturn : InsertTurn index blkno page itup itemsz reply index') :
    ∃ chains', Chains index'.entryNext root chains' ∧ Covers index' chains' ∧
      Extends chains chains' ∧ KeepsLists index index' ∧
      (∀ b, reply = .placed b ∨ reply = .next b → b ∈ chains' i) ∧
      index'.entryTids = index.entryTids + reply.stored itup.tid := by
  cases hturn with
  | refused hroom =>
    exact ⟨chains, h, hcovers, .refl chains, ⟨rfl, rfl⟩, by simp,
      by simp [PlaceReply.stored]⟩
  | @placed page' _ hroom hindex hlen hmeta hnext hitems =>
    obtain ⟨hlinks, hlists⟩ := items_written hpage hindex hnext
    refine ⟨chains, hlinks ▸ h, ?_, .refl chains, ⟨hlists, hmeta⟩, ?_, ?_⟩
    · intro b link hb
      rw [hlinks] at hb
      exact hcovers b link hb
    · simp [hmem]
    · have hsum := entryTids_written hpage hindex hlen
      rw [hitems, List.map_append, ← Multiset.coe_add, ← add_assoc,
        add_right_comm, add_right_cancel_iff] at hsum
      simpa [PlaceReply.stored] using hsum
  | @next next hroom hnext =>
    refine ⟨chains, h, hcovers, .refl chains, ⟨rfl, rfl⟩, ?_,
      by simp [PlaceReply.stored]⟩
    have hlink : index.entryNext blkno = some (some next) :=
      IvfflatIndex.entryNext_eq_some.mpr ⟨page, hpage, hnext⟩
    intro b hb
    obtain rfl : next = b := by simpa using hb
    exact h.next_mem hmem hlink
  | @extended reply page' index' hroom hlast hindex hlen hmeta hnext hreply =>
    have hlink : index.entryNext blkno = some none :=
      IvfflatIndex.entryNext_eq_some.mpr ⟨page, hpage, hlast⟩
    have hbounds := bounds_of_block? hpage
    have hne : blkno ≠ index.nextBlock := Nat.ne_of_lt (Nat.lt_succ_of_le hbounds.2)
    obtain ⟨hlinks, hlists⟩ := page_linked hpage hindex hnext
    -- in between, the page is linked but not there yet
    let mid : IvfflatIndex V := index.setPage blkno
      (.entries { page with nextblkno := some index.nextBlock })
    have hmid : mid.page? = Function.update index.page? blkno
        (some (.entries { page with nextblkno := some index.nextBlock })) :=
      IvfflatIndex.page?_setPage hpage _
    rw [← hmid] at hindex
    have hentry := IvfflatIndex.entryPage?_update_entries hindex
    have hfresh : ∀ b link, index.entryNext b = some link → b < index.nextBlock :=
      fun b link hb => Nat.lt_succ_of_le (IvfflatIndex.entryNext_bounds hb).2
    have hext : Extends chains (Function.update chains i (chains i ++ [index.nextBlock])) := by
      intro j b hb
      by_cases hj : j = i
      · subst hj
        simp [hb]
      · rwa [Function.update_of_ne hj]
    refine ⟨_, h.append hmem hlink hfresh hlinks, ?_, hext, ⟨hlists, hmeta⟩, ?_, ?_⟩
    · intro b link hb
      rw [hlinks] at hb
      by_cases hnew : b = index.nextBlock
      · exact ⟨i, by simp [hnew]⟩
      · rw [Function.update_of_ne hnew] at hb
        by_cases hblk : b = blkno
        · exact ⟨i, hext i b (hblk ▸ hmem)⟩
        · rw [Function.update_of_ne hblk] at hb
          obtain ⟨j, hj⟩ := hcovers b link hb
          exact ⟨j, hext j b hj⟩
    · intro b hb
      rcases hreply with ⟨rfl, -⟩ | ⟨rfl, -⟩
      · simp at hb
      · obtain rfl : index.nextBlock = b := by simpa using hb
        simp
    · have hmidLen : mid.pages.length = index.pages.length := by
        simp [mid]
      have hmidSum : mid.entryTids = index.entryTids := by
        have hsum := entryTids_written hpage hmid hmidLen
        exact add_right_cancel hsum
      have htids := IvfflatIndex.tidsAt_update hentry
      have hmidSame : sumBlocks index.pages.length index'.tidsAt = mid.entryTids := by
        unfold IvfflatIndex.entryTids
        rw [hmidLen, htids]
        exact sumBlocks_congr fun b _ hle =>
          Function.update_of_ne (Nat.ne_of_lt (Nat.lt_succ_of_le hle)) _ _
      have hlastBlock : index'.tidsAt (index.pages.length + 1) =
          (page'.items.map fun item => item.tuple.tid : List ItemPointer) := by
        rw [htids]
        exact Function.update_self ..
      rw [IvfflatIndex.entryTids, hlen, sumBlocks_succ, hmidSame, hmidSum, hlastBlock]
      congr 1
      rcases hreply with ⟨rfl, hitems⟩ | ⟨rfl, hitems⟩
      · simp [hitems, PlaceReply.stored]
      · simp [hitems, PlaceReply.stored]

theorem Laid.insertTurn {chains : ListInfo → List BlockNumber} {info : ListInfo}
    (h : Laid index chains) (hcovers : Covers index chains) (hmem : blkno ∈ chains info)
    (hpage : index.page? blkno = some (.entries page)) {itup : IndexTuple V} {itemsz : Nat}
    {reply : PlaceReply} (hturn : InsertTurn index blkno page itup itemsz reply index') :
    ∃ chains', Laid index' chains' ∧ Covers index' chains' ∧ Extends chains chains' ∧
      KeepsLists index index' ∧
      (∀ b, reply = .placed b ∨ reply = .next b → b ∈ chains' info) ∧
      index'.entryTids = index.entryTids + reply.stored itup.tid := by
  obtain ⟨chains', hchains, hcovers', hext, hlists, hreply, htids⟩ :=
    hturn.chains h.linked hcovers hmem hpage
  refine ⟨chains', ⟨hlists.root ▸ hchains, ?_⟩, hcovers', hext, hlists, hreply, htids⟩
  intro info' list hlist b hb
  rw [hlists.list] at hlist
  exact hext info' b (h.insertPage info' list hlist b hb)

theorem bulkDeleteOnPage_eq_some {callback : ItemPointer → Bool} {reply : BulkDeleteReply}
    (h : bulkDeleteOnPage index blkno callback = some (reply, index')) :
    ∃ page, index.page? blkno = some (.entries page) ∧
      reply.nextblkno = page.nextblkno ∧
      index'.entryNext = index.entryNext ∧ KeepsLists index index' ∧
      index'.entryTids + (reply.removed : Multiset ItemPointer) = index.entryTids ∧
      ∀ tid ∈ reply.removed, callback tid = true := by
  unfold bulkDeleteOnPage at h
  rcases hentry : index.entryPage? blkno with _ | page
  · simp [hentry] at h
  · have hpage := IvfflatIndex.entryPage?_eq_some.mp hentry
    rw [hentry] at h
    cases h
    refine ⟨page, hpage, rfl, ?_⟩
    have hremoved : ∀ tid ∈ (page.items.filter fun item => callback item.tuple.tid).map
        (fun item => item.tuple.tid), callback tid = true := by
      intro tid htid
      obtain ⟨item, hitem, rfl⟩ := List.mem_map.mp htid
      exact (List.mem_filter.mp hitem).2
    split
    · next hnone =>
      have hnil : (page.items.filter fun item => callback item.tuple.tid) = [] := by
        simpa using hnone
      exact ⟨rfl, ⟨rfl, rfl⟩, by simp [hnil], hremoved⟩
    · have hindex := IvfflatIndex.page?_setPage hpage (.entries
        { page with items := page.items.filter fun item => !callback item.tuple.tid })
      obtain ⟨hlinks, hlists⟩ := items_written hpage hindex rfl
      refine ⟨hlinks, ⟨hlists, rfl⟩, ?_, hremoved⟩
      have hsum := entryTids_written hpage hindex (by simp)
      -- the items kept and the items removed make up the page
      have hsplit : ((page.items.map fun item => item.tuple.tid : List ItemPointer) :
          Multiset ItemPointer) =
          ((page.items.filter fun item => !callback item.tuple.tid).map
            fun item => item.tuple.tid : List ItemPointer) +
          ((page.items.filter fun item => callback item.tuple.tid).map
            fun item => item.tuple.tid : List ItemPointer) := by
        rw [Multiset.coe_add, ← List.map_append, Multiset.coe_eq_coe]
        refine (List.Perm.map _ ?_).symm
        refine List.perm_append_comm.trans ?_
        exact List.filter_append_perm (fun item => callback item.tuple.tid) page.items
      rw [hsplit, ← add_assoc, add_right_comm, add_right_cancel_iff] at hsum
      exact hsum

theorem ivfflatUpdateList_eq_some {info : ListInfo} {list : IvfflatList V}
    (hlist : index.list? info = some list)
    (insertPage originalInsertPage startPage : Option BlockNumber) :
    ∃ index', ivfflatUpdateList index info insertPage originalInsertPage startPage =
        some index' ∧
      index'.entryNext = index.entryNext ∧ index'.entryTids = index.entryTids ∧
      index'.listNext = index.listNext ∧ index'.metapage = index.metapage ∧
      index'.list? = Function.update index.list? info
        (some (list.update insertPage originalInsertPage startPage)) := by
  obtain ⟨page, hpage, htuple⟩ := IvfflatIndex.list?_eq_some.mp hlist
  have hlistPage : index.listPage? info.blkno = some page :=
    IvfflatIndex.listPage?_eq_some.mpr hpage
  let page' := page.modify info.offno fun list =>
    list.update insertPage originalInsertPage startPage
  have hindex := IvfflatIndex.page?_setPage hpage (.lists page')
  have hentry := IvfflatIndex.entryPage?_update_lists
    (IvfflatIndex.entryPage?_of_lists hpage) hindex
  refine ⟨index.setPage info.blkno (.lists page'), ?_, IvfflatIndex.entryNext_congr hentry,
    ?_, ?_, rfl, ?_⟩
  · simp [ivfflatUpdateList, hlistPage, htuple, page']
  · rw [IvfflatIndex.entryTids, IvfflatIndex.tidsAt_congr hentry, IvfflatIndex.length_setPage,
      IvfflatIndex.entryTids]
  · funext b
    by_cases hb : b = info.blkno
    · subst hb
      simp [IvfflatIndex.listNext, IvfflatIndex.listPage?, hindex, hpage, page']
    · simp [IvfflatIndex.listNext, IvfflatIndex.listPage?, hindex, Function.update_of_ne hb]
  · have htuple' : page'.tuple? = Function.update page.tuple? info.offno
        (some (list.update insertPage originalInsertPage startPage)) := by
      funext offno
      rw [Page.tuple?, Page.item?_modify]
      by_cases hoffno : offno = info.offno
      · subst hoffno
        rw [Page.tuple?] at htuple
        rw [Function.update_self, Function.update_self, Option.map_map]
        obtain ⟨item, hitem, rfl⟩ := Option.map_eq_some_iff.mp htuple
        simp [hitem]
      · simp [Page.tuple?, Function.update_of_ne hoffno]
    funext info'
    by_cases hblkno : info'.blkno = info.blkno
    · by_cases hoffno : info'.offno = info.offno
      · obtain rfl : info' = info := by
          cases info'
          cases info
          simp_all
        simp [IvfflatIndex.list?, IvfflatIndex.listPage?, hindex, htuple']
      · have hne : info' ≠ info := fun heq => hoffno (congrArg ListInfo.offno heq)
        rw [Function.update_of_ne hne, IvfflatIndex.list?, IvfflatIndex.list?, hblkno, hlistPage]
        simp [IvfflatIndex.listPage?, hindex, htuple', Function.update_of_ne hoffno]
    · have hne : info' ≠ info := fun heq => hblkno (congrArg ListInfo.blkno heq)
      rw [Function.update_of_ne hne]
      simp [IvfflatIndex.list?, IvfflatIndex.listPage?, hindex, Function.update_of_ne hblkno]

/-! ## Choosing a list -/

theorem considerPage_induct {D : Type} [LinearOrder D]
    {P : ListInfo → Option BlockNumber → Prop} {ctx : IvfflatContext V D} {value : V}
    {page : Page (IvfflatList V)} {choice : InsertChoice D}
    (h : P choice.listInfo choice.insertPage)
    (hpage : ∀ item offno, page.item? offno = some item → P ⟨blkno, offno⟩ item.tuple.insertPage) :
    P (choice.considerPage ctx value blkno page).listInfo
      (choice.considerPage ctx value blkno page).insertPage := by
  have hmem : ∀ entry ∈ page.items.zipIdx firstOffsetNumber,
      P ⟨blkno, entry.2⟩ entry.1.tuple.insertPage :=
    fun entry hentry => hpage _ _ (mem_zipIdx_iff_item?.mp hentry)
  unfold InsertChoice.considerPage
  generalize page.items.zipIdx firstOffsetNumber = lists at hmem
  induction lists generalizing choice with
  | nil => exact h
  | cons list lists ih =>
    apply ih
    · change P (choice.consider ctx value blkno list.1.tuple list.2).listInfo
        (choice.consider ctx value blkno list.1.tuple list.2).insertPage
      unfold InsertChoice.consider
      dsimp only
      split
      · exact hmem list (by simp)
      · exact h
    · exact fun entry hentry => hmem entry (.tail _ hentry)

/-! ## All lists -/

def listInfosOn (blkno : BlockNumber) (page : Page (IvfflatList V)) : List ListInfo :=
  (page.items.zipIdx firstOffsetNumber).map fun (_, offno) => ⟨blkno, offno⟩

def IvfflatIndex.listInfos (index : IvfflatIndex V) : List ListInfo :=
  (List.range' 1 index.pages.length).flatMap fun blkno =>
    (index.listPage? blkno).elim [] (listInfosOn blkno)

theorem mem_listInfosOn {blkno : BlockNumber} {page : Page (IvfflatList V)}
    {info : ListInfo} :
    info ∈ listInfosOn blkno page ↔
      info.blkno = blkno ∧ ∃ list, page.tuple? info.offno = some list := by
  simp only [listInfosOn, List.mem_map, Prod.exists, mem_zipIdx_iff_item?, Page.tuple?,
    Option.map_eq_some_iff]
  constructor
  · rintro ⟨item, offno, hitem, rfl⟩
    exact ⟨rfl, item.tuple, item, hitem, rfl⟩
  · rintro ⟨rfl, list, item, hitem, rfl⟩
    exact ⟨item, info.offno, hitem, rfl⟩

theorem IvfflatIndex.mem_listInfos {info : ListInfo} :
    info ∈ index.listInfos ↔ ∃ list, index.list? info = some list := by
  simp only [IvfflatIndex.listInfos, List.mem_flatMap]
  constructor
  · rintro ⟨blkno, -, hmem⟩
    rcases hpage : index.listPage? blkno with _ | page
    · simp [hpage] at hmem
    · rw [hpage] at hmem
      obtain ⟨rfl, list, hlist⟩ := mem_listInfosOn.mp hmem
      exact ⟨list, by simp [IvfflatIndex.list?, hpage, hlist]⟩
  · rintro ⟨list, hlist⟩
    obtain ⟨page, hpage, htuple⟩ := IvfflatIndex.list?_eq_some.mp hlist
    have hbounds := bounds_of_block? hpage
    refine ⟨info.blkno, List.mem_range'_1.mpr ⟨hbounds.1, ?_⟩, ?_⟩
    · rw [Nat.add_comm]
      exact Nat.lt_succ_of_le hbounds.2
    · rw [IvfflatIndex.listPage?_eq_some.mpr hpage]
      exact mem_listInfosOn.mpr ⟨rfl, list, htuple⟩

theorem nodup_listInfosOn (blkno : BlockNumber) (page : Page (IvfflatList V)) :
    (listInfosOn blkno page).Nodup := by
  have hoffsets : listInfosOn blkno page =
      (List.range' firstOffsetNumber page.items.length).map fun offno => ⟨blkno, offno⟩ := by
    rw [← List.zipIdx_map_snd firstOffsetNumber page.items, List.map_map]
    rfl
  rw [hoffsets]
  refine List.Nodup.map ?_ List.nodup_range'
  intro a b hab
  exact congrArg ListInfo.offno hab

theorem nodup_flatMap_listInfosOn (index : IvfflatIndex V) {blocks : List BlockNumber}
    (hblocks : blocks.Nodup) :
    (blocks.flatMap fun b => (index.listPage? b).elim [] (listInfosOn b)).Nodup := by
  rw [List.nodup_flatMap]
  constructor
  · intro blkno _
    cases index.listPage? blkno with
    | none => exact List.nodup_nil
    | some page => exact nodup_listInfosOn blkno page
  · refine hblocks.imp ?_
    intro b b' hne info hb hb'
    -- a list is found on its own block only
    have hblkno : ∀ c, info ∈ (index.listPage? c).elim [] (listInfosOn c) → info.blkno = c := by
      intro c hc
      cases hpage : index.listPage? c with
      | none => simp [hpage] at hc
      | some page =>
        rw [hpage] at hc
        exact (mem_listInfosOn.mp hc).1
    exact hne ((hblkno b hb).symm.trans (hblkno b' hb'))

theorem IvfflatIndex.nodup_listInfos (index : IvfflatIndex V) : index.listInfos.Nodup :=
  nodup_flatMap_listInfosOn index List.nodup_range'

def IvfflatIndex.chainTids (index : IvfflatIndex V) (chains : ListInfo → List BlockNumber) :
    Multiset ItemPointer :=
  ((index.listInfos.flatMap chains).map index.tidsAt).sum

theorem Laid.nodup_chains {chains : ListInfo → List BlockNumber} (h : Laid index chains) :
    (index.listInfos.flatMap chains).Nodup := by
  rw [List.nodup_flatMap]
  constructor
  · intro info _
    exact (h.linked.sorted info).imp Nat.ne_of_lt
  · exact index.nodup_listInfos.imp fun hne => h.linked.disjoint _ _ hne

theorem WellFormed.chainTids_eq {chains : ListInfo → List BlockNumber}
    (h : WellFormed index chains) : index.chainTids chains = index.entryTids := by
  refine sumBlocks_eq_of_nodup h.laid.nodup_chains ?_ ?_
  · intro b hb
    obtain ⟨info, -, hmem⟩ := List.mem_flatMap.mp hb
    obtain ⟨link, hlink⟩ := h.laid.linked.exists_next hmem
    exact IvfflatIndex.entryNext_bounds hlink
  · intro b _ _ hb
    rcases hpage : index.entryPage? b with _ | page
    · simp [IvfflatIndex.tidsAt, hpage]
    · have hlink : index.entryNext b = some page.nextblkno := by
        simp [IvfflatIndex.entryNext, hpage]
      obtain ⟨info, hmem⟩ := h.covers b _ hlink
      refine absurd (List.mem_flatMap.mpr ⟨info, ?_, hmem⟩) hb
      exact IvfflatIndex.mem_listInfos.mpr (h.laid.exists_list hmem)

end Changes

end PgVector.Ivfflat
