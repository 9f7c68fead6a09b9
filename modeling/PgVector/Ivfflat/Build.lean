import PgVector.Ivfflat.Chains

/-!
# Building an IVFFlat index

The list pages are written first, one tuple for each center; then the sorted
tuples are written, list by list, to chains of new pages, and the start and insert
page of each list are filled in.
-/

namespace PgVector.Ivfflat

open Foundation
open Hnsw (BlockNumber OffsetNumber ItemPointer Page Item firstOffsetNumber)

section Assign

variable {V D : Type} [LinearOrder D] (ctx : IvfflatContext V D)

def closestCenterFrom (value : V) : List V → Nat → D → Nat → Nat
  | [], _, _, closestCenter => closestCenter
  | center :: centers, i, minDistance, closestCenter =>
    let distance := ctx.distance value center
    if distance < minDistance then
      closestCenterFrom value centers (i + 1) distance i
    else closestCenterFrom value centers (i + 1) minDistance closestCenter

def closestCenter (centers : List V) (value : V) : Nat :=
  closestCenterFrom ctx value centers 0 ctx.dblMax 0

/-- `AddTupleToSort` for all rows of the heap: the list and the index tuple of each. -/
def addTuplesToSort (centers : List V)
    (rows : List (Option V × ItemPointer)) : List (Nat × IndexTuple V) :=
  rows.filterMap fun (value, tid) =>
    (formIndexValue ctx value).map fun v => (closestCenter ctx centers v, ⟨tid, v⟩)

end Assign

section Pages

variable {V : Type}

def appendListPage (index : IvfflatIndex V) (blkno : BlockNumber)
    (page : Page (IvfflatList V)) : IvfflatIndex V :=
  (index.setPage blkno (.lists { page with nextblkno := some index.nextBlock })).newBuffer
    (.lists Page.init)

def appendEntryPage (index : IvfflatIndex V) (blkno : BlockNumber)
    (page : Page (IndexTuple V)) : IvfflatIndex V :=
  (index.setPage blkno (.entries { page with nextblkno := some index.nextBlock })).newBuffer
    (.entries Page.init)

def addList (index : IvfflatIndex V) (blkno : BlockNumber) (page : Page (IvfflatList V))
    (center : V) (listSize : Nat) : Option (IvfflatIndex V × ListInfo) :=
  match page.addItem ⟨none, none, center⟩ listSize with
  | none => none
  | some (page', offno) => some (index.setPage blkno (.lists page'), ⟨blkno, offno⟩)

/-- The loop of `CreateListPages`; `blkno` is the page that is being filled. -/
def createLists (listSize : Nat) :
    List V → IvfflatIndex V → BlockNumber → List ListInfo → Option (IvfflatIndex V × List ListInfo)
  | [], index, _, listInfo => some (index, listInfo)
  | center :: centers, index, blkno, listInfo =>
    match index.listPage? blkno with
    | none => none
    | some page =>
      if page.freeSpace < listSize then
        match addList (appendListPage index blkno page) index.nextBlock Page.init
            center listSize with
        | none => none
        | some (index', info) =>
          createLists listSize centers index' index.nextBlock (listInfo ++ [info])
      else
        match addList index blkno page center listSize with
        | none => none
        | some (index', info) =>
          createLists listSize centers index' blkno (listInfo ++ [info])

def createListPages (dimensions listSize : Nat) (centers : List V) :
    Option (IvfflatIndex V × List ListInfo) :=
  createLists listSize centers
    ⟨⟨ivfflatMagicNumber, dimensions, centers.length⟩, [.lists Page.init]⟩
    ivfflatHeadBlkno []

def addTuple (index : IvfflatIndex V) (blkno : BlockNumber) (itup : IndexTuple V)
    (itemsz : Nat) : Option (IvfflatIndex V × BlockNumber) :=
  match index.entryPage? blkno with
  | none => none
  | some page =>
    if page.freeSpace < itemsz then
      match (Page.init : Page (IndexTuple V)).addItem itup itemsz with
      | none => none
      | some (page', _) =>
        some ((appendEntryPage index blkno page).setPage index.nextBlock
          (.entries page'), index.nextBlock)
    else
      match page.addItem itup itemsz with
      | none => none
      | some (page', _) => some (index.setPage blkno (.entries page'), blkno)

def addTuples (itemSize : V → Nat) :
    List (IndexTuple V) → IvfflatIndex V → BlockNumber → Option (IvfflatIndex V × BlockNumber)
  | [], index, blkno => some (index, blkno)
  | itup :: itups, index, blkno =>
    match addTuple index blkno itup (itemSize itup.value) with
    | none => none
    | some (index, blkno) => addTuples itemSize itups index blkno

/-- `InsertTuples`, from list `i` on; the sorted tuples that are left are given. -/
def insertTuples (itemSize : V → Nat) :
    List ListInfo → Nat → List (Nat × IndexTuple V) → IvfflatIndex V → Option (IvfflatIndex V)
  | [], _, _, index => some index
  | info :: listInfo, i, tuples, index =>
    let startPage := index.nextBlock
    match addTuples itemSize
        ((tuples.takeWhile fun t => t.1 == i).map Prod.snd)
        (index.newBuffer (.entries Page.init)) startPage with
    | none => none
    | some (index, insertPage) =>
      match ivfflatUpdateList index info (some insertPage) none (some startPage) with
      | none => none
      | some index =>
        insertTuples itemSize listInfo (i + 1) (tuples.dropWhile fun t => t.1 == i) index

/-- `BuildIndex`, once the centers are known and the tuples are sorted. -/
def buildIndex {D : Type} (ctx : IvfflatContext V D) (dimensions listSize : Nat)
    (centers : List V) (sorted : List (Nat × IndexTuple V)) : Option (IvfflatIndex V) :=
  match createListPages dimensions listSize centers with
  | none => none
  | some (index, listInfo) => insertTuples ctx.itemSize listInfo 0 sorted index

end Pages

/-! ## The list pages -/

section Lists

variable {V : Type} {index index' : IvfflatIndex V} {listInfo : List ListInfo}
  {blkno : BlockNumber} {info : ListInfo}

/-- An index with list pages only, whose lists are the ones in `listInfo`. -/
structure Listed (index : IvfflatIndex V) (listInfo : List ListInfo) : Prop where
  pages_pos : 1 ≤ index.pages.length
  noEntries : ∀ b, index.entryPage? b = none
  linked : ∀ b, 1 ≤ b → b ≤ index.pages.length →
    index.listNext b = some (if b < index.pages.length then some (b + 1) else none)
  mem : ∀ info, info ∈ listInfo ↔ ∃ list, index.list? info = some list
  unset : ∀ info list, index.list? info = some list → list.startPage = none ∧ list.insertPage = none
  nodup : listInfo.Nodup

theorem listNext_eq_some {link : Option BlockNumber} : index.listNext blkno = some link ↔
      ∃ page, index.page? blkno = some (.lists page) ∧ page.nextblkno = link := by
  simp only [IvfflatIndex.listNext, Option.map_eq_some_iff, IvfflatIndex.listPage?_eq_some]

variable {page : Page (IvfflatList V)} {listSize : Nat}

theorem addList_eq_some {center : V} (hpage : index.page? blkno = some (.lists page))
    (h : addList index blkno page center listSize = some (index', info)) :
    index.list? info = none ∧ index'.list? = Function.update index.list? info
        (some ⟨none, none, center⟩) ∧
      index'.listNext = index.listNext ∧ index'.entryPage? = index.entryPage? ∧
      index'.pages.length = index.pages.length ∧ index'.metapage = index.metapage := by
  unfold addList at h
  split at h
  · cases h
  · next page' offno hadd =>
    cases h
    obtain ⟨rfl, hnext, hitem⟩ := Page.item?_addItem hadd
    have hindex := IvfflatIndex.page?_setPage hpage (.lists page')
    have hlistPage : index.listPage? blkno = some page :=
      IvfflatIndex.listPage?_eq_some.mpr hpage
    refine ⟨?_, ?_, ?_, IvfflatIndex.entryPage?_update_lists
      (IvfflatIndex.entryPage?_of_lists hpage) hindex, by simp, rfl⟩
    · simp [IvfflatIndex.list?, hlistPage, Page.tuple?, Page.item?_maxOffsetNumber_succ]
    · funext i
      by_cases hblkno : i.blkno = blkno
      · by_cases hoffno : i.offno = page.maxOffsetNumber + 1
        · obtain rfl : i = ⟨blkno, page.maxOffsetNumber + 1⟩ := by
            cases i
            simp_all
          simp [IvfflatIndex.list?, IvfflatIndex.listPage?, hindex, Page.tuple?, hitem]
        · have hne : i ≠ ⟨blkno, page.maxOffsetNumber + 1⟩ :=
            fun heq => hoffno (congrArg ListInfo.offno heq)
          rw [Function.update_of_ne hne, IvfflatIndex.list?, IvfflatIndex.list?, hblkno, hlistPage]
          simp [IvfflatIndex.listPage?, hindex, Page.tuple?, hitem, Function.update_of_ne hoffno]
      · have hne : i ≠ ⟨blkno, page.maxOffsetNumber + 1⟩ :=
          fun heq => hblkno (congrArg ListInfo.blkno heq)
        rw [Function.update_of_ne hne]
        simp [IvfflatIndex.list?, IvfflatIndex.listPage?, hindex, Function.update_of_ne hblkno]
    · funext b
      by_cases hb : b = blkno
      · subst hb
        simp [IvfflatIndex.listNext, IvfflatIndex.listPage?, hindex, hpage, hnext]
      · simp [IvfflatIndex.listNext, IvfflatIndex.listPage?, hindex, Function.update_of_ne hb]

theorem Listed.add {center : V} (h : Listed index listInfo) (hfresh : index.list? info = none)
    (hlist : index'.list? = Function.update index.list? info (some ⟨none, none, center⟩))
    (hnext : index'.listNext = index.listNext)
    (hentry : index'.entryPage? = index.entryPage?)
    (hlen : index'.pages.length = index.pages.length) :
    Listed index' (listInfo ++ [info]) := by
  constructor
  · rw [hlen]
    exact h.pages_pos
  · rw [hentry]
    exact h.noEntries
  · rw [hlen, hnext]
    exact h.linked
  · intro i
    rw [hlist]
    by_cases hi : i = info
    · simp [hi]
    · simp [hi, h.mem]
  · intro i list hi
    rw [hlist] at hi
    by_cases hinfo : i = info
    · subst hinfo
      rw [Function.update_self] at hi
      cases hi
      exact ⟨rfl, rfl⟩
    · rw [Function.update_of_ne hinfo] at hi
      exact h.unset i list hi
  · refine List.nodup_append.mpr ⟨h.nodup, by simp, ?_⟩
    intro i hi j hj
    obtain rfl := List.mem_singleton.mp hj
    rintro rfl
    obtain ⟨list, hsome⟩ := (h.mem i).mp hi
    rw [hfresh] at hsome
    cases hsome

theorem page?_appendListPage (hpage : index.page? index.pages.length = some (.lists page)) :
    (appendListPage index index.pages.length page).page? =
      Function.update (Function.update index.page? index.pages.length
        (some (.lists { page with nextblkno := some index.nextBlock })))
        index.nextBlock (some (.lists Page.init)) := by
  rw [appendListPage, IvfflatIndex.page?_newBuffer, IvfflatIndex.page?_setPage hpage]
  simp [IvfflatIndex.nextBlock]

theorem length_appendListPage (index : IvfflatIndex V) (page : Page (IvfflatList V)) :
    (appendListPage index index.pages.length page).pages.length = index.pages.length + 1 := by
  simp [appendListPage, IvfflatIndex.newBuffer]

theorem Listed.append (h : Listed index listInfo)
    (hpage : index.page? index.pages.length = some (.lists page)) :
    Listed (appendListPage index index.pages.length page) listInfo := by
  have hne : index.pages.length ≠ index.nextBlock := Nat.ne_of_lt (Nat.lt_succ_self _)
  have hlen := length_appendListPage index page
  have hpages := page?_appendListPage hpage
  have hlist : (appendListPage index index.pages.length page).list? = index.list? := by
    funext i
    by_cases hnew : i.blkno = index.nextBlock
    · simp [IvfflatIndex.list?, IvfflatIndex.listPage?, hpages, hnew,
        IvfflatIndex.page?_nextBlock, Page.tuple?]
    · by_cases hblkno : i.blkno = index.pages.length
      · simp [IvfflatIndex.list?, IvfflatIndex.listPage?, hpages, hblkno, hpage,
          Function.update_of_ne hne, Page.tuple?, Page.item?]
      · simp [IvfflatIndex.list?, IvfflatIndex.listPage?, hpages,
          Function.update_of_ne hnew, Function.update_of_ne hblkno]
  constructor
  · omega
  · intro b
    have hold := h.noEntries b
    by_cases hnew : b = index.nextBlock
    · simp [IvfflatIndex.entryPage?, hpages, hnew]
    · by_cases hblkno : b = index.pages.length
      · simp [IvfflatIndex.entryPage?, hpages, hblkno, Function.update_of_ne hne]
      · simpa [IvfflatIndex.entryPage?, hpages, Function.update_of_ne hnew,
          Function.update_of_ne hblkno] using hold
  · intro b hpos hle
    rw [hlen] at hle ⊢
    apply listNext_eq_some.mpr
    rw [hpages]
    rcases Nat.lt_trichotomy b index.pages.length with hlt | rfl | hgt
    · obtain ⟨old, hold, hnext⟩ := listNext_eq_some.mp (h.linked b hpos hlt.le)
      have hnew : b ≠ index.nextBlock := Nat.ne_of_lt (Nat.lt_succ_of_lt hlt)
      refine ⟨old, ?_, ?_⟩
      · rw [Function.update_of_ne hnew, Function.update_of_ne hlt.ne, hold]
      · rw [hnext, if_pos hlt, if_pos (by omega)]
    · refine ⟨_, by rw [Function.update_of_ne hne, Function.update_self], ?_⟩
      rw [if_pos (by omega)]
      rfl
    · obtain rfl : b = index.nextBlock := by
        exact Nat.le_antisymm hle hgt
      refine ⟨_, Function.update_self .., ?_⟩
      rw [if_neg (by simp [IvfflatIndex.nextBlock])]
      rfl
  · rw [hlist]
    exact h.mem
  · rw [hlist]
    exact h.unset
  · exact h.nodup

theorem createLists_listed {centers : List V} {infos : List ListInfo} (h : Listed index listInfo)
    (hblkno : blkno = index.pages.length)
    (hrun : createLists listSize centers index blkno listInfo = some (index', infos)) :
    Listed index' infos ∧ infos.length = listInfo.length + centers.length ∧
      index'.metapage = index.metapage := by
  induction centers generalizing index blkno listInfo with
  | nil =>
    cases hrun
    exact ⟨h, rfl, rfl⟩
  | cons center centers ih =>
    subst hblkno
    unfold createLists at hrun
    split at hrun
    · cases hrun
    · next page hlistPage =>
      have hpage := IvfflatIndex.listPage?_eq_some.mp hlistPage
      split at hrun
      · -- the tuple goes to a new page
        split at hrun
        · cases hrun
        · next index₁ info hadd =>
          have happ := h.append hpage
          have hinit : (appendListPage index index.pages.length page).page?
              index.nextBlock = some (.lists Page.init) := by
            rw [appendListPage, IvfflatIndex.page?_newBuffer]
            simp [IvfflatIndex.nextBlock]
          obtain ⟨hfresh, hlist, hnext, hentry, hlen, hmeta⟩ :=
            addList_eq_some hinit hadd
          have hlen' : index₁.pages.length = index.nextBlock := by
            rw [hlen]
            simp [appendListPage, IvfflatIndex.newBuffer, IvfflatIndex.nextBlock]
          obtain ⟨hlisted, hcount, hmeta'⟩ :=
            ih (happ.add hfresh hlist hnext hentry hlen) hlen'.symm hrun
          refine ⟨hlisted, ?_, hmeta'.trans hmeta⟩
          rw [hcount]
          simp
          omega
      · split at hrun
        · cases hrun
        · next index₁ info hadd =>
          obtain ⟨hfresh, hlist, hnext, hentry, hlen, hmeta⟩ :=
            addList_eq_some hpage hadd
          obtain ⟨hlisted, hcount, hmeta'⟩ :=
            ih (h.add hfresh hlist hnext hentry hlen) hlen.symm hrun
          refine ⟨hlisted, ?_, hmeta'.trans hmeta⟩
          rw [hcount]
          simp
          omega

theorem createListPages_listed {dimensions : Nat} {centers : List V}
    (hrun : createListPages dimensions listSize centers = some (index, listInfo)) :
    Listed index listInfo ∧ listInfo.length = centers.length ∧
      index.metapage = ⟨ivfflatMagicNumber, dimensions, centers.length⟩ := by
  have hstart : Listed (V := V)
      ⟨⟨ivfflatMagicNumber, dimensions, centers.length⟩, [.lists Page.init]⟩ [] := by
    constructor
    · simp
    · intro b
      rcases b with _ | _ | b <;> simp [IvfflatIndex.entryPage?, IvfflatIndex.page?, block?]
    · intro b hpos hle
      obtain rfl : b = 1 := by
        simp at hle
        omega
      rfl
    · intro info
      obtain ⟨b, offno⟩ := info
      rcases b with _ | _ | b <;>
        simp [IvfflatIndex.list?, IvfflatIndex.listPage?, IvfflatIndex.page?, block?, Page.tuple?]
    · intro info list hlist
      obtain ⟨b, offno⟩ := info
      rcases b with _ | _ | b <;>
        simp [IvfflatIndex.list?, IvfflatIndex.listPage?, IvfflatIndex.page?, block?, Page.tuple?]
          at hlist
    · simp
  obtain ⟨hlisted, hcount, hmeta⟩ := createLists_listed hstart rfl hrun
  exact ⟨hlisted, by simpa using hcount, hmeta⟩

end Lists

/-! ## The entry pages -/

section Entries

variable {V : Type} {index index' : IvfflatIndex V} {blkno blkno' : BlockNumber}

theorem addTuple_turn {page : Page (IndexTuple V)} {itup : IndexTuple V} {itemsz : Nat}
    (hpage : index.page? blkno = some (.entries page)) (hlast : page.nextblkno = none)
    (h : addTuple index blkno itup itemsz = some (index', blkno')) :
    InsertTurn index blkno page itup itemsz (.placed blkno') index' ∧
      index'.entryNext blkno' = some none := by
  have hentry : index.entryPage? blkno = some page :=
    IvfflatIndex.entryPage?_eq_some.mpr hpage
  unfold addTuple at h
  rw [hentry] at h
  dsimp only at h
  split at h
  · next hfull =>
    split at h
    · cases h
    · next page' offno hadd =>
      cases h
      obtain ⟨-, hnext, -⟩ := Page.item?_addItem hadd
      have hlinked : (appendEntryPage index blkno page).page? =
          Function.update (Function.update index.page? blkno
            (some (.entries { page with nextblkno := some index.nextBlock })))
            index.nextBlock (some (.entries Page.init)) := by
        rw [appendEntryPage, IvfflatIndex.page?_newBuffer, IvfflatIndex.page?_setPage hpage]
        simp [IvfflatIndex.nextBlock]
      have hwritten := IvfflatIndex.page?_setPage
        (congrFun hlinked index.nextBlock |>.trans (Function.update_self ..))
        (.entries page')
      rw [hlinked, Function.update_idem] at hwritten
      have hitems : page'.items = [⟨itemsz, itup⟩] := by
        unfold Page.addItem at hadd
        split at hadd
        · obtain ⟨rfl, -⟩ := Prod.mk.inj (Option.some.inj hadd)
          rfl
        · cases hadd
      refine ⟨.extended (Nat.not_le_of_lt hfull) hlast hwritten
        (by simp [appendEntryPage, IvfflatIndex.newBuffer]) rfl hnext
        (.inr ⟨rfl, hitems⟩), ?_⟩
      exact IvfflatIndex.entryNext_eq_some.mpr
        ⟨page', by rw [hwritten, Function.update_self], hnext⟩
  · next hroom =>
    split at h
    · cases h
    · next page' offno hadd =>
      cases h
      obtain ⟨-, hnext, -⟩ := Page.item?_addItem hadd
      have hwritten := IvfflatIndex.page?_setPage hpage (.entries page')
      have hitems : page'.items = page.items ++ [⟨itemsz, itup⟩] := by
        unfold Page.addItem at hadd
        split at hadd
        · obtain ⟨rfl, -⟩ := Prod.mk.inj (Option.some.inj hadd)
          rfl
        · cases hadd
      refine ⟨.placed (Nat.le_of_not_lt hroom) hwritten (by simp) rfl hnext hitems, ?_⟩
      exact IvfflatIndex.entryNext_eq_some.mpr
        ⟨page', by rw [hwritten, Function.update_self], hnext.trans hlast⟩

variable {itemSize : V → Nat} {chains : ListInfo → List BlockNumber}
  {tuples : List (Nat × IndexTuple V)}

theorem addTuples_chains {ι : Type} [DecidableEq ι] {root : ι → Option (Option BlockNumber)}
    {chains : ι → List BlockNumber} {i : ι} {itups : List (IndexTuple V)}
    (h : Chains index.entryNext root chains) (hcovers : Covers index chains)
    (hmem : blkno ∈ chains i) (hlast : index.entryNext blkno = some none)
    (hrun : addTuples itemSize itups index blkno = some (index', blkno')) :
    ∃ chains', Chains index'.entryNext root chains' ∧ Covers index' chains' ∧
      Extends chains chains' ∧ KeepsLists index index' ∧ blkno' ∈ chains' i ∧
      index'.entryTids = index.entryTids + (itups.map IndexTuple.tid : List ItemPointer) := by
  induction itups generalizing index blkno chains with
  | nil =>
    cases hrun
    exact ⟨chains, h, hcovers, .refl chains, ⟨rfl, rfl⟩, hmem, by simp⟩
  | cons itup itups ih =>
    unfold addTuples at hrun
    split at hrun
    · cases hrun
    · next index₁ blkno₁ hadd =>
      obtain ⟨page, hpage, hnext⟩ := IvfflatIndex.entryNext_eq_some.mp hlast
      obtain ⟨hturn, hlast₁⟩ := addTuple_turn hpage hnext hadd
      obtain ⟨chains₁, h₁, hcovers₁, hext₁, hkeeps₁, hmem₁, htids₁⟩ :=
        hturn.chains h hcovers hmem hpage
      obtain ⟨chains₂, h₂, hcovers₂, hext₂, hkeeps₂, hmem₂, htids₂⟩ :=
        ih h₁ hcovers₁ (hmem₁ blkno₁ (.inl rfl)) hlast₁ hrun
      refine ⟨chains₂, h₂, hcovers₂, hext₁.trans hext₂, ⟨hkeeps₂.listPage.trans hkeeps₁.listPage,
        hkeeps₂.metapage.trans hkeeps₁.metapage⟩, hmem₂, ?_⟩
      rw [htids₂, htids₁]
      simp [PlaceReply.stored, add_assoc]

theorem newBuffer_entries (index : IvfflatIndex V) :
    (index.newBuffer (.entries Page.init)).entryNext =
        Function.update index.entryNext index.nextBlock (some none) ∧
      KeepsLists index (index.newBuffer (.entries Page.init)) ∧
      (index.newBuffer (.entries Page.init)).entryTids = index.entryTids := by
  have hpages := IvfflatIndex.page?_newBuffer index (.entries Page.init)
  have hentry := IvfflatIndex.entryPage?_update_entries hpages
  refine ⟨IvfflatIndex.entryNext_update hentry, ⟨?_, rfl⟩, ?_⟩
  · apply IvfflatIndex.listPage?_update_entries _ hpages
    simp [IvfflatIndex.listPage?, IvfflatIndex.page?_nextBlock]
  · have hlen : (index.newBuffer (.entries Page.init)).pages.length = index.pages.length + 1 := by
      simp [IvfflatIndex.newBuffer]
    have htids := IvfflatIndex.tidsAt_update hentry
    have hold : sumBlocks index.pages.length
        (index.newBuffer (.entries Page.init)).tidsAt = index.entryTids := by
      rw [htids]
      exact sumBlocks_congr fun b _ hle =>
        Function.update_of_ne (Nat.ne_of_lt (Nat.lt_succ_of_le hle)) _ _
    have hnew : (index.newBuffer (.entries Page.init)).tidsAt (index.pages.length + 1) = 0 := by
      rw [htids]
      exact Function.update_self ..
    rw [IvfflatIndex.entryTids, hlen, sumBlocks_succ, hold, hnew, add_zero]

def Unfilled (index : IvfflatIndex V) (listInfo : List ListInfo) : Prop :=
  ∀ info ∈ listInfo, ∃ list, index.list? info = some list ∧
    list.startPage = none ∧ list.insertPage = none

theorem fillList_laid {info : ListInfo} {itups : List (IndexTuple V)} {insertPage : BlockNumber}
    {index₁ : IvfflatIndex V} (h : Laid index chains) (hcovers : Covers index chains)
    (hunfilled : Unfilled index [info])
    (hadd : addTuples itemSize itups (index.newBuffer (.entries Page.init))
      index.nextBlock = some (index₁, insertPage))
    (hupdate : ivfflatUpdateList index₁ info (some insertPage) none
      (some index.nextBlock) = some index') :
    ∃ chains' list', Laid index' chains' ∧ Covers index' chains' ∧
      index'.listNext = index.listNext ∧ index'.metapage = index.metapage ∧
      index'.list? = Function.update index.list? info (some list') ∧
      list'.insertPage = some insertPage ∧
      index'.entryTids = index.entryTids + (itups.map IndexTuple.tid : List ItemPointer) := by
  obtain ⟨list, hlist, hstart, hinsert⟩ := hunfilled info (by simp)
  obtain ⟨hlinks₀, hkeeps₀, htids₀⟩ := newBuffer_entries index
  have hfresh : index.entryNext index.nextBlock = none := by
    simp [IvfflatIndex.entryNext, IvfflatIndex.entryPage?, IvfflatIndex.page?_nextBlock]
  -- the new page starts a chain beside those of the lists
  have hstarted := h.linked.start hfresh hlinks₀
  have hcovers₀ : Covers (index.newBuffer (.entries Page.init))
      (fun o : Option ListInfo => o.elim [index.nextBlock] chains) := by
    intro b link hb
    rw [hlinks₀] at hb
    by_cases hnew : b = index.nextBlock
    · exact ⟨none, by simp [hnew]⟩
    · rw [Function.update_of_ne hnew] at hb
      obtain ⟨i, hi⟩ := hcovers b link hb
      exact ⟨some i, hi⟩
  have hlast : (index.newBuffer (.entries Page.init)).entryNext index.nextBlock = some none := by
    rw [hlinks₀, Function.update_self]
  have hmem : index.nextBlock ∈
      (fun o : Option ListInfo => o.elim [index.nextBlock] chains) none := by
    simp
  obtain ⟨grown, hgrown, hcovers₁, hext, hkeeps₁, hmem₁, htids₁⟩ :=
    addTuples_chains hstarted hcovers₀ hmem hlast hadd
  have hlist₁ : index₁.list? = index.list? := hkeeps₁.list.trans hkeeps₀.list
  have hroot : index.root info = some none := by
    simp [IvfflatIndex.root, hlist, hstart]
  have hempty : grown (some info) = [] :=
    (hgrown.chain (some info) none hroot).unique .nil
  obtain ⟨index₂, hrun, hlinks₂, htids₂, hnext₂, hmeta₂, hlist₂⟩ :=
    ivfflatUpdateList_eq_some (hlist₁ ▸ hlist : index₁.list? info = some list)
      (some insertPage) none (some index.nextBlock)
  obtain rfl := Option.some.inj (hrun.symm.trans hupdate)
  have hupdated : list.update (some insertPage) none (some index.nextBlock) =
      { list with insertPage := some insertPage, startPage := some index.nextBlock } := by
    simp [IvfflatList.update, hinsert]
  rw [hlist₁, hupdated] at hlist₂
  have hroot₂ : index₂.root = Function.update index.root info (some (some index.nextBlock)) := by
    funext info'
    by_cases hinfo : info' = info
    · subst hinfo
      simp [IvfflatIndex.root, hlist₂]
    · simp [IvfflatIndex.root, hlist₂, Function.update_of_ne hinfo]
  have hnext : index₂.listNext = index.listNext := by
    rw [hnext₂]
    funext b
    simp [IvfflatIndex.listNext, hkeeps₁.listPage, hkeeps₀.listPage]
  have hadopted := hgrown.adopt hroot
  rw [← hlinks₂, ← hroot₂] at hadopted
  refine ⟨_, _, ⟨hadopted, ?_⟩, ?_, hnext,
    hmeta₂.trans (hkeeps₁.metapage.trans hkeeps₀.metapage), hlist₂, rfl, ?_⟩
  · intro info' list' hlist' b hb
    rw [hlist₂] at hlist'
    by_cases hinfo : info' = info
    · subst hinfo
      rw [Function.update_self] at hlist'
      obtain rfl := Option.some.inj hlist'
      obtain rfl : insertPage = b := Option.some.inj hb
      simpa using hmem₁
    · rw [Function.update_of_ne hinfo] at hlist' ⊢
      exact hext (some info') b (h.insertPage info' list' hlist' b hb)
  · intro b link hb
    rw [hlinks₂] at hb
    obtain ⟨o, ho⟩ := hcovers₁ b link hb
    rcases o with _ | info'
    · exact ⟨info, by simpa using ho⟩
    · have hinfo : info' ≠ info := by
        rintro rfl
        rw [hempty] at ho
        simp at ho
      exact ⟨info', by simpa [Function.update_of_ne hinfo] using ho⟩
  · rw [htids₂, htids₁, htids₀]

theorem dropWhile_gt {i : Nat} (hsorted : tuples.Pairwise fun t t' => t.1 ≤ t'.1)
    (hlow : ∀ t ∈ tuples, i ≤ t.1) : ∀ t ∈ tuples.dropWhile fun t => t.1 == i, i < t.1 := by
  induction tuples with
  | nil => simp
  | cons first tuples ih =>
    obtain ⟨hfirst, hsorted⟩ := List.pairwise_cons.mp hsorted
    intro t ht
    by_cases heq : first.1 = i
    · rw [List.dropWhile_cons_of_pos (by simpa using heq)] at ht
      exact ih hsorted (fun t ht => hlow t (.tail _ ht)) t ht
    · rw [List.dropWhile_cons_of_neg (by simpa using heq)] at ht
      have hlt := hlow first (by simp)
      rcases List.mem_cons.mp ht with rfl | ht
      · omega
      · have := hfirst t ht
        omega

theorem insertTuples_laid {listInfo : List ListInfo} {i : Nat} (h : Laid index chains)
    (hcovers : Covers index chains) (hunfilled : Unfilled index listInfo)
    (hnodup : listInfo.Nodup) (hsorted : tuples.Pairwise fun t t' => t.1 ≤ t'.1)
    (hrange : ∀ t ∈ tuples, i ≤ t.1 ∧ t.1 < i + listInfo.length)
    (hrun : insertTuples itemSize listInfo i tuples index = some index') :
    ∃ chains', Laid index' chains' ∧ Covers index' chains' ∧
      index'.listNext = index.listNext ∧ index'.metapage = index.metapage ∧
      (∀ info, info ∉ listInfo → index'.list? info = index.list? info) ∧
      (∀ info ∈ listInfo, ∃ list blkno, index'.list? info = some list ∧
        list.insertPage = some blkno) ∧
      index'.entryTids = index.entryTids + (tuples.map fun t => t.2.tid : List ItemPointer) := by
  induction listInfo generalizing index chains i tuples with
  | nil =>
    cases hrun
    obtain rfl : tuples = [] := by
      apply List.eq_nil_iff_forall_not_mem.mpr
      intro t ht
      have := hrange t ht
      simp at this
      omega
    exact ⟨chains, h, hcovers, rfl, rfl, by simp, by simp, by simp⟩
  | cons info listInfo ih =>
    obtain ⟨hinfo, hnodup⟩ := List.nodup_cons.mp hnodup
    unfold insertTuples at hrun
    dsimp only at hrun
    split at hrun
    · cases hrun
    · next index₁ insertPage hadd =>
      split at hrun
      · cases hrun
      · next index₂ hupdate =>
        have hfirst : Unfilled index [info] := fun j hj => by
          obtain rfl := List.mem_singleton.mp hj
          exact hunfilled j (by simp)
        obtain ⟨chains₂, list, h₂, hcovers₂, hnext₂, hmeta₂, hlist₂, hinsert, htids₂⟩ :=
          fillList_laid h hcovers hfirst hadd hupdate
        have hrest : Unfilled index₂ listInfo := by
          intro j hj
          have hne : j ≠ info := by
            rintro rfl
            exact hinfo hj
          rw [hlist₂, Function.update_of_ne hne]
          exact hunfilled j (.tail _ hj)
        have hdrop : ∀ t ∈ tuples.dropWhile fun t => t.1 == i,
            i + 1 ≤ t.1 ∧ t.1 < i + 1 + listInfo.length := by
          intro t ht
          have hmem := hrange t ((List.dropWhile_sublist _).subset ht)
          have hlt := dropWhile_gt hsorted (fun t ht => (hrange t ht).1) t ht
          simp only [List.length_cons] at hmem
          omega
        obtain ⟨chains₃, h₃, hcovers₃, hnext₃, hmeta₃, hother, hfilled, htids₃⟩ :=
          ih h₂ hcovers₂ hrest hnodup (hsorted.sublist (List.dropWhile_sublist _)) hdrop hrun
        refine ⟨chains₃, h₃, hcovers₃, hnext₃.trans hnext₂, hmeta₃.trans hmeta₂, ?_, ?_, ?_⟩
        · intro j hj
          have hne : j ≠ info := fun heq => hj (by simp [heq])
          have hnot : j ∉ listInfo := fun hin => hj (.tail _ hin)
          rw [hother j hnot, hlist₂, Function.update_of_ne hne]
        · intro j hj
          rcases List.mem_cons.mp hj with rfl | hj
          · exact ⟨list, insertPage, by rw [hother j hinfo, hlist₂, Function.update_self], hinsert⟩
          · exact hfilled j hj
        · rw [htids₃, htids₂, add_assoc, List.map_map]
          congr 1
          rw [Multiset.coe_add, Multiset.coe_eq_coe]
          have hsplit := List.takeWhile_append_dropWhile (p := fun t => t.1 == i) (l := tuples)
          conv_rhs => rw [← hsplit, List.map_append]
          exact .refl _

theorem Listed.laid {listInfo : List ListInfo} (h : Listed index listInfo) :
    Laid index (fun _ => []) ∧ Covers index (fun _ : ListInfo => []) := by
  refine ⟨⟨⟨?_, by simp, by simp, by simp⟩, ?_⟩, ?_⟩
  · intro info start hroot
    obtain ⟨list, hlist, rfl⟩ := Option.map_eq_some_iff.mp hroot
    rw [(h.unset info list hlist).1]
    exact .nil
  · intro info list hlist b hb
    rw [(h.unset info list hlist).2] at hb
    cases hb
  · intro b link hb
    simp [IvfflatIndex.entryNext, h.noEntries b] at hb

theorem Listed.chain {listInfo : List ListInfo} (h : Listed index listInfo) (n : Nat) :
    ∀ b, 1 ≤ b → b + n = index.pages.length →
      Chain index.listNext (some b) (List.range' b (n + 1)) := by
  induction n with
  | zero =>
    intro b hpos hlast
    have hlink := h.linked b hpos (by omega)
    rw [if_neg (by omega)] at hlink
    exact .cons hlink .nil
  | succ n ih =>
    intro b hpos hlast
    have hlink := h.linked b hpos (by omega)
    rw [if_pos (by omega)] at hlink
    exact .cons hlink (ih (b + 1) (by omega) (by omega))

theorem Listed.listsLinked {listInfo : List ListInfo} (h : Listed index listInfo) :
    ListsLinked index (List.range' 1 index.pages.length) := by
  obtain ⟨n, hn⟩ := Nat.exists_eq_add_of_le' h.pages_pos
  have hchain := h.chain n 1 (by omega) (by omega)
  refine ⟨by rw [hn]; exact hchain, List.pairwise_lt_range', ?_⟩
  intro b link hb
  obtain ⟨page, hpage, -⟩ := listNext_eq_some.mp hb
  have hbounds := bounds_of_block? hpage
  exact List.mem_range'_1.mpr ⟨hbounds.1, by omega⟩

theorem buildIndex_wellFormed {D : Type} {ctx : IvfflatContext V D}
    {dimensions listSize : Nat} {centers : List V} {sorted : List (Nat × IndexTuple V)}
    (hsorted : sorted.Pairwise fun t t' => t.1 ≤ t'.1)
    (hrange : ∀ t ∈ sorted, t.1 < centers.length) (hcenters : centers ≠ [])
    (hbuild : buildIndex ctx dimensions listSize centers sorted = some index) :
    ∃ chains, WellFormed index chains ∧
      index.entryTids = (sorted.map fun t => t.2.tid : List ItemPointer) := by
  unfold buildIndex at hbuild
  split at hbuild
  · cases hbuild
  · next start listInfo hlists =>
    obtain ⟨hlisted, hcount, hmeta⟩ := createListPages_listed hlists
    obtain ⟨hlaid, hcovers⟩ := hlisted.laid
    have hunfilled : Unfilled start listInfo := by
      intro info hinfo
      obtain ⟨list, hlist⟩ := (hlisted.mem info).mp hinfo
      obtain ⟨hstart, hinsert⟩ := hlisted.unset info list hlist
      exact ⟨list, hlist, hstart, hinsert⟩
    obtain ⟨chains, h, hcovers', hnext, hmeta', hother, hfilled, htids⟩ :=
      insertTuples_laid hlaid hcovers hunfilled hlisted.nodup hsorted
        (fun t ht => ⟨Nat.zero_le _, by rw [hcount]; simpa using hrange t ht⟩) hbuild
    refine ⟨chains, ⟨h, hcovers', ?_, ?_, ?_, ?_, ?_⟩, ?_⟩
    · intro info list hlist
      by_cases hinfo : info ∈ listInfo
      · obtain ⟨list', b, hlist', hb⟩ := hfilled info hinfo
        obtain rfl := Option.some.inj (hlist.symm.trans hlist')
        exact ⟨b, hb⟩
      · rw [hother info hinfo] at hlist
        exact absurd ((hlisted.mem info).mpr ⟨list, hlist⟩) hinfo
    · exact ⟨_, hlisted.listsLinked.congr hnext⟩
    · refine ⟨listInfo, hlisted.nodup, by rw [hmeta', hmeta, hcount], ?_⟩
      intro info
      by_cases hinfo : info ∈ listInfo
      · obtain ⟨list', b, hlist', -⟩ := hfilled info hinfo
        exact iff_of_true hinfo ⟨list', hlist'⟩
      · rw [hother info hinfo]
        exact hlisted.mem info
    · rw [hmeta', hmeta]
      exact List.length_pos_iff.mpr hcenters
    · rw [hmeta', hmeta]
    · have hnone : start.entryTids = 0 := by
        have hzero : start.tidsAt = fun _ => 0 := by
          funext b
          simp [IvfflatIndex.tidsAt, hlisted.noEntries b]
        simp [IvfflatIndex.entryTids, hzero, sumBlocks]
      rw [htids, hnone, zero_add]

end Entries

/-! ## From the rows of the heap -/

section Rows

variable {V D : Type} [LinearOrder D]

theorem closestCenterFrom_lt (ctx : IvfflatContext V D) (value : V) (centers : List V)
    (i : Nat) (minDistance : D) (closest : Nat) {bound : Nat} (hclosest : closest < bound)
    (hbound : i + centers.length ≤ bound) :
    closestCenterFrom ctx value centers i minDistance closest < bound := by
  induction centers generalizing i minDistance closest with
  | nil => exact hclosest
  | cons center centers ih =>
    simp only [List.length_cons] at hbound
    unfold closestCenterFrom
    dsimp only
    split
    · exact ih _ _ _ (by omega) (by omega)
    · exact ih _ _ _ hclosest (by omega)

def indexedTids (ctx : IvfflatContext V D) (rows : List (Option V × ItemPointer)) :
    List ItemPointer :=
  (rows.filter fun row => (formIndexValue ctx row.1).isSome).map Prod.snd

theorem tids_addTuplesToSort (ctx : IvfflatContext V D) (centers : List V)
    (rows : List (Option V × ItemPointer)) :
    (addTuplesToSort ctx centers rows).map (fun t => t.2.tid) = indexedTids ctx rows := by
  induction rows with
  | nil => rfl
  | cons row rows ih =>
    obtain ⟨value, tid⟩ := row
    simp only [addTuplesToSort, indexedTids] at ih ⊢
    rcases hform : formIndexValue ctx value with _ | v
    · simp [hform, ih]
    · simp [hform, ih]

/--
The index is the result of a build over `rows`, with some centers.  The sort
returns each tuple once, in ascending order of the lists.
-/
def Built (ctx : IvfflatContext V D) (rows : List (Option V × ItemPointer))
    (index : IvfflatIndex V) : Prop :=
  ∃ dimensions listSize centers sorted, centers ≠ [] ∧
    sorted.Perm (addTuplesToSort ctx centers rows) ∧
    (sorted.Pairwise fun t t' => t.1 ≤ t'.1) ∧
    buildIndex ctx dimensions listSize centers sorted = some index

theorem Built.wellFormed {ctx : IvfflatContext V D} {rows : List (Option V × ItemPointer)}
    {index : IvfflatIndex V} (h : Built ctx rows index) :
    ∃ chains, WellFormed index chains ∧
      index.entryTids = (indexedTids ctx rows : Multiset ItemPointer) := by
  obtain ⟨dimensions, listSize, centers, sorted, hcenters, hperm, hsorted, hbuild⟩ := h
  have hrange : ∀ t ∈ sorted, t.1 < centers.length := by
    intro t ht
    have hmem := hperm.mem_iff.mp ht
    simp only [addTuplesToSort, List.mem_filterMap, Option.map_eq_some_iff] at hmem
    obtain ⟨row, -, v, -, rfl⟩ := hmem
    exact closestCenterFrom_lt ctx v centers 0 ctx.dblMax 0
      (List.length_pos_iff.mpr hcenters) (by omega)
  obtain ⟨chains, hindex, htids⟩ := buildIndex_wellFormed hsorted hrange hcenters hbuild
  refine ⟨chains, hindex, htids.trans ?_⟩
  rw [← tids_addTuplesToSort ctx centers rows, Multiset.coe_eq_coe]
  exact hperm.map _

end Rows

end PgVector.Ivfflat
