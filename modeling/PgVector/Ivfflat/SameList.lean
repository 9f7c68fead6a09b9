import Mathlib.Order.Fin.Basic
import PgVector.Ivfflat.ListSelection

/-!
# The list of a value

`AddTupleToSort` looks for the nearest center in the array of centers, with the
largest `double` as the distance to beat; `FindInsertPage` looks for it on the list
pages, and takes the first list whatever its distance is.
-/

namespace PgVector.Ivfflat

open Foundation
open Hnsw (BlockNumber OffsetNumber ItemPointer Page Item firstOffsetNumber)

/-! ## The first minimum -/

section Minimum

variable {D : Type} [LinearOrder D]

def firstMinimum : List D → Nat
  | [] => 0
  | d :: ds => if ∃ d' ∈ ds, d' < d then firstMinimum ds + 1 else 0

/-- No distance is less than the one at `i`, and those before it are greater. -/
def IsFirstMinimum (ds : List D) (i : Nat) : Prop :=
  ∃ d, ds[i]? = some d ∧ (∀ d' ∈ ds, d ≤ d') ∧ ∀ d' ∈ ds.take i, d < d'

theorem isFirstMinimum_firstMinimum {ds : List D} (h : ds ≠ []) :
    IsFirstMinimum ds (firstMinimum ds) := by
  induction ds with
  | nil => exact absurd rfl h
  | cons a ds ih =>
    rw [firstMinimum]
    split
    · next hless =>
      obtain ⟨b, hb, hba⟩ := hless
      obtain ⟨d, hd, hle, hlt⟩ := ih (List.ne_nil_of_mem hb)
      have hda : d < a := (hle b hb).trans_lt hba
      refine ⟨d, hd, List.forall_mem_cons.mpr ⟨hda.le, hle⟩, ?_⟩
      rw [List.take_succ_cons]
      exact List.forall_mem_cons.mpr ⟨hda, hlt⟩
    · next hnot =>
      refine ⟨a, rfl, List.forall_mem_cons.mpr ⟨le_rfl, ?_⟩, by simp⟩
      intro d' hd'
      exact not_lt.mp fun hlt => hnot ⟨d', hd', hlt⟩

theorem IsFirstMinimum.lt_length {ds : List D} {i : Nat} (h : IsFirstMinimum ds i) :
    i < ds.length := by
  obtain ⟨d, hd, -⟩ := h
  exact (List.getElem?_eq_some_iff.mp hd).1

theorem firstMinimum_eq_zero_iff {d : D} {ds : List D} :
    firstMinimum (d :: ds) = 0 ↔ ∀ d' ∈ d :: ds, d ≤ d' := by
  rw [firstMinimum]
  split <;> simp_all

end Minimum

/-! ## The loop over the centers -/

section Build

variable {V D : Type} [LinearOrder D] (ctx : IvfflatContext V D) (value : V)

def distances (centers : List V) : List D := centers.map (ctx.distance value)

theorem closestCenterFrom_eq (centers : List V) (i : Nat) (minDistance : D) (closest : Nat) :
    closestCenterFrom ctx value centers i minDistance closest =
      if ∃ d ∈ distances ctx value centers, d < minDistance then
        i + firstMinimum (distances ctx value centers)
      else closest := by
  induction centers generalizing i minDistance closest with
  | nil => simp [closestCenterFrom, distances]
  | cons center centers ih =>
    have hcons : distances ctx value (center :: centers) =
        ctx.distance value center :: distances ctx value centers := rfl
    rw [closestCenterFrom, hcons]
    simp only [ih, firstMinimum, List.exists_mem_cons_iff]
    by_cases hlt : ctx.distance value center < minDistance
    · simp only [hlt, ↓reduceIte, true_or]
      split <;> omega
    · simp only [hlt, ↓reduceIte, false_or]
      split
      · next hless =>
        -- what is nearer than the minimum is nearer than this center
        obtain ⟨d, hd, hdm⟩ := hless
        rw [if_pos ⟨d, hd, hdm.trans_le (not_lt.mp hlt)⟩]
        omega
      · rfl

theorem closestCenter_eq (centers : List V) :
    closestCenter ctx centers value =
      if ∃ d ∈ distances ctx value centers, d < ctx.dblMax then
        firstMinimum (distances ctx value centers)
      else 0 := by
  rw [closestCenter, closestCenterFrom_eq, Nat.zero_add]

end Build

/-! ## The loop over the list pages -/

section Insert

variable {V D : Type} [LinearOrder D] (ctx : IvfflatContext V D) (value : V)

def InsertChoice.considerLists (choice : InsertChoice D) (lists : List (PlacedList V)) :
    InsertChoice D :=
  lists.foldl (fun choice p => choice.consider ctx value p.1.blkno p.2 p.1.offno) choice

theorem considerPage_eq (blkno : BlockNumber) (page : Page (IvfflatList V))
    (choice : InsertChoice D) :
    choice.considerPage ctx value blkno page =
      choice.considerLists ctx value (listsOn blkno page) := by
  rw [InsertChoice.considerPage, InsertChoice.considerLists, listsOn, List.foldl_map]

def InsertChoice.of (p : PlacedList V) : InsertChoice D :=
  ⟨ctx.distance value p.2.center, p.2.insertPage, p.1⟩

def listDistances (lists : List (PlacedList V)) : List D :=
  distances ctx value (lists.map fun p => p.2.center)

theorem listInfo_considerLists {choice : InsertChoice D} (hpage : choice.insertPage ≠ none)
    {lists : List (PlacedList V)} (hready : ∀ p ∈ lists, p.2.insertPage ≠ none) :
    some (choice.considerLists ctx value lists).listInfo =
      if ∃ d ∈ listDistances ctx value lists, d < choice.minDistance then
        (lists.map Prod.fst)[firstMinimum (listDistances ctx value lists)]?
      else some choice.listInfo := by
  induction lists generalizing choice with
  | nil => simp [listDistances, distances, InsertChoice.considerLists]
  | cons p lists ih =>
    obtain ⟨hp, hready⟩ := List.forall_mem_cons.mp hready
    have hcons : listDistances ctx value (p :: lists) =
        ctx.distance value p.2.center :: listDistances ctx value lists := rfl
    have hturn : choice.considerLists ctx value (p :: lists) =
        (if ctx.distance value p.2.center < choice.minDistance then
          InsertChoice.of ctx value p else choice).considerLists ctx value lists := by
      simp [InsertChoice.considerLists, InsertChoice.consider, hpage, InsertChoice.of]
    rw [hturn, hcons]
    simp only [firstMinimum, List.exists_mem_cons_iff]
    by_cases hlt : ctx.distance value p.2.center < choice.minDistance
    · have hrest : some ((InsertChoice.of ctx value p).considerLists ctx value lists).listInfo =
          if ∃ d ∈ listDistances ctx value lists, d < ctx.distance value p.2.center then
            (lists.map Prod.fst)[firstMinimum (listDistances ctx value lists)]?
          else some p.1 := ih hp hready
      rw [if_pos hlt, hrest]
      simp only [hlt, ↓reduceIte, true_or, List.map_cons]
      split
      · rw [List.getElem?_cons_succ]
      · rw [List.getElem?_cons_zero]
    · rw [if_neg hlt, ih hpage hready]
      simp only [hlt, false_or, List.map_cons]
      split
      · next hless =>
        obtain ⟨d, hd, hdm⟩ := hless
        rw [if_pos ⟨d, hd, hdm.trans_le (not_lt.mp hlt)⟩, List.getElem?_cons_succ]
      · rfl

theorem listInfo_considerLists_start {lists : List (PlacedList V)} (hne : lists ≠ [])
    (hready : ∀ p ∈ lists, p.2.insertPage ≠ none) :
    (lists.map Prod.fst)[firstMinimum (listDistances ctx value lists)]? =
      some ((InsertChoice.start ctx).considerLists ctx value lists).listInfo := by
  obtain ⟨p, lists, rfl⟩ := List.exists_cons_of_ne_nil hne
  obtain ⟨hp, hready⟩ := List.forall_mem_cons.mp hready
  have hcons : listDistances ctx value (p :: lists) =
      ctx.distance value p.2.center :: listDistances ctx value lists := rfl
  have hturn : (InsertChoice.start ctx).considerLists ctx value (p :: lists) =
      (InsertChoice.of ctx value p).considerLists ctx value lists := by
    simp [InsertChoice.considerLists, InsertChoice.consider, InsertChoice.start, InsertChoice.of]
  have hrest : some ((InsertChoice.of ctx value p).considerLists ctx value lists).listInfo =
      if ∃ d ∈ listDistances ctx value lists, d < ctx.distance value p.2.center then
        (lists.map Prod.fst)[firstMinimum (listDistances ctx value lists)]?
      else some p.1 := listInfo_considerLists ctx value hp hready
  rw [hturn, hcons, firstMinimum, hrest, List.map_cons]
  split
  · rw [List.getElem?_cons_succ]
  · rw [List.getElem?_cons_zero]

theorem findInsertPage_returns {index : IvfflatIndex V} {next : Option BlockNumber}
    {blocks : List BlockNumber} (hchain : Chain index.listNext next blocks) {fuel : Nat}
    (hfuel : blocks.length ≤ fuel) (choice : InsertChoice D) :
    (findInsertPage ctx value fuel next choice).Returns ivfflatHandler index fun chosen s =>
      s = index ∧ chosen = choice.considerLists ctx value (blocks.flatMap index.listsAt) := by
  induction hchain generalizing fuel choice with
  | nil =>
    unfold findInsertPage
    exact .ret ⟨rfl, rfl⟩
  | @cons blkno link rest hnext _ ih =>
    cases fuel with
    | zero => simp at hfuel
    | succ fuel =>
      obtain ⟨page, hpage, rfl⟩ := Option.map_eq_some_iff.mp hnext
      have hexec : ivfflatHandler (.readListPage blkno) index = some (some page, index) := by
        simp [ivfflatHandler, hpage]
      refine .perform hexec ?_
      refine (ih (by simpa using hfuel) _).mono ?_
      rintro chosen s ⟨rfl, rfl⟩
      have hat : s.listsAt blkno = listsOn blkno page := by
        simp [IvfflatIndex.listsAt, hpage]
      rw [considerPage_eq, List.flatMap_cons, hat]
      simp [InsertChoice.considerLists]

end Insert

/-! ## The list pages of a build -/

section Written

variable {V : Type} {index index' : IvfflatIndex V}

/-- What never changes on a list page: the next page and the centers. -/
def IvfflatIndex.centersOn (index : IvfflatIndex V) (blkno : BlockNumber) :
    Option (Option BlockNumber × List V) :=
  (index.listPage? blkno).map fun page =>
    (page.nextblkno, page.items.map fun item => item.tuple.center)

def placeCenters (blkno : BlockNumber) (centers : List V) : List (ListInfo × V) :=
  (centers.zipIdx firstOffsetNumber).map fun (center, offno) => (⟨blkno, offno⟩, center)

def IvfflatIndex.centersAt (index : IvfflatIndex V) (blkno : BlockNumber) : List (ListInfo × V) :=
  (index.centersOn blkno).elim [] fun page => placeCenters blkno page.2

theorem map_listsAt (index : IvfflatIndex V) (blkno : BlockNumber) :
    (index.listsAt blkno).map (fun p => (p.1, p.2.center)) = index.centersAt blkno := by
  rw [IvfflatIndex.listsAt, IvfflatIndex.centersAt, IvfflatIndex.centersOn]
  cases index.listPage? blkno with
  | none => rfl
  | some page => simp [listsOn, placeCenters, List.zipIdx_map]

theorem listNext_eq_centersOn (index : IvfflatIndex V) (blkno : BlockNumber) :
    index.listNext blkno = (index.centersOn blkno).map Prod.fst := by
  simp [IvfflatIndex.listNext, IvfflatIndex.centersOn, Function.comp_def]

variable {blkno : BlockNumber} {page : Page (IvfflatList V)} {listSize : Nat}
  {listInfo : List ListInfo}

theorem centersOn_of_page (h : index.page? blkno = some (.lists page)) :
    index.centersOn blkno =
      some (page.nextblkno, page.items.map fun item => item.tuple.center) := by
  simp [IvfflatIndex.centersOn, IvfflatIndex.listPage?, h]

theorem centersOn_congr (h : index'.page? blkno = index.page? blkno) :
    index'.centersOn blkno = index.centersOn blkno := by
  simp [IvfflatIndex.centersOn, IvfflatIndex.listPage?, h]

theorem centersAt_congr (h : index'.centersOn blkno = index.centersOn blkno) :
    index'.centersAt blkno = index.centersAt blkno := by
  rw [IvfflatIndex.centersAt, IvfflatIndex.centersAt, h]

def IvfflatIndex.written (index : IvfflatIndex V) (n : Nat) : List (ListInfo × V) :=
  (List.range' 1 n).flatMap index.centersAt

theorem written_succ (index : IvfflatIndex V) (n : Nat) :
    index.written (n + 1) = index.written n ++ index.centersAt (n + 1) := by
  rw [IvfflatIndex.written, List.range'_concat, List.flatMap_append, List.flatMap_singleton,
    Nat.one_mul, Nat.add_comm 1 n]
  rfl

theorem written_congr {n : Nat}
    (h : ∀ b, b ≤ n → index'.centersAt b = index.centersAt b) :
    index'.written n = index.written n := by
  refine List.flatMap_congr fun b hb => ?_
  rw [List.mem_range'_1] at hb
  exact h b (by omega)

theorem written_addList {n : Nat} {center : V} {info : ListInfo}
    (hpage : index.page? (n + 1) = some (.lists page))
    (h : addList index (n + 1) page center listSize = some (index', info)) :
    index'.written (n + 1) = index.written (n + 1) ++ [(info, center)] := by
  unfold addList at h
  split at h
  · cases h
  · next page' offno hadd =>
    cases h
    have hindex := IvfflatIndex.page?_setPage hpage (.lists page')
    have hitems : page'.items = page.items ++ [⟨listSize, ⟨none, none, center⟩⟩] ∧
        offno = page.items.length + 1 := by
      unfold Page.addItem at hadd
      split at hadd
      · cases hadd
        exact ⟨rfl, rfl⟩
      · cases hadd
    have hold : (index.setPage (n + 1) (.lists page')).written n = index.written n := by
      refine written_congr fun b hb => ?_
      have hne : b ≠ n + 1 := by omega
      exact centersAt_congr (centersOn_congr (by rw [hindex, Function.update_of_ne hne]))
    have hlast : (index.setPage (n + 1) (.lists page')).centersAt (n + 1) =
        index.centersAt (n + 1) ++ [(⟨n + 1, offno⟩, center)] := by
      rw [IvfflatIndex.centersAt, IvfflatIndex.centersAt,
        centersOn_of_page (by rw [hindex, Function.update_self]), centersOn_of_page hpage]
      simp [placeCenters, hitems, firstOffsetNumber, List.zipIdx_append, Nat.add_comm]
    rw [written_succ, written_succ, hold, hlast, List.append_assoc]

theorem written_appendListPage (hpage : index.page? index.pages.length = some (.lists page)) :
    (appendListPage index index.pages.length page).written (index.pages.length + 1) =
      index.written index.pages.length := by
  have hpages := page?_appendListPage hpage
  have hnew : (appendListPage index index.pages.length page).centersAt
      (index.pages.length + 1) = [] := by
    have hinit : (appendListPage index index.pages.length page).page?
        (index.pages.length + 1) = some (.lists Page.init) := by
      rw [hpages]
      exact Function.update_self ..
    rw [IvfflatIndex.centersAt, centersOn_of_page hinit]
    rfl
  rw [written_succ, hnew, List.append_nil]
  refine written_congr fun b hb => ?_
  have hne : b ≠ index.nextBlock := Nat.ne_of_lt (Nat.lt_succ_of_le hb)
  by_cases hlast : b = index.pages.length
  · -- the page that was the last one has a link now, and its lists as before
    subst hlast
    have hlinked : (appendListPage index index.pages.length page).page? index.pages.length =
        some (.lists { page with nextblkno := some index.nextBlock }) := by
      rw [hpages, Function.update_of_ne hne, Function.update_self]
    rw [IvfflatIndex.centersAt, IvfflatIndex.centersAt, centersOn_of_page hlinked,
      centersOn_of_page hpage]
    rfl
  · refine centersAt_congr (centersOn_congr ?_)
    rw [hpages, Function.update_of_ne hne, Function.update_of_ne hlast]

theorem createLists_written {centers : List V} {infos : List ListInfo} {before : List V}
    (hpos : 1 ≤ index.pages.length) (hblkno : blkno = index.pages.length)
    (hwritten : index.written index.pages.length = listInfo.zip before)
    (hlength : listInfo.length = before.length)
    (hrun : createLists listSize centers index blkno listInfo = some (index', infos)) :
    index'.written index'.pages.length = infos.zip (before ++ centers) := by
  induction centers generalizing index blkno listInfo before with
  | nil =>
    cases hrun
    rw [List.append_nil]
    exact hwritten
  | cons center centers ih =>
    subst hblkno
    unfold createLists at hrun
    split at hrun
    · cases hrun
    · next page hlistPage =>
      have hpage := IvfflatIndex.listPage?_eq_some.mp hlistPage
      have hcons : before ++ center :: centers = (before ++ [center]) ++ centers := by simp
      rw [hcons]
      have hzip : ∀ info, listInfo.zip before ++ [(info, center)] =
          (listInfo ++ [info]).zip (before ++ [center]) := by
        intro info
        rw [List.zip_append hlength]
        rfl
      split at hrun
      · split at hrun
        · cases hrun
        · next index₁ info hadd =>
          have hlen := length_appendListPage index page
          have hinit : (appendListPage index index.pages.length page).page?
              (index.pages.length + 1) = some (.lists Page.init) := by
            rw [page?_appendListPage hpage]
            exact Function.update_self ..
          have hlen₁ : index₁.pages.length = index.pages.length + 1 :=
            ((addList_eq_some hinit hadd).2.2.2.2.1).trans hlen
          refine ih (by omega) hlen₁.symm ?_ (by simp [hlength]) hrun
          rw [hlen₁, written_addList hinit hadd, written_appendListPage hpage, hwritten, hzip]
      · split at hrun
        · cases hrun
        · next index₁ info hadd =>
          have hlen₁ : index₁.pages.length = index.pages.length :=
            (addList_eq_some hpage hadd).2.2.2.2.1
          refine ih (by omega) hlen₁.symm ?_ (by simp [hlength]) hrun
          obtain ⟨n, hn⟩ := Nat.exists_eq_add_of_le' hpos
          rw [hlen₁]
          rw [hn] at hpage hadd hwritten ⊢
          rw [written_addList hpage hadd, hwritten, hzip]

theorem createListPages_written {dimensions : Nat} {centers : List V}
    (hrun : createListPages dimensions listSize centers = some (index, listInfo)) :
    index.written index.pages.length = listInfo.zip centers := by
  rw [createListPages] at hrun
  have hwritten : index.written index.pages.length = listInfo.zip ([] ++ centers) := by
    refine createLists_written ?_ rfl rfl rfl hrun
    exact Nat.le_refl 1
  rwa [List.nil_append] at hwritten

/-! ## The entry pages leave the centers alone -/

theorem centersOn_of_listPage (h : index'.listPage? = index.listPage?) :
    index'.centersOn = index.centersOn := by
  funext b
  rw [IvfflatIndex.centersOn, IvfflatIndex.centersOn, h]

theorem listPage?_newEntries (index : IvfflatIndex V) (page : Page (IndexTuple V)) :
    (index.newBuffer (.entries page)).listPage? = index.listPage? := by
  refine IvfflatIndex.listPage?_update_entries ?_ (IvfflatIndex.page?_newBuffer index _)
  rw [IvfflatIndex.listPage?, IvfflatIndex.page?_nextBlock]

theorem listPage?_setEntries {page : Page (IndexTuple V)}
    (hpage : index.page? blkno = some (.entries page)) (page' : Page (IndexTuple V)) :
    (index.setPage blkno (.entries page')).listPage? = index.listPage? :=
  IvfflatIndex.listPage?_update_entries (IvfflatIndex.listPage?_of_entries hpage)
    (IvfflatIndex.page?_setPage hpage _)

theorem listPage?_addTuple {blkno' : BlockNumber} {itup : IndexTuple V} {itemsz : Nat}
    (h : addTuple index blkno itup itemsz = some (index', blkno')) :
    index'.listPage? = index.listPage? := by
  unfold addTuple at h
  split at h
  · cases h
  · next page hentry =>
    have hpage := IvfflatIndex.entryPage?_eq_some.mp hentry
    split at h
    · split at h
      · cases h
      · next page' offno hadd =>
        cases h
        have hnew : (appendEntryPage index blkno page).page? index.nextBlock =
            some (.entries Page.init) := by
          rw [appendEntryPage, IvfflatIndex.page?_newBuffer]
          simp [IvfflatIndex.nextBlock]
        rw [listPage?_setEntries hnew, appendEntryPage, listPage?_newEntries,
          listPage?_setEntries hpage]
    · split at h
      · cases h
      · next page' offno hadd =>
        cases h
        exact listPage?_setEntries hpage page'

theorem listPage?_addTuples {itemSize : V → Nat} {itups : List (IndexTuple V)}
    {blkno' : BlockNumber} (h : addTuples itemSize itups index blkno = some (index', blkno')) :
    index'.listPage? = index.listPage? := by
  induction itups generalizing index blkno with
  | nil =>
    cases h
    rfl
  | cons itup itups ih =>
    unfold addTuples at h
    split at h
    · cases h
    · next index₁ blkno₁ hadd => rw [ih h, listPage?_addTuple hadd]

theorem center_update (list : IvfflatList V)
    (insertPage originalInsertPage startPage : Option BlockNumber) :
    (list.update insertPage originalInsertPage startPage).center = list.center := by
  simp only [IvfflatList.update]
  cases insertPage with
  | none => cases startPage <;> rfl
  | some blkno =>
    cases startPage with
    | none =>
      dsimp only
      split <;> rfl
    | some start =>
      dsimp only
      split <;> rfl

theorem centers_modify (page : Page (IvfflatList V)) (offno : OffsetNumber)
    (insertPage originalInsertPage startPage : Option BlockNumber) :
    (page.modify offno fun list =>
        list.update insertPage originalInsertPage startPage).items.map
        (fun item => item.tuple.center) =
      page.items.map fun item => item.tuple.center := by
  unfold Page.modify
  split
  · rfl
  · refine List.ext_getElem? fun i => ?_
    simp only [List.getElem?_map, List.getElem?_modify]
    cases page.items[i]? with
    | none => rfl
    | some item =>
      simp only [Option.map_eq_map, Option.map_some]
      split <;> simp [center_update]

theorem centersOn_updateList {info : ListInfo}
    {insertPage originalInsertPage startPage : Option BlockNumber}
    (h : ivfflatUpdateList index info insertPage originalInsertPage startPage = some index') :
    index'.centersOn = index.centersOn := by
  unfold ivfflatUpdateList at h
  split at h
  · cases h
  · next page hlistPage =>
    have hpage := IvfflatIndex.listPage?_eq_some.mp hlistPage
    split at h
    · cases h
    · cases h
      have hindex := IvfflatIndex.page?_setPage hpage
        (.lists (page.modify info.offno fun list =>
          list.update insertPage originalInsertPage startPage))
      funext b
      by_cases hb : b = info.blkno
      · subst hb
        have hmodified := (congrFun hindex info.blkno).trans (Function.update_self ..)
        rw [centersOn_of_page hmodified, centersOn_of_page hpage, centers_modify,
          Page.nextblkno_modify]
      · exact centersOn_congr ((congrFun hindex b).trans (Function.update_of_ne hb _ _))

theorem centersOn_insertTuples {itemSize : V → Nat} {i : Nat} {tuples : List (Nat × IndexTuple V)}
    (h : insertTuples itemSize listInfo i tuples index = some index') :
    index'.centersOn = index.centersOn := by
  induction listInfo generalizing index i tuples with
  | nil =>
    cases h
    rfl
  | cons info listInfo ih =>
    unfold insertTuples at h
    dsimp only at h
    split at h
    · cases h
    · next index₁ insertPage hadd =>
      split at h
      · cases h
      · next index₂ hupdate =>
        rw [ih h, centersOn_updateList hupdate, centersOn_of_listPage
          ((listPage?_addTuples hadd).trans (listPage?_newEntries index Page.init))]

end Written

/-! ## Insert and build -/

section Same

variable {V D : Type} [LinearOrder D] {ctx : IvfflatContext V D} {centers : List V}

theorem listsAt_of_written {written index : IvfflatIndex V} {listInfo : List ListInfo}
    (hwritten : written.written written.pages.length = listInfo.zip centers)
    (hlength : listInfo.length = centers.length)
    (hsame : index.centersOn = written.centersOn) {n : Nat} (hn : n = written.pages.length) :
    ((List.range' 1 n).flatMap index.listsAt).map Prod.fst = listInfo ∧
      ((List.range' 1 n).flatMap index.listsAt).map (fun p => p.2.center) = centers := by
  have hzip : ((List.range' 1 n).flatMap index.listsAt).map (fun p => (p.1, p.2.center)) =
      listInfo.zip centers := by
    subst hn
    rw [← hwritten, List.map_flatMap, IvfflatIndex.written]
    refine List.flatMap_congr fun b _ => ?_
    rw [map_listsAt, centersAt_congr (congrFun hsame b)]
  have hfst := congrArg (List.map Prod.fst) hzip
  have hsnd := congrArg (List.map Prod.snd) hzip
  rw [List.map_map, List.map_fst_zip hlength.le] at hfst
  rw [List.map_map, List.map_snd_zip hlength.ge] at hsnd
  exact ⟨hfst, hsnd⟩

theorem exists_lt_distances (value : V) (d : D) :
    (∃ d' ∈ distances ctx value centers, d' < d) ↔
      ∃ center ∈ centers, ctx.distance value center < d := by
  simp [distances]

theorem firstMinimum_distances_eq_zero (value : V) (hcenters : centers ≠ []) :
    firstMinimum (distances ctx value centers) = 0 ↔
      ∀ first ∈ centers.head?, ∀ center ∈ centers,
        ctx.distance value first ≤ ctx.distance value center := by
  obtain ⟨first, rest, rfl⟩ := List.exists_cons_of_ne_nil hcenters
  rw [distances, List.map_cons, firstMinimum_eq_zero_iff]
  simp

theorem closestCenter_eq_firstMinimum_iff (value : V) (hcenters : centers ≠ []) :
    closestCenter ctx centers value = firstMinimum (distances ctx value centers) ↔
      (∃ center ∈ centers, ctx.distance value center < ctx.dblMax) ∨
        ∀ first ∈ centers.head?, ∀ center ∈ centers,
          ctx.distance value first ≤ ctx.distance value center := by
  rw [closestCenter_eq, ← exists_lt_distances value ctx.dblMax,
    ← firstMinimum_distances_eq_zero value hcenters]
  split
  · next hless => simp [hless]
  · next hnot => simp only [hnot, false_or, eq_comm]

/--
After a build, an insert chooses the first list at minimal distance.  The build
chooses the same list exactly when some distance is below the largest `double`, or
the first center is at minimal distance.
-/
theorem insert_list_eq_build_list_iff {dimensions listSize : Nat}
    {rows : List (Option V × ItemPointer)} {sorted : List (Nat × IndexTuple V)}
    {written index : IvfflatIndex V} {listInfo : List ListInfo} (hcenters : centers ≠ [])
    (hperm : sorted.Perm (addTuplesToSort ctx centers rows))
    (hsorted : sorted.Pairwise fun t t' => t.1 ≤ t'.1)
    (hlists : createListPages dimensions listSize centers = some (written, listInfo))
    (hfill : insertTuples ctx.itemSize listInfo 0 sorted written = some index)
    (value : V) {fuel : Nat} (hfuel : index.pages.length ≤ fuel) :
    (findInsertPage ctx value fuel (some ivfflatHeadBlkno) (InsertChoice.start ctx)).Returns
      ivfflatHandler index fun choice s => s = index ∧
        (∃ i, IsFirstMinimum (distances ctx value centers) i ∧
          listInfo[i]? = some choice.listInfo) ∧
        (listInfo[closestCenter ctx centers value]? = some choice.listInfo ↔
          (∃ center ∈ centers, ctx.distance value center < ctx.dblMax) ∨
            ∀ first ∈ centers.head?, ∀ center ∈ centers,
              ctx.distance value first ≤ ctx.distance value center) := by
  obtain ⟨hlisted, hlength, -⟩ := createListPages_listed hlists
  have hsame := centersOn_insertTuples hfill
  have hnext : index.listNext = written.listNext := by
    funext b
    rw [listNext_eq_centersOn, listNext_eq_centersOn, hsame]
  have hlinked := hlisted.listsLinked.congr hnext
  have hbuilt : Built ctx rows index :=
    ⟨dimensions, listSize, centers, sorted, hcenters, hperm, hsorted, by
      rw [buildIndex, hlists]
      exact hfill⟩
  obtain ⟨chains, hwell, -⟩ := hbuilt.wellFormed
  have hall := (hwell.all_lists hlinked).2.2
  obtain ⟨hinfos, hcentersEq⟩ := listsAt_of_written (createListPages_written hlists) hlength
    hsame rfl
  have hblocks : (List.range' 1 written.pages.length).length ≤ fuel := by
    refine (length_le_pages hlinked.2.1 fun b hb => ?_).trans hfuel
    obtain ⟨link, hlink⟩ := hlinked.1.exists_next hb
    obtain ⟨page, hpage, -⟩ := listNext_eq_some.mp hlink
    exact bounds_of_block? hpage
  generalize hlistsEq : (List.range' 1 written.pages.length).flatMap index.listsAt = lists
    at hall hinfos hcentersEq
  have hne : lists ≠ [] := by
    rintro rfl
    exact hcenters hcentersEq.symm
  have hready : ∀ p ∈ lists, p.2.insertPage ≠ none := by
    intro p hp
    obtain ⟨blkno, hblkno⟩ := hwell.ready p.1 p.2 ((hall p).mp hp)
    simp [hblkno]
  refine (findInsertPage_returns ctx value hlinked.1 hblocks _).mono ?_
  rintro choice s ⟨rfl, rfl⟩
  rw [hlistsEq]
  have hchoice := listInfo_considerLists_start ctx value hne hready
  rw [listDistances, hcentersEq, hinfos] at hchoice
  have hdistances : distances ctx value centers ≠ [] := by simpa [distances] using hcenters
  have hmin := isFirstMinimum_firstMinimum hdistances
  refine ⟨rfl, ⟨_, hmin, hchoice⟩, ?_⟩
  rw [← closestCenter_eq_firstMinimum_iff value hcenters, ← hchoice]
  -- the places of different lists are different
  have hlt : firstMinimum (distances ctx value centers) < listInfo.length := by
    simpa [distances, hlength] using hmin.lt_length
  constructor
  · intro heq
    exact ((List.getElem?_inj hlt hlisted.nodup).mp heq.symm).symm
  · intro heq
    rw [heq]

end Same

/-! ## The largest distance -/

/-- A distance below the largest finite one, the largest finite one, and infinity. -/
abbrev DistanceClass := Fin 3

def classContext : IvfflatContext DistanceClass DistanceClass where
  distance _ center := center
  dblMax := 1
  zeroDistance := 0
  checkNorm _ := true
  normValue v := v
  itemSize _ := 5000
  fuel := 4

def classLists (first second : DistanceClass) : IvfflatIndex DistanceClass where
  metapage := ⟨ivfflatMagicNumber, 1, 2⟩
  pages := [.lists ⟨[⟨40, ⟨none, none, first⟩⟩, ⟨40, ⟨none, none, second⟩⟩], none⟩]

def classIndex (first second : DistanceClass) : IvfflatIndex DistanceClass where
  metapage := ⟨ivfflatMagicNumber, 1, 2⟩
  pages :=
    [.lists ⟨[⟨40, ⟨some 2, some 2, first⟩⟩, ⟨40, ⟨some 3, some 3, second⟩⟩], none⟩,
     .entries Page.init, .entries Page.init]

/-- Two pages of lists: the second list holds two tuples, each on a page of its own. -/
def pagedIndex : IvfflatIndex DistanceClass where
  metapage := ⟨ivfflatMagicNumber, 1, 2⟩
  pages :=
    [.lists ⟨[⟨5000, ⟨some 3, some 3, 2⟩⟩], some 2⟩, .lists ⟨[⟨5000, ⟨some 4, some 5, 0⟩⟩], none⟩,
     .entries Page.init, .entries ⟨[⟨5000, ⟨⟨0, 1⟩, 0⟩⟩], some 5⟩,
     .entries ⟨[⟨5000, ⟨⟨0, 2⟩, 0⟩⟩], none⟩]

theorem insert_list_eq_build_list_second :
    (findInsertPage classContext 0 5 (some ivfflatHeadBlkno)
        (InsertChoice.start classContext)).Returns ivfflatHandler pagedIndex
      fun choice s => s = pagedIndex ∧ choice.listInfo = ⟨2, 1⟩ ∧
        closestCenter classContext [2, 0] 0 = 1 := by
  have hlists : createListPages 1 5000 ([2, 0] : List DistanceClass) =
      some (_, [⟨1, 1⟩, ⟨2, 1⟩]) := rfl
  have hrows : [(1, ⟨⟨0, 1⟩, 0⟩), (1, ⟨⟨0, 2⟩, 0⟩)].Perm
      (addTuplesToSort classContext [2, 0] [(some 0, ⟨0, 1⟩), (some 0, ⟨0, 2⟩)]) := .refl _
  refine (insert_list_eq_build_list_iff (by simp) hrows (by simp) hlists rfl 0 (by decide)).mono ?_
  rintro choice s ⟨rfl, -, hiff⟩
  have hsame := hiff.mpr (.inl ⟨0, by decide, by decide⟩)
  exact ⟨rfl, (Option.some.inj hsame).symm, rfl⟩

/-- Infinity first, then the largest finite distance: the insert takes the second list. -/
theorem insert_list_ne_build_list :
    createListPages 1 40 [2, 1] = some (classLists 2 1, [⟨1, 1⟩, ⟨1, 2⟩]) ∧
    insertTuples classContext.itemSize [⟨1, 1⟩, ⟨1, 2⟩] 0 [] (classLists 2 1) =
      some (classIndex 2 1) ∧
    closestCenter classContext [2, 1] 0 = 0 ∧
    (findInsertPage classContext 0 4 (some ivfflatHeadBlkno)
        (InsertChoice.start classContext)).Returns ivfflatHandler (classIndex 2 1)
      fun choice s => s = classIndex 2 1 ∧ choice.listInfo = ⟨1, 2⟩ := by
  have hchain : Chain (classIndex 2 1).listNext (some ivfflatHeadBlkno) [1] := .cons rfl .nil
  refine ⟨by decide, by decide, by decide, ?_⟩
  refine (findInsertPage_returns classContext 0 hchain (by decide) _).mono ?_
  rintro choice s ⟨rfl, rfl⟩
  exact ⟨rfl, by decide⟩

end PgVector.Ivfflat
