import Mathlib.Logic.Function.Basic
import PgVector.Hnsw.Machine

/-!
# What the instructions do to the tuples

An index is seen here as a function from TIDs to items.  There is one lemma for
each change of the pages, which says at which TIDs an item is written and what is
written there; the proofs about inserts and vacuums use these and not the layout
of the pages.
-/

namespace PgVector.Hnsw

-- offsets and block numbers count from one, lists from zero
theorem pred_ne_pred {a b : Nat} (ha : a ≠ 0) (hb : b ≠ 0) (h : a ≠ b) : a - 1 ≠ b - 1 := by
  omega

theorem pred_lt_iff {a b : Nat} (ha : a ≠ 0) : a - 1 < b ↔ a ≤ b := by
  omega

/-! ## Items of a page -/

namespace Page

variable {T : Type} {page page' : Page T}

@[simp] theorem item?_init (offno : OffsetNumber) : (Page.init : Page T).item? offno = none := by
  simp [item?, init]

theorem item?_maxOffsetNumber_succ (page : Page T) :
    page.item? (page.maxOffsetNumber + 1) = none := by
  simp [item?, maxOffsetNumber]

theorem item?_addItem {tuple : T} {size : Nat} {offno : OffsetNumber}
    (h : page.addItem tuple size = some (page', offno)) :
    offno = page.maxOffsetNumber + 1 ∧ page'.nextblkno = page.nextblkno ∧
      page'.item? = Function.update page.item? offno (some ⟨size, tuple⟩) := by
  unfold addItem at h
  split at h
  · cases h
    refine ⟨rfl, rfl, ?_⟩
    funext o
    by_cases ho : o = page.maxOffsetNumber + 1
    · subst ho
      simp [item?, maxOffsetNumber]
    · rw [Function.update_of_ne ho]
      by_cases hzero : o = 0
      · simp [item?, hzero]
      · have hne : o - 1 ≠ page.items.length :=
          pred_ne_pred (b := page.items.length + 1) hzero (Nat.succ_ne_zero _) ho
        rcases Nat.lt_or_gt_of_ne hne with hlt | hgt
        · simp [item?, hzero, List.getElem?_append_left hlt]
        · rw [item?, item?, if_neg hzero, if_neg hzero,
            List.getElem?_eq_none (by simp; omega), List.getElem?_eq_none (by omega)]
  · cases h

theorem item?_set {offno : OffsetNumber} {old item : Item T}
    (h : page.item? offno = some old) :
    ({ page with items := page.items.set (offno - 1) item } : Page T).item? =
      Function.update page.item? offno (some item) := by
  have hzero : offno ≠ 0 := by
    intro h0
    simp [item?, h0] at h
  have hlt : offno - 1 < page.items.length := by
    simp only [item?, if_neg hzero] at h
    exact (List.getElem?_eq_some_iff.mp h).1
  funext o
  by_cases ho : o = offno
  · subst ho
    simp [item?, hzero, hlt]
  · rw [Function.update_of_ne ho]
    by_cases hzero' : o = 0
    · simp [item?, hzero']
    · have hne : offno - 1 ≠ o - 1 := pred_ne_pred hzero hzero' (Ne.symm ho)
      simp [item?, hzero', List.getElem?_set_ne hne]

theorem item?_overwrite {offno : OffsetNumber} {tuple : T} {size : Nat}
    (h : page.overwrite offno tuple size = some page') :
    (∃ old, page.item? offno = some old) ∧ page'.nextblkno = page.nextblkno ∧
      page'.item? = Function.update page.item? offno (some ⟨size, tuple⟩) := by
  unfold overwrite at h
  split at h
  · cases h
  · next old hold =>
    split at h
    · cases h
      exact ⟨⟨old, hold⟩, rfl, item?_set hold⟩
    · cases h

theorem item?_modify (page : Page T) (offno : OffsetNumber) (f : T → T) :
    (page.modify offno f).item? =
      Function.update page.item? offno
        ((page.item? offno).map fun item => { item with tuple := f item.tuple }) := by
  funext o
  unfold modify
  split
  · next hzero =>
    by_cases ho : o = offno
    · subst ho
      simp [item?, hzero]
    · rw [Function.update_of_ne ho]
  · next hzero =>
    by_cases ho : o = offno
    · subst ho
      simp [item?, hzero]
    · rw [Function.update_of_ne ho]
      by_cases hzero' : o = 0
      · simp [item?, hzero']
      · have hne : offno - 1 ≠ o - 1 := pred_ne_pred hzero hzero' (Ne.symm ho)
        simp [item?, hzero', hne]

@[simp] theorem nextblkno_modify (page : Page T) (offno : OffsetNumber)
    (f : T → T) : (page.modify offno f).nextblkno = page.nextblkno := by
  unfold modify
  split <;> rfl

theorem item?_map_items (page : Page T) (f : Item T → Item T) (offno : OffsetNumber) :
    ({ page with items := page.items.map f } : Page T).item? offno = (page.item? offno).map f := by
  by_cases hzero : offno = 0 <;> simp [item?, hzero]

theorem mem_elements {V : Type} {page : Page (IndexTuple V)} {offno : OffsetNumber}
    {etup : HnswElementTuple V} :
    (offno, etup) ∈ page.elements ↔ page.tuple? offno = some (.element etup) := by
  unfold Page.elements Page.tuple? Page.item?
  simp only [List.mem_filterMap, Prod.exists, List.mem_zipIdx_iff_le_and_getElem?_sub,
    Option.map_eq_some_iff]
  constructor
  · rintro ⟨item, offno', ⟨hone, hitem⟩, htuple⟩
    split at htuple
    · next etup' htuple' =>
      obtain ⟨rfl, rfl⟩ : offno' = offno ∧ etup' = etup := by simpa using htuple
      exact ⟨item, by rwa [if_neg (Nat.one_le_iff_ne_zero.mp hone)], htuple'⟩
    · cases htuple
  · rintro ⟨item, hitem, htuple⟩
    split at hitem
    · cases hitem
    · next hzero =>
      refine ⟨item, offno, ⟨Nat.one_le_iff_ne_zero.mpr hzero, hitem⟩, ?_⟩
      rw [htuple]

theorem elements_ordered {V : Type} (page : Page (IndexTuple V)) :
    page.elements.Pairwise fun a b => a.1 < b.1 := by
  have hoffsets : (page.items.zipIdx 1).Pairwise fun a b => a.2 < b.2 := by
    rw [← List.pairwise_map (f := Prod.snd), List.zipIdx_map_snd]
    exact List.pairwise_lt_range'
  rw [Page.elements, List.pairwise_filterMap]
  apply hoffsets.imp
  rintro ⟨item, offno⟩ ⟨item', offno'⟩ hlt a ha b hb
  dsimp only at ha hb
  split at ha
  · split at hb
    · cases ha
      cases hb
      exact hlt
    · cases hb
  · cases ha

end Page

/-! ## Items of an index -/

namespace HnswIndex

variable {V : Type} {index : HnswIndex V}

def item? (index : HnswIndex V) (tid : ItemPointer) : Option (Item (IndexTuple V)) :=
  (index.page? tid.blkno).bind fun page => page.item? tid.offno

theorem tuple?_eq (index : HnswIndex V) (tid : ItemPointer) :
    index.tuple? tid = (index.item? tid).map Item.tuple := by
  unfold tuple? item? Page.tuple?
  cases index.page? tid.blkno <;> rfl

variable {tid : ItemPointer} {etup : HnswElementTuple V} {ntup : HnswNeighborTuple}
  {blkno : BlockNumber} {old : Page (IndexTuple V)}

theorem item?_eq_some {item : Item (IndexTuple V)} :
    index.item? tid = some item ↔
      ∃ page, index.page? tid.blkno = some page ∧ page.item? tid.offno = some item :=
  Option.bind_eq_some_iff

theorem element?_eq_some :
    index.element? tid = some etup ↔ index.tuple? tid = some (.element etup) := by
  unfold element?
  split
  · next h => simp [h]
  · next h =>
    constructor
    · intro hnone
      cases hnone
    · intro htuple
      exact absurd htuple (h etup)

theorem neighbor?_eq_some :
    index.neighbor? tid = some ntup ↔ index.tuple? tid = some (.neighbor ntup) := by
  unfold neighbor?
  split
  · next h => simp [h]
  · next h =>
    constructor
    · intro hnone
      cases hnone
    · intro htuple
      exact absurd htuple (h ntup)

theorem element?_congr {index' : HnswIndex V} (h : index'.item? tid = index.item? tid) :
    index'.element? tid = index.element? tid := by
  simp only [element?, tuple?_eq, h]

theorem neighbor?_congr {index' : HnswIndex V} (h : index'.item? tid = index.item? tid) :
    index'.neighbor? tid = index.neighbor? tid := by
  simp only [neighbor?, tuple?_eq, h]

theorem item?_of_element? (h : index.element? tid = some etup) :
    ∃ size, index.item? tid = some ⟨size, .element etup⟩ := by
  rw [element?_eq_some, tuple?_eq, Option.map_eq_some_iff] at h
  obtain ⟨⟨size, tuple⟩, hitem, rfl⟩ := h
  exact ⟨size, hitem⟩

theorem element?_of_item? {size : Nat} (h : index.item? tid = some ⟨size, .element etup⟩) :
    index.element? tid = some etup := by
  simp [element?_eq_some, tuple?_eq, h]

theorem item?_of_neighbor? (h : index.neighbor? tid = some ntup) :
    ∃ size, index.item? tid = some ⟨size, .neighbor ntup⟩ := by
  rw [neighbor?_eq_some, tuple?_eq, Option.map_eq_some_iff] at h
  obtain ⟨⟨size, tuple⟩, hitem, rfl⟩ := h
  exact ⟨size, hitem⟩

theorem neighbor?_of_item? {size : Nat} (h : index.item? tid = some ⟨size, .neighbor ntup⟩) :
    index.neighbor? tid = some ntup := by
  simp [neighbor?_eq_some, tuple?_eq, h]

theorem element?_ne_neighbor? {ntid : ItemPointer} (he : index.element? tid = some etup)
    (hn : index.neighbor? ntid = some ntup) : tid ≠ ntid := by
  rintro rfl
  rw [element?_eq_some] at he
  rw [neighbor?_eq_some, he] at hn
  cases hn

theorem page?_setPage (page : Page (IndexTuple V)) (h : index.page? blkno = some old) :
    (index.setPage blkno page).page? = Function.update index.page? blkno (some page) := by
  have hzero : blkno ≠ 0 := by
    intro h0
    simp [page?, h0] at h
  have hlt : blkno - 1 < index.pages.length := by
    simp only [page?, if_neg hzero] at h
    exact (List.getElem?_eq_some_iff.mp h).1
  funext b
  by_cases hb : b = blkno
  · subst hb
    simp [page?, setPage, hzero, hlt]
  · rw [Function.update_of_ne hb]
    by_cases hzero' : b = 0
    · simp [page?, hzero']
    · have hne : blkno - 1 ≠ b - 1 := pred_ne_pred hzero hzero' (Ne.symm hb)
      simp [page?, setPage, hzero, hzero', List.getElem?_set_ne hne]

@[simp] theorem metapage_setPage (index : HnswIndex V) (blkno : BlockNumber)
    (page : Page (IndexTuple V)) :
    (index.setPage blkno page).metapage = index.metapage := by
  unfold setPage
  split <;> rfl

@[simp] theorem length_setPage (index : HnswIndex V) (blkno : BlockNumber)
    (page : Page (IndexTuple V)) :
    (index.setPage blkno page).pages.length = index.pages.length := by
  unfold setPage
  split <;> simp

theorem item?_setPage (tid : ItemPointer) {page : Page (IndexTuple V)}
    {item : Option (Item (IndexTuple V))} (h : index.page? tid.blkno = some old)
    (hpage : page.item? = Function.update old.item? tid.offno item) :
    (index.setPage tid.blkno page).item? = Function.update index.item? tid item := by
  funext t
  unfold item?
  rw [page?_setPage page h]
  by_cases hblkno : t.blkno = tid.blkno
  · by_cases hoffno : t.offno = tid.offno
    · obtain rfl : t = tid := by
        cases t
        cases tid
        simp_all
      simp [hpage]
    · have hne : t ≠ tid := fun heq => hoffno (congrArg ItemPointer.offno heq)
      rw [Function.update_of_ne hne, hblkno, Function.update_self, h,
        Option.bind_some, Option.bind_some, hpage, Function.update_of_ne hoffno]
  · have hne : t ≠ tid := fun heq => hblkno (congrArg ItemPointer.blkno heq)
    rw [Function.update_of_ne hne, Function.update_of_ne hblkno]

theorem item?_modifyTuple (index : HnswIndex V) (tid : ItemPointer)
    (f : IndexTuple V → IndexTuple V) :
    (index.modifyTuple tid f).item? =
      Function.update index.item? tid
        ((index.item? tid).map fun item => { item with tuple := f item.tuple }) := by
  unfold modifyTuple
  split
  · next hpage =>
    symm
    rw [Function.update_eq_self_iff]
    simp [item?, hpage]
  · next page hpage =>
    have hitem : index.item? tid = page.item? tid.offno := by simp [item?, hpage]
    rw [hitem]
    exact item?_setPage tid hpage (page.item?_modify _ _)

/-! ## The chain of pages -/

def Chained (index : HnswIndex V) : Prop :=
  ∀ blkno page, index.page? blkno = some page →
    page.nextblkno = if blkno < index.pages.length then some (blkno + 1) else none

theorem page?_isSome : (index.page? blkno).isSome ↔ 1 ≤ blkno ∧ blkno ≤ index.pages.length := by
  unfold page?
  split
  · next hzero => simp [hzero]
  · next hzero =>
    rw [isSome_getElem?, pred_lt_iff hzero]
    exact ⟨fun h => ⟨Nat.pos_of_ne_zero hzero, h⟩, And.right⟩

theorem blkno_of_element? (h : index.element? tid = some etup) :
    1 ≤ tid.blkno ∧ tid.blkno ≤ index.pages.length := by
  obtain ⟨page, hpage, -⟩ := Option.bind_eq_some_iff.mp (element?_eq_some.mp h)
  exact page?_isSome.mp (Option.isSome_of_eq_some hpage)

theorem mem_elements_page {page : Page (IndexTuple V)} (h : index.page? blkno = some page)
    {offno : OffsetNumber} :
    (offno, etup) ∈ page.elements ↔ index.element? ⟨blkno, offno⟩ = some etup := by
  rw [Page.mem_elements, element?_eq_some, tuple?, h]
  rfl

theorem Chained.next_eq {next : BlockNumber} {page : Page (IndexTuple V)} (h : index.Chained)
    (hpage : index.page? blkno = some page) (hnext : page.nextblkno = some next) :
    next = blkno + 1 ∧ blkno + 1 ≤ index.pages.length := by
  rw [h blkno page hpage] at hnext
  split at hnext
  · next hlt => exact ⟨(Option.some.inj hnext).symm, hlt⟩
  · cases hnext

theorem Chained.last_eq {page : Page (IndexTuple V)} (h : index.Chained)
    (hpage : index.page? blkno = some page) (hlast : page.nextblkno = none) :
    blkno = index.pages.length := by
  have hle := (page?_isSome.mp (Option.isSome_of_eq_some hpage)).2
  rw [h blkno page hpage] at hlast
  split at hlast
  · cases hlast
  · next hge => exact Nat.le_antisymm hle (Nat.not_lt.mp hge)

theorem Chained.setPage {page : Page (IndexTuple V)} (hindex : index.Chained)
    (h : index.page? blkno = some old) (hnext : page.nextblkno = old.nextblkno) :
    (index.setPage blkno page).Chained := by
  intro b p hp
  rw [page?_setPage page h] at hp
  rw [length_setPage]
  by_cases hb : b = blkno
  · subst hb
    rw [Function.update_self] at hp
    cases hp
    rw [hnext]
    exact hindex b old h
  · rw [Function.update_of_ne hb] at hp
    exact hindex b p hp

end HnswIndex

/-- A change of tuples: the metapage stays, and the pages stay a chain. -/
structure KeepsPages {V : Type} (index index' : HnswIndex V) : Prop where
  metapage : index'.metapage = index.metapage
  length : index.pages.length ≤ index'.pages.length
  chained : index.Chained → index'.Chained

namespace KeepsPages

variable {V : Type} {index index₁ index₂ : HnswIndex V}

theorem refl (index : HnswIndex V) : KeepsPages index index :=
  ⟨rfl, Nat.le_refl _, id⟩

theorem trans (h : KeepsPages index index₁) (h' : KeepsPages index₁ index₂) :
    KeepsPages index index₂ :=
  ⟨h'.metapage.trans h.metapage, Nat.le_trans h.length h'.length,
    fun hindex => h'.chained (h.chained hindex)⟩

theorem setPage {blkno : BlockNumber} {old page : Page (IndexTuple V)}
    (h : index.page? blkno = some old) (hnext : page.nextblkno = old.nextblkno) :
    KeepsPages index (index.setPage blkno page) :=
  ⟨by simp, by simp, fun hindex => hindex.setPage h hnext⟩

theorem modifyTuple (index : HnswIndex V) (tid : ItemPointer)
    (f : IndexTuple V → IndexTuple V) : KeepsPages index (index.modifyTuple tid f) := by
  unfold HnswIndex.modifyTuple
  split
  · exact .refl index
  · next page hpage => exact .setPage hpage (by simp)

theorem page?_isSome (h : KeepsPages index index₁) {blkno : BlockNumber}
    (hpage : (index.page? blkno).isSome) : (index₁.page? blkno).isSome := by
  rw [HnswIndex.page?_isSome] at hpage ⊢
  exact ⟨hpage.1, Nat.le_trans hpage.2 h.length⟩

end KeepsPages

/-! ## Neighbor tuples and heap TIDs -/

section Write

variable {V : Type} {index index' : HnswIndex V}

open HnswIndex

variable {ntid tid : ItemPointer}

theorem item?_updateNeighborOnPage {idx : UpdateIdx} {startIdx lm : Nat} {checkExisting : Bool}
    {size : Nat} {ntup : HnswNeighborTuple} (h : index.item? ntid = some ⟨size, .neighbor ntup⟩) :
    (updateNeighborOnPage index ntid tid idx startIdx lm checkExisting).item? =
      Function.update index.item? ntid
        (some ⟨size, .neighbor (ntup.update tid idx startIdx lm checkExisting)⟩) := by
  unfold updateNeighborOnPage
  rw [item?_modifyTuple, h, Option.map_some]

theorem item?_overwriteNeighborOnPage {ntup : HnswNeighborTuple} {ntupSize : Nat}
    (h : overwriteNeighborOnPage index ntid ntup ntupSize = some index') :
    index'.item? = Function.update index.item? ntid (some ⟨ntupSize, .neighbor ntup⟩) ∧
      KeepsPages index index' := by
  obtain ⟨page, hpage, h⟩ := Option.bind_eq_some_iff.mp h
  obtain ⟨page', hpage', rfl⟩ := Option.map_eq_some_iff.mp h
  obtain ⟨-, hnext, hitem⟩ := Page.item?_overwrite hpage'
  exact ⟨item?_setPage ntid hpage hitem, .setPage hpage hnext⟩

theorem overwriteNeighborOnPage_isSome (ntup : HnswNeighborTuple) {item : Item (IndexTuple V)}
    (h : index.item? ntid = some item) :
    (overwriteNeighborOnPage index ntid ntup item.size).isSome := by
  obtain ⟨page, hpage, hitem⟩ := item?_eq_some.mp h
  simp [overwriteNeighborOnPage, hpage, Page.overwrite, hitem]

theorem addDuplicateOnPage_eq_some {heaptid : ItemPointer} {added : Bool}
    (h : addDuplicateOnPage index tid heaptid = some (added, index')) :
    (added = false ∧ index' = index) ∨
      ∃ size etup etup', index.item? tid = some ⟨size, .element etup⟩ ∧
        etup.addDuplicate? heaptid = some etup' ∧ added = true ∧
        index'.item? = Function.update index.item? tid (some ⟨size, .element etup'⟩) ∧
        KeepsPages index index' := by
  obtain ⟨etup, hetup, h⟩ := Option.map_eq_some_iff.mp h
  obtain ⟨size, hitem⟩ := item?_of_element? hetup
  split at h
  · cases h
    exact .inl ⟨rfl, rfl⟩
  · next etup' hadd =>
    cases h
    refine .inr ⟨size, etup, etup', hitem, hadd, rfl, ?_, .modifyTuple _ _ _⟩
    rw [item?_modifyTuple, hitem, Option.map_some]

theorem removeHeapTidsOnPage_eq_some {blkno : BlockNumber}
    {callback : ItemPointer → Bool} {reply : RemoveHeapTidsReply}
    (h : removeHeapTidsOnPage index blkno callback = some (reply, index')) :
    (∀ tid, index'.item? tid =
      if tid.blkno = blkno then
        (index.item? tid).map (removeHeapTidsItem callback)
      else index.item? tid) ∧
    KeepsPages index index' ∧
    ∃ page, index.page? blkno = some page ∧ reply.nextblkno = page.nextblkno ∧
      reply.removed = page.elements.flatMap (fun e => e.2.removedTids callback) ∧
      ∀ e, e ∈ reply.visited ↔ ∃ etup, index'.element? ⟨blkno, e.offno⟩ = some etup ∧
        e = ⟨e.offno, etup.level, etup.isEmptied⟩ := by
  unfold removeHeapTidsOnPage at h
  split at h
  · cases h
  · next page hpage =>
    cases h
    have hitem : ∀ tid, (index.setPage blkno
        { page with items := page.items.map (removeHeapTidsItem callback) }).item? tid =
        if tid.blkno = blkno then (index.item? tid).map (removeHeapTidsItem callback)
        else index.item? tid := by
      intro tid
      unfold item?
      rw [page?_setPage _ hpage]
      split
      · next hblkno =>
        rw [hblkno, Function.update_self, hpage, Option.bind_some, Option.bind_some,
          Page.item?_map_items]
      · next hblkno => rw [Function.update_of_ne hblkno]
    refine ⟨hitem, .setPage hpage rfl, page, hpage, rfl, rfl, ?_⟩
    rintro ⟨offno, level, emptied⟩
    simp only [List.mem_map, Prod.exists, VisitedElement.mk.injEq]
    constructor
    · rintro ⟨offno', etup, hmem, rfl, rfl, rfl⟩
      refine ⟨etup, ?_, trivial, rfl, rfl⟩
      rw [Page.mem_elements] at hmem
      rw [element?_eq_some]
      simpa [tuple?, page?_setPage _ hpage] using hmem
    · rintro ⟨etup, hetup, -, rfl, rfl⟩
      refine ⟨offno, etup, ?_, rfl, rfl, rfl⟩
      rw [element?_eq_some] at hetup
      rw [Page.mem_elements]
      simpa [tuple?, page?_setPage _ hpage] using hetup

theorem removeHeapTidsOnPage_ordered {blkno : BlockNumber}
    {callback : ItemPointer → Bool} {reply : RemoveHeapTidsReply}
    (h : removeHeapTidsOnPage index blkno callback = some (reply, index')) :
    (reply.visited.Pairwise fun a b => a.offno < b.offno) ∧
      index'.pages.length = index.pages.length := by
  unfold removeHeapTidsOnPage at h
  split at h
  · cases h
  · cases h
    refine ⟨?_, length_setPage _ _ _⟩
    rw [List.pairwise_map]
    exact Page.elements_ordered _

theorem markDeletedAt_marked {size : Nat} {etup : HnswElementTuple V}
    (hitem : index.item? tid = some ⟨size, .element etup⟩) (hlive : etup.deleted = false)
    (hempty : etup.isEmptied = true) (hneighbor : (index.neighbor? etup.neighbortid).isSome) :
    (markDeletedAt index tid).1 = .marked ∧
      (∀ nsize ntup, index.item? etup.neighbortid = some ⟨nsize, .neighbor ntup⟩ →
        (markDeletedAt index tid).2.item? =
          Function.update (Function.update index.item? tid (some ⟨size, .element etup.markDeleted⟩))
            etup.neighbortid
            (some ⟨nsize, .neighbor (ntup.markDeleted etup.markDeleted.version)⟩)) ∧
      KeepsPages index (markDeletedAt index tid).2 := by
  have hetup := element?_of_item? hitem
  simp only [markDeletedAt, hetup, hlive, hempty, Option.isNone_eq_false_iff.mpr hneighbor,
    Bool.not_true, Bool.false_eq_true, if_false]
  refine ⟨trivial, ?_, (KeepsPages.modifyTuple index tid _).trans (.modifyTuple _ _ _)⟩
  intro nsize ntup hn
  have hne : etup.neighbortid ≠ tid := by
    rintro heq
    rw [heq, hitem] at hn
    cases hn
  rw [item?_modifyTuple, item?_modifyTuple, hitem, Option.map_some,
    Function.update_of_ne hne, hn, Option.map_some]

theorem markDeletedAt_cases (index : HnswIndex V) (tid : ItemPointer) :
    (markDeletedAt index tid).2 = index ∨
      ∃ size etup, index.item? tid = some ⟨size, .element etup⟩ ∧
        etup.deleted = false ∧ etup.isEmptied = true ∧
        (∀ nsize ntup, index.item? etup.neighbortid = some ⟨nsize, .neighbor ntup⟩ →
          (markDeletedAt index tid).2.item? =
            Function.update
              (Function.update index.item? tid (some ⟨size, .element etup.markDeleted⟩))
              etup.neighbortid
              (some ⟨nsize, .neighbor (ntup.markDeleted etup.markDeleted.version)⟩)) ∧
        KeepsPages index (markDeletedAt index tid).2 := by
  cases hetup : index.element? tid with
  | none =>
    left
    simp only [markDeletedAt, hetup]
  | some etup =>
    obtain ⟨size, hitem⟩ := item?_of_element? hetup
    cases hlive : etup.deleted with
    | true =>
      left
      simp [markDeletedAt, hetup, hlive]
    | false =>
      cases hempty : etup.isEmptied with
      | false =>
        left
        simp [markDeletedAt, hetup, hlive, hempty]
      | true =>
        by_cases hneighbor : (index.neighbor? etup.neighbortid).isSome
        · obtain ⟨-, hwritten, hpages⟩ := markDeletedAt_marked hitem hlive hempty hneighbor
          exact .inr ⟨size, etup, hitem, hlive, hempty, hwritten, hpages⟩
        · left
          have hmissing := Option.not_isSome_iff_eq_none.mp hneighbor
          simp [markDeletedAt, hetup, hlive, hempty, hmissing]

end Write

/-! ## Adding an element -/

section Add

variable {V : Type} {index index' : HnswIndex V}

open HnswIndex

variable {blkno : BlockNumber} {r : AddElementRequest V}

theorem hnswFreeOffset_eq_some {page : Page (IndexTuple V)} {etupSize ntupSize : Nat}
    {offsets : List OffsetNumber} {newInsertPage insertPage : Option BlockNumber}
    {free : FreeOffset}
    (h : hnswFreeOffset index blkno page etupSize ntupSize offsets newInsertPage =
      (some free, insertPage)) :
    ∃ size etup, page.item? free.freeOffno = some ⟨size, .element etup⟩ ∧
      etup.deleted = true ∧ free.neighbortid = etup.neighbortid ∧
      free.tupleVersion = etup.version ∧
      ((index.neighbor? etup.neighbortid).isSome →
        hnswFreeSpaceCheck index blkno page ⟨size, .element etup⟩ etup.neighbortid
          etupSize ntupSize = true) := by
  induction offsets generalizing newInsertPage with
  | nil => simp [hnswFreeOffset] at h
  | cons offno rest ih =>
    rw [hnswFreeOffset] at h
    split at h
    · next size etup hitem =>
      split at h
      · next hdeleted =>
        split at h
        · next hspace =>
          obtain ⟨hfree, -⟩ := Prod.mk.inj h
          cases hfree
          refine ⟨size, etup, hitem, hdeleted, rfl, rfl, fun hneighbor => ?_⟩
          simpa [Option.isNone_eq_false_iff.mpr hneighbor] using hspace
        · exact ih h
      · exact ih h
    · exact ih h

theorem page?_hnswInsertAppendPage {page : Page (IndexTuple V)}
    (h : index.page? blkno = some page) :
    (hnswInsertAppendPage index blkno page).1.page? =
      Function.update
        (Function.update index.page? blkno (some { page with nextblkno := some index.nextBlock }))
        index.nextBlock (some Page.init) := by
  funext b
  have hset := congrFun (page?_setPage { page with nextblkno := some index.nextBlock } h) b
  by_cases hb : b = index.nextBlock
  · subst hb
    simp [hnswInsertAppendPage, page?, nextBlock]
  · rw [Function.update_of_ne hb, ← hset]
    by_cases hzero : b = 0
    · simp [page?, hzero]
    · have hne : b - 1 ≠ index.pages.length :=
        pred_ne_pred (b := index.pages.length + 1) hzero (Nat.succ_ne_zero _) hb
      simp only [hnswInsertAppendPage, page?, if_neg hzero]
      rcases Nat.lt_or_gt_of_ne hne with hlt | hgt
      · rw [List.getElem?_append_left (by simpa using hlt)]
      · rw [List.getElem?_eq_none (by simp; omega), List.getElem?_eq_none (by simp; omega)]

theorem nextBlock_not_page (index : HnswIndex V) : index.page? index.nextBlock = none := by
  simp [page?, nextBlock]

theorem hnswInsertAppendPage_spec {page : Page (IndexTuple V)} (h : index.page? blkno = some page) :
    (hnswInsertAppendPage index blkno page).1.item? = index.item? ∧
      (page.nextblkno = none → KeepsPages index (hnswInsertAppendPage index blkno page).1) := by
  have hne : blkno ≠ index.nextBlock := by
    rintro rfl
    rw [nextBlock_not_page] at h
    cases h
  have hlen : (hnswInsertAppendPage index blkno page).1.pages.length = index.pages.length + 1 := by
    simp [hnswInsertAppendPage]
  refine ⟨?_, fun hlast => ⟨by simp [hnswInsertAppendPage], by omega, ?_⟩⟩
  · funext tid
    unfold item?
    rw [page?_hnswInsertAppendPage h]
    by_cases hnew : tid.blkno = index.nextBlock
    · rw [hnew, Function.update_self, nextBlock_not_page, Option.bind_some,
        Page.item?_init, Option.bind_none]
    · rw [Function.update_of_ne hnew]
      by_cases hblkno : tid.blkno = blkno
      · rw [hblkno, Function.update_self, h]
        rfl
      · rw [Function.update_of_ne hblkno]
  · intro hindex b p hp
    -- the page that had no successor is the last one
    have hblkno : blkno = index.pages.length := by
      have hchain := hindex blkno page h
      rw [hlast] at hchain
      have hle := (page?_isSome.mp (Option.isSome_of_eq_some h)).2
      split at hchain
      · cases hchain
      · next hlt => exact Nat.le_antisymm hle (Nat.le_of_not_lt hlt)
    rw [page?_hnswInsertAppendPage h] at hp
    rw [hlen]
    by_cases hnew : b = index.nextBlock
    · subst hnew
      rw [Function.update_self] at hp
      cases hp
      simp [nextBlock, Page.init]
    · rw [Function.update_of_ne hnew] at hp
      by_cases hb : b = blkno
      · subst hb
        rw [Function.update_self] at hp
        cases hp
        simp [hblkno, nextBlock]
      · rw [Function.update_of_ne hb] at hp
        have hle := (page?_isSome.mp (Option.isSome_of_eq_some hp)).2
        have hlt : b < index.pages.length :=
          Nat.lt_of_le_of_ne hle fun heq => hb (heq.trans hblkno.symm)
        rw [hindex b p hp, if_pos hlt, if_pos (Nat.lt_succ_of_lt hlt)]

inductive Placed (index : HnswIndex V) (r : AddElementRequest V) :
    AddElementReply → HnswIndex V → Prop
  | failed {after : HnswIndex V} (error : HnswError) : after.item? = index.item? →
      Placed index r (.failed error) after
  | fresh {after : HnswIndex V} (tid neighbortid : ItemPointer)
      (newInsertPage : BlockNumber) :
      index.item? tid = none → index.item? neighbortid = none →
      tid ≠ neighbortid → tid.isValid = true → neighbortid.isValid = true →
      after.item? =
        Function.update
          (Function.update index.item? tid
            (some ⟨r.etupSize, .element { r.etup with neighbortid := neighbortid }⟩))
          neighbortid (some ⟨r.ntupSize, .neighbor r.ntup⟩) →
      Placed index r (.placed tid neighbortid newInsertPage) after
  | reused {after : HnswIndex V} (tid : ItemPointer) (newInsertPage : BlockNumber)
      (size : Nat) (old : HnswElementTuple V) :
      index.item? tid = some ⟨size, .element old⟩ → old.deleted = true →
      (∃ item, index.item? old.neighbortid = some item) →
      after.item? =
        Function.update
          (Function.update index.item? tid
            (some ⟨r.etupSize, .element
              { r.etup with version := old.version, neighbortid := old.neighbortid }⟩))
          old.neighbortid
          (some ⟨r.ntupSize, .neighbor { r.ntup with version := old.version }⟩) →
      Placed index r (.placed tid old.neighbortid newInsertPage) after

theorem placed_fresh {nblkno : BlockNumber} {offno noffno : OffsetNumber}
    {page page' npage npage' : Page (IndexTuple V)} (newInsertPage : BlockNumber)
    (hpage : index.page? blkno = some page)
    (hadd : page.addItem (.element { r.etup with neighbortid := ⟨nblkno, noffno⟩ }) r.etupSize =
      some (page', offno))
    (hnpage : (index.setPage blkno page').page? nblkno = some npage)
    (hnadd : npage.addItem (.neighbor r.ntup) r.ntupSize = some (npage', noffno)) :
    Placed index r (.placed ⟨blkno, offno⟩ ⟨nblkno, noffno⟩ newInsertPage)
        ((index.setPage blkno page').setPage nblkno npage') ∧
      KeepsPages index ((index.setPage blkno page').setPage nblkno npage') := by
  obtain ⟨hoffno, hnext, hitem⟩ := Page.item?_addItem hadd
  obtain ⟨hnoffno, hnnext, hnitem⟩ := Page.item?_addItem hnadd
  have hfirst := item?_setPage ⟨blkno, offno⟩ hpage hitem
  have hsecond := item?_setPage ⟨nblkno, noffno⟩ hnpage hnitem
  have hempty : index.item? ⟨blkno, offno⟩ = none := by
    simp [item?, hpage, hoffno, page.item?_maxOffsetNumber_succ]
  have hnempty : (index.setPage blkno page').item? ⟨nblkno, noffno⟩ = none := by
    simp [item?, hnpage, hnoffno, npage.item?_maxOffsetNumber_succ]
  have hne : (⟨blkno, offno⟩ : ItemPointer) ≠ ⟨nblkno, noffno⟩ := by
    intro heq
    rw [hfirst, ← heq, Function.update_self] at hnempty
    cases hnempty
  constructor
  · rw [hfirst] at hsecond
    rw [hfirst, Function.update_of_ne hne.symm] at hnempty
    apply Placed.fresh _ _ _ hempty hnempty hne _ _ hsecond
    · simp [ItemPointer.isValid, hoffno, invalidOffsetNumber]
    · simp [ItemPointer.isValid, hnoffno, invalidOffsetNumber]
  · exact (KeepsPages.setPage hpage hnext).trans (.setPage hnpage hnnext)

theorem addNewElement_placed (index : HnswIndex V) (r : AddElementRequest V)
    (blkno nblkno : BlockNumber) (newInsertPage : Option BlockNumber) :
    Placed index r (addNewElement index r blkno nblkno newInsertPage).1
        (addNewElement index r blkno nblkno newInsertPage).2 ∧
      KeepsPages index (addNewElement index r blkno nblkno newInsertPage).2 := by
  have hfailed : Placed index r (.failed .failedToAddIndexItem) index ∧ KeepsPages index index :=
    ⟨.failed _ rfl, .refl index⟩
  unfold addNewElement
  split
  · exact hfailed
  · next page hpage =>
    simp only
    generalize (if nblkno = blkno then page.maxOffsetNumber + 1 + 1
      else firstOffsetNumber) = noffno
    split
    · exact hfailed
    · next page' offno hadd =>
      split
      · exact hfailed
      · next hoffno =>
        split
        · exact hfailed
        · next npage hnpage =>
          split
          · exact hfailed
          · next npage' noffno' hnadd =>
            split
            · exact hfailed
            · next hnoffno =>
              rw [not_not] at hoffno hnoffno
              subst hnoffno
              rw [← hoffno]
              exact placed_fresh _ hpage hadd hnpage hnadd

theorem reuseElement_placed {page : Page (IndexTuple V)} {free : FreeOffset} {size : Nat}
    {old : HnswElementTuple V} (newInsertPage : Option BlockNumber)
    (hpage : index.page? blkno = some page)
    (hold : page.item? free.freeOffno = some ⟨size, .element old⟩) (hdeleted : old.deleted = true)
    (hneighbor : free.neighbortid = old.neighbortid) (hversion : free.tupleVersion = old.version) :
    Placed index r (reuseElement index r blkno free newInsertPage).1
        (reuseElement index r blkno free newInsertPage).2 ∧
      KeepsPages index (reuseElement index r blkno free newInsertPage).2 := by
  have hfailed (e : HnswError) : Placed index r (.failed e) index ∧ KeepsPages index index :=
    ⟨.failed e rfl, .refl index⟩
  have hitem : index.item? ⟨blkno, free.freeOffno⟩ = some ⟨size, .element old⟩ := by
    simp [item?, hpage, hold]
  unfold reuseElement
  rw [hpage]
  simp only
  split
  · exact hfailed _
  split
  · exact hfailed _
  · next page' hover =>
    obtain ⟨-, hnext, hpage'⟩ := Page.item?_overwrite hover
    split
    · exact hfailed _
    · next npage hnpage =>
      split
      · exact hfailed _
      · next npage' hover' =>
        obtain ⟨⟨nold, hnold⟩, hnext', hnpage'⟩ := Page.item?_overwrite hover'
        have hfirst := item?_setPage ⟨blkno, free.freeOffno⟩ hpage hpage'
        have hsecond := item?_setPage free.neighbortid hnpage hnpage'
        have hsome : (index.setPage blkno page').item? free.neighbortid = some nold := by
          simp [item?, hnpage, hnold]
        rw [hfirst] at hsecond hsome
        rw [hneighbor, hversion] at hsecond
        constructor
        · rw [hneighbor] at hsome ⊢
          apply Placed.reused _ _ size old hitem hdeleted _ hsecond
          by_cases heq : old.neighbortid = ⟨blkno, free.freeOffno⟩
          · exact ⟨_, by rw [heq]; exact hitem⟩
          · rw [Function.update_of_ne heq] at hsome
            exact ⟨_, hsome⟩
        · exact (KeepsPages.setPage hpage hnext).trans (.setPage hnpage hnext')

theorem Placed.of_item? {reply : AddElementReply} {start : HnswIndex V}
    (hitem : start.item? = index.item?) (h : Placed start r reply index') :
    Placed index r reply index' := by
  cases h with
  | failed e h => exact .failed e (h.trans hitem)
  | fresh tid ntid p h₁ h₂ h₃ h₄ h₅ h₆ =>
    rw [hitem] at h₁ h₂ h₆
    exact .fresh tid ntid p h₁ h₂ h₃ h₄ h₅ h₆
  | reused tid p size old h₁ h₂ h₃ h₄ =>
    rw [hitem] at h₁ h₃ h₄
    exact .reused tid p size old h₁ h₂ h₃ h₄

theorem appended_placed {page : Page (IndexTuple V)} (r : AddElementRequest V)
    (eblkno nblkno : BlockNumber) (newInsertPage : Option BlockNumber)
    (hpage : index.page? blkno = some page) (hlast : page.nextblkno = none) :
    Placed index r
        (addNewElement (hnswInsertAppendPage index blkno page).1 r eblkno nblkno newInsertPage).1
        (addNewElement (hnswInsertAppendPage index blkno page).1 r eblkno nblkno newInsertPage).2 ∧
      KeepsPages index
        (addNewElement (hnswInsertAppendPage index blkno page).1 r eblkno nblkno
          newInsertPage).2 := by
  obtain ⟨hitem, happend⟩ := hnswInsertAppendPage_spec hpage
  obtain ⟨hout, hkeep⟩ := addNewElement_placed
    (hnswInsertAppendPage index blkno page).1 r eblkno nblkno newInsertPage
  exact ⟨hout.of_item? hitem, (happend hlast).trans hkeep⟩

theorem addElementOnPage_cases (index : HnswIndex V) (r : AddElementRequest V)
    (blkno : BlockNumber) (newInsertPage : Option BlockNumber) :
    ((addElementOnPage index r blkno newInsertPage).2 = index ∧
      ∃ page next insertPage, index.page? blkno = some page ∧
        page.nextblkno = some next ∧
        (addElementOnPage index r blkno newInsertPage).1 = .next next insertPage) ∨
    (Placed index r (addElementOnPage index r blkno newInsertPage).1
        (addElementOnPage index r blkno newInsertPage).2 ∧
      KeepsPages index (addElementOnPage index r blkno newInsertPage).2) := by
  unfold addElementOnPage
  split
  · exact .inr ⟨.failed _ rfl, .refl index⟩
  · next page hpage =>
    simp only
    generalize (if newInsertPage.isNone && decide (r.minCombinedSize ≤ page.freeSpace)
      then some blkno else newInsertPage) = insertPage
    split
    · exact .inr (addNewElement_placed index r blkno blkno insertPage)
    · split
      · next free insertPage' hfree =>
        obtain ⟨size, old, hold, hdeleted, hneighbor, hversion, -⟩ :=
          hnswFreeOffset_eq_some hfree
        exact .inr (reuseElement_placed insertPage' hpage hold hdeleted hneighbor hversion)
      · next insertPage' hfree =>
        split
        · next hspace =>
          exact .inr (appended_placed r _ _ insertPage' hpage hspace.2.2)
        · split
          · next next hnext =>
            exact .inl ⟨rfl, page, next, insertPage', hpage, hnext, rfl⟩
          · next hnext =>
            right
            split
            · obtain ⟨hitem, happend⟩ := hnswInsertAppendPage_spec hpage
              have hnew : (hnswInsertAppendPage index blkno page).1.page?
                  index.nextBlock = some Page.init := by
                rw [page?_hnswInsertAppendPage hpage, Function.update_self]
              obtain ⟨hout, hkeep⟩ := appended_placed r index.nextBlock
                (hnswInsertAppendPage index blkno page).1.nextBlock insertPage' hnew rfl
              exact ⟨hout.of_item? hitem, (happend hnext).trans hkeep⟩
            · exact appended_placed r _ _ insertPage' hpage hnext

end Add

end PgVector.Hnsw
