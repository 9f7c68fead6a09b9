import Mathlib.Tactic.Ring
import PgVector.Hnsw.Build
import PgVector.Hnsw.Storage

/-!
# The flush preserves the graph

`CreateGraphPages` predicts where the neighbors of an element will go before it
has placed the element.  The predictions agree with the free space that the pages
report, so the flush does not fail, and what is read back is the graph in memory.
-/

namespace PgVector.Hnsw

open Foundation

/-! ## Slots of a neighbor tuple -/

section Slots

@[simp] theorem layerSlots_length (lm : Nat) (tids : List ItemPointer) :
    (layerSlots lm tids).length = lm := by
  simp only [layerSlots, List.length_append, List.length_take, List.length_replicate]
  omega

theorem hnswGetLayerM_succ (m lc : Nat) : hnswGetLayerM m (lc + 1) = m := by
  simp [hnswGetLayerM]

theorem neighborSlots_length (m : Nat) (tids : List ItemPointer)
    (lower : List (List ItemPointer)) :
    (neighborSlots m (tids :: lower)).length = (lower.length + 2) * m := by
  induction lower generalizing tids with
  | nil =>
    simp [neighborSlots, hnswGetLayerM]
    omega
  | cons tids' lower ih =>
    rw [neighborSlots, List.length_append, layerSlots_length, List.length_cons,
      hnswGetLayerM_succ, ih]
    ring

theorem drop_neighborSlots (m i : Nat) (layers : List (List ItemPointer))
    (hi : i < layers.length) :
    (neighborSlots m layers).drop (i * m) = neighborSlots m (layers.drop i) := by
  induction i generalizing layers with
  | zero => simp
  | succ i ih =>
    obtain ⟨tids, tids', lower, rfl⟩ : ∃ tids tids' lower, layers = tids :: tids' :: lower := by
      match layers, hi with
      | tids :: tids' :: lower, _ => exact ⟨tids, tids', lower, rfl⟩
    have hdrop : (i + 1) * m = m + i * m := by ring
    have htop : (layerSlots m tids).length = m := layerSlots_length m tids
    rw [neighborSlots, List.length_cons, hnswGetLayerM_succ, hdrop,
      ← List.drop_drop, List.drop_left' htop, List.drop_succ_cons]
    exact ih (tids' :: lower) (by simpa using hi)

theorem layer_hnswSetNeighborTuple (m version i : Nat)
    (layers : List (List ItemPointer)) {tids : List ItemPointer}
    (h : layers[i]? = some tids) :
    (hnswSetNeighborTuple m version layers).layer (i * m)
        (hnswGetLayerM m (layers.length - 1 - i)) =
      layerSlots (hnswGetLayerM m (layers.length - 1 - i)) tids := by
  obtain ⟨hi, rfl⟩ := List.getElem?_eq_some_iff.mp h
  have hlength : (layers.drop (i + 1)).length = layers.length - 1 - i := by
    simp
    omega
  rw [HnswNeighborTuple.layer, hnswSetNeighborTuple, drop_neighborSlots m i layers hi,
    List.drop_eq_getElem_cons hi, neighborSlots, hlength,
    List.take_left' (layerSlots_length _ _)]

theorem takeWhile_layerSlots {lm : Nat} {tids : List ItemPointer}
    (hvalid : ∀ tid ∈ tids, tid.isValid = true) (hlength : tids.length ≤ lm) :
    (layerSlots lm tids).takeWhile ItemPointer.isValid = tids := by
  rw [layerSlots, List.take_of_length_le hlength, List.takeWhile_append_of_pos hvalid]
  cases lm - tids.length <;> simp [List.replicate_succ]

theorem takeWhile_heaptidSlots {heaptids : List ItemPointer}
    (hvalid : ∀ tid ∈ heaptids, tid.isValid = true)
    (hlength : heaptids.length ≤ hnswHeaptids) :
    (heaptidSlots heaptids).takeWhile ItemPointer.isValid = heaptids :=
  takeWhile_layerSlots hvalid hlength

end Slots

/-! ## Free space -/

namespace Page

variable {T : Type} {page : Page T}

theorem freeSpace_eq (page : Page T) :
    page.freeSpace = 8156 - page.tupleBytes - 4 * page.items.length := by
  have hgap : page.upper - page.lower = 8160 - page.tupleBytes - 4 * page.items.length := by
    simp only [upper, lower, blcksz, maxAlign, sizeOfPageOpaqueData,
      sizeOfPageHeaderData, sizeOfItemIdData]
    omega
  rw [freeSpace, hgap, sizeOfItemIdData]
  split <;> omega

@[simp] theorem freeSpace_init : (Page.init : Page T).freeSpace = 8156 := rfl

theorem addItem_of_le (tuple : T) {size : Nat} (haligned : maxAlign size = size)
    (hpos : 0 < size) (h : size ≤ page.freeSpace) :
    page.addItem tuple size =
      some ({ page with items := page.items ++ [⟨size, tuple⟩] },
        page.maxOffsetNumber + 1) := by
  rw [freeSpace_eq] at h
  have hroom : page.lower + sizeOfItemIdData + maxAlign size ≤ page.upper := by
    rw [haligned]
    simp only [upper, lower, blcksz, maxAlign, sizeOfPageOpaqueData,
      sizeOfPageHeaderData, sizeOfItemIdData]
    omega
  rw [addItem, if_pos hroom]

theorem freeSpace_append {tuple : T} {size : Nat} (haligned : maxAlign size = size) :
    ({ page with items := page.items ++ [⟨size, tuple⟩] } : Page T).freeSpace =
      page.freeSpace - size - 4 := by
  rw [freeSpace_eq, freeSpace_eq]
  simp only [tupleBytes, List.map_append, List.map_cons, List.map_nil,
    List.sum_append, List.sum_cons, List.sum_nil, List.length_append,
    List.length_cons, List.length_nil, haligned]
  omega

end Page

/-! ## Placing the elements -/

namespace FlushState

variable {V F : Type} {st : FlushState V}

def index (st : FlushState V) (metap : HnswMetaPage) : HnswIndex V :=
  ⟨metap, st.full ++ [st.page]⟩

theorem page?_blkno (st : FlushState V) (metap : HnswMetaPage) :
    (st.index metap).page? st.blkno = some st.page := by
  simp [index, HnswIndex.page?, blkno]

structure Open (st : FlushState V) : Prop where
  chained : ∀ metap, (st.index metap).Chained
  last : st.page.nextblkno = none

theorem open_start : (start : FlushState V).Open where
  chained := by
    intro metap blkno page h
    have hle := HnswIndex.page?_isSome.mp (Option.isSome_of_eq_some h)
    obtain rfl : blkno = 1 := Nat.le_antisymm hle.2 hle.1
    obtain rfl : Page.init = page := Option.some.inj h
    rfl
  last := rfl

theorem index_appendPage (st : FlushState V) (metap : HnswMetaPage) :
    st.appendPage.index metap = (hnswInsertAppendPage (st.index metap) st.blkno st.page).1 := by
  simp [appendPage, index, hnswInsertAppendPage, HnswIndex.setPage, blkno,
    HnswIndex.nextBlock, List.set_append_right]

theorem item?_appendPage (st : FlushState V) (metap : HnswMetaPage) :
    (st.appendPage.index metap).item? = (st.index metap).item? := by
  rw [index_appendPage]
  exact (hnswInsertAppendPage_spec (st.page?_blkno metap)).1

theorem Open.appendPage (hst : st.Open) : st.appendPage.Open where
  chained := by
    intro metap
    rw [index_appendPage]
    exact ((hnswInsertAppendPage_spec (st.page?_blkno metap)).2 hst.last).chained
      (hst.chained metap)
  last := rfl

theorem item?_ensure (st : FlushState V) (metap : HnswMetaPage) (needsPage : Bool) :
    ((st.ensure needsPage).index metap).item? = (st.index metap).item? := by
  cases needsPage with
  | false => rfl
  | true => exact st.item?_appendPage metap

theorem Open.ensure (hst : st.Open) (needsPage : Bool) : (st.ensure needsPage).Open := by
  cases needsPage with
  | false => exact hst
  | true => exact hst.appendPage

@[simp] theorem positions_ensure (st : FlushState V) (needsPage : Bool) :
    (st.ensure needsPage).positions = st.positions := by
  cases needsPage <;> rfl

theorem addItem_spec (tuple : IndexTuple V) {size : Nat}
    (hst : st.Open) (haligned : maxAlign size = size) (hpos : 0 < size)
    (hsize : size ≤ st.page.freeSpace) :
    ∃ st', st.addItem tuple size (st.page.maxOffsetNumber + 1) = .ok st' ∧
      st'.Open ∧ st'.blkno = st.blkno ∧ st'.positions = st.positions ∧
      st'.page.maxOffsetNumber = st.page.maxOffsetNumber + 1 ∧
      st'.page.freeSpace = st.page.freeSpace - size - 4 ∧
      ∀ metap,
        (st.index metap).item? ⟨st.blkno, st.page.maxOffsetNumber + 1⟩ = none ∧
        (st'.index metap).item? =
          Function.update (st.index metap).item?
            ⟨st.blkno, st.page.maxOffsetNumber + 1⟩ (some ⟨size, tuple⟩) := by
  have hadd := Page.addItem_of_le tuple haligned hpos hsize
  obtain ⟨-, hnext, hitem⟩ := Page.item?_addItem hadd
  have hset : ∀ metap, ({ st with page :=
        { st.page with items := st.page.items ++ [⟨size, tuple⟩] } } :
        FlushState V).index metap =
      (st.index metap).setPage st.blkno
        { st.page with items := st.page.items ++ [⟨size, tuple⟩] } := by
    intro metap
    simp [index, HnswIndex.setPage, blkno, List.set_append_right]
  refine ⟨{ st with page := { st.page with items := st.page.items ++ [⟨size, tuple⟩] } },
    ?_, ⟨?_, hst.last⟩, rfl, rfl, ?_, Page.freeSpace_append haligned, ?_⟩
  · simp [addItem, hadd]
  · intro metap
    rw [hset metap]
    exact (hst.chained metap).setPage (st.page?_blkno metap) hnext
  · simp [Page.maxOffsetNumber]
  · intro metap
    constructor
    · simp [HnswIndex.item?, st.page?_blkno metap, st.page.item?_maxOffsetNumber_succ]
    · rw [hset metap]
      exact HnswIndex.item?_setPage ⟨st.blkno, st.page.maxOffsetNumber + 1⟩
        (st.page?_blkno metap) hitem

end FlushState

section Place

variable {V F : Type} {valueSize : V → Nat} {m : Nat} {st : FlushState V}
  {e : GraphElement V F}

structure GraphElement.Fits (valueSize : V → Nat) (m : Nat) (e : GraphElement V F) :
    Prop where
  level : e.level ≤ hnswGetMaxLevel m
  size : hnswElementTupleSize (valueSize e.value) ≤ hnswMaxSize

theorem hnswElementTupleSize_pos (size : Nat) : 0 < hnswElementTupleSize size := by
  simp only [hnswElementTupleSize, maxAlign, elementTupleHeader]
  omega

theorem hnswNeighborTupleSize_pos (level m : Nat) : 0 < hnswNeighborTupleSize level m := by
  simp only [hnswNeighborTupleSize, maxAlign, neighborTupleHeader]
  omega

theorem GraphElement.Fits.neighbors (he : e.Fits valueSize m) (hm : 2 ≤ m ∧ m ≤ 100) :
    hnswNeighborTupleSize e.level m ≤ hnswMaxSize := by
  apply hnswNeighborTupleSize_le _ he.level
  rw [Nat.le_div_iff_mul_le (by omega)]
  omega

def GraphElement.tuple (e : GraphElement V F) (position : FlushPosition) : HnswElementTuple V :=
  hnswSetElementTuple e.level e.version e.heaptids e.value position.neighbortid

structure PlacedAt (valueSize : V → Nat) (m : Nat) (e : GraphElement V F)
    (before after : HnswIndex V) (position : FlushPosition) : Prop where
  tid : before.item? position.tid = none
  neighbortid : before.item? position.neighbortid = none
  distinct : position.tid ≠ position.neighbortid
  item? : after.item? =
    Function.update
      (Function.update before.item? position.tid
        (some ⟨hnswElementTupleSize (valueSize e.value), .element (e.tuple position)⟩))
      position.neighbortid (some ⟨hnswNeighborTupleSize e.level m, .placeholder⟩)

theorem ensure_room {etupSize : Nat} (combinedSize : Nat) (st : FlushState V)
    (hetup : etupSize ≤ hnswMaxSize) :
    ∃ st₁ : FlushState V,
      st.ensure (decide (st.page.freeSpace < etupSize) ||
        (decide (combinedSize ≤ hnswMaxSize) && decide (st.page.freeSpace < combinedSize))) = st₁ ∧
      (st.Open → st₁.Open) ∧ st₁.positions = st.positions ∧
      (∀ metap, (st₁.index metap).item? = (st.index metap).item?) ∧
      etupSize ≤ st₁.page.freeSpace ∧
      (combinedSize ≤ hnswMaxSize → combinedSize ≤ st₁.page.freeSpace) := by
  refine ⟨_, rfl, fun hst => hst.ensure _, st.positions_ensure _,
    fun metap => st.item?_ensure metap _, ?_⟩
  generalize hneeds : (decide (st.page.freeSpace < etupSize) ||
    (decide (combinedSize ≤ hnswMaxSize) && decide (st.page.freeSpace < combinedSize))) = needsPage
  cases needsPage with
  | true => exact ⟨hetup, id⟩
  | false =>
    simp only [Bool.or_eq_false_iff, decide_eq_false_iff_not, Bool.and_eq_false_imp,
      decide_eq_true_eq, not_lt] at hneeds
    exact hneeds

theorem addPlaceholder_spec {ntupSize : Nat} (hst : st.Open)
    (haligned : maxAlign ntupSize = ntupSize) (hpos : 0 < ntupSize)
    (hsize : ntupSize ≤ hnswMaxSize) {ntid : ItemPointer}
    (hntid : ntid = if st.page.freeSpace < ntupSize
      then ⟨st.blkno + 1, firstOffsetNumber⟩
      else ⟨st.blkno, st.page.maxOffsetNumber + 1⟩) :
    ∃ st', (st.ensure (decide (st.page.freeSpace < ntupSize))).addItem
        .placeholder ntupSize ntid.offno = .ok st' ∧
      st'.Open ∧ st'.positions = st.positions ∧
      ∀ metap, (st.index metap).item? ntid = none ∧
        (st'.index metap).item? = Function.update (st.index metap).item? ntid
          (some ⟨ntupSize, .placeholder⟩) := by
  split at hntid
  · next hmove =>
    rw [decide_eq_true hmove]
    obtain ⟨st', hadd, hopen, -, hpositions, -, -, hindex⟩ :=
      FlushState.addItem_spec .placeholder hst.appendPage haligned hpos
        (show ntupSize ≤ st.appendPage.page.freeSpace from hsize)
    have hntid' : ntid = ⟨st.appendPage.blkno, st.appendPage.page.maxOffsetNumber + 1⟩ := by
      simp [hntid, FlushState.appendPage, FlushState.blkno, Page.init,
        Page.maxOffsetNumber, firstOffsetNumber]
    refine ⟨st', by rw [hntid']; exact hadd, hopen, hpositions, fun metap => ?_⟩
    rw [hntid', ← st.item?_appendPage metap]
    exact hindex metap
  · next hstay =>
    rw [decide_eq_false hstay]
    obtain ⟨st', hadd, hopen, -, hpositions, -, -, hindex⟩ :=
      FlushState.addItem_spec .placeholder hst haligned hpos (Nat.le_of_not_lt hstay)
    refine ⟨st', by rw [hntid]; exact hadd, hopen, hpositions, fun metap => ?_⟩
    rw [hntid]
    exact hindex metap

theorem placeElement_spec (hm : 2 ≤ m ∧ m ≤ 100) (hst : st.Open)
    (he : e.Fits valueSize m) :
    ∃ st' position, placeElement valueSize m st e = .ok st' ∧ st'.Open ∧
      st'.positions = st.positions ++ [position] ∧
      ∀ metap, PlacedAt valueSize m e (st.index metap) (st'.index metap) position := by
  have hetup := he.size
  have hntup := he.neighbors hm
  have hepos := hnswElementTupleSize_pos (valueSize e.value)
  have hnpos := hnswNeighborTupleSize_pos e.level m
  obtain ⟨st₁, hst₁, hopen₁, hpositions₁, hindex₁, hroom, hboth⟩ :=
    ensure_room (hnswElementTupleSize (valueSize e.value) +
      hnswNeighborTupleSize e.level m + sizeOfItemIdData) st hetup
  generalize hposition : predictPosition st₁.blkno (st₁.page.maxOffsetNumber + 1)
    (hnswElementTupleSize (valueSize e.value) + hnswNeighborTupleSize e.level m +
      sizeOfItemIdData) = position
  have htid : position.tid = ⟨st₁.blkno, st₁.page.maxOffsetNumber + 1⟩ := by
    rw [← hposition]
    rfl
  obtain ⟨st₂, hadd, hopen₂, hblkno₂, hpositions₂, hmax₂, hfree₂, hindex₂⟩ :=
    FlushState.addItem_spec (.element (e.tuple position)) (hopen₁ hst)
      (maxAlign_hnswElementTupleSize _) hepos hroom
  -- the prediction from the sizes agrees with the space that is left
  have hntid : position.neighbortid =
      if st₂.page.freeSpace < hnswNeighborTupleSize e.level m
      then ⟨st₂.blkno + 1, firstOffsetNumber⟩
      else ⟨st₂.blkno, st₂.page.maxOffsetNumber + 1⟩ := by
    have hle : st₁.page.freeSpace ≤ 8156 := by
      rw [Page.freeSpace_eq]
      omega
    have hmax := hnswMaxSize_eq
    have hid : sizeOfItemIdData = 4 := rfl
    rw [← hposition, predictPosition, hfree₂, hblkno₂, hmax₂]
    by_cases hfit : hnswElementTupleSize (valueSize e.value) +
        hnswNeighborTupleSize e.level m + sizeOfItemIdData ≤ hnswMaxSize
    · have hcombined := hboth hfit
      rw [if_pos hfit, if_neg (by omega)]
    · rw [if_neg hfit, if_pos (by omega)]
  obtain ⟨st₃, hnadd, hopen₃, hpositions₃, hindex₃⟩ :=
    addPlaceholder_spec hopen₂ (maxAlign_hnswNeighborTupleSize _ _) hnpos hntup hntid
  refine ⟨{ st₃ with positions := st₃.positions ++ [position] }, position, ?_,
    ⟨hopen₃.chained, hopen₃.last⟩, ?_, fun metap => ?_⟩
  · have hsize : ¬ hnswTupleAllocSize < hnswElementTupleSize (valueSize e.value) := by
      rw [hnswMaxSize_eq] at hetup
      simp only [hnswTupleAllocSize, blcksz]
      omega
    have hoffno : position.tid.offno = st₁.page.maxOffsetNumber + 1 := by rw [htid]
    simp only [GraphElement.tuple] at hadd
    simp only [placeElement, if_neg hsize, hst₁, hposition, hoffno, hadd]
    change ((st₂.ensure _).addItem .placeholder _ _ >>= _) = _
    rw [hnadd]
    rfl
  · rw [hpositions₃, hpositions₂, hpositions₁]
  · have hfree := (hindex₂ metap).1
    have hfirst := (hindex₂ metap).2
    obtain ⟨hnfree, hsecond⟩ := hindex₃ metap
    rw [← htid, hindex₁] at hfree hfirst
    have hne : position.tid ≠ position.neighbortid := by
      intro heq
      rw [hfirst, ← heq, Function.update_self] at hnfree
      cases hnfree
    rw [hfirst, Function.update_of_ne hne.symm] at hnfree
    rw [hfirst] at hsecond
    exact ⟨hfree, hnfree, hne, hsecond⟩

def FlushPosition.tids (position : FlushPosition) : List ItemPointer :=
  [position.tid, position.neighbortid]

structure Flushing (valueSize : V → Nat) (m : Nat) (es : List (GraphElement V F))
    (st : FlushState V) : Prop where
  isOpen : st.Open
  length : st.positions.length = es.length
  element : ∀ {k : Nat} {p : FlushPosition} {e : GraphElement V F},
    st.positions[k]? = some p → es[k]? = some e → ∀ metap,
    (st.index metap).item? p.tid =
      some ⟨hnswElementTupleSize (valueSize e.value), .element (e.tuple p)⟩
  neighbors : ∀ {k : Nat} {p : FlushPosition} {e : GraphElement V F},
    st.positions[k]? = some p → es[k]? = some e → ∀ metap,
    (st.index metap).item? p.neighbortid = some ⟨hnswNeighborTupleSize e.level m, .placeholder⟩
  distinct : (st.positions.flatMap FlushPosition.tids).Nodup
  only : ∀ metap {tid}, ((st.index metap).item? tid).isSome →
    tid ∈ st.positions.flatMap FlushPosition.tids

theorem flushing_start :
    Flushing valueSize m ([] : List (GraphElement V F)) (FlushState.start : FlushState V) where
  isOpen := FlushState.open_start
  length := rfl
  element := by simp [FlushState.start]
  neighbors := by simp [FlushState.start]
  distinct := by simp [FlushState.start]
  only := by
    intro metap tid h
    obtain ⟨item, hitem⟩ := Option.isSome_iff_exists.mp h
    obtain ⟨page, hpage, hitem⟩ := HnswIndex.item?_eq_some.mp hitem
    have hle := HnswIndex.page?_isSome.mp (Option.isSome_of_eq_some hpage)
    have hblkno : tid.blkno = 1 := Nat.le_antisymm hle.2 hle.1
    rw [hblkno] at hpage
    obtain rfl : Page.init = page := Option.some.inj hpage
    simp at hitem

variable {es : List (GraphElement V F)}

theorem Flushing.occupied (h : Flushing valueSize m es st) (metap : HnswMetaPage)
    {tid : ItemPointer} (htid : tid ∈ st.positions.flatMap FlushPosition.tids) :
    ((st.index metap).item? tid).isSome := by
  obtain ⟨p, hp, htid⟩ := List.mem_flatMap.mp htid
  obtain ⟨k, hk⟩ := List.mem_iff_getElem?.mp hp
  have hlt : k < es.length := by
    rw [← h.length]
    exact (List.getElem?_eq_some_iff.mp hk).1
  have hes := List.getElem?_eq_getElem hlt
  simp only [FlushPosition.tids, List.mem_cons, List.not_mem_nil, or_false] at htid
  rcases htid with rfl | rfl
  · simp [h.element hk hes metap]
  · simp [h.neighbors hk hes metap]

theorem Flushing.place {st' : FlushState V} {position : FlushPosition}
    (h : Flushing valueSize m es st) (hopen : st'.Open)
    (hpositions : st'.positions = st.positions ++ [position])
    (hplaced : ∀ metap, PlacedAt valueSize m e (st.index metap) (st'.index metap) position) :
    Flushing valueSize m (es ++ [e]) st' := by
  -- what was placed before is somewhere else
  have hold : ∀ (metap : HnswMetaPage), ∀ tid ∈ st.positions.flatMap FlushPosition.tids,
      tid ≠ position.tid ∧ tid ≠ position.neighbortid := by
    intro metap tid htid
    have hsome := h.occupied metap htid
    constructor
    · rintro rfl
      simp [(hplaced metap).tid] at hsome
    · rintro rfl
      simp [(hplaced metap).neighbortid] at hsome
  have hkept : ∀ (metap : HnswMetaPage), ∀ tid ∈ st.positions.flatMap FlushPosition.tids,
      (st'.index metap).item? tid = (st.index metap).item? tid := by
    intro metap tid htid
    obtain ⟨hne, hnne⟩ := hold metap tid htid
    rw [(hplaced metap).item?, Function.update_of_ne hnne, Function.update_of_ne hne]
  have hcases : ∀ {k : Nat} {p : FlushPosition} {e' : GraphElement V F},
      st'.positions[k]? = some p → (es ++ [e])[k]? = some e' →
      (st.positions[k]? = some p ∧ es[k]? = some e') ∨ (p = position ∧ e' = e) := by
    intro k p e' hp he'
    rw [hpositions] at hp
    by_cases hk : k < es.length
    · rw [List.getElem?_append_left (by rwa [h.length])] at hp
      rw [List.getElem?_append_left hk] at he'
      exact .inl ⟨hp, he'⟩
    · rw [List.getElem?_append_right (by rw [h.length]; omega)] at hp
      rw [List.getElem?_append_right (by omega)] at he'
      rw [List.getElem?_singleton] at hp he'
      split at hp
      · split at he'
        · exact .inr ⟨(Option.some.inj hp).symm, (Option.some.inj he').symm⟩
        · cases he'
      · cases hp
  have hmem : ∀ {k : Nat} {p : FlushPosition}, st.positions[k]? = some p →
      p.tid ∈ st.positions.flatMap FlushPosition.tids ∧
        p.neighbortid ∈ st.positions.flatMap FlushPosition.tids := by
    intro k p hp
    have := List.mem_of_getElem? hp
    constructor <;> exact List.mem_flatMap.mpr ⟨p, this, by simp [FlushPosition.tids]⟩
  constructor
  · exact hopen
  · simp [hpositions, h.length]
  · intro k p e' hp he' metap
    rcases hcases hp he' with ⟨hp, he'⟩ | ⟨rfl, rfl⟩
    · rw [hkept metap _ (hmem hp).1]
      exact h.element hp he' metap
    · rw [(hplaced metap).item?, Function.update_of_ne (hplaced metap).distinct,
        Function.update_self]
  · intro k p e' hp he' metap
    rcases hcases hp he' with ⟨hp, he'⟩ | ⟨rfl, rfl⟩
    · rw [hkept metap _ (hmem hp).2]
      exact h.neighbors hp he' metap
    · rw [(hplaced metap).item?, Function.update_self]
  · rw [hpositions, List.flatMap_append, List.nodup_append]
    have metap : HnswMetaPage := ⟨0, 0, none, none⟩
    refine ⟨h.distinct, ?_, ?_⟩
    · simp [FlushPosition.tids, (hplaced metap).distinct]
    · intro tid htid tid' htid'
      obtain ⟨hne, hnne⟩ := hold metap tid htid
      simp only [FlushPosition.tids, List.flatMap_cons, List.flatMap_nil, List.append_nil,
        List.mem_cons, List.not_mem_nil, or_false] at htid'
      rcases htid' with rfl | rfl
      · exact hne
      · exact hnne
  · intro metap tid hsome
    rw [hpositions, List.flatMap_append, List.mem_append]
    rw [(hplaced metap).item?] at hsome
    by_cases hn : tid = position.neighbortid
    · simp [FlushPosition.tids, hn]
    · rw [Function.update_of_ne hn] at hsome
      by_cases ht : tid = position.tid
      · simp [FlushPosition.tids, ht]
      · rw [Function.update_of_ne ht] at hsome
        exact .inl (h.only metap hsome)

theorem placeElements_spec (hm : 2 ≤ m ∧ m ≤ 100) (h : Flushing valueSize m es st)
    (rest : List (GraphElement V F)) (hrest : ∀ e ∈ rest, e.Fits valueSize m) :
    ∃ st', rest.foldlM (placeElement valueSize m) st = .ok st' ∧
      Flushing valueSize m (es ++ rest) st' := by
  induction rest generalizing st es with
  | nil => exact ⟨st, rfl, by simpa using h⟩
  | cons e rest ih =>
    obtain ⟨st₁, position, hplace, hopen, hpositions, hplaced⟩ :=
      placeElement_spec hm h.isOpen (hrest e (.head _))
    obtain ⟨st', hfold, hst'⟩ := ih (h.place hopen hpositions hplaced)
      fun e he => hrest e (.tail _ he)
    refine ⟨st', ?_, by simpa using hst'⟩
    rw [List.foldlM_cons, hplace]
    exact hfold

end Place

/-! ## Writing the neighbors -/

section Neighbors

variable {V F : Type} {m : Nat}

def GraphElement.neighborTuple (m : Nat) (position : Nat → FlushPosition)
    (e : GraphElement V F) : HnswNeighborTuple :=
  hnswSetNeighborTuple m e.version (e.layerTids position)

theorem writeNeighborTuples_spec (position : Nat → FlushPosition)
    (es : List (GraphElement V F × Nat)) (index : HnswIndex V)
    (hnodup : (es.map fun e => (position e.2).neighbortid).Nodup)
    (hitem : ∀ e ∈ es, ∃ tuple, index.item? (position e.2).neighbortid =
      some ⟨hnswNeighborTupleSize e.1.level m, tuple⟩) :
    ∃ index', es.foldlM (writeNeighborTuple m position) index = .ok index' ∧
      KeepsPages index index' ∧
      (∀ tid, tid ∉ es.map (fun e => (position e.2).neighbortid) →
        index'.item? tid = index.item? tid) ∧
      ∀ e ∈ es, index'.item? (position e.2).neighbortid =
        some ⟨hnswNeighborTupleSize e.1.level m, .neighbor (e.1.neighborTuple m position)⟩ := by
  induction es generalizing index with
  | nil => exact ⟨index, rfl, .refl index, fun _ _ => rfl, by simp⟩
  | cons e rest ih =>
    rw [List.map_cons, List.nodup_cons] at hnodup
    obtain ⟨tuple, htuple⟩ := hitem e (.head _)
    obtain ⟨index₁, hover⟩ := Option.isSome_iff_exists.mp
      (overwriteNeighborOnPage_isSome (e.1.neighborTuple m position) htuple)
    obtain ⟨hindex₁, hkeep₁⟩ := item?_overwriteNeighborOnPage hover
    have hitem₁ : ∀ e' ∈ rest, ∃ tuple, index₁.item? (position e'.2).neighbortid =
        some ⟨hnswNeighborTupleSize e'.1.level m, tuple⟩ := by
      intro e' he'
      have hne : (position e'.2).neighbortid ≠ (position e.2).neighbortid := by
        intro heq
        exact hnodup.1 (heq ▸ List.mem_map_of_mem he')
      rw [hindex₁, Function.update_of_ne hne]
      exact hitem e' (.tail _ he')
    obtain ⟨index', hfold, hkeep, hother, hwritten⟩ := ih index₁ hnodup.2 hitem₁
    refine ⟨index', ?_, hkeep₁.trans hkeep, ?_, ?_⟩
    · have hwrite : writeNeighborTuple m position index e = .ok index₁ := by
        unfold writeNeighborTuple
        rw [GraphElement.neighborTuple] at hover
        rw [hover]
      rw [List.foldlM_cons, hwrite]
      exact hfold
    · intro tid htid
      rw [List.map_cons, List.mem_cons, not_or] at htid
      rw [hother tid htid.2, hindex₁, Function.update_of_ne htid.1]
    · intro e' he'
      rcases List.mem_cons.mp he' with rfl | he'
      · rw [hother _ hnodup.1, hindex₁, Function.update_self]
      · exact hwritten e' he'

end Neighbors

/-! ## The flushed index -/

section Flushed

variable {V F : Type} {valueSize : V → Nat} {m : Nat} {graph : HnswGraph V F}

structure FlushedTo (m : Nat) (graph : HnswGraph V F) (index : HnswIndex V)
    (position : Nat → FlushPosition) : Prop where
  magicNumber : index.metapage.magicNumber = hnswMagicNumber
  m_eq : index.metapage.m = m
  entryPoint : index.metapage.entryPoint =
    graph.entryPoint.bind fun ptr =>
      graph.elements[ptr]?.map fun e => ⟨(position ptr).tid, e.level⟩
  insertPage : ∃ blkno, index.metapage.insertPage = some blkno ∧ (index.page? blkno).isSome
  chained : index.Chained
  element : ∀ {ptr : Nat} {e : GraphElement V F}, graph.elements[ptr]? = some e →
    index.element? (position ptr).tid = some (e.tuple (position ptr))
  neighbors : ∀ {ptr : Nat} {e : GraphElement V F}, graph.elements[ptr]? = some e →
    index.neighbor? (position ptr).neighbortid = some (e.neighborTuple m position)
  distinct : ((List.range graph.elements.length).flatMap fun ptr =>
    (position ptr).tids).Nodup
  only : ∀ {tid : ItemPointer}, (index.item? tid).isSome →
    ∃ ptr < graph.elements.length, tid ∈ (position ptr).tids

theorem range_map_position {st : FlushState V} :
    (List.range st.positions.length).map st.position = st.positions.reverse := by
  apply List.ext_getElem?
  intro ptr
  by_cases hptr : ptr < st.positions.length
  · have hsome : st.positions.reverse[ptr]?.isSome := by simpa using hptr
    obtain ⟨p, hp⟩ := Option.isSome_iff_exists.mp hsome
    simp [hptr, FlushState.position]
  · rw [List.getElem?_eq_none (by simpa using hptr), List.getElem?_eq_none (by simpa using hptr)]

variable {ptr : Nat}

theorem Flushing.position_eq {st : FlushState V} {e : GraphElement V F}
    (h : Flushing valueSize m graph.elements.reverse st) (he : graph.elements[ptr]? = some e) :
    ∃ k : Nat, st.positions[k]? = some (st.position ptr) ∧ graph.elements.reverse[k]? = some e := by
  have hptr := (List.getElem?_eq_some_iff.mp he).1
  have hlength : st.positions.length = graph.elements.length := by
    rw [h.length, List.length_reverse]
  refine ⟨graph.elements.length - 1 - ptr, ?_, ?_⟩
  · have hk : ptr < st.positions.length := by omega
    rw [FlushState.position, List.getElem?_reverse hk, hlength,
      List.getElem?_eq_getElem (by omega), Option.getD_some]
  · rw [List.getElem?_reverse (by omega), ← he]
    congr 1
    omega

theorem flatMap_position {st : FlushState V}
    (h : Flushing valueSize m graph.elements.reverse st) :
    ((List.range graph.elements.length).flatMap fun ptr => (st.position ptr).tids) =
      st.positions.reverse.flatMap FlushPosition.tids := by
  have hlength : st.positions.length = graph.elements.length := by
    rw [h.length, List.length_reverse]
  rw [← hlength, ← range_map_position, List.flatMap_map]

theorem Flushing.distinct_positions {st : FlushState V}
    (h : Flushing valueSize m graph.elements.reverse st) :
    ((List.range graph.elements.length).flatMap fun ptr =>
      (st.position ptr).tids).Nodup := by
  rw [flatMap_position h]
  exact ((List.reverse_perm _).flatMap_right _).nodup_iff.mpr h.distinct

theorem nodup_map_of_flatMap {α β : Type} {l : List α} {f : α → List β} {g : α → β}
    (hg : ∀ a, g a ∈ f a) (h : (l.flatMap f).Nodup) : (l.map g).Nodup := by
  induction l with
  | nil => simp
  | cons a l ih =>
    rw [List.flatMap_cons, List.nodup_append] at h
    rw [List.map_cons, List.nodup_cons]
    refine ⟨fun hmem => ?_, ih h.2.1⟩
    obtain ⟨b, hb, hgb⟩ := List.mem_map.mp hmem
    exact h.2.2 (g a) (hg a) (g b) (List.mem_flatMap.mpr ⟨b, hb, hg b⟩) hgb.symm

theorem mem_zipIdx_reverse {e : GraphElement V F × Nat} :
    e ∈ graph.elements.zipIdx.reverse ↔ graph.elements[e.2]? = some e.1 := by
  rw [List.mem_reverse, List.mem_zipIdx_iff_getElem?]

theorem zipIdx_positions_nodup {st : FlushState V}
    (h : Flushing valueSize m graph.elements.reverse st) :
    (graph.elements.zipIdx.reverse.map fun e => (st.position e.2).neighbortid).Nodup := by
  have hrange := nodup_map_of_flatMap (g := fun ptr => (st.position ptr).neighbortid)
    (fun ptr => by simp [FlushPosition.tids]) h.distinct_positions
  have hsnd : graph.elements.zipIdx.map Prod.snd = List.range graph.elements.length := by
    simp [List.range_eq_range']
  rw [← hsnd, List.map_map] at hrange
  rw [List.map_reverse, List.nodup_reverse]
  exact hrange

theorem flushedMetaPage_eq (m : Nat) (graph : HnswGraph V F) (st : FlushState V) :
    flushedMetaPage m graph st =
      { magicNumber := hnswMagicNumber
        m := m
        entryPoint := graph.entryPoint.bind fun ptr =>
          graph.elements[ptr]?.map fun e => ⟨(st.position ptr).tid, e.level⟩
        insertPage := some st.blkno } := by
  unfold flushedMetaPage
  generalize (graph.entryPoint.bind fun ptr =>
    graph.elements[ptr]?.map fun e => (⟨(st.position ptr).tid, e.level⟩ : EntryPoint)) = entry
  cases entry <;> rfl

theorem flushPages_positions (hm : 2 ≤ m ∧ m ≤ 100)
    (hfits : ∀ e ∈ graph.elements, e.Fits valueSize m) :
    ∃ index st, createGraphPages valueSize m graph.elements.reverse = .ok st ∧
      flushPages valueSize m graph = .ok index ∧ FlushedTo m graph index st.position := by
  have hstart : Flushing valueSize m ([] : List (GraphElement V F)) FlushState.start :=
    flushing_start
  obtain ⟨st, hcreate, hst⟩ := placeElements_spec hm hstart graph.elements.reverse
    (by simpa using hfits)
  rw [List.nil_append] at hst
  have hindex : flushedPages m graph st = st.index (flushedMetaPage m graph st) := rfl
  have hplaceholder : ∀ e ∈ graph.elements.zipIdx.reverse, ∃ tuple,
      (flushedPages m graph st).item? (st.position e.2).neighbortid =
        some ⟨hnswNeighborTupleSize e.1.level m, tuple⟩ := by
    intro e he
    obtain ⟨k, hk, hes⟩ := hst.position_eq (mem_zipIdx_reverse.mp he)
    exact ⟨_, hst.neighbors hk hes _⟩
  obtain ⟨index, hwrite, hkeep, hother, hwritten⟩ := writeNeighborTuples_spec st.position
    _ (flushedPages m graph st) (zipIdx_positions_nodup hst) hplaceholder
  have hmeta : index.metapage = _ := hkeep.metapage.trans (flushedMetaPage_eq m graph st)
  refine ⟨index, st, hcreate, ?_, ?_⟩
  · simp only [flushPages, createGraphPages, hcreate]
    exact hwrite
  · constructor
    · rw [hmeta]
    · rw [hmeta]
    · rw [hmeta]
    · refine ⟨st.blkno, by rw [hmeta], hkeep.page?_isSome ?_⟩
      rw [hindex, st.page?_blkno]
      rfl
    · exact hkeep.chained (hst.isOpen.chained _)
    · intro ptr e he
      obtain ⟨k, hk, hes⟩ := hst.position_eq he
      have helement := hst.element hk hes (flushedMetaPage m graph st)
      rw [← hindex] at helement
      -- no neighbors are written where an element is
      have hfree : (st.position ptr).tid ∉ graph.elements.zipIdx.reverse.map
          fun e => (st.position e.2).neighbortid := by
        intro hmem
        obtain ⟨e', he', heq⟩ := List.mem_map.mp hmem
        obtain ⟨k', hk', hes'⟩ := hst.position_eq (mem_zipIdx_reverse.mp he')
        have hneighbor := hst.neighbors hk' hes' (flushedMetaPage m graph st)
        rw [heq, ← hindex, helement] at hneighbor
        simp at hneighbor
      exact HnswIndex.element?_of_item? ((hother _ hfree).trans helement)
    · intro ptr e he
      have hmem : (e, ptr) ∈ graph.elements.zipIdx.reverse := mem_zipIdx_reverse.mpr he
      exact HnswIndex.neighbor?_of_item? (hwritten (e, ptr) hmem)
    · exact hst.distinct_positions
    · intro tid htid
      have hold : ((flushedPages m graph st).item? tid).isSome := by
        by_cases hmem : tid ∈ graph.elements.zipIdx.reverse.map
            fun e => (st.position e.2).neighbortid
        · obtain ⟨e, he, rfl⟩ := List.mem_map.mp hmem
          obtain ⟨tuple, htuple⟩ := hplaceholder e he
          simp [htuple]
        · rwa [hother tid hmem] at htid
      have hlisted := hst.only _ (hindex ▸ hold)
      have hmem : tid ∈ (List.range graph.elements.length).flatMap
          fun ptr => (st.position ptr).tids := by
        rw [flatMap_position hst]
        exact ((List.reverse_perm _).flatMap_right _).mem_iff.mpr hlisted
      obtain ⟨ptr, hptr, htid⟩ := List.mem_flatMap.mp hmem
      exact ⟨ptr, List.mem_range.mp hptr, htid⟩

theorem flushPages_spec (hm : 2 ≤ m ∧ m ≤ 100)
    (hfits : ∀ e ∈ graph.elements, e.Fits valueSize m) :
    ∃ index position, flushPages valueSize m graph = .ok index ∧
      FlushedTo m graph index position := by
  obtain ⟨index, st, -, hflush, hindex⟩ := flushPages_positions hm hfits
  exact ⟨index, st.position, hflush, hindex⟩

/-! ## Reading the graph back -/

/-- What the build guarantees of an element of a graph with `count` elements. -/
structure GraphElement.Storable (valueSize : V → Nat) (m count : Nat)
    (e : GraphElement V F) : Prop extends e.Fits valueSize m where
  layers : e.layers.length = e.level + 1
  within : ∀ a ∈ e.layers.zipIdx, a.1.items.length ≤ hnswGetLayerM m (e.level - a.2)
  refers : ∀ a ∈ e.layers, ∀ hc ∈ a.items, hc.element < count
  heaptids : e.heaptids.length ≤ hnswHeaptids
  valid : ∀ heaptid ∈ e.heaptids, heaptid.isValid = true

structure HnswGraph.Storable (valueSize : V → Nat) (m : Nat) (graph : HnswGraph V F) :
    Prop where
  elements : ∀ e ∈ graph.elements, e.Storable valueSize m graph.elements.length
  entryPoint : ∀ ptr ∈ graph.entryPoint, ptr < graph.elements.length

def GraphElement.loaded (e : GraphElement V F) (position : FlushPosition) :
    HnswElement V where
  tid := position.tid
  level := e.level
  deleted := false
  version := e.version
  heaptids := e.heaptids
  neighbortid := position.neighbortid
  value := some e.value

def HnswGraph.neighborTids (graph : HnswGraph V F) (position : Nat → FlushPosition)
    (ptr lc : Nat) : List ItemPointer :=
  (graph.neighbors ptr lc).map fun hc => (position hc.element).tid

theorem loaded_eq {e : GraphElement V F} {count : Nat} (he : e.Storable valueSize m count)
    (position : FlushPosition) :
    hnswLoadElementFromTuple position.tid (e.tuple position) true = e.loaded position := by
  have hheaptids := takeWhile_heaptidSlots he.valid he.heaptids
  simp [hnswLoadElementFromTuple, GraphElement.tuple, hnswSetElementTuple,
    HnswElementTuple.liveTids, hheaptids, GraphElement.loaded]

variable {index : HnswIndex V} {position : Nat → FlushPosition}

theorem FlushedTo.valid (h : FlushedTo m graph index position)
    (hptr : ptr < graph.elements.length) : (position ptr).tid.isValid = true := by
  have helement := h.element (List.getElem?_eq_getElem hptr)
  obtain ⟨size, hitem⟩ := HnswIndex.item?_of_element? helement
  obtain ⟨page, -, hitem⟩ := HnswIndex.item?_eq_some.mp hitem
  simp only [ItemPointer.isValid, invalidOffsetNumber, bne_iff_ne]
  intro hzero
  simp [Page.item?, hzero] at hitem

theorem FlushedTo.layer (h : FlushedTo m graph index position) {lc : Nat} {e : GraphElement V F}
    (he : graph.elements[ptr]? = some e)
    (hstorable : e.Storable valueSize m graph.elements.length) (hlc : lc ≤ e.level) :
    (e.neighborTuple m position).layer ((e.level - lc) * m) (hnswGetLayerM m lc) =
        layerSlots (hnswGetLayerM m lc) (graph.neighborTids position ptr lc) ∧
      (layerSlots (hnswGetLayerM m lc) (graph.neighborTids position ptr lc)).takeWhile
        ItemPointer.isValid = graph.neighborTids position ptr lc := by
  have hi : e.level - lc < e.layers.length := by
    rw [hstorable.layers]
    omega
  have hlayer := List.getElem?_eq_getElem hi
  generalize e.layers[e.level - lc] = a at hlayer
  have hneighbors : graph.neighbors ptr lc = a.items := by
    simp [HnswGraph.neighbors, he, Nat.not_lt.mpr hlc, hlayer]
  have hlevel : e.level - (e.level - lc) = lc := by omega
  have hlast : (e.layerTids position).length - 1 - (e.level - lc) = lc := by
    rw [GraphElement.layerTids, List.length_map, hstorable.layers]
    omega
  constructor
  · have htids : (e.layerTids position)[e.level - lc]? =
        some (graph.neighborTids position ptr lc) := by
      simp [GraphElement.layerTids, HnswGraph.neighborTids, hlayer, hneighbors]
    have hslots := layer_hnswSetNeighborTuple m e.version (e.level - lc) _ htids
    rw [hlast] at hslots
    exact hslots
  · apply takeWhile_layerSlots
    · intro tid htid
      obtain ⟨hc, hmem, rfl⟩ := List.mem_map.mp htid
      rw [hneighbors] at hmem
      exact h.valid (hstorable.refers a (List.mem_of_getElem? hlayer) hc hmem)
    · have hwithin := hstorable.within (a, e.level - lc) (List.mem_zipIdx_iff_getElem?.mpr hlayer)
      rw [hlevel] at hwithin
      simpa [HnswGraph.neighborTids, hneighbors] using hwithin

theorem count_neighborTuple {e : GraphElement V F} {count : Nat}
    (he : e.Storable valueSize m count) (position : Nat → FlushPosition) :
    (e.neighborTuple m position).count = (e.level + 2) * m := by
  have hlength : (e.layerTids position).length = e.level + 1 := by
    rw [GraphElement.layerTids, List.length_map, he.layers]
  obtain ⟨tids, lower, htids⟩ := List.exists_cons_of_length_eq_add_one hlength
  have hlower : lower.length = e.level := by
    simpa [htids] using hlength
  rw [HnswNeighborTuple.count, GraphElement.neighborTuple, hnswSetNeighborTuple, htids,
    neighborSlots_length, hlower]

theorem FlushedTo.load_neighbors (h : FlushedTo m graph index position) {lc : Nat}
    {e : GraphElement V F} (he : graph.elements[ptr]? = some e)
    (hstorable : e.Storable valueSize m graph.elements.length) (hlc : lc ≤ e.level)
    (backend : ThreadId) {s : Shared V} (hs : s.index = index) :
    (hnswLoadNeighborTids (e.loaded (position ptr)) m lc none).run (hnswHandler backend) s =
      (.done (some (layerSlots (hnswGetLayerM m lc)
        (graph.neighborTids position ptr lc)), none), s) := by
  have htuple : hnswHandler backend (.readTuple (position ptr).neighbortid) s =
      some (some (.neighbor (e.neighborTuple m position)), s) := by
    have hneighbor := HnswIndex.neighbor?_eq_some.mp (h.neighbors he)
    rw [← hs] at hneighbor
    simp [hnswHandler, hneighbor]
  have hversion : ¬ ((e.neighborTuple m position).version ≠ e.version ∨
      (e.neighborTuple m position).count ≠ (e.level + 2) * m) := by
    rw [count_neighborTuple hstorable]
    simp [GraphElement.neighborTuple, hnswSetNeighborTuple]
  have hread : (readNeighborTuple (position ptr).neighbortid).run (hnswHandler backend) s =
      (.done (e.neighborTuple m position), s) := by
    change (Program.step (L := hnswSignature V)
      (.readTuple (position ptr).neighbortid) _).run _ s = _
    rw [Program.run_step_some htuple]
    rfl
  have hslots := (h.layer he hstorable hlc).1
  unfold hnswLoadNeighborTids
  rw [Program.run_bind]
  simp only [GraphElement.loaded, hread, if_neg hversion, touchTrace, hslots]
  rfl

/--
The flush does not fail, gives every tuple a place of its own, and every element,
every layer of its neighbors and the entry point are read back as they were.
-/
theorem flush_reads_back (valueSize : V → Nat) (m : Nat) (graph : HnswGraph V F)
    (hm : 2 ≤ m ∧ m ≤ 100) (hgraph : graph.Storable valueSize m) :
    ∃ index position, flushPages valueSize m graph = .ok index ∧
      ((List.range graph.elements.length).flatMap fun ptr =>
        [(position ptr).tid, (position ptr).neighbortid]).Nodup ∧
      (∀ (ptr : Nat) (e : GraphElement V F), graph.elements[ptr]? = some e →
        (∃ etup, index.element? (position ptr).tid = some etup ∧
          hnswLoadElementFromTuple (position ptr).tid etup true = e.loaded (position ptr)) ∧
        ∀ lc ≤ e.level, ∃ slots,
          slots.takeWhile ItemPointer.isValid = graph.neighborTids position ptr lc ∧
          ∀ (backend : ThreadId) (s : Shared V), s.index = index →
            (hnswLoadNeighborTids (e.loaded (position ptr)) m lc none).run
              (hnswHandler backend) s = (.done (some slots, none), s)) ∧
      index.metapage.entryPoint.map EntryPoint.tid =
        graph.entryPoint.map fun ptr => (position ptr).tid := by
  obtain ⟨index, position, hflush, h⟩ := flushPages_spec hm
    fun e he => (hgraph.elements e he).toFits
  refine ⟨index, position, hflush, h.distinct, ?_, ?_⟩
  · intro ptr e he
    have hstorable := hgraph.elements e (List.mem_of_getElem? he)
    constructor
    · exact ⟨_, h.element he, loaded_eq hstorable _⟩
    · intro lc hlc
      exact ⟨_, (h.layer he hstorable hlc).2,
        fun backend s hs => h.load_neighbors he hstorable hlc backend hs⟩
  · rw [h.entryPoint]
    cases hentry : graph.entryPoint with
    | none => rfl
    | some ptr =>
      have hptr := hgraph.entryPoint ptr (by simp [hentry])
      simp [List.getElem?_eq_getElem hptr]

def twoElementGraph : HnswGraph Nat Nat where
  elements :=
    [{ level := 0, version := 1, heaptids := [⟨0, 1⟩], value := 7
       layers := [⟨[⟨1, 2, false⟩], false⟩] },
     { level := 1, version := 1, heaptids := [⟨0, 2⟩, ⟨0, 3⟩], value := 9
       layers := [⟨[], false⟩, ⟨[⟨0, 2, false⟩], false⟩] }]
  entryPoint := some 1

theorem twoElementGraph_storable : twoElementGraph.Storable (fun _ => 8) 2 := by
  constructor
  · intro e he
    simp only [twoElementGraph, List.mem_cons, List.not_mem_nil, or_false] at he
    rcases he with rfl | rfl <;> constructor <;> first | decide | constructor <;> decide
  · decide

theorem flush_reads_back_two :
    ∃ (index : HnswIndex Nat) (position : Nat → FlushPosition),
      flushPages (fun _ => 8) 2 twoElementGraph = .ok index ∧
      ([0, 1].flatMap fun ptr =>
        [(position ptr).tid, (position ptr).neighbortid]).Nodup ∧
      index.metapage.entryPoint.map EntryPoint.tid = some (position 1).tid := by
  obtain ⟨index, position, hflush, hdistinct, -, hentry⟩ :=
    flush_reads_back (fun _ => 8) 2 twoElementGraph (by decide) twoElementGraph_storable
  exact ⟨index, position, hflush, hdistinct, hentry⟩

end Flushed

end PgVector.Hnsw
