import PgVector.Foundation.Chain
import PgVector.Hnsw.PairingSafe

/-!
# Every element tuple and its neighbor tuple

A flush that succeeds leaves tuples that are in step, and so they stay while
inserts, vacuums and scans take turns on the index.
-/

namespace PgVector.Hnsw

open Foundation

/-! ## What a flush leaves -/

section Flushed

variable {V F : Type} {valueSize : V → Nat} {m : Nat} {graph : HnswGraph V F}

variable {st st' : FlushState V}

theorem FlushState.addItem_ok {tuple : IndexTuple V} {size : Nat} {offno : OffsetNumber}
    (h : st.addItem tuple size offno = .ok st') :
    st'.positions = st.positions ∧ size ≤ hnswMaxSize := by
  unfold FlushState.addItem at h
  split at h
  · cases h
  · next page added hadd =>
    split at h
    · cases h
      refine ⟨rfl, ?_⟩
      unfold Page.addItem at hadd
      split at hadd
      · next hroom =>
        have halign : size ≤ maxAlign size := by
          unfold maxAlign
          omega
        have hheader : sizeOfPageHeaderData = 24 := rfl
        have hopaque : maxAlign sizeOfPageOpaqueData = 8 := rfl
        have hblock : blcksz = 8192 := rfl
        simp only [Page.lower, Page.upper, sizeOfItemIdData] at hroom
        rw [hnswMaxSize_eq]
        omega
      · cases hadd
    · cases h

theorem predictPosition_blkno (blkno : BlockNumber) (offno : OffsetNumber)
    (combinedSize : Nat) :
    (predictPosition blkno offno combinedSize).tid.blkno ≤
      (predictPosition blkno offno combinedSize).neighbortid.blkno := by
  unfold predictPosition
  split
  · exact Nat.le_refl _
  · exact Nat.le_succ _

theorem placeElement_ok {e : GraphElement V F} (h : placeElement valueSize m st e = .ok st') :
    hnswElementTupleSize (valueSize e.value) ≤ hnswMaxSize ∧
      ∃ position : FlushPosition, st'.positions = st.positions ++ [position] ∧
        position.tid.blkno ≤ position.neighbortid.blkno := by
  unfold placeElement at h
  dsimp only at h
  split at h
  · cases h
  · cases hfirst : (st.ensure _).addItem _ _ _ with
    | error e =>
      rw [hfirst] at h
      cases h
    | ok st₁ =>
      rw [hfirst] at h
      change (st₁.ensure _).addItem _ _ _ >>= _ = _ at h
      cases hsecond : (st₁.ensure _).addItem _ _ _ with
      | error e =>
        rw [hsecond] at h
        cases h
      | ok st₂ =>
        rw [hsecond] at h
        cases h
        obtain ⟨hpositions₁, hsize⟩ := FlushState.addItem_ok hfirst
        obtain ⟨hpositions₂, -⟩ := FlushState.addItem_ok hsecond
        have hpositions : st₂.positions = st.positions := by
          rw [hpositions₂, FlushState.positions_ensure, hpositions₁, FlushState.positions_ensure]
        exact ⟨hsize, _, congrArg (· ++ [_]) hpositions, predictPosition_blkno _ _ _⟩

theorem placeElements_ok {es : List (GraphElement V F)}
    (h : es.foldlM (placeElement valueSize m) st = .ok st')
    (hst : ∀ p ∈ st.positions, p.tid.blkno ≤ p.neighbortid.blkno) :
    (∀ e ∈ es, hnswElementTupleSize (valueSize e.value) ≤ hnswMaxSize) ∧
      ∀ p ∈ st'.positions, p.tid.blkno ≤ p.neighbortid.blkno := by
  induction es generalizing st with
  | nil =>
    cases h
    exact ⟨by simp, hst⟩
  | cons e es ih =>
    rw [List.foldlM_cons] at h
    cases hplace : placeElement valueSize m st e with
    | error e =>
      rw [hplace] at h
      cases h
    | ok st₁ =>
      rw [hplace] at h
      obtain ⟨hsize, position, hpositions, hposition⟩ := placeElement_ok hplace
      have hst₁ : ∀ p ∈ st₁.positions, p.tid.blkno ≤ p.neighbortid.blkno := by
        intro p hp
        rw [hpositions, List.mem_append, List.mem_singleton] at hp
        rcases hp with hp | rfl
        · exact hst p hp
        · exact hposition
      obtain ⟨hsizes, hst'⟩ := ih h hst₁
      exact ⟨List.forall_mem_cons.mpr ⟨hsize, hsizes⟩, hst'⟩

theorem flushPages_ok (hm : 2 ≤ m ∧ m ≤ 100) (hgraph : graph.Formed m) {index : HnswIndex V}
    (h : flushPages valueSize m graph = .ok index) :
    (∀ e ∈ graph.elements, e.Fits valueSize m) ∧
      ∃ position, FlushedTo m graph index position ∧
        ∀ ptr, (position ptr).tid.blkno ≤ (position ptr).neighbortid.blkno := by
  cases hcreate : createGraphPages valueSize m graph.elements.reverse with
  | error e =>
    rw [flushPages, hcreate] at h
    cases h
  | ok st =>
    obtain ⟨hsizes, hordered⟩ := placeElements_ok hcreate (by simp [FlushState.start])
    have hfits : ∀ e ∈ graph.elements, e.Fits valueSize m := fun e he =>
      ⟨(hgraph.elements e he).level, hsizes e (List.mem_reverse.mpr he)⟩
    obtain ⟨index', st', hcreate', hflush, hindex⟩ := flushPages_positions hm hfits
    obtain rfl := Except.ok.inj (h.symm.trans hflush)
    obtain rfl := Except.ok.inj (hcreate.symm.trans hcreate')
    refine ⟨hfits, st.position, hindex, ?_⟩
    intro ptr
    unfold FlushState.position
    cases hptr : st.positions.reverse[ptr]? with
    | none => exact Nat.le_refl _
    | some p => exact hordered p (List.mem_reverse.mp (List.mem_of_getElem? hptr))

namespace FlushedTo

variable {index : HnswIndex V} {position : Nat → FlushPosition}

theorem exists_element (h : FlushedTo m graph index position) {tid : ItemPointer}
    {etup : HnswElementTuple V} (hetup : index.element? tid = some etup) :
    ∃ ptr e, graph.elements[ptr]? = some e ∧ tid = (position ptr).tid ∧
      etup = e.tuple (position ptr) := by
  obtain ⟨size, hitem⟩ := HnswIndex.item?_of_element? hetup
  obtain ⟨ptr, hptr, htid⟩ := h.only (Option.isSome_of_eq_some hitem)
  have he := List.getElem?_eq_getElem hptr
  rw [FlushPosition.tids, List.mem_cons, List.mem_singleton] at htid
  rcases htid with rfl | rfl
  · exact ⟨ptr, _, he, rfl, Option.some.inj (hetup.symm.trans (h.element he))⟩
  · exact absurd rfl (HnswIndex.element?_ne_neighbor? hetup (h.neighbors he))

theorem eq_of_neighbortid (h : FlushedTo m graph index position) {ptr ptr' : Nat}
    {e e' : GraphElement V F} (he : graph.elements[ptr]? = some e)
    (he' : graph.elements[ptr']? = some e')
    (heq : (position ptr).neighbortid = (position ptr').neighbortid) : ptr = ptr' := by
  have hnodup := nodup_map_of_flatMap (g := fun ptr => (position ptr).neighbortid)
    (fun ptr => by simp [FlushPosition.tids]) h.distinct
  have hptr := (List.getElem?_eq_some_iff.mp he).1
  have hptr' := (List.getElem?_eq_some_iff.mp he').1
  exact List.inj_on_of_nodup_map hnodup (List.mem_range.mpr hptr) (List.mem_range.mpr hptr') heq

theorem matched (h : FlushedTo m graph index position) (hgraph : graph.Formed m)
    (hordered : ∀ ptr, (position ptr).tid.blkno ≤ (position ptr).neighbortid.blkno) :
    index.Matched := by
  obtain ⟨blkno, hinsert, hpage⟩ := h.insertPage
  refine ⟨⟨h.magicNumber, by rw [hinsert]; rfl, h.chained, ?_, ?_, ?_⟩, ?_, ?_⟩
  · have hbounds := HnswIndex.page?_isSome.mp hpage
    exact hbounds.1.trans hbounds.2
  · intro tid etup hetup
    obtain ⟨ptr, e, he, -, rfl⟩ := h.exists_element hetup
    exact ⟨_, h.neighbors he⟩
  · intro tid tid' etup etup' hetup hetup' heq
    obtain ⟨ptr, e, he, rfl, rfl⟩ := h.exists_element hetup
    obtain ⟨ptr', e', he', rfl, rfl⟩ := h.exists_element hetup'
    rw [h.eq_of_neighbortid he he' heq]
  · intro tid etup ntup hetup hntup
    obtain ⟨ptr, e, he, rfl, rfl⟩ := h.exists_element hetup
    obtain rfl := Option.some.inj (hntup.symm.trans (h.neighbors he))
    have hlayers := (hgraph.elements e (List.mem_of_getElem? he)).layers
    have hlength : (e.layerTids position).length = e.level + 1 := by
      rw [GraphElement.layerTids, List.length_map, hlayers]
    refine ⟨rfl, ?_, hordered ptr⟩
    rw [h.m_eq]
    exact count_hnswSetNeighborTuple hlength
  · intro tid etup hetup hdeleted
    obtain ⟨ptr, e, he, rfl, rfl⟩ := h.exists_element hetup
    simp [GraphElement.tuple, hnswSetElementTuple] at hdeleted

end FlushedTo

end Flushed

/-! ## Pairs of tuples -/

section Paired

variable {V D F : Type}

def HnswIndex.next? (index : HnswIndex V) (blkno : BlockNumber) : Option (Option BlockNumber) :=
  (index.page? blkno).map Page.nextblkno

structure HnswIndex.Paired (m : Nat) (index : HnswIndex V) : Prop where
  neighbortid : ∀ tid etup, index.element? tid = some etup →
    ∃ ntup, index.neighbor? etup.neighbortid = some ntup ∧
      ntup.version = etup.version ∧ ntup.count = (etup.level + 2) * m ∧
      tid.blkno ≤ etup.neighbortid.blkno
  distinct : ∀ tid tid' etup etup', index.element? tid = some etup →
    index.element? tid' = some etup' → etup.neighbortid = etup'.neighbortid → tid = tid'
  chain : ∃ blknos, Chain index.next? (some hnswHeadBlkno) blknos ∧
    blknos.Pairwise (· < ·) ∧
    ∀ tid etup, index.element? tid = some etup → tid.blkno ∈ blknos

theorem HnswIndex.Chained.chain {index : HnswIndex V} (h : index.Chained) (rest : Nat)
    {blkno : BlockNumber} (hpos : 1 ≤ blkno) (hlast : blkno + rest = index.pages.length) :
    Chain index.next? (some blkno) (List.range' blkno (rest + 1)) := by
  induction rest generalizing blkno with
  | zero =>
    rw [Nat.add_zero] at hlast
    have hpage := HnswIndex.page?_isSome.mpr ⟨hpos, Nat.le_of_eq hlast⟩
    obtain ⟨page, hpage⟩ := Option.isSome_iff_exists.mp hpage
    have hnext := h blkno page hpage
    rw [if_neg (Nat.not_lt.mpr (Nat.le_of_eq hlast.symm))] at hnext
    exact .cons (by rw [next?, hpage, Option.map_some, hnext]) .nil
  | succ rest ih =>
    have hlt : blkno < index.pages.length := by
      rw [← hlast]
      exact Nat.lt_add_of_pos_right (Nat.succ_pos rest)
    obtain ⟨page, hpage⟩ := Option.isSome_iff_exists.mp
      (HnswIndex.page?_isSome.mpr ⟨hpos, Nat.le_of_lt hlt⟩)
    have hnext := h blkno page hpage
    rw [if_pos hlt] at hnext
    rw [List.range'_succ]
    refine .cons (by rw [next?, hpage, Option.map_some, hnext]) (ih (Nat.le_succ_of_le hpos) ?_)
    rw [← hlast, Nat.add_right_comm, Nat.add_assoc]

theorem HnswIndex.Matched.paired {index : HnswIndex V} (h : index.Matched) {m : Nat}
    (hm : index.metapage.m = m) : index.Paired m := by
  refine ⟨?_, fun _ _ _ _ => h.distinct, List.range' 1 index.pages.length, ?_,
    List.pairwise_lt_range', ?_⟩
  · intro tid etup hetup
    obtain ⟨ntup, hntup⟩ := h.neighbortid hetup
    obtain ⟨hversion, hcount, hblkno⟩ := h.agree hetup hntup
    exact ⟨ntup, hntup, hversion, by rw [hcount, hm], hblkno⟩
  · obtain ⟨rest, hrest⟩ := Nat.exists_eq_add_of_le h.head
    rw [hrest, Nat.add_comm 1 rest]
    exact h.chained.chain rest (Nat.le_refl 1) hrest.symm
  · intro tid etup hetup
    have hbounds := HnswIndex.blkno_of_element? hetup
    rw [List.mem_range'_1]
    exact ⟨hbounds.1, Nat.lt_one_add_iff.mpr hbounds.2⟩

variable [LinearOrder D] [LinearOrder F] [DecidableEq V]

variable {built : Pool (memorySignature V F) (MemoryState V F) (MemoryInsert V)}
  {pool : Pool (hnswSignature V) (Monitored V) (Task V D F)}

theorem pairing_holds {ctx : InsertContext V D F} {m : Nat} (hm : 2 ≤ m ∧ m ≤ 100)
    {valueSize : V → Nat} (hbuilt : (memorySystem ctx m True).Reaches (Pool.idle .init) built)
    {s : Monitored V} (hflush : flushPages valueSize m built.shared.graph = .ok s.shared.index)
    (hreach : (hnswSystem (fun _ => True) (fun _ _ _ => True)).Reaches (Pool.idle s) pool) :
    (pairingArgument (D := D) (F := F) m (fun _ => True)
      fun _ _ _ => True).Holds pool pool.shared := by
  have hformed := (memory_reaches hbuilt).1.formed
  obtain ⟨-, position, hflushed, hordered⟩ := flushPages_ok hm hformed hflush
  have hinv : (pairingArgument (D := D) (F := F) m (fun _ => True)
      fun _ _ _ => True).Holds (Pool.idle s) s :=
    System.Argument.holds_idle ⟨hflushed.matched hformed hordered, hflushed.m_eq⟩ fun _ => trivial
  obtain ⟨y, hy⟩ := (pairingArgument_sound m (fun _ => True) fun _ _ _ => True).reaches hinv hreach
  have hshared : y = pool.shared := hy.shared
  exact hshared ▸ hy

theorem matched_reaches {ctx : InsertContext V D F} {m : Nat} (hm : 2 ≤ m ∧ m ≤ 100)
    {valueSize : V → Nat} (hbuilt : (memorySystem ctx m True).Reaches (Pool.idle .init) built)
    {s : Monitored V} (hflush : flushPages valueSize m built.shared.graph = .ok s.shared.index)
    (hreach : (hnswSystem (fun _ => True) (fun _ _ _ => True)).Reaches (Pool.idle s) pool) :
    pool.shared.shared.index.Matched ∧ pool.shared.shared.index.metapage.m = m :=
  (pairing_holds hm hbuilt hflush hreach).inv

/--
An index is built by any number of participants and flushed; inserts, vacuums and
scans then take turns on it, and are aborted at any point.
-/
theorem tuples_paired (ctx : InsertContext V D F) (m : Nat) (hm : 2 ≤ m ∧ m ≤ 100)
    (valueSize : V → Nat)
    (built : Pool (memorySignature V F) (MemoryState V F) (MemoryInsert V))
    (hbuilt : (memorySystem ctx m True).Reaches (Pool.idle .init) built)
    (s : Monitored V) (hflush : flushPages valueSize m built.shared.graph = .ok s.shared.index)
    (pool : Pool (hnswSignature V) (Monitored V) (Task V D F))
    (hreach : (hnswSystem (fun _ => True) (fun _ _ _ => True)).Reaches (Pool.idle s) pool) :
    pool.shared.shared.index.Paired m := by
  obtain ⟨hmatched, hmeta⟩ := matched_reaches hm hbuilt hflush hreach
  exact hmatched.paired hmeta

end Paired

def oneElementIndex : HnswIndex Nat where
  metapage := ⟨hnswMagicNumber, 2, some ⟨⟨1, 1⟩, 0⟩, some 1⟩
  pages :=
    [{ items :=
         [⟨80, .element (hnswSetElementTuple 0 1 [⟨0, 1⟩] 5 ⟨1, 2⟩)⟩,
           ⟨32, .neighbor ⟨1, List.replicate 4 .invalid⟩⟩]
       nextblkno := none }]

def flushedElementShared : Monitored Nat where
  shared :=
    { index := oneElementIndex, locks := [], env := fun _ => default, observed := 0
      queryCounter := 0, log := fun _ => [] }
  history := .start

theorem oneElementIndex_built :
    ∃ built, (memorySystem (numberInserts 4) 2 True).Reaches (Pool.idle .init) built ∧
      flushPages (fun _ => 8) 2 built.shared.graph = .ok oneElementIndex :=
  ⟨_, System.reaches_alone (fun _ _ _ => trivial) 0 (⟨5, ⟨0, 1⟩, 0⟩ : MemoryInsert Nat) _
    (by exact rfl) rfl rfl, rfl⟩

/-- One number is inserted in memory, another one on disk. -/
theorem tuples_paired_two :
    ∃ pool : Pool (hnswSignature Nat) (Monitored Nat) (Task Nat Nat Nat),
      (hnswSystem (fun _ => True) (fun _ _ _ => True)).Reaches (Pool.idle flushedElementShared)
        pool ∧
      pool.shared.shared.index.elements.length = 2 ∧ pool.shared.shared.index.Paired 2 := by
  obtain ⟨built, hbuilt, hflush⟩ := oneElementIndex_built
  obtain ⟨pool, hreach, hlength⟩ :
      ∃ pool : Pool (hnswSignature Nat) (Monitored Nat) (Task Nat Nat Nat),
        (hnswSystem (fun _ => True) (fun _ _ _ => True)).Reaches
          (Pool.idle flushedElementShared) pool ∧
        pool.shared.shared.index.elements.length = 2 :=
    ⟨_, System.reaches_alone (fun _ _ _ => trivial) 0
      (.insert (numberInserts 4) (some 7) ⟨0, 2⟩ 0) _ (by exact rfl) rfl rfl, rfl⟩
  exact ⟨pool, hreach, hlength, tuples_paired (numberInserts 4) 2 (by decide) (fun _ => 8)
    built hbuilt flushedElementShared hflush pool hreach⟩

end PgVector.Hnsw
