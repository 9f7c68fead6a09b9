import PgVector.Hnsw.Links

/-!
# Element tuples and their neighbor tuples

An element tuple and the neighbor tuple it designates are written in different
places and at different times.  What they have in common is stated here, with one
lemma that every instruction keeps it.
-/

namespace PgVector.Hnsw

open Foundation

variable {V : Type} {index index' : HnswIndex V}

/-- What the element tuple at `tid` has in common with its neighbor tuple. -/
structure Agree (m : Nat) (tid : ItemPointer) (etup : HnswElementTuple V)
    (ntup : HnswNeighborTuple) : Prop where
  version : ntup.version = etup.version
  count : ntup.count = (etup.level + 2) * m
  blkno : tid.blkno ≤ etup.neighbortid.blkno

structure HnswIndex.Matched (index : HnswIndex V) : Prop extends index.WellFormed where
  agree : ∀ {tid etup ntup}, index.element? tid = some etup →
    index.neighbor? etup.neighbortid = some ntup → Agree index.metapage.m tid etup ntup
  emptied : ∀ {tid etup}, index.element? tid = some etup → etup.deleted = true →
    etup.isEmptied = true

/-- Elements that are not deleted stay as they are, if they are `spared`. -/
structure Steady (spared : Prop) (index index' : HnswIndex V) : Prop where
  evolves : Evolves index index'
  m_eq : index'.metapage.m = index.metapage.m
  live : spared → ∀ {tid etup}, index.element? tid = some etup → etup.deleted = false →
    ∃ etup', index'.element? tid = some etup' ∧ etup'.deleted = false ∧
      etup'.level = etup.level ∧ etup'.version = etup.version

namespace Steady

variable {index₁ index₂ index₃ : HnswIndex V} {spared : Prop}

theorem refl (spared : Prop) (index : HnswIndex V) : Steady spared index index :=
  ⟨.refl _, rfl, fun _ _ _ h hlive => ⟨_, h, hlive, rfl, rfl⟩⟩

theorem trans (h : Steady spared index₁ index₂) (h' : Steady spared index₂ index₃) :
    Steady spared index₁ index₃ := by
  refine ⟨h.evolves.trans h'.evolves, h'.m_eq.trans h.m_eq, ?_⟩
  intro hspared tid etup hetup hlive
  obtain ⟨etup₂, hetup₂, hlive₂, hlevel₂, hversion₂⟩ := h.live hspared hetup hlive
  obtain ⟨etup₃, hetup₃, hlive₃, hlevel₃, hversion₃⟩ := h'.live hspared hetup₂ hlive₂
  exact ⟨etup₃, hetup₃, hlive₃, hlevel₃.trans hlevel₂, hversion₃.trans hversion₂⟩

theorem mono {spared' : Prop} (h : Steady spared index index') (himp : spared' → spared) :
    Steady spared' index index' :=
  ⟨h.evolves, h.m_eq, fun hspared => h.live (himp hspared)⟩

end Steady

structure Tends (spared : Prop) (index index' : HnswIndex V) : Prop where
  matched : index'.Matched
  steady : Steady spared index index'

/-! ## Changes of one tuple -/

section Change

variable {spared : Prop}

theorem Tends.refl (h : index.Matched) : Tends spared index index := ⟨h, .refl _ _⟩

/-- What an element tuple shows of itself, apart from its heap TIDs. -/
def HnswElementTuple.shape (etup : HnswElementTuple V) : ItemPointer × Bool × Nat × Nat :=
  (etup.neighbortid, etup.deleted, etup.level, etup.version)

def HnswNeighborTuple.shape (ntup : HnswNeighborTuple) : Nat × Nat :=
  (ntup.version, ntup.count)

theorem Tends.of_shapes (h : index.Matched) (hpages : KeepsPages index index')
    (helement : ∀ t, (index'.element? t).map (·.shape) = (index.element? t).map (·.shape))
    (hneighbor : ∀ t, (index'.neighbor? t).map (·.shape) = (index.neighbor? t).map (·.shape))
    (hemptied : ∀ {t etup}, index'.element? t = some etup → etup.deleted = true →
      etup.isEmptied = true) : Tends spared index index' := by
  have hevolves : Evolves index index' := by
    refine .of_elements hpages (fun t => ?_) fun t ht => ?_
    · simpa [Function.comp_def, HnswElementTuple.shape] using
        congrArg (Option.map Prod.fst) (helement t)
    · simpa using (congrArg Option.isSome (hneighbor t)).trans (by simpa using ht)
  refine ⟨⟨hevolves.wellFormed h.toWellFormed, ?_, hemptied⟩, hevolves, by rw [hpages.metapage], ?_⟩
  · intro t etup' ntup' hetup' hntup'
    obtain ⟨etup, hetup, hshape⟩ := exists_of_map_eq (helement t) hetup'
    obtain ⟨ntup, hntup, hshape'⟩ := exists_of_map_eq (hneighbor _) hntup'
    simp only [HnswElementTuple.shape, HnswNeighborTuple.shape, Prod.mk.injEq] at hshape hshape'
    obtain ⟨hntid, -, hlevel, hversion⟩ := hshape
    rw [← hntid] at hntup
    have hagree := h.agree hetup hntup
    rw [hpages.metapage]
    exact ⟨by rw [← hshape'.1, hagree.version, hversion],
      by rw [← hshape'.2, hagree.count, hlevel], by rw [← hntid]; exact hagree.blkno⟩
  · intro _ t etup hetup hlive
    obtain ⟨etup', hetup', hshape⟩ := exists_of_map_eq (helement t).symm hetup
    simp only [HnswElementTuple.shape, Prod.mk.injEq] at hshape
    exact ⟨etup', hetup', hshape.2.1.trans hlive, hshape.2.2⟩

theorem Tends.of_both {tid : ItemPointer} {new : HnswElementTuple V}
    {ntup : HnswNeighborTuple} (h : index.Matched) (hpages : KeepsPages index index')
    (hwritten : BothWritten index index' tid new ntup)
    (hagree : Agree index.metapage.m tid new ntup)
    (hemptied : new.deleted = true → new.isEmptied = true)
    (hspared : spared → ∀ old, index.element? tid = some old → old.deleted = true) :
    Tends spared index index' := by
  have hevolves := hwritten.evolves hpages
  obtain ⟨helement, hneighbor, hold, hunshared⟩ := hwritten
  refine ⟨⟨hevolves.wellFormed h.toWellFormed, ?_, ?_⟩, hevolves, ?_, ?_⟩
  · intro t etup ntup' hetup hntup'
    rw [helement] at hetup
    rw [hneighbor] at hntup'
    rw [hpages.metapage]
    by_cases ht : t = tid
    · subst ht
      rw [Function.update_self] at hetup
      cases hetup
      rw [Function.update_self] at hntup'
      obtain rfl := Option.some.inj hntup'
      exact hagree
    · rw [Function.update_of_ne ht] at hetup
      rw [Function.update_of_ne (hunshared hetup ht)] at hntup'
      exact h.agree hetup hntup'
  · intro t etup hetup
    rw [helement] at hetup
    by_cases ht : t = tid
    · subst ht
      rw [Function.update_self] at hetup
      cases hetup
      exact hemptied
    · rw [Function.update_of_ne ht] at hetup
      exact h.emptied hetup
  · rw [hpages.metapage]
  · intro hsp t etup hetup hlive
    have ht : t ≠ tid := by
      rintro rfl
      rw [hspared hsp etup hetup] at hlive
      cases hlive
    exact ⟨etup, by rw [helement, Function.update_of_ne ht]; exact hetup, hlive, rfl, rfl⟩

end Change

/-! ## Where the tuples of a new element go -/

section Blocks

variable {r : AddElementRequest V} {tid ntid : ItemPointer} {blkno nblkno p : BlockNumber}
  {newInsertPage : Option BlockNumber}

theorem addNewElement_blkno
    (h : (addNewElement index r blkno nblkno newInsertPage).1 = .placed tid ntid p) :
    tid.blkno = blkno ∧ ntid.blkno = nblkno := by
  unfold addNewElement at h
  split at h
  · cases h
  · dsimp only at h
    generalize (if nblkno = blkno then _ else _ : OffsetNumber) = noffno at h
    split at h
    · cases h
    · split at h
      · cases h
      · split at h
        · cases h
        · split at h
          · cases h
          · split at h
            · cases h
            · obtain ⟨rfl, rfl, -⟩ := AddElementReply.placed.inj h
              exact ⟨rfl, rfl⟩

theorem reuseElement_occupied {free : FreeOffset}
    (h : (reuseElement index r blkno free newInsertPage).1 = .placed tid ntid p) :
    (index.item? tid).isSome := by
  unfold reuseElement at h
  split at h
  · cases h
  split at h
  · cases h
  · next page hpage =>
    dsimp only at h
    split at h
    · cases h
    · next page' hover =>
      obtain ⟨⟨old, hold⟩, -⟩ := Page.item?_overwrite hover
      repeat' split at h
      all_goals first
        | (obtain ⟨rfl, -⟩ := AddElementReply.placed.inj h
           simp [HnswIndex.item?, hpage, hold])
        | cases h

theorem addElementOnPage_blkno
    (h : (addElementOnPage index r blkno newInsertPage).1 = .placed tid ntid p)
    (hfresh : index.item? tid = none) : tid.blkno ≤ ntid.blkno := by
  unfold addElementOnPage at h
  split at h
  · cases h
  · next page hpage =>
    have hlast : blkno ≤ index.pages.length :=
      (HnswIndex.page?_isSome.mp (by rw [hpage]; rfl)).2
    dsimp only at h
    split at h
    · obtain ⟨h₁, h₂⟩ := addNewElement_blkno h
      rw [h₁, h₂]
    · split at h
      · have hsome := reuseElement_occupied h
        rw [hfresh] at hsome
        cases hsome
      · split at h
        · obtain ⟨h₁, h₂⟩ := addNewElement_blkno h
          rw [h₁, h₂]
          exact hlast.trans (Nat.le_succ _)
        · split at h
          · cases h
          · split at h
            · obtain ⟨h₁, h₂⟩ := addNewElement_blkno h
              rw [h₁, h₂]
              simp [hnswInsertAppendPage, HnswIndex.nextBlock]
            · obtain ⟨h₁, h₂⟩ := addNewElement_blkno h
              rw [h₁, h₂]

end Blocks

/-! ## The instructions -/

section Instructions

variable {spared : Prop} (h : index.Matched)
include h

structure AddElementRequest.Proper (m : Nat) (r : AddElementRequest V) : Prop where
  live : r.etup.deleted = false
  version : r.ntup.version = r.etup.version
  count : r.ntup.count = (r.etup.level + 2) * m

omit h in
theorem PlacedTuples.agree {m : Nat} {r : AddElementRequest V} (hr : r.Proper m)
    {tid : ItemPointer} {new : HnswElementTuple V} {ntup : HnswNeighborTuple}
    (htuples : PlacedTuples index r tid new ntup)
    (hblkno : tid.blkno ≤ new.neighbortid.blkno) : Agree m tid new ntup := by
  rcases htuples with ⟨-, hnew, rfl⟩ | ⟨old, -, -, rfl, rfl⟩
  · rw [hnew] at hblkno ⊢
    exact ⟨hr.version, hr.count, hblkno⟩
  · exact ⟨rfl, hr.count, hblkno⟩

theorem addElementOnPage_tends {r : AddElementRequest V}
    (hr : r.Proper index.metapage.m) (blkno : BlockNumber)
    (newInsertPage : Option BlockNumber) :
    Tends spared index (addElementOnPage index r blkno newInsertPage).2 := by
  rcases addElementOnPage_cases index r blkno newInsertPage with ⟨hsame, -⟩ | ⟨hplaced, hpages⟩
  · rw [hsame]
    exact .refl h
  · rcases hplaced.tuples h.toWellFormed with ⟨-, -, helement, hneighbor⟩ |
      ⟨tid, new, ntup, p, hreply, hwritten, htuples⟩
    · exact .of_shapes h hpages (by simp [helement]) (by simp [hneighbor])
        fun he => h.emptied (helement ▸ he)
    · have hblkno : tid.blkno ≤ new.neighbortid.blkno := by
        rcases htuples with ⟨hfree, -, -⟩ | ⟨old, hold, -, rfl, -⟩
        · exact addElementOnPage_blkno hreply hfree
        · obtain ⟨ntup₀, hntup₀⟩ := h.neighbortid hold
          exact (h.agree hold hntup₀).blkno
      refine .of_both h hpages hwritten (htuples.agree hr hblkno) ?_ ?_
      · rw [htuples.named.2.2, hr.live]
        simp
      · intro _ old hold
        rcases htuples with ⟨hfree, -, -⟩ | ⟨old', hold', hdeleted, -, -⟩
        · simp [HnswIndex.element?, HnswIndex.tuple?_eq, hfree] at hold
        · rw [Option.some.inj (hold.symm.trans hold')]
          exact hdeleted

omit h in
theorem HnswNeighborTuple.shape_update (ntup : HnswNeighborTuple) (tid : ItemPointer)
    (idx : UpdateIdx) (startIdx lm : Nat) (checkExisting : Bool) :
    (ntup.update tid idx startIdx lm checkExisting).shape = ntup.shape := by
  unfold HnswNeighborTuple.update
  split
  · rfl
  · simp [HnswNeighborTuple.shape, HnswNeighborTuple.count]

omit h in
theorem updateNeighborOnPage_tuples (index : HnswIndex V) (ntid tid : ItemPointer) (idx : UpdateIdx)
    (startIdx lm : Nat) (checkExisting : Bool) :
    (updateNeighborOnPage index ntid tid idx startIdx lm checkExisting).element? =
        index.element? ∧
      (updateNeighborOnPage index ntid tid idx startIdx lm checkExisting).neighbor? =
        Function.update index.neighbor? ntid ((index.neighbor? ntid).map fun ntup =>
          ntup.update tid idx startIdx lm checkExisting) := by
  obtain ⟨f, hf, hneighbor, helement, hplaceholder⟩ : ∃ f,
      updateNeighborOnPage index ntid tid idx startIdx lm checkExisting = index.modifyTuple ntid f ∧
      (∀ ntup, f (.neighbor ntup) = .neighbor (ntup.update tid idx startIdx lm checkExisting)) ∧
      (∀ etup, f (.element etup) = .element etup) ∧ f .placeholder = .placeholder :=
    ⟨_, rfl, fun _ => rfl, fun _ => rfl, rfl⟩
  rw [hf]
  constructor
  · funext t
    unfold HnswIndex.element?
    rw [HnswIndex.tuple?_eq, HnswIndex.tuple?_eq, HnswIndex.item?_modifyTuple]
    by_cases ht : t = ntid
    · subst ht
      rw [Function.update_self]
      rcases index.item? t with _ | ⟨size, _ | _ | _⟩ <;> simp [hneighbor, helement, hplaceholder]
    · rw [Function.update_of_ne ht]
  · funext t
    unfold HnswIndex.neighbor?
    rw [HnswIndex.tuple?_eq, HnswIndex.item?_modifyTuple]
    by_cases ht : t = ntid
    · subst ht
      rw [Function.update_self, Function.update_self, HnswIndex.tuple?_eq]
      rcases index.item? t with _ | ⟨size, _ | _ | _⟩ <;> simp [hneighbor, helement, hplaceholder]
    · rw [Function.update_of_ne ht, Function.update_of_ne ht, HnswIndex.tuple?_eq]

theorem updateNeighborOnPage_tends (ntid tid : ItemPointer) (idx : UpdateIdx)
    (startIdx lm : Nat) (checkExisting : Bool) :
    Tends spared index (updateNeighborOnPage index ntid tid idx startIdx lm checkExisting) := by
  obtain ⟨helement, hneighbor⟩ :=
    updateNeighborOnPage_tuples index ntid tid idx startIdx lm checkExisting
  have hpages : KeepsPages index
      (updateNeighborOnPage index ntid tid idx startIdx lm checkExisting) :=
    .modifyTuple _ _ _
  refine .of_shapes h hpages (by simp [helement]) (fun t => ?_) fun he =>
    h.emptied (helement ▸ he)
  rw [hneighbor]
  by_cases ht : t = ntid
  · simp [ht, Function.comp_def, HnswNeighborTuple.shape_update]
  · rw [Function.update_of_ne ht]

theorem overwriteNeighborOnPage_tends {tid : ItemPointer} {etup : HnswElementTuple V}
    {ntup : HnswNeighborTuple} {ntupSize : Nat} (hetup : index.element? tid = some etup)
    (hversion : ntup.version = etup.version)
    (hcount : ntup.count = (etup.level + 2) * index.metapage.m)
    (hwrite : overwriteNeighborOnPage index etup.neighbortid ntup ntupSize = some index') :
    Tends spared index index' := by
  obtain ⟨hitem, hpages⟩ := item?_overwriteNeighborOnPage hwrite
  obtain ⟨old, hold⟩ := h.neighbortid hetup
  obtain ⟨helement, hneighbor⟩ := neighbor_written hold hitem
  have hagree := h.agree hetup hold
  refine .of_shapes h hpages (by simp [helement]) (fun t => ?_) fun he =>
    h.emptied (helement ▸ he)
  rw [hneighbor]
  by_cases ht : t = etup.neighbortid
  · simp [ht, hold, HnswNeighborTuple.shape, hversion, hcount, hagree.version, hagree.count]
  · rw [Function.update_of_ne ht]

theorem addDuplicateOnPage_tends {tid heaptid : ItemPointer} {added : Bool}
    (hadd : addDuplicateOnPage index tid heaptid = some (added, index')) :
    Tends spared index index' := by
  rcases addDuplicateOnPage_eq_some hadd with ⟨-, rfl⟩ |
    ⟨size, etup, etup', hitem, hdup, -, hitem', hpages⟩
  · exact .refl h
  · have hetup := HnswIndex.element?_of_item? hitem
    obtain ⟨helement, hneighbor⟩ := element_written hetup hitem'
    obtain ⟨hfull, -, hdeleted, -⟩ := HnswElementTuple.isEmptied_addDuplicate hdup
    have hshape : etup'.shape = etup.shape := by
      unfold HnswElementTuple.addDuplicate? at hdup
      dsimp only at hdup
      split at hdup
      · cases hdup
      · cases hdup
        rfl
    refine .of_shapes h hpages (fun t => ?_) (by simp [hneighbor]) fun {t e} he => ?_
    · rw [helement]
      by_cases ht : t = tid
      · simp [ht, hetup, hshape]
      · rw [Function.update_of_ne ht]
    · rw [helement] at he
      by_cases ht : t = tid
      · rw [ht, Function.update_self] at he
        obtain rfl := Option.some.inj he
        intro hdel
        rw [h.emptied hetup (hdeleted.symm.trans hdel)] at hfull
        cases hfull
      · rw [Function.update_of_ne ht] at he
        exact h.emptied he

theorem removeHeapTidsOnPage_tends {blkno : BlockNumber} {callback : ItemPointer → Bool}
    {reply : RemoveHeapTidsReply}
    (hremove : removeHeapTidsOnPage index blkno callback = some (reply, index')) :
    Tends spared index index' := by
  obtain ⟨helement, hneighbor⟩ := removeHeapTidsOnPage_tuples hremove
  have hpages := (removeHeapTidsOnPage_eq_some hremove).2.1
  have hshape : ∀ e : HnswElementTuple V, (e.removeHeapTids callback).shape = e.shape := by
    intro e
    unfold HnswElementTuple.removeHeapTids
    split <;> rfl
  refine .of_shapes h hpages (fun t => ?_) (by simp [hneighbor]) fun {t e} he => ?_
  · rw [helement]
    split
    · simp [Function.comp_def, hshape]
    · rfl
  · rw [helement] at he
    split at he
    · obtain ⟨old, hold, rfl⟩ := Option.map_eq_some_iff.mp he
      rw [HnswElementTuple.deleted_removeHeapTids]
      exact fun hdel => HnswElementTuple.isEmptied_removeHeapTids (h.emptied hold hdel)
    · exact h.emptied he

theorem markDeletedAt_tends (tid : ItemPointer) :
    Tends False index (markDeletedAt index tid).2 := by
  rcases markDeletedAt_cases index tid with hsame | ⟨size, etup, hitem, -, hempty, hwritten, hpages⟩
  · rw [hsame]
    exact .refl h
  · have hetup := HnswIndex.element?_of_item? hitem
    obtain ⟨ntup, hntup⟩ := h.neighbortid hetup
    obtain ⟨nsize, hnitem⟩ := HnswIndex.item?_of_neighbor? hntup
    have hagree := h.agree hetup hntup
    have hboth : BothWritten _ _ tid etup.markDeleted (ntup.markDeleted etup.markDeleted.version) :=
      .again h.toWellFormed hetup rfl (hwritten nsize ntup hnitem)
    refine .of_both h hpages hboth ⟨rfl, ?_, hagree.blkno⟩ (fun _ => hempty)
      (fun hfalse => hfalse.elim)
    have hcount := hagree.count
    simp only [HnswNeighborTuple.count, HnswNeighborTuple.markDeleted, List.length_map] at hcount ⊢
    exact hcount

theorem updateMetaPage_tends (updateEntry : UpdateEntry) (entryPoint : Option EntryPoint)
    (insertPage : Option BlockNumber) :
    Tends spared index { index with
      metapage := hnswUpdateMetaPageInfo index.metapage updateEntry entryPoint
        insertPage } := by
  obtain ⟨hevolves, -⟩ := updateMetaPage_net index updateEntry entryPoint insertPage
  obtain ⟨entry, -, hmeta⟩ := hnswUpdateMetaPageInfo_eq index.metapage updateEntry entryPoint
    insertPage
  have hm : (hnswUpdateMetaPageInfo index.metapage updateEntry entryPoint insertPage).m =
      index.metapage.m := by
    rw [hmeta]
  refine ⟨⟨hevolves.wellFormed h.toWellFormed, ?_, ?_⟩, hevolves, hm, ?_⟩
  · intro tid etup ntup hetup hntup
    rw [hm]
    exact h.agree hetup hntup
  · exact fun hetup => h.emptied hetup
  · exact fun _ _ etup hetup hlive => ⟨etup, hetup, hlive, rfl, rfl⟩

end Instructions

end PgVector.Hnsw
