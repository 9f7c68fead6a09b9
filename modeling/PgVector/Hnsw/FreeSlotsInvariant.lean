import PgVector.Hnsw.FreeSlotsSafe
import PgVector.Hnsw.PairingInvariant

/-!
# No free slot is stranded

An index is built and flushed, and then used by inserts and scans; vacuums run on their
own.  Whenever no vacuum is at work, the insert page is on the chain of pages and every
deleted element is on it or on a later page, so that an insert that adds a page has found
no deleted element with enough room.
-/

namespace PgVector.Hnsw

open Foundation

section Stranded

variable {V D F : Type}

structure HnswIndex.Unstranded (index : HnswIndex V) (q : BlockNumber) : Prop where
  insertPage : index.metapage.insertPage = some q
  chain : ∃ before after, Chain index.next? (some hnswHeadBlkno) (before ++ q :: after) ∧
    ∀ tid etup, index.element? tid = some etup → etup.deleted = true → tid.blkno ∈ q :: after
  examined : ∀ self request fuel placement (s s' : Shared V), s.index = index →
    (addElementLoop request fuel q none).run (hnswHandler self) s = (.done placement, s') →
    index.pages.length < s'.index.pages.length → ∀ tid, ¬ index.RoomAt request tid

theorem HnswIndex.Reusable.unstranded {index : HnswIndex V} (h : index.Reusable)
    (hmatched : index.Matched) : ∃ q, index.Unstranded q := by
  obtain ⟨q, hq, hfirst⟩ := h
  obtain ⟨hpos, hle⟩ := HnswIndex.page?_isSome.mp hfirst.page
  obtain ⟨k, rfl⟩ := Nat.exists_eq_add_of_le hpos
  obtain ⟨rest, hrest⟩ := Nat.exists_eq_add_of_le hle
  refine ⟨1 + k, hq, ⟨List.range' 1 k, List.range' (1 + k + 1) rest, ?_, ?_⟩, ?_⟩
  · have hchain := hmatched.chained.chain (k + rest) (Nat.le_refl 1) (by rw [hrest]; ring)
    rwa [Nat.add_assoc k rest 1, ← List.range'_append_1, List.range'_succ] at hchain
  · intro tid etup hetup hdeleted
    have hdeleted' : tid ∈ index.net.deleted := ⟨etup, hetup, hdeleted⟩
    have hlast := (blkno_of_deleted hdeleted').2
    rw [← List.range'_succ, List.mem_range'_1]
    exact ⟨hfirst.least tid hdeleted', by rw [hrest] at hlast; exact Nat.lt_succ_of_le hlast⟩
  · rintro self request fuel placement s s' rfl hrun hextends
    refine addElementLoop_extends hmatched.chained fuel ?_ hrun hextends
    rintro tid hlt ⟨page, size, etup, hpage, hitem, hdeleted, -⟩
    have hetup : s.index.element? tid = some etup :=
      HnswIndex.element?_of_item? (HnswIndex.item?_eq_some.mpr ⟨page, hpage, hitem⟩)
    exact absurd (hfirst.least tid ⟨etup, hetup, hdeleted⟩) (Nat.not_le_of_lt hlt)

theorem FlushedTo.reusable {m : Nat} {graph : HnswGraph V F} {index : HnswIndex V}
    {position : Nat → FlushPosition} (h : FlushedTo m graph index position) : index.Reusable := by
  obtain ⟨q, hq, hpage⟩ := h.insertPage
  refine ⟨q, hq, hpage, ?_⟩
  rintro tid ⟨etup, hetup, hdeleted⟩
  obtain ⟨ptr, e, -, -, rfl⟩ := h.exists_element hetup
  cases hdeleted

variable [LinearOrder D] [LinearOrder F] [DecidableEq V]

theorem reusable_reaches {s : Monitored V}
    {pool : Pool (hnswSignature V) (Monitored V) (Task V D F)}
    (hreach : (((hnswSystem (fun _ => True) fun _ _ _ => True).assuming
      fun s => s.shared.index.Matched).alone fun t => t.isVacuum = true).Reaches (Pool.idle s) pool)
    (hs : s.shared.index.Reusable)
    (hidle : ∀ i t p, pool.threads i = some (t, p) → t.isVacuum = false) :
    pool.shared.shared.index.Reusable := by
  have hturns := hreach.turns (P := fun s => s.shared.index.Reusable)
    (R := fun i _ p x => (vacuuming i).inv x ∧
      p.Safe (vacuuming i) (fun _ y => y.shared.index.Reusable) x)
    (fun _ _ hs h => reusable_of_inserts hs h) ?_ ?_ ?_ hs
  · rcases hturns with ⟨hP, -⟩ | ⟨i, t, p, s', rfl, ht, -⟩
    · exact hP
    · rw [hidle i t p (by simp [Pool.only])] at ht
      cases ht
  · rintro i t s ⟨q, hq, hfirst⟩ ht -
    cases t with
    | vacuum ctx callback => exact ⟨⟨q, hq, hfirst.page⟩, vacuum_vacuuming ctx callback⟩
    | insert | scan => cases ht
  · rintro i t o k x r y ⟨hinv, hsafe⟩ ⟨-, hmatched⟩ hexec
    obtain ⟨_, rfl, hinv', -, hk⟩ := hsafe x rfl hinv hmatched r y hexec
    exact ⟨hinv', hk⟩
  · rintro i t x ⟨hinv, hsafe⟩
    exact hsafe x rfl hinv

/--
An index is built by any number of participants and flushed; inserts and scans, aborted at
any point, then take turns with vacuums that run to their end.
-/
theorem no_slot_stranded (ctx : InsertContext V D F) (m : Nat) (hm : 2 ≤ m ∧ m ≤ 100)
    (valueSize : V → Nat)
    (built : Pool (memorySignature V F) (MemoryState V F) (MemoryInsert V))
    (hbuilt : (memorySystem ctx m True).Reaches (Pool.idle .init) built)
    (s : Monitored V) (hflush : flushPages valueSize m built.shared.graph = .ok s.shared.index)
    (pool : Pool (hnswSignature V) (Monitored V) (Task V D F))
    (hreach : ((hnswSystem (fun _ => True) fun _ _ _ => True).alone
      fun t => t.isVacuum = true).Reaches (Pool.idle s) pool)
    (hidle : ∀ i t p, pool.threads i = some (t, p) → t.isVacuum = false) :
    ∃ q, pool.shared.shared.index.Unstranded q := by
  have hmatched (between : Pool (hnswSignature V) (Monitored V) (Task V D F))
      (h : ((hnswSystem (fun _ => True) fun _ _ _ => True).alone
        fun t => t.isVacuum = true).Reaches (Pool.idle s) between) :
      between.shared.shared.index.Matched :=
    (matched_reaches hm hbuilt hflush h.of_alone).1
  have hformed := (memory_reaches hbuilt).1.formed
  obtain ⟨-, position, hflushed, -⟩ := flushPages_ok hm hformed hflush
  have hreusable := reusable_reaches (hreach.assuming hmatched) hflushed.reusable hidle
  exact hreusable.unstranded (hmatched pool hreach)

end Stranded

/-- The only element is deleted by a vacuum, and its page is the insert page. -/
theorem no_slot_stranded_vacuumed :
    ∃ pool : Pool (hnswSignature Nat) (Monitored Nat) (Task Nat Nat Nat),
      ((hnswSystem (fun _ => True) fun _ _ _ => True).alone
        fun t => t.isVacuum = true).Reaches (Pool.idle flushedElementShared) pool ∧
      ((pool.shared.shared.index.element? ⟨1, 1⟩).map HnswElementTuple.deleted) = some true ∧
      ∃ q, pool.shared.shared.index.Unstranded q := by
  obtain ⟨built, hbuilt, hflush⟩ := oneElementIndex_built
  obtain ⟨s', hreach, hdeleted⟩ :
      ∃ s' : Monitored Nat,
        ((hnswSystem (fun _ => True) fun _ _ _ => True).alone
          fun t : Task Nat Nat Nat => t.isVacuum = true).Reaches
          (Pool.idle flushedElementShared) (Pool.idle s') ∧
        (s'.shared.index.element? ⟨1, 1⟩).map HnswElementTuple.deleted = some true :=
    ⟨_, System.reaches_alone (fun _ _ _ => trivial) 0
      (.vacuum (numberInserts 4) fun _ => true) _ (by exact trivial) rfl rfl, rfl⟩
  exact ⟨Pool.idle s', hreach, hdeleted, no_slot_stranded (numberInserts 4) 2 (by decide)
    (fun _ => 8) built hbuilt flushedElementShared hflush _ hreach (by simp [Pool.idle])⟩

end PgVector.Hnsw
