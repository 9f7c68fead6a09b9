import PgVector.Ivfflat.Build
import PgVector.Ivfflat.Scan

/-!
# The lists a scan selects

`GetScanLists` goes through the list pages with a queue of at most `maxProbes`
lists, of which the furthest is first, and remembers how far that one is.  At the
end the queue has the nearest lists of all.
-/

namespace PgVector.Ivfflat

open Foundation
open Hnsw (BlockNumber OffsetNumber ItemPointer Page Item firstOffsetNumber)

/-! ## The lists that are chosen -/

section Choose

variable {V D : Type} [LinearOrder D]

abbrev PlacedList (V : Type) := ListInfo × IvfflatList V

def scanListOf (distance : V → D) (p : PlacedList V) : IvfflatScanList D :=
  ⟨p.2.startPage, distance p.2.center⟩

theorem compareLists_isComparator : PairingHeap.IsComparator (compareLists (D := D)) := by
  constructor
  · intro a b h
    simp only [compareLists, decide_eq_true_eq, decide_eq_false_iff_not] at h ⊢
    exact h.not_gt
  · intro a b c hab hbc
    simp only [compareLists, decide_eq_false_iff_not, not_lt] at hab hbc ⊢
    exact hbc.trans hab

theorem exists_cons_of_map_eq_cons {α β : Type} {f : α → β} {s : Multiset α} {b : β}
    {t : Multiset β} (h : s.map f = b ::ₘ t) :
    ∃ a s', s = a ::ₘ s' ∧ f a = b ∧ s'.map f = t := by
  classical
  obtain ⟨a, ha, hb, ht⟩ := (Multiset.map_eq_cons f s t b).mpr h
  exact ⟨a, s.erase a, (Multiset.cons_erase ha).symm, hb, ht⟩

/-- Of the lists seen so far, those in `chosen` are in the queue, those in `others` not. -/
structure Chosen (maxProbes : Nat) (distance : V → D) (q : ListQueue D)
    (chosen others : Multiset (PlacedList V)) : Prop where
  elems : q.listQueue.elems = chosen.map (scanListOf distance)
  heap : q.listQueue.IsHeap compareLists
  count : chosen.card = q.listCount
  full : q.listCount = maxProbes ∨ q.listCount < maxProbes ∧ others = 0
  furthest : q.listCount = maxProbes →
    ∃ list, q.listQueue.first? = some list ∧ list.distance = q.maxDistance
  nearest : ∀ a ∈ chosen, ∀ b ∈ others, distance a.2.center ≤ distance b.2.center

variable {maxProbes : Nat} {distance : V → D} {q : ListQueue D}
  {chosen others : Multiset (PlacedList V)}

theorem Chosen.le_maxDistance (h : Chosen maxProbes distance q chosen others)
    (hfull : q.listCount = maxProbes) {a : PlacedList V} (ha : a ∈ chosen) :
    distance a.2.center ≤ q.maxDistance := by
  obtain ⟨list, hfirst, hmax⟩ := h.furthest hfull
  have habove := PairingHeap.first?_above compareLists_isComparator h.heap.root h.heap.ordered
    hfirst (scanListOf distance a) (by rw [h.elems]; exact Multiset.mem_map_of_mem _ ha)
  simp only [compareLists, decide_eq_false_iff_not, not_lt] at habove
  rw [← hmax]
  exact habove

theorem exists_first?_add (heap : PairingHeap (IvfflatScanList D)) (hheap : heap.IsRoot)
    (list : IvfflatScanList D) : ∃ first, (heap.add compareLists list).first? = some first := by
  rcases hfirst : (heap.add compareLists list).first? with _ | first
  · have hnil := PairingHeap.first?_eq_none.mp hfirst
    have helems := PairingHeap.elems_add compareLists list hheap
    rw [hnil] at helems
    exact absurd helems.symm (Multiset.cons_ne_zero)
  · exact ⟨first, rfl⟩

theorem Chosen.consider (h : Chosen maxProbes distance q chosen others)
    (p : PlacedList V) :
    ∃ q' chosen' others', q.consider maxProbes distance p.2 = some q' ∧
      Chosen maxProbes distance q' chosen' others' ∧
      chosen' + others' = p ::ₘ (chosen + others) := by
  have hc := compareLists_isComparator (D := D)
  unfold ListQueue.consider
  dsimp only
  split
  · next hroom =>
    -- all lists are taken until there are enough
    have hothers : others = 0 := by
      rcases h.full with hfull | ⟨-, hothers⟩
      · omega
      · exact hothers
    have hheap := h.heap.add hc (scanListOf distance p)
    have helems : (q.listQueue.add compareLists (scanListOf distance p)).elems =
        (p ::ₘ chosen).map (scanListOf distance) := by
      rw [PairingHeap.elems_add compareLists _ h.heap.root, h.elems, Multiset.map_cons]
    have hcount : (p ::ₘ chosen).card = q.listCount + 1 := by
      rw [Multiset.card_cons, h.count]
    split
    · next hlast =>
      obtain ⟨first, hfirst⟩ := exists_first?_add q.listQueue h.heap.root (scanListOf distance p)
      refine ⟨⟨_, _, first.distance⟩, p ::ₘ chosen, 0, ?_,
        ⟨helems, hheap, hcount, .inl hlast, fun _ => ⟨first, hfirst, rfl⟩, by simp⟩, ?_⟩
      · exact Option.map_eq_some_iff.mpr ⟨first, hfirst, rfl⟩
      · simp [hothers]
    · next hmore =>
      refine ⟨_, p ::ₘ chosen, 0, rfl,
        ⟨helems, hheap, hcount, .inr ⟨by dsimp only; omega, rfl⟩,
          fun heq => absurd heq hmore, by simp⟩, ?_⟩
      simp [hothers]
  · next hroom =>
    have hfull : q.listCount = maxProbes := by
      rcases h.full with hfull | ⟨hlt, -⟩
      · exact hfull
      · exact absurd hlt hroom
    split
    · next hcloser =>
      -- the furthest list is replaced
      obtain ⟨furthest, hfirst, hmax⟩ := h.furthest hfull
      rcases hremove : q.listQueue.removeFirst? compareLists with _ | ⟨removed, rest⟩
      · rw [(PairingHeap.removeFirst?_eq_none compareLists).mp hremove] at hfirst
        cases hfirst
      · obtain ⟨hsplit, hroot⟩ :=
          PairingHeap.elems_removeFirst? compareLists h.heap.root hremove
        have hsame : removed = furthest := by
          cases hq : q.listQueue with
          | nil =>
            rw [hq] at hfirst
            cases hfirst
          | node a child sibling =>
            rw [hq] at hfirst hremove
            simp only [PairingHeap.removeFirst?, Option.some.injEq, Prod.mk.injEq] at hremove
            exact hremove.1.symm.trans (Option.some.inj hfirst)
        subst hsame
        rw [h.elems] at hsplit
        obtain ⟨a, kept, rfl, haf, hrest⟩ := exists_cons_of_map_eq_cons hsplit
        have hdist : distance a.2.center = q.maxDistance := by
          rw [← hmax, ← haf]
          rfl
        have hheapRest := h.heap.removeFirst? hc hremove
        obtain ⟨first, hfirst'⟩ := exists_first?_add rest hroot (scanListOf distance p)
        refine ⟨⟨_, _, first.distance⟩, p ::ₘ kept, a ::ₘ others, ?_,
          ⟨?_, hheapRest.add hc _, ?_, .inl hfull, fun _ => ⟨first, hfirst', rfl⟩, ?_⟩, ?_⟩
        · exact Option.map_eq_some_iff.mpr ⟨first, hfirst', rfl⟩
        · change (rest.add compareLists (scanListOf distance p)).elems = _
          rw [PairingHeap.elems_add compareLists _ hroot, Multiset.map_cons, hrest]
        · rw [Multiset.card_cons, ← Multiset.card_cons a kept]
          exact h.count
        · -- everything in the new queue is nearer than what was left out
          have hold : ∀ c ∈ p ::ₘ kept, distance c.2.center ≤ q.maxDistance := by
            intro c hc
            rcases Multiset.mem_cons.mp hc with rfl | hmem
            · exact hcloser.le
            · exact h.le_maxDistance hfull (Multiset.mem_cons_of_mem hmem)
          intro c hc b hb
          rcases Multiset.mem_cons.mp hb with rfl | hb
          · rw [hdist]
            exact hold c hc
          · calc distance c.2.center ≤ q.maxDistance := hold c hc
              _ = distance a.2.center := hdist.symm
              _ ≤ distance b.2.center := h.nearest a (Multiset.mem_cons_self ..) b hb
        · rw [Multiset.cons_add, Multiset.add_cons, ← Multiset.cons_add]
    · next hnot =>
      refine ⟨q, chosen, p ::ₘ others, rfl,
        ⟨h.elems, h.heap, h.count, .inl hfull, h.furthest, ?_⟩, Multiset.add_cons ..⟩
      intro a ha b hb
      rcases Multiset.mem_cons.mp hb with rfl | hb
      · exact (h.le_maxDistance hfull ha).trans (not_lt.mp hnot)
      · exact h.nearest a ha b hb

theorem Chosen.foldlM (lists : List (PlacedList V))
    (h : Chosen maxProbes distance q chosen others) :
    ∃ q' chosen' others',
      (lists.map Prod.snd).foldlM (ListQueue.consider maxProbes distance) q = some q' ∧
      Chosen maxProbes distance q' chosen' others' ∧
      chosen' + others' = (lists : Multiset (PlacedList V)) + (chosen + others) := by
  induction lists generalizing q chosen others with
  | nil => exact ⟨q, chosen, others, rfl, h, by simp⟩
  | cons p lists ih =>
    obtain ⟨q₁, chosen₁, others₁, hstep, h₁, hsplit₁⟩ := h.consider p
    obtain ⟨q₂, chosen₂, others₂, hrest, h₂, hsplit₂⟩ := ih h₁
    refine ⟨q₂, chosen₂, others₂, ?_, h₂, ?_⟩
    · rw [List.map_cons, List.foldlM_cons, hstep]
      exact hrest
    · rw [hsplit₂, hsplit₁, ← Multiset.cons_coe, Multiset.cons_add, Multiset.add_cons]

def listsOn (blkno : BlockNumber) (page : Page (IvfflatList V)) : List (PlacedList V) :=
  (page.items.zipIdx firstOffsetNumber).map fun (item, offno) => (⟨blkno, offno⟩, item.tuple)

def IvfflatIndex.listsAt (index : IvfflatIndex V) (blkno : BlockNumber) : List (PlacedList V) :=
  (index.listPage? blkno).elim [] (listsOn blkno)

theorem map_fst_listsOn (blkno : BlockNumber) (page : Page (IvfflatList V)) :
    (listsOn blkno page).map Prod.fst = listInfosOn blkno page := by
  rw [listsOn, List.map_map]
  rfl

theorem map_snd_listsOn (blkno : BlockNumber) (page : Page (IvfflatList V)) :
    (listsOn blkno page).map Prod.snd = page.items.map Item.tuple := by
  rw [listsOn, List.map_map, ← List.zipIdx_map_fst firstOffsetNumber page.items, List.map_map]
  simp [Function.comp_def]

variable {index : IvfflatIndex V} {blocks : List BlockNumber}
  {chains : ListInfo → List BlockNumber}

theorem scanListPages_returns {next : Option BlockNumber}
    (hchain : Chain index.listNext next blocks) {fuel : Nat} (hfuel : blocks.length ≤ fuel)
    (h : Chosen maxProbes distance q chosen others) :
    (scanListPages maxProbes distance fuel next q).Returns ivfflatHandler index
      fun q' s => s = index ∧ ∃ chosen' others', Chosen maxProbes distance q' chosen' others' ∧
        chosen' + others' =
          (blocks.flatMap index.listsAt : Multiset (PlacedList V)) + (chosen + others) := by
  induction hchain generalizing fuel q chosen others with
  | nil =>
    unfold scanListPages
    exact .ret ⟨rfl, chosen, others, h, by simp⟩
  | @cons blkno link rest hnext _ ih =>
    cases fuel with
    | zero => simp at hfuel
    | succ fuel =>
      obtain ⟨page, hpage, rfl⟩ := Option.map_eq_some_iff.mp hnext
      have hexec : ivfflatHandler (.readListPage blkno) index = some (some page, index) := by
        simp [ivfflatHandler, hpage]
      refine .perform hexec ?_
      obtain ⟨q₁, chosen₁, others₁, hfold, h₁, hsplit₁⟩ :=
        h.foldlM (listsOn blkno page)
      rw [map_snd_listsOn] at hfold
      dsimp only
      rw [hfold]
      refine (ih (by simpa using hfuel) h₁).mono ?_
      rintro q₂ s ⟨rfl, chosen₂, others₂, h₂, hsplit₂⟩
      refine ⟨rfl, chosen₂, others₂, h₂, ?_⟩
      have hat : s.listsAt blkno = listsOn blkno page := by
        simp [IvfflatIndex.listsAt, hpage]
      rw [hsplit₂, hsplit₁, List.flatMap_cons, hat, ← Multiset.coe_add, add_left_comm, add_assoc]

theorem nodup_listsAt (hnodup : blocks.Nodup) :
    ((blocks.flatMap index.listsAt).map Prod.fst).Nodup := by
  have hfst : (blocks.flatMap index.listsAt).map Prod.fst =
      blocks.flatMap fun b => (index.listPage? b).elim [] (listInfosOn b) := by
    rw [List.map_flatMap]
    congr 1
    funext b
    cases hpage : index.listPage? b with
    | none => simp [IvfflatIndex.listsAt, hpage]
    | some page => simp [IvfflatIndex.listsAt, hpage, map_fst_listsOn]
  rw [hfst]
  exact nodup_flatMap_listInfosOn index hnodup

theorem WellFormed.all_lists (h : WellFormed index chains) (hblocks : ListsLinked index blocks) :
    ((blocks.flatMap index.listsAt).map Prod.fst).Nodup ∧
      (blocks.flatMap index.listsAt).length = index.metapage.lists ∧
      ∀ p : PlacedList V, p ∈ blocks.flatMap index.listsAt ↔ index.list? p.1 = some p.2 := by
  have hmem : ∀ p : PlacedList V,
      p ∈ blocks.flatMap index.listsAt ↔ index.list? p.1 = some p.2 := by
    intro p
    rw [List.mem_flatMap]
    constructor
    · rintro ⟨b, -, hb⟩
      rcases hpage : index.listPage? b with _ | page
      · simp [IvfflatIndex.listsAt, hpage] at hb
      · simp only [IvfflatIndex.listsAt, hpage, Option.elim_some, listsOn, List.mem_map,
          Prod.exists, mem_zipIdx_iff_item?] at hb
        obtain ⟨item, offno, hitem, rfl⟩ := hb
        simp [IvfflatIndex.list?, hpage, Page.tuple?, hitem]
    · intro hlist
      obtain ⟨page, hpage, htuple⟩ := IvfflatIndex.list?_eq_some.mp hlist
      have hlistPage := IvfflatIndex.listPage?_eq_some.mpr hpage
      obtain ⟨item, hitem, heq⟩ := Option.map_eq_some_iff.mp htuple
      refine ⟨p.1.blkno, hblocks.2.2 _ page.nextblkno ?_, ?_⟩
      · simp [IvfflatIndex.listNext, hlistPage]
      · simp only [IvfflatIndex.listsAt, hlistPage, Option.elim_some, listsOn, List.mem_map,
          Prod.exists, mem_zipIdx_iff_item?]
        exact ⟨item, p.1.offno, hitem, by rw [heq]⟩
  have hnodup : ((blocks.flatMap index.listsAt).map Prod.fst).Nodup :=
    nodup_listsAt (hblocks.2.1.imp Nat.ne_of_lt)
  refine ⟨hnodup, ?_, hmem⟩
  obtain ⟨infos, hinfos, hcount, hmemInfos⟩ := h.listCount
  rw [← hcount, ← List.length_map (f := Prod.fst)]
  refine ((List.perm_ext_iff_of_nodup hnodup hinfos).mpr fun info => ?_).length_eq
  rw [hmemInfos]
  constructor
  · intro hinfo
    obtain ⟨p, hp, rfl⟩ := List.mem_map.mp hinfo
    exact ⟨p.2, (hmem p).mp hp⟩
  · rintro ⟨list, hlist⟩
    exact List.mem_map.mpr ⟨(info, list), (hmem (info, list)).mpr hlist, rfl⟩

structure Selection (index : IvfflatIndex V) (distance : V → D) (maxProbes : Nat)
    (selected : List (PlacedList V)) : Prop where
  lists : ∀ p ∈ selected, index.list? p.1 = some p.2
  nodup : (selected.map Prod.fst).Nodup
  length_eq : selected.length = maxProbes
  sorted : selected.Pairwise fun a b => distance a.2.center ≤ distance b.2.center
  nearest : ∀ a ∈ selected, ∀ info list, index.list? info = some list →
    info ∉ selected.map Prod.fst → distance a.2.center ≤ distance list.center

theorem exists_list_of_map_eq {α β : Type} {f : α → β} {l : List β} :
    ∀ {s : Multiset α}, s.map f = l → ∃ l' : List α, (l' : Multiset α) = s ∧ l'.map f = l := by
  induction l with
  | nil =>
    intro s hs
    exact ⟨[], (Multiset.map_eq_zero.mp hs).symm, rfl⟩
  | cons b l ih =>
    intro s hs
    rw [← Multiset.cons_coe] at hs
    obtain ⟨a, s', rfl, rfl, hs'⟩ := exists_cons_of_map_eq_cons hs
    obtain ⟨l', rfl, hl'⟩ := ih hs'
    exact ⟨a :: l', rfl, by rw [List.map_cons, hl']⟩

structure NearestLists (all : List (PlacedList V)) (distance : V → D) (maxProbes : Nat)
    (selected : List (PlacedList V)) : Prop where
  subset : ∀ p ∈ selected, p ∈ all
  nodup : (selected.map Prod.fst).Nodup
  length_eq : selected.length = maxProbes
  sorted : selected.Pairwise fun a b => distance a.2.center ≤ distance b.2.center
  nearest : ∀ a ∈ selected, ∀ b ∈ all, b.1 ∉ selected.map Prod.fst →
    distance a.2.center ≤ distance b.2.center

theorem Chosen.nearestLists {all : List (PlacedList V)}
    (h : Chosen maxProbes distance q chosen others)
    (hsplit : chosen + others = (all : Multiset (PlacedList V)))
    (hnodup : (all.map Prod.fst).Nodup) (hlen : maxProbes ≤ all.length) :
    ∃ selected, NearestLists all distance maxProbes selected ∧
      (q.listQueue.take compareLists q.listCount).1.reverse =
        selected.map (scanListOf distance) := by
  have hsize : q.listCount = q.listQueue.size := by
    rw [PairingHeap.size_eq_card, h.elems, Multiset.card_map, h.count]
  have htaken : (((q.listQueue.take compareLists q.listCount).1.reverse :
      List (IvfflatScanList D)) : Multiset (IvfflatScanList D)) =
        chosen.map (scanListOf distance) := by
    rw [Multiset.coe_reverse, hsize, ← h.elems]
    exact PairingHeap.elems_drain compareLists h.heap.root
  obtain ⟨selected, hchosen, hmap⟩ := exists_list_of_map_eq htaken.symm
  subst hchosen
  have hcount : q.listCount = maxProbes := by
    rcases h.full with hfull | ⟨hlt, rfl⟩
    · exact hfull
    · have hcard := congrArg Multiset.card hsplit
      simp only [add_zero, Multiset.coe_card] at hcard
      have hcount := h.count
      rw [Multiset.coe_card] at hcount
      omega
  have hperm : (selected.map Prod.fst : Multiset ListInfo) + others.map Prod.fst =
      (all.map Prod.fst : List ListInfo) := by
    rw [← Multiset.map_coe, ← Multiset.map_coe, ← hsplit, Multiset.map_add]
  refine ⟨selected, ⟨?_, ?_, ?_, ?_, ?_⟩, hmap.symm⟩
  · intro p hp
    rw [← Multiset.mem_coe, ← hsplit]
    exact Multiset.mem_add.mpr (.inl hp)
  · have hnodup' : (((all.map Prod.fst : List ListInfo)) : Multiset ListInfo).Nodup := hnodup
    rw [← hperm] at hnodup'
    exact (Multiset.nodup_add.mp hnodup').1
  · rw [← hcount, ← h.count, Multiset.coe_card]
  · have hsorted := h.heap.pairwise_take compareLists_isComparator q.listCount
    rw [← List.pairwise_reverse, ← hmap, List.pairwise_map] at hsorted
    refine hsorted.imp fun {a b} hab => ?_
    exact not_lt.mp (of_decide_eq_false hab)
  · intro a ha b hb hnot
    rw [← Multiset.mem_coe, ← hsplit] at hb
    rcases Multiset.mem_add.mp hb with hin | hout
    · exact absurd (List.mem_map_of_mem hin) hnot
    · exact h.nearest a ha b hout

theorem getScanLists_chain_returns (hchain : Chain index.listNext (some ivfflatHeadBlkno) blocks)
    {ctx : IvfflatContext V D} (hfuel : blocks.length ≤ ctx.fuel) (hpos : 1 ≤ maxProbes)
    (hlen : maxProbes ≤ (blocks.flatMap index.listsAt).length) (distance : V → D) :
    (getScanLists ctx maxProbes distance).Returns ivfflatHandler index
      fun listPages s => s = index ∧ ∃ selected,
        NearestLists (blocks.flatMap index.listsAt) distance maxProbes selected ∧
        listPages = selected.map fun p => p.2.startPage := by
  have hstart : Chosen (V := V) maxProbes distance ⟨.nil, 0, ctx.dblMax⟩ 0 0 :=
    ⟨rfl, PairingHeap.isHeap_nil, rfl, .inr ⟨hpos, rfl⟩,
      fun heq => absurd heq (Nat.ne_of_lt hpos), by simp⟩
  refine .bind (scanListPages_returns hchain hfuel hstart) ?_
  rintro q s ⟨rfl, chosen, others, hchosen, hsplit⟩
  rw [add_zero, add_zero] at hsplit
  obtain ⟨selected, hselected, htaken⟩ :=
    hchosen.nearestLists hsplit (nodup_listsAt hchain.nodup) hlen
  refine .ret ⟨rfl, selected, hselected, ?_⟩
  rw [htaken, List.map_map]
  rfl

theorem length_le_pages (hsorted : blocks.Pairwise (· < ·))
    (hmem : ∀ b ∈ blocks, 1 ≤ b ∧ b ≤ index.pages.length) :
    blocks.length ≤ index.pages.length := by
  have hsub : blocks ⊆ List.range' 1 index.pages.length := by
    intro b hb
    obtain ⟨hlow, hhigh⟩ := hmem b hb
    refine List.mem_range'_1.mpr ⟨hlow, ?_⟩
    rw [Nat.add_comm]
    exact Nat.lt_succ_of_le hhigh
  have hnodup : blocks.Nodup := hsorted.imp Nat.ne_of_lt
  have hle := (hnodup.subperm hsub).length_le
  rwa [List.length_range'] at hle

theorem NearestLists.selection {all selected : List (PlacedList V)}
    (h : NearestLists all distance maxProbes selected)
    (hall : ∀ p, p ∈ all ↔ index.list? p.1 = some p.2) :
    Selection index distance maxProbes selected where
  lists p hp := (hall p).mp (h.subset p hp)
  nodup := h.nodup
  length_eq := h.length_eq
  sorted := h.sorted
  nearest a ha info list hlist hnot := h.nearest a ha (info, list) ((hall _).mpr hlist) hnot

theorem getScanLists_returns (h : WellFormed index chains) {ctx : IvfflatContext V D}
    (hfuel : index.pages.length ≤ ctx.fuel) (hpos : 1 ≤ maxProbes)
    (hle : maxProbes ≤ index.metapage.lists) (distance : V → D) :
    (getScanLists ctx maxProbes distance).Returns ivfflatHandler index
      fun listPages s => s = index ∧ ∃ selected, Selection index distance maxProbes selected ∧
        listPages = selected.map fun p => p.2.startPage := by
  obtain ⟨blocks, hblocks⟩ := h.lists
  obtain ⟨-, hcount, hall⟩ := h.all_lists hblocks
  have hlen : blocks.length ≤ ctx.fuel := by
    have hbounds : ∀ b ∈ blocks, 1 ≤ b ∧ b ≤ index.pages.length := by
      intro b hb
      obtain ⟨link, hlink⟩ := hblocks.1.exists_next hb
      obtain ⟨page, hpage, -⟩ := listNext_eq_some.mp hlink
      exact bounds_of_block? hpage
    exact (length_le_pages hblocks.2.1 hbounds).trans hfuel
  refine (getScanLists_chain_returns hblocks.1 hlen hpos (by rw [hcount]; exact hle)
    distance).mono ?_
  rintro listPages s ⟨rfl, selected, hselected, rfl⟩
  exact ⟨rfl, selected, hselected.selection hall, rfl⟩

/--
On any chain of list pages with enough lists, and for any query, the scan is left
with the start pages of the `maxProbes` nearest lists, nearest first.
-/
theorem getScanLists_nearest {index : IvfflatIndex V} {blocks : List BlockNumber}
    (hchain : Chain index.listNext (some ivfflatHeadBlkno) blocks) (ctx : IvfflatContext V D)
    (hfuel : blocks.length ≤ ctx.fuel) {maxProbes : Nat} (hpos : 1 ≤ maxProbes)
    (hlen : maxProbes ≤ (blocks.flatMap index.listsAt).length) (query : Option V) :
    (getScanLists ctx maxProbes (getScanValue ctx query)).Returns ivfflatHandler index
      fun listPages s => s = index ∧ ∃ selected,
        NearestLists (blocks.flatMap index.listsAt) (getScanValue ctx query) maxProbes selected ∧
        listPages = selected.map fun p => p.2.startPage :=
  getScanLists_chain_returns hchain hfuel hpos hlen (getScanValue ctx query)

end Choose

/-- Three lists on two list pages; a query of 20 is as far from the first as from the last. -/
def threeLists : IvfflatIndex Nat where
  metapage := ⟨ivfflatMagicNumber, 1, 3⟩
  pages :=
    [.lists ⟨[⟨40, ⟨some 3, some 3, 10⟩⟩, ⟨40, ⟨some 4, some 4, 21⟩⟩], some 2⟩,
     .lists ⟨[⟨40, ⟨some 5, some 5, 30⟩⟩], none⟩]

def numberLists : IvfflatContext Nat Nat where
  distance a b := (a - b) + (b - a)
  dblMax := 100
  zeroDistance := 0
  checkNorm v := v != 0
  normValue v := v
  itemSize _ := 4000
  fuel := 2

theorem threeLists_chain : Chain threeLists.listNext (some ivfflatHeadBlkno) [1, 2] :=
  .cons rfl (.cons rfl .nil)

theorem getScanLists_nearest_two :
    (getScanLists numberLists 2 (getScanValue numberLists (some 20))).Returns ivfflatHandler
      threeLists fun listPages s => s = threeLists ∧ ∃ selected,
        NearestLists ([1, 2].flatMap threeLists.listsAt) (getScanValue numberLists (some 20)) 2
          selected ∧ listPages = selected.map fun p => p.2.startPage :=
  getScanLists_nearest threeLists_chain numberLists (by decide) (by decide) (by decide) (some 20)

end PgVector.Ivfflat
