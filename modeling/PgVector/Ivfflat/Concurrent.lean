import Mathlib.Tactic.Abel
import PgVector.Foundation.Interleaving
import PgVector.Ivfflat.Build

/-!
# Inserts beside a vacuum

Any number of inserts and one vacuum at a time take turns on an IVFFlat index.  A
history is kept beside the index, which no instruction reads: which heap TIDs were
put on a page, which inserts were completed or given up, and what the vacuum
removed.
-/

namespace PgVector.Ivfflat

open Foundation
open Hnsw (BlockNumber OffsetNumber ItemPointer Page Item firstOffsetNumber)

structure History where
  placed : List ItemPointer
  completed : List ItemPointer
  abandoned : List ItemPointer
  removed : List ItemPointer
  deriving DecidableEq, Repr

def History.start : History := ⟨[], [], [], []⟩

structure Monitored (V : Type) where
  index : IvfflatIndex V
  history : History

section System

variable {V D : Type}

def History.note (h : History) : (o : IvfflatOp V) → o.Res → History
  | .insertOnPage _ itup _, .placed _ => { h with placed := h.placed ++ [itup.tid] }
  | .bulkDelete _ _, some reply => { h with removed := h.removed ++ reply.removed }
  | _, _ => h

def monitoredHandler : Handler (ivfflatSignature V) (Monitored V) :=
  fun o s => (ivfflatHandler o s.index).map fun reply =>
    (reply.1, ⟨reply.2, s.history.note o reply.1⟩)

inductive Task (V D : Type) where
  | insert (ctx : IvfflatContext V D) (value : Option V) (heaptid : ItemPointer)
  | vacuum (ctx : IvfflatContext V D) (callback : ItemPointer → Bool)

def Task.isVacuum : Task V D → Bool
  | .vacuum _ _ => true
  | .insert _ _ _ => false

def Task.program [LinearOrder D] : Task V D → IvfflatProgram V Unit
  | .insert ctx value heaptid => ivfflatinsert ctx value heaptid
  | .vacuum ctx callback => ivfflatbulkdelete ctx callback

def Task.tids [LinearOrder D] : Task V D → List ItemPointer
  | .insert ctx value heaptid =>
    if (formIndexValue ctx value).isSome then [heaptid] else []
  | .vacuum _ _ => []

def ivfflatSystem (V D : Type) [LinearOrder D] :
    System (ivfflatSignature V) (Monitored V) (Task V D) where
  handler _ := monitoredHandler
  program := Task.program
  starts _ := True
  beside t t' := ¬(t.isVacuum = true ∧ t'.isVacuum = true)
  beside_symm := fun h h' => h ⟨h'.2, h'.1⟩
  may _ _ _ := True
  aborts _ := True
  finish _ t s := { s with
    history := { s.history with completed := s.history.completed ++ t.tids } }
  abort _ t s := { s with
    history := { s.history with abandoned := s.history.abandoned ++ t.tids } }

end System

/-! ## The argument -/

/-- A state with the chains of its lists and what the backends at work have placed. -/
structure Tracked (V : Type) where
  state : Monitored V
  chains : ListInfo → List BlockNumber
  pending : Multiset (Nat × ItemPointer)
  /-- Placed by inserts that were given up. -/
  extra : Multiset ItemPointer

def Tracked.pendingOf {V : Type} (x : Tracked V) (i : Nat) : Multiset (Nat × ItemPointer) :=
  x.pending.filter fun entry => entry.1 = i

structure Tracked.Invariant {V : Type} (built : Multiset ItemPointer) (x : Tracked V) :
    Prop where
  wellFormed : WellFormed x.state.index x.chains
  stored : x.state.index.entryTids + (x.state.history.removed : Multiset ItemPointer) =
    built + (x.state.history.placed : Multiset ItemPointer)
  placed : (x.state.history.placed : Multiset ItemPointer) =
    x.state.history.completed + x.extra + x.pending.map Prod.snd
  extra : x.extra ≤ (x.state.history.abandoned : Multiset ItemPointer)

structure Rely {V : Type} (i : Nat) (x y : Tracked V) : Prop where
  chains : Extends x.chains y.chains
  pending : y.pendingOf i = x.pendingOf i

section Argument

variable {V D : Type} [LinearOrder D]

def chainsArgument (V D : Type) [LinearOrder D] (built : Multiset ItemPointer) :
    (ivfflatSystem V D).Argument (Tracked V) where
  shared := Tracked.state
  inv := Tracked.Invariant built
  rely i _ := Rely i
  allowed _ := True
  resting i x := x.pendingOf i = 0
  during i t x := x.pendingOf i ≤ (t.tids.map (Prod.mk i) : List (Nat × ItemPointer))
  post i t x := x.pendingOf i = (t.tids.map (Prod.mk i) : List (Nat × ItemPointer))
  rely_refl _ _ x := ⟨.refl x.chains, rfl⟩
  rely_trans _ _ _ _ _ h h' := ⟨h.chains.trans h'.chains, h'.pending.trans h.pending⟩
  during_rely _ _ _ _ h hx := h.pending ▸ hx

abbrev backend (built : Multiset ItemPointer) (i : Nat) (t : Task V D) :=
  (chainsArgument V D built).discipline i t

variable {built : Multiset ItemPointer} {i : Nat} {t : Task V D} {x y : Tracked V}

variable {z : Tracked V} {info : ListInfo} {blkno : BlockNumber} {itup : IndexTuple V}
  (ctx : IvfflatContext V D) (callback : ItemPointer → Bool)

theorem unnoticed_of (hchains : Extends y.chains z.chains)
    (hpending : ∀ j, j ≠ i → z.pendingOf j = y.pendingOf j) :
    (chainsArgument V D built).Unnoticed i t y z := by
  constructor
  · intro j t' hj _
    exact ⟨hchains, hpending j hj⟩
  · intro j hj hrest
    exact (hpending j hj).trans hrest

theorem guar_of (hchains : Extends y.chains z.chains) (hpending : z.pending = y.pending) :
    (backend built i t).guar y z := by
  have hsame : ∀ j, z.pendingOf j = y.pendingOf j := by
    intro j
    rw [Tracked.pendingOf, hpending, Tracked.pendingOf]
  refine ⟨unnoticed_of hchains fun j _ => hsame j, ?_⟩
  intro hy
  change z.pendingOf i ≤ _
  rw [hsame i]
  exact hy

theorem backend_exec {o : IvfflatOp V} {s : Monitored V} {r : o.Res}
    (h : (backend built i t).handler o ((backend built i t).shared y) = some (r, s)) :
    ∃ index, ivfflatHandler o y.state.index = some (r, index) ∧
      s = ⟨index, y.state.history.note o r⟩ := by
  obtain ⟨⟨r', index⟩, hexec, heq⟩ := Option.map_eq_some_iff.mp h
  cases heq
  exact ⟨index, hexec, rfl⟩

theorem read_keeps {o : IvfflatOp V} {Q : o.Res → Tracked V → Prop}
    (hread : ∀ index r index', ivfflatHandler o index = some (r, index') →
      index' = index ∧ ∀ h : History, h.note o r = h)
    (hQ : ∀ y, Rely i x y → y.Invariant built → ∀ r,
      ivfflatHandler o y.state.index = some (r, y.state.index) →
      ∀ z, Rely i y z → Q r z) :
    (IvfflatOp.exec o).Keeps (backend built i t) Q x := by
  apply Program.Keeps.exec
  intro y hxy hy _ r s hexec
  obtain ⟨index, hindex, rfl⟩ := backend_exec hexec
  obtain ⟨rfl, hnote⟩ := hread _ _ _ hindex
  refine ⟨y, ?_, hy, guar_of (.refl y.chains) rfl, ⟨.refl y.chains, rfl⟩, ?_⟩
  · change y.state = ⟨y.state.index, y.state.history.note o r⟩
    rw [hnote]
  · intro z hyz _
    exact hQ y hxy hy r hindex z hyz

theorem ivfflatGetMetaPageInfo_keeps :
    (ivfflatGetMetaPageInfo (V := V)).Keeps (backend built i t) (fun _ _ => True) x := by
  apply Program.Keeps.bind (P := fun _ _ => True)
  · apply read_keeps
    · intro index r index' h
      cases h
      exact ⟨rfl, fun _ => rfl⟩
    · exact fun _ _ _ _ _ _ _ => trivial
  · intro metap y _ _ _
    split
    · exact .fail fun _ => trivial
    · exact .ret fun _ _ _ => trivial

theorem readListPage_keeps (blkno : BlockNumber) :
    (IvfflatOp.exec (.readListPage blkno)).Keeps (backend built i t)
      (fun r z => ∀ page, r = some page → ∀ item offno, page.item? offno = some item →
        (∀ b, item.tuple.startPage = some b → b ∈ z.chains ⟨blkno, offno⟩) ∧
        ∀ b, item.tuple.insertPage = some b → b ∈ z.chains ⟨blkno, offno⟩) x := by
  apply read_keeps
  · intro index r index' h
    cases h
    exact ⟨rfl, fun _ => rfl⟩
  · intro y _ hy r hr z hyz page hpage item offno hitem
    obtain rfl : y.state.index.listPage? blkno = r := by
      have hr' := Option.some.inj hr
      exact (Prod.mk.inj hr').1
    have hlist : y.state.index.list? ⟨blkno, offno⟩ = some item.tuple := by
      simp [IvfflatIndex.list?, hpage, Page.tuple?, hitem]
    constructor
    · intro b hb
      exact hyz.chains _ b (hy.wellFormed.laid.start_mem hlist hb)
    · intro b hb
      exact hyz.chains _ b (hy.wellFormed.laid.insertPage _ _ hlist b hb)

/-! ## Inserts -/

/-- The page that `FindInsertPage` has chosen so far is on the chain of its list. -/
def InsertChoice.OnChain (choice : InsertChoice D) (z : Tracked V) : Prop :=
  ∀ b, choice.insertPage = some b → b ∈ z.chains choice.listInfo

omit [LinearOrder D] in
theorem InsertChoice.OnChain.rely {choice : InsertChoice D} (h : choice.OnChain y)
    (hyz : Rely i y z) : choice.OnChain z :=
  fun b hb => hyz.chains _ b (h b hb)

theorem findInsertPage_keeps (value : V) (fuel : Nat) (next : Option BlockNumber)
    {choice : InsertChoice D} (h : choice.OnChain x) :
    (findInsertPage ctx value fuel next choice).Keeps (backend built i t)
      (fun choice z => choice.OnChain z) x := by
  induction fuel generalizing next choice x with
  | zero =>
    cases next with
    | none => exact .ret fun y hxy _ => h.rely hxy
    | some blkno => exact .fail fun _ => trivial
  | succ fuel ih =>
    cases next with
    | none => exact .ret fun y hxy _ => h.rely hxy
    | some blkno =>
      apply Program.Keeps.bind (readListPage_keeps blkno)
      intro reply y hxy _ hreply
      cases reply with
      | none => exact .fail fun _ => trivial
      | some page =>
        apply ih
        exact considerPage_induct
          (P := fun info insertPage => ∀ b, insertPage = some b → b ∈ y.chains info)
          (h.rely hxy) fun item offno hitem => (hreply page rfl item offno hitem).2

theorem WellFormed.insertTurn {index index' : IvfflatIndex V}
    {chains : ListInfo → List BlockNumber} (h : WellFormed index chains)
    (hmem : blkno ∈ chains info) {page : Page (IndexTuple V)}
    (hpage : index.page? blkno = some (.entries page)) {itemsz : Nat} {reply : PlaceReply}
    (hturn : InsertTurn index blkno page itup itemsz reply index') :
    ∃ chains', WellFormed index' chains' ∧ Extends chains chains' ∧
      (∀ b, reply = .placed b ∨ reply = .next b → b ∈ chains' info) ∧
      index'.entryTids = index.entryTids + reply.stored itup.tid := by
  obtain ⟨chains', hlaid, hcovers, hext, hkeeps, hon, htids⟩ :=
    h.laid.insertTurn h.covers hmem hpage hturn
  exact ⟨chains', h.of_keepsLists hkeeps hlaid hcovers, hext, hon, htids⟩

theorem pendingOf_cons_self {tid : ItemPointer} (h : z.pending = (i, tid) ::ₘ y.pending) :
    z.pendingOf i = (i, tid) ::ₘ y.pendingOf i := by
  simp [Tracked.pendingOf, h]

theorem pendingOf_cons_of_ne {tid : ItemPointer} (h : z.pending = (i, tid) ::ₘ y.pending)
    {j : Nat} (hj : j ≠ i) : z.pendingOf j = y.pendingOf j := by
  simp [Tracked.pendingOf, h, Ne.symm hj]

theorem insertLoop_safe (itemsz fuel : Nat) (ht : t.tids = [itup.tid])
    (hmem : blkno ∈ x.chains info) (hnone : x.pendingOf i = 0) :
    (insertLoop itup itemsz fuel blkno).Safe (backend built i t)
      (fun p z => p ∈ z.chains info ∧ z.pendingOf i = {(i, itup.tid)}) x := by
  induction fuel generalizing blkno x with
  | zero => exact fun _ _ _ => trivial
  | succ fuel ih =>
    intro y hxy hy _ reply s hexec
    obtain ⟨index, hindex, rfl⟩ := backend_exec hexec
    have hmemY := hxy.chains info blkno hmem
    have hnoneY : y.pendingOf i = 0 := hxy.pending.trans hnone
    obtain ⟨link, hlink⟩ := hy.wellFormed.laid.linked.exists_next hmemY
    obtain ⟨page, hpage, -⟩ := IvfflatIndex.entryNext_eq_some.mp hlink
    have hturn := insertOnPage_turn hpage itup itemsz
    have hpair : insertOnPage y.state.index blkno itup itemsz = (reply, index) :=
      Option.some.inj hindex
    rw [hpair] at hturn
    obtain ⟨chains, hformed, hext, hon, htids⟩ :=
      hy.wellFormed.insertTurn hmemY hpage hturn
    -- a turn that places nothing
    have hquiet : reply.stored itup.tid = 0 →
        y.state.history.note (.insertOnPage blkno itup itemsz) reply = y.state.history →
        Tracked.Invariant built ⟨⟨index, y.state.history.note
          (.insertOnPage blkno itup itemsz) reply⟩, chains, y.pending, y.extra⟩ := by
      intro hstored hnote
      rw [hnote]
      refine ⟨hformed, ?_, hy.placed, hy.extra⟩
      rw [htids, hstored, add_zero]
      exact hy.stored
    cases reply with
    | placed p =>
      refine ⟨⟨_, chains, (i, itup.tid) ::ₘ y.pending, y.extra⟩, rfl,
        ⟨hformed, ?_, ?_, hy.extra⟩,
        ⟨unnoticed_of hext fun j hj => pendingOf_cons_of_ne rfl hj, ?_⟩, ?_⟩
      · change index.entryTids + (y.state.history.removed : Multiset ItemPointer) =
          built + ((y.state.history.placed ++ [itup.tid] : List ItemPointer) : Multiset ItemPointer)
        rw [htids, add_right_comm, hy.stored, ← Multiset.coe_add, add_assoc]
        rfl
      · change ((y.state.history.placed ++ [itup.tid] : List ItemPointer) :
          Multiset ItemPointer) = y.state.history.completed + y.extra +
            ((i, itup.tid) ::ₘ y.pending).map Prod.snd
        rw [← Multiset.coe_add, hy.placed, Multiset.map_cons, Multiset.add_cons,
          ← Multiset.singleton_add, add_comm]
        rfl
      · intro _
        change Tracked.pendingOf _ i ≤ _
        rw [pendingOf_cons_self (y := y) rfl, hnoneY, ht]
        exact le_rfl
      · intro z hz _
        refine ⟨hz.chains info p (hon p (.inl rfl)), hz.pending.trans ?_⟩
        rw [pendingOf_cons_self (y := y) rfl, hnoneY]
        rfl
    | next p =>
      exact ⟨_, rfl, hquiet rfl rfl, guar_of hext rfl, ih (hon p (.inr rfl)) hnoneY⟩
    | failed => exact ⟨_, rfl, hquiet rfl rfl, guar_of hext rfl, fun _ _ _ => trivial⟩
    | missing => exact ⟨_, rfl, hquiet rfl rfl, guar_of hext rfl, fun _ _ _ => trivial⟩

theorem updateList_keeps (hmem : blkno ∈ x.chains info) (originalInsertPage : Option BlockNumber) :
    (updateList (V := V) info (some blkno) originalInsertPage none).Keeps
      (backend built i t) (fun _ _ => True) x := by
  apply Program.Keeps.bind (P := fun _ _ => True)
  · apply Program.Keeps.exec
    intro y hxy hy _ r s hexec
    obtain ⟨index, hindex, rfl⟩ := backend_exec hexec
    have hmemY := hxy.chains info blkno hmem
    obtain ⟨list, hlist⟩ := hy.wellFormed.laid.exists_list hmemY
    obtain ⟨index', hupdate, hlinks, htids, hnext, hmeta, hlist'⟩ :=
      ivfflatUpdateList_eq_some hlist (some blkno) originalInsertPage none
    have hpair : ivfflatHandler (.updateList info (some blkno) originalInsertPage none)
        y.state.index = some (true, index') := by
      simp only [ivfflatHandler, hupdate]
    obtain ⟨rfl, rfl⟩ := Prod.mk.inj (Option.some.inj (hpair.symm.trans hindex))
    -- the insert page is the new one or the old one
    have hpages : ∀ b, (list.update (some blkno) originalInsertPage none).insertPage =
        some b → b = blkno ∨ list.insertPage = some b := by
      intro b hb
      simp only [IvfflatList.update] at hb
      split at hb
      · exact .inl (Option.some.inj hb).symm
      · exact .inr hb
    have hstart : (list.update (some blkno) originalInsertPage none).startPage =
        list.startPage := by
      simp only [IvfflatList.update]
      split <;> rfl
    have hlaid : Laid index' y.chains := by
      apply hy.wellFormed.laid.updateList hlist hstart _ hlinks hlist'
      intro b hb
      rcases hpages b hb with rfl | hold
      · exact hmemY
      · exact hy.wellFormed.laid.insertPage info list hlist b hold
    have hready : ∀ info' list', index'.list? info' = some list' →
        ∃ b, list'.insertPage = some b := by
      intro info' list' hl
      rw [hlist'] at hl
      by_cases hinfo : info' = info
      · subst hinfo
        rw [Function.update_self] at hl
        cases hl
        simp only [IvfflatList.update]
        split
        · exact ⟨blkno, rfl⟩
        · exact hy.wellFormed.ready info' list hlist
      · rw [Function.update_of_ne hinfo] at hl
        exact hy.wellFormed.ready info' list' hl
    refine ⟨⟨_, y.chains, y.pending, y.extra⟩, rfl, ⟨⟨hlaid, ?_, hready, ?_, ?_, ?_, ?_⟩,
      ?_, hy.placed, hy.extra⟩, guar_of (.refl y.chains) rfl,
      ⟨.refl y.chains, rfl⟩, fun _ _ _ => trivial⟩
    · intro b link hb
      rw [hlinks] at hb
      exact hy.wellFormed.covers b link hb
    · obtain ⟨blocks, hblocks⟩ := hy.wellFormed.lists
      exact ⟨blocks, hblocks.congr hnext⟩
    · obtain ⟨infos, hnodup, hcount, hmem⟩ := hy.wellFormed.listCount
      refine ⟨infos, hnodup, by rw [hmeta, hcount], ?_⟩
      intro info'
      rw [hmem, hlist']
      by_cases hinfo : info' = info
      · simp [hinfo, hlist]
      · simp [Function.update_of_ne hinfo]
    · rw [hmeta]
      exact hy.wellFormed.lists_pos
    · rw [hmeta]
      exact hy.wellFormed.magicNumber
    · change index'.entryTids + _ = _
      rw [htids]
      exact hy.stored
  · intro found y _ _ _
    split
    · exact .ret fun _ _ _ => trivial
    · exact .fail fun _ => trivial

theorem insertFrom_safe (ht : t.tids = [itup.tid]) (hmem : blkno ∈ x.chains info)
    (hnone : x.pendingOf i = 0) :
    (insertFrom ctx itup info blkno).Safe (backend built i t)
      (fun _ => (chainsArgument V D built).post i t) x := by
  apply Program.Safe.seq (insertLoop_safe _ _ ht hmem hnone)
  intro p y hy hp
  have hpost : (chainsArgument V D built).post i t y := by
    change y.pendingOf i = _
    rw [hp.2, ht]
    rfl
  split
  · apply Program.Safe.mono (updateList_keeps hp.1 (some blkno))
    intro _ z _ hz
    exact hz.1.pending.trans hpost
  · intro z hyz _
    exact hyz.pending.trans hpost

theorem ivfflatinsert_safe (value : Option V) (heaptid : ItemPointer) (hnone : x.pendingOf i = 0) :
    (ivfflatinsert ctx value heaptid).Safe (backend built i (.insert ctx value heaptid))
      (fun _ => (chainsArgument V D built).post i (.insert ctx value heaptid)) x := by
  unfold ivfflatinsert
  split
  · next hform =>
    intro y hxy _
    change y.pendingOf i = _
    rw [hxy.pending, hnone]
    simp [Task.tids, hform]
  · next v hform =>
    have ht : (Task.insert ctx value heaptid).tids = [heaptid] := by
      simp [Task.tids, hform]
    apply Program.Keeps.seq ivfflatGetMetaPageInfo_keeps
    intro _ y hxy _ _
    have hstart : (InsertChoice.start ctx).OnChain y := by
      intro b hb
      cases hb
    apply Program.Keeps.seq (findInsertPage_keeps ctx v ctx.fuel _ hstart)
    intro choice z hyz _ hchoice
    split
    · exact fun _ _ _ => trivial
    · next p hp =>
      exact insertFrom_safe ctx ht (hchoice p hp) (hyz.pending.trans (hxy.pending.trans hnone))

/-! ## Vacuum -/

theorem bulkDelete_keeps (hmem : blkno ∈ x.chains info) (callback : ItemPointer → Bool) :
    (IvfflatOp.exec (.bulkDelete blkno callback)).Keeps (backend built i t)
      (fun r z => ∀ reply, r = some reply → blkno ∈ z.chains info ∧
        ∀ b, reply.nextblkno = some b → b ∈ z.chains info) x := by
  apply Program.Keeps.exec
  intro y hxy hy _ r s hexec
  obtain ⟨index, hindex, rfl⟩ := backend_exec hexec
  have hmemY := hxy.chains info blkno hmem
  rcases hdelete : bulkDeleteOnPage y.state.index blkno callback with _ | ⟨reply, index'⟩
  · have hpair : ivfflatHandler (.bulkDelete blkno callback) y.state.index =
        some (none, y.state.index) := by
      simp only [ivfflatHandler, hdelete]
    obtain ⟨rfl, rfl⟩ := Prod.mk.inj (Option.some.inj (hpair.symm.trans hindex))
    exact ⟨y, rfl, hy, guar_of (.refl y.chains) rfl, ⟨.refl y.chains, rfl⟩, by simp⟩
  · have hpair : ivfflatHandler (.bulkDelete blkno callback) y.state.index =
        some (some reply, index') := by
      simp only [ivfflatHandler, hdelete]
    obtain ⟨rfl, rfl⟩ := Prod.mk.inj (Option.some.inj (hpair.symm.trans hindex))
    obtain ⟨page, hpage, hnext, hlinks, hkeeps, htids, -⟩ := bulkDeleteOnPage_eq_some hdelete
    have hcovers : Covers index' y.chains := by
      intro b link hb
      rw [hlinks] at hb
      exact hy.wellFormed.covers b link hb
    have hformed : WellFormed index' y.chains :=
      hy.wellFormed.of_keepsLists hkeeps (hy.wellFormed.laid.congr hlinks hkeeps.list) hcovers
    refine ⟨⟨_, y.chains, y.pending, y.extra⟩, rfl, ⟨hformed, ?_, hy.placed, hy.extra⟩,
      guar_of (.refl y.chains) rfl, ⟨.refl y.chains, rfl⟩, ?_⟩
    · change index'.entryTids + ((y.state.history.removed ++ reply.removed :
        List ItemPointer) : Multiset ItemPointer) = _
      rw [← Multiset.coe_add, add_comm (y.state.history.removed : Multiset ItemPointer),
        ← add_assoc, htids]
      exact hy.stored
    · intro z hz _ reply' hreply
      cases hreply
      refine ⟨hz.chains info blkno hmemY, fun b hb => hz.chains info b ?_⟩
      rw [hnext] at hb
      exact hy.wellFormed.laid.linked.next_mem hmemY
        (IvfflatIndex.entryNext_eq_some.mpr ⟨page, hpage, hb⟩)

theorem vacuumEntries_keeps (fuel : Nat) {searchPage insertPage : Option BlockNumber}
    (hsearch : ∀ b, searchPage = some b → b ∈ x.chains info)
    (hinsert : ∀ b, insertPage = some b → b ∈ x.chains info) :
    (vacuumEntries (V := V) callback fuel searchPage insertPage).Keeps (backend built i t)
      (fun r z => ∀ b, r = some b → b ∈ z.chains info) x := by
  induction fuel generalizing searchPage insertPage x with
  | zero =>
    cases searchPage with
    | none => exact .ret fun y hxy _ b hb => hxy.chains info b (hinsert b hb)
    | some blkno => exact .fail fun _ => trivial
  | succ fuel ih =>
    cases searchPage with
    | none => exact .ret fun y hxy _ b hb => hxy.chains info b (hinsert b hb)
    | some blkno =>
      apply Program.Keeps.bind (bulkDelete_keeps (hsearch blkno rfl) callback)
      intro r y hxy _ hr
      cases r with
      | none => exact .fail fun _ => trivial
      | some reply =>
        obtain ⟨hmem, hnext⟩ := hr reply rfl
        apply ih hnext
        intro b hb
        split at hb
        · cases hb
          exact hmem
        · exact hxy.chains info b (hinsert b hb)

theorem vacuumLists_keeps (fuel : Nat) {lists : List (Option BlockNumber × OffsetNumber)}
    (hlists : ∀ start offno, (start, offno) ∈ lists →
      ∀ b, start = some b → b ∈ x.chains ⟨blkno, offno⟩) :
    (vacuumLists (V := V) callback fuel blkno lists).Keeps (backend built i t)
      (fun _ _ => True) x := by
  induction lists generalizing x with
  | nil => exact .ret fun _ _ _ => trivial
  | cons list lists ih =>
    obtain ⟨start, offno⟩ := list
    apply Program.Keeps.bind (vacuumEntries_keeps callback fuel
      (hlists start offno (by simp)) (by simp))
    intro insertPage y hxy _ hinsert
    have hrest : ∀ z, Rely i y z →
        (vacuumLists (V := V) callback fuel blkno lists).Keeps (backend built i t)
          (fun _ _ => True) z := by
      intro z hyz
      apply ih
      intro start' offno' hmem b hb
      exact hyz.chains _ b (hxy.chains _ b (hlists start' offno' (.tail _ hmem) b hb))
    cases insertPage with
    | none => exact hrest y ⟨.refl y.chains, rfl⟩
    | some p =>
      exact .bind (updateList_keeps (hinsert p rfl) none) fun _ z hyz _ _ => hrest z hyz

theorem vacuumListPages_keeps (entryFuel fuel : Nat) (next : Option BlockNumber) :
    (vacuumListPages (V := V) callback entryFuel fuel next).Keeps (backend built i t)
      (fun _ _ => True) x := by
  induction fuel generalizing next x with
  | zero =>
    cases next with
    | none => exact .ret fun _ _ _ => trivial
    | some blkno => exact .fail fun _ => trivial
  | succ fuel ih =>
    cases next with
    | none => exact .ret fun _ _ _ => trivial
    | some blkno =>
      apply Program.Keeps.bind (readListPage_keeps blkno)
      intro r y _ _ hr
      cases r with
      | none => exact .fail fun _ => trivial
      | some page =>
        refine .bind (vacuumLists_keeps callback entryFuel ?_) fun _ _ _ _ _ => ih page.nextblkno
        intro start offno hmem b hb
        obtain ⟨⟨item, offno'⟩, hitem, heq⟩ := List.mem_map.mp hmem
        obtain ⟨rfl, rfl⟩ := Prod.mk.inj heq
        exact (hr page rfl item offno' (mem_zipIdx_iff_item?.mp hitem)).1 b hb

/-! ## All backends together -/

theorem pendingOf_filter (h : z.pending = y.pending.filter fun entry => ¬entry.1 = i) (j : Nat) :
    z.pendingOf j = if j = i then 0 else y.pendingOf j := by
  rw [Tracked.pendingOf, h, Multiset.filter_filter]
  split
  · next hj =>
    subst hj
    simp
  · next hj =>
    refine Multiset.filter_congr fun entry _ => ?_
    constructor
    · exact And.left
    · exact fun heq => ⟨heq, heq ▸ hj⟩

theorem map_pending (y : Tracked V) (i : Nat) :
    y.pending.map Prod.snd = (y.pendingOf i).map Prod.snd +
      (y.pending.filter fun entry => ¬entry.1 = i).map Prod.snd := by
  rw [Tracked.pendingOf, ← Multiset.map_add, Multiset.filter_add_not]

theorem chainsArgument_sound (built : Multiset ItemPointer) :
    (chainsArgument V D built).Sound where
  start := by
    intro i t x _ _ hrest
    change x.pendingOf i ≤ _
    rw [show x.pendingOf i = 0 from hrest]
    exact Multiset.zero_le _
  program := by
    intro i t x _ _ hrest
    cases t with
    | insert ctx value heaptid => exact ivfflatinsert_safe ctx value heaptid hrest
    | vacuum ctx callback =>
      apply Program.Safe.mono (vacuumListPages_keeps callback ctx.fuel ctx.fuel _)
      intro _ y _ hy
      exact hy.1.pending.trans hrest
  finish := by
    intro i t x hx hpost
    have hpost : x.pendingOf i = (t.tids.map (Prod.mk i) : List (Nat × ItemPointer)) := hpost
    refine ⟨⟨_, x.chains, x.pending.filter fun entry => ¬entry.1 = i, x.extra⟩, rfl,
      ⟨hx.wellFormed, hx.stored, ?_, hx.extra⟩, ?_, unnoticed_of (.refl x.chains) ?_⟩
    · change (x.state.history.placed : Multiset ItemPointer) =
        ((x.state.history.completed ++ t.tids : List ItemPointer) : Multiset ItemPointer) +
          x.extra + (x.pending.filter fun entry => ¬entry.1 = i).map Prod.snd
      rw [hx.placed, map_pending x i, hpost, ← Multiset.coe_add, Multiset.map_coe, List.map_map]
      have htids : t.tids.map (Prod.snd ∘ Prod.mk i) = t.tids := by simp
      rw [htids]
      abel
    · exact (pendingOf_filter rfl i).trans (if_pos rfl)
    · intro j hj
      exact (pendingOf_filter rfl j).trans (if_neg hj)
  abort := by
    intro i t x _ hx hduring
    have hduring : x.pendingOf i ≤ (t.tids.map (Prod.mk i) : List (Nat × ItemPointer)) :=
      hduring
    refine ⟨⟨_, x.chains, x.pending.filter fun entry => ¬entry.1 = i,
      x.extra + (x.pendingOf i).map Prod.snd⟩, rfl,
      ⟨hx.wellFormed, hx.stored, ?_, ?_⟩, ?_, unnoticed_of (.refl x.chains) ?_⟩
    · change (x.state.history.placed : Multiset ItemPointer) =
        x.state.history.completed + (x.extra + (x.pendingOf i).map Prod.snd) +
          (x.pending.filter fun entry => ¬entry.1 = i).map Prod.snd
      rw [hx.placed, map_pending x i]
      abel
    · change x.extra + (x.pendingOf i).map Prod.snd ≤
        ((x.state.history.abandoned ++ t.tids : List ItemPointer) : Multiset ItemPointer)
      have htids := Multiset.map_le_map (f := Prod.snd) hduring
      rw [Multiset.map_coe, List.map_map] at htids
      rw [← Multiset.coe_add]
      exact add_le_add hx.extra (by simpa using htids)
    · exact (pendingOf_filter rfl i).trans (if_pos rfl)
    · intro j hj
      exact (pendingOf_filter rfl j).trans (if_neg hj)

structure ChainsHold (built : Multiset ItemPointer) (s : Monitored V)
    (chains : ListInfo → List BlockNumber) : Prop where
  chain : ∀ info list, s.index.list? info = some list →
    Chain s.index.entryNext list.startPage (chains info)
  increasing : ∀ info, (chains info).Pairwise (· < ·)
  disjoint : ∀ info info', info ≠ info' → List.Disjoint (chains info) (chains info')
  insertPage : ∀ info list, s.index.list? info = some list →
    ∃ blkno ∈ chains info, list.insertPage = some blkno
  stored : s.index.chainTids chains + (s.history.removed : Multiset ItemPointer) =
    built + (s.history.placed : Multiset ItemPointer)

theorem Tracked.Invariant.chainsHold (hx : x.Invariant built) :
    ChainsHold built x.state x.chains where
  chain := by
    intro info list hlist
    apply hx.wellFormed.laid.linked.chain
    simp [IvfflatIndex.root, hlist]
  increasing := hx.wellFormed.laid.linked.sorted
  disjoint := hx.wellFormed.laid.linked.disjoint
  insertPage := by
    intro info list hlist
    obtain ⟨blkno, hblkno⟩ := hx.wellFormed.ready info list hlist
    exact ⟨blkno, hx.wellFormed.laid.insertPage info list hlist blkno hblkno, hblkno⟩
  stored := by
    rw [hx.wellFormed.chainTids_eq]
    exact hx.stored

theorem Built.reaches {ctx : IvfflatContext V D} {rows : List (Option V × ItemPointer)}
    {index : IvfflatIndex V} (hbuilt : Built ctx rows index)
    {pool : Pool (ivfflatSignature V) (Monitored V) (Task V D)}
    (hreach : (ivfflatSystem V D).Reaches (Pool.idle ⟨index, History.start⟩) pool) :
    ∃ x, (chainsArgument V D (indexedTids ctx rows)).Holds pool x := by
  obtain ⟨chains, hformed, htids⟩ := hbuilt.wellFormed
  let start : Tracked V := ⟨⟨index, History.start⟩, chains, 0, 0⟩
  have hstart : start.Invariant (indexedTids ctx rows) := by
    refine ⟨hformed, ?_, rfl, le_rfl⟩
    change index.entryTids + 0 = _ + 0
    rw [htids]
  have hidle := System.Argument.holds_idle (A := chainsArgument V D (indexedTids ctx rows))
    hstart fun i => Multiset.filter_zero _
  exact (chainsArgument_sound _).reaches hidle hreach

end Argument

/-! ## A run -/

section Sample

def sampleContext : IvfflatContext Nat Nat where
  distance a b := (a - b) + (b - a)
  dblMax := 100
  zeroDistance := 0
  checkNorm v := v != 0
  normValue v := v
  itemSize _ := 4000
  fuel := 8

/-- Two lists on block 1; the first has a full page, block 2, the second a page, block 3. -/
def sampleIndex : IvfflatIndex Nat where
  metapage := ⟨ivfflatMagicNumber, 1, 2⟩
  pages :=
    [.lists ⟨[⟨40, ⟨some 2, some 2, 10⟩⟩, ⟨40, ⟨some 3, some 3, 20⟩⟩], none⟩,
     .entries ⟨[⟨4000, ⟨⟨0, 1⟩, 11⟩⟩, ⟨4000, ⟨⟨0, 2⟩, 9⟩⟩], none⟩,
     .entries ⟨[⟨4000, ⟨⟨0, 4⟩, 21⟩⟩], none⟩]

def sampleRows : List (Option Nat × ItemPointer) :=
  [(some 11, ⟨0, 1⟩), (some 9, ⟨0, 2⟩), (some 0, ⟨0, 3⟩), (some 21, ⟨0, 4⟩)]

theorem sampleIndex_built : Built sampleContext sampleRows sampleIndex :=
  ⟨1, 40, [10, 20], addTuplesToSort sampleContext [10, 20] sampleRows, by simp,
    List.Perm.refl _, by decide, by decide⟩

def sampleInserted : Monitored Nat where
  index :=
    { sampleIndex with
      pages :=
        [.lists ⟨[⟨40, ⟨some 2, some 4, 10⟩⟩, ⟨40, ⟨some 3, some 3, 20⟩⟩], none⟩,
         .entries ⟨[⟨4000, ⟨⟨0, 1⟩, 11⟩⟩, ⟨4000, ⟨⟨0, 2⟩, 9⟩⟩], some 4⟩,
         .entries ⟨[⟨4000, ⟨⟨0, 4⟩, 21⟩⟩], none⟩,
         .entries ⟨[⟨4000, ⟨⟨0, 5⟩, 12⟩⟩], none⟩] }
  history := ⟨[⟨0, 5⟩], [⟨0, 5⟩], [], []⟩

def sampleAfter : Monitored Nat where
  index :=
    { sampleIndex with
      pages :=
        [.lists ⟨[⟨40, ⟨some 2, some 2, 10⟩⟩, ⟨40, ⟨some 3, some 3, 20⟩⟩], none⟩,
         .entries ⟨[⟨4000, ⟨⟨0, 1⟩, 11⟩⟩], some 4⟩,
         .entries ⟨[⟨4000, ⟨⟨0, 4⟩, 21⟩⟩], none⟩,
         .entries ⟨[⟨4000, ⟨⟨0, 5⟩, 12⟩⟩], none⟩] }
  history := ⟨[⟨0, 5⟩], [⟨0, 5⟩], [], [⟨0, 2⟩]⟩

theorem sampleAfter_reached :
    (ivfflatSystem Nat Nat).Reaches (Pool.idle ⟨sampleIndex, History.start⟩)
      (Pool.idle sampleAfter) := by
  have hinsert : (ivfflatSystem Nat Nat).Reaches (Pool.idle ⟨sampleIndex, History.start⟩)
      (Pool.idle sampleInserted) :=
    System.reaches_alone (fun _ _ _ => trivial) 0 (Task.insert sampleContext (some 12) ⟨0, 5⟩)
      { sampleInserted with history := ⟨[⟨0, 5⟩], [], [], []⟩ } trivial rfl rfl
  have hvacuum : (ivfflatSystem Nat Nat).Reaches (Pool.idle sampleInserted)
      (Pool.idle sampleAfter) :=
    System.reaches_alone (fun _ _ _ => trivial) 0
      (Task.vacuum sampleContext fun tid => tid == ⟨0, 2⟩) sampleAfter trivial rfl rfl
  exact hinsert.trans hvacuum

end Sample

end PgVector.Ivfflat
