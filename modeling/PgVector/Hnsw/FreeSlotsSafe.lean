import PgVector.Hnsw.Concurrent
import PgVector.Hnsw.FreeSlots
import PgVector.Hnsw.InsertYields

/-!
# The insert page

The insert page is never after a deleted element.  An insert frees no slot and leaves an
insert page that is the first page with room, or with a deleted element, that it has seen.
A vacuum frees slots on any page and moves the insert page back to the first of them at
its end, so that nothing may run beside it in between.
-/

namespace PgVector.Hnsw

open Foundation

variable {V D F : Type}

/-! ## What instructions do to pages and slots -/

section Steps

variable {self : ThreadId} {o : HnswOp V} {r : o.Res} {s s' : Shared V}

theorem hnswHandler_keepsPages (hexec : hnswHandler self o s = some (r, s')) :
    (∃ update entry insertPage, o = .updateMetaPage update entry insertPage) ∨
      KeepsPages s.index s'.index := by
  cases o with
  | updateMetaPage update entry insertPage => exact .inl ⟨update, entry, insertPage, rfl⟩
  | addElement request blkno newInsertPage =>
    cases hexec
    rcases addElementOnPage_cases s.index request blkno newInsertPage with
      ⟨hsame, -⟩ | ⟨-, hkeeps⟩
    · rw [Shared.withIndex_index, hsame]
      exact .inr (.refl _)
    · exact .inr hkeeps
  | updateNeighbor ntid tid idx startIdx lm checkExisting =>
    cases hexec
    exact .inr (.modifyTuple _ _ _)
  | overwriteNeighbor ntid ntup ntupSize =>
    rcases hnswHandler_overwriteNeighbor hexec with ⟨rfl, -⟩ | ⟨index', hwrite, rfl⟩
    · exact .inr (.refl _)
    · exact .inr (item?_overwriteNeighborOnPage hwrite).2
  | addDuplicate tid heaptid =>
    simp only [hnswHandler] at hexec
    split at hexec
    · cases hexec
      exact .inr (.refl _)
    · next added index' hadd =>
      cases hexec
      rcases addDuplicateOnPage_eq_some hadd with
        ⟨-, rfl⟩ | ⟨_, _, _, -, -, -, -, hkeeps⟩
      · exact .inr (.refl _)
      · exact .inr hkeeps
  | removeHeapTids blkno callback =>
    simp only [hnswHandler] at hexec
    split at hexec
    · cases hexec
      exact .inr (.refl _)
    · next reply index' hremove =>
      cases hexec
      exact .inr (removeHeapTidsOnPage_eq_some hremove).2.1
  | markDeleted tid =>
    cases hexec
    rcases markDeletedAt_cases s.index tid with hsame | ⟨_, _, -, -, -, -, hkeeps⟩
    · rw [Shared.withIndex_index, hsame]
      exact .inr (.refl _)
    · exact .inr hkeeps
  | lockPage lock mode =>
    obtain ⟨-, rfl⟩ := hnswHandler_lockPage_eq_some hexec
    exact .inr (.refl _)
  | _ =>
    cases hexec
    exact .inr (.refl _)

theorem length_hnswHandler (hexec : hnswHandler self o s = some (r, s')) :
    s.index.pages.length ≤ s'.index.pages.length := by
  rcases hnswHandler_keepsPages hexec with ⟨update, entry, insertPage, rfl⟩ | hkeeps
  · cases hexec
    exact le_rfl
  · exact hkeeps.length

theorem insertPage_hnswHandler (ho : SparesInsertPage o)
    (hexec : hnswHandler self o s = some (r, s')) :
    s'.index.metapage.insertPage = s.index.metapage.insertPage := by
  rcases hnswHandler_keepsPages hexec with ⟨update, entry, insertPage, rfl⟩ | hkeeps
  · cases hexec
    cases insertPage with
    | some q => exact ho.elim
    | none =>
      obtain ⟨entry', -, heq⟩ :=
        hnswUpdateMetaPageInfo_eq s.index.metapage update entry none
      simp only [Shared.withIndex_index, heq, Option.none_or]
  · rw [hkeeps.metapage]

structure NoneFreed (index index' : HnswIndex V) : Prop where
  length : index.pages.length ≤ index'.pages.length
  deleted : index'.net.deleted ⊆ index.net.deleted

theorem NoneFreed.refl (index : HnswIndex V) : NoneFreed index index := ⟨le_rfl, subset_rfl⟩

variable {index : HnswIndex V}

theorem NoneFreed.trans {index₁ index₂ : HnswIndex V} (h : NoneFreed index index₁)
    (h' : NoneFreed index₁ index₂) : NoneFreed index index₂ :=
  ⟨h.length.trans h'.length, h'.deleted.trans h.deleted⟩

theorem HnswIndex.page?_isSome_mono {index' : HnswIndex V} {blkno : BlockNumber}
    (h : index.pages.length ≤ index'.pages.length) (hpage : (index.page? blkno).isSome) :
    (index'.page? blkno).isSome := by
  rw [HnswIndex.page?_isSome] at hpage ⊢
  exact ⟨hpage.1, hpage.2.trans h⟩

theorem HnswIndex.FirstFree.noneFreed {index' : HnswIndex V} {blkno : BlockNumber}
    (h : index.FirstFree blkno) (hnone : NoneFreed index index') : index'.FirstFree blkno where
  page := HnswIndex.page?_isSome_mono hnone.length h.page
  least := fun tid htid => h.least tid (hnone.deleted htid)

theorem noneFreed_hnswHandler (hwf : s.index.WellFormed) (hmark : ∀ tid, o ≠ .markDeleted tid)
    (hadd : ∀ request blkno newInsertPage, o = .addElement request blkno newInsertPage →
      request.etup.deleted = false)
    (hexec : hnswHandler self o s = some (r, s')) : NoneFreed s.index s'.index := by
  refine ⟨length_hnswHandler hexec, ?_⟩
  rintro tid ⟨etup', hetup', hdeleted⟩
  have hslot := hnswHandler_slot hwf hexec tid
  rw [hetup'] at hslot
  generalize hbefore : s.index.element? tid = before at hslot
  generalize hafter : some etup' = after at hslot
  cases hslot with
  | kept _ hkept =>
    obtain ⟨etup, hetup, hsame⟩ := hkept etup' hafter.symm
    exact ⟨etup, hbefore.trans hetup, hsame.deleted.symm.trans hdeleted⟩
  | marked => exact absurd rfl (hmark tid)
  | placed _ hnew =>
    cases hafter
    rw [hnew, hadd _ _ _ rfl] at hdeleted
    cases hdeleted

theorem markDeletedAt_skipped {t : ItemPointer} (h : (markDeletedAt index t).1 = .skipped) :
    (markDeletedAt index t).2 = index ∧ t ∉ index.net.deleted := by
  unfold markDeletedAt at h ⊢
  split at h
  · next hnone =>
    refine ⟨rfl, ?_⟩
    rintro ⟨etup, hetup, -⟩
    exact absurd (hnone.symm.trans hetup) (by simp)
  · next etup hsome =>
    split at h
    · cases h
    · next hlive =>
      split at h
      · next hfull =>
        simp only [hlive, hfull, if_true, Bool.false_eq_true, if_false, true_and]
        rintro ⟨etup', hetup', hdeleted⟩
        obtain rfl := Option.some.inj (hsome.symm.trans hetup')
        exact hlive hdeleted
      · split at h <;> cases h

theorem deleted_of_markDeleted {t : ItemPointer} {reply : MarkReply} (hwf : s.index.WellFormed)
    (hexec : hnswHandler self (.markDeleted t) s = some (reply, s')) {tid : ItemPointer}
    (htid : tid ∈ s'.index.net.deleted) :
    (tid ≠ t → tid ∈ s.index.net.deleted) ∧ (tid = t → reply ≠ .skipped) := by
  constructor
  · intro hne
    obtain ⟨etup', hetup', hdeleted⟩ := htid
    have hslot := hnswHandler_slot hwf hexec tid
    generalize hbefore : s.index.element? tid = before at hslot
    generalize hafter : s'.index.element? tid = after at hslot
    cases hslot with
    | kept _ hkept =>
      obtain ⟨etup, hetup, hsame⟩ := hkept etup' (hafter.symm.trans hetup')
      exact ⟨etup, hbefore.trans hetup, hsame.deleted.symm.trans hdeleted⟩
    | marked => exact absurd rfl hne
  · rintro rfl rfl
    obtain ⟨hreply, rfl⟩ := Prod.mk.inj (Option.some.inj hexec)
    obtain ⟨hsame, hnot⟩ := markDeletedAt_skipped hreply
    rw [Shared.withIndex_index, hsame] at htid
    exact hnot htid

theorem length_modifyTuple (index : HnswIndex V) (tid : ItemPointer)
    (f : IndexTuple V → IndexTuple V) :
    (index.modifyTuple tid f).pages.length = index.pages.length := by
  unfold HnswIndex.modifyTuple
  split <;> simp

theorem length_markDeleted {t : ItemPointer} {reply : MarkReply}
    (hexec : hnswHandler self (.markDeleted t) s = some (reply, s')) :
    s'.index.pages.length = s.index.pages.length := by
  obtain ⟨-, rfl⟩ := Prod.mk.inj (Option.some.inj hexec)
  rw [Shared.withIndex_index]
  unfold markDeletedAt
  split
  · rfl
  · split
    · rfl
    · split
      · rfl
      · split
        · rfl
        · simp only [length_modifyTuple]

end Steps

/-! ## Instructions that touch neither -/

def Plain (o : HnswOp V) : Prop :=
  match o with
  | .addElement _ _ _ | .markDeleted _ => False
  | o => SparesInsertPage o

theorem plain_of_link {o : HnswOp V} (h : LinkUses o) : Plain o := by
  rcases h with h | ⟨_, _, _, _, _, _, rfl⟩
  · cases o with
    | addElement | markDeleted | updateMetaPage => exact h.elim
    | _ => trivial
  · trivial

theorem plain_of_scan {o : HnswOp V} (h : ScanUses o) : Plain o := by
  cases o with
  | addElement | markDeleted | updateMetaPage => exact h.elim
  | _ => trivial

theorem plain_of_repair {m : Nat} {e : HnswElement V} {o : HnswOp V} (h : RepairsOnly m e o) :
    Plain o := by
  cases o with
  | addElement | markDeleted => exact h.1.elim
  | updateMetaPage => exact h.2
  | _ => trivial

section Plain

variable [LinearOrder D] [LinearOrder F] [DecidableEq V] (ctx : InsertContext V D F) {m : Nat}

omit [LinearOrder D] [LinearOrder F] [DecidableEq V] in
theorem hnswGetEntryPoint_plain :
    (hnswGetEntryPoint : HnswProgram V (Option EntryPoint)).Yields Plain fun _ => True :=
  hnswGetEntryPoint_yields.uses_mono fun _ ho => plain_of_link (.inl ho)

omit [LinearOrder D] [LinearOrder F] in
theorem findDuplicateOnDisk_plain (value : V) (heaptid : ItemPointer)
    (neighbors : List (HnswCandidate (HnswElement V) F)) :
    (findDuplicateOnDisk value heaptid neighbors).Yields Plain fun _ => True := by
  refine (findDuplicateOnDisk_yields neighbors).uses_mono ?_
  rintro _ ⟨tid, rfl⟩
  trivial

omit [LinearOrder D] [LinearOrder F] [DecidableEq V] in
theorem removeHeapTids_plain (callback : ItemPointer → Bool) (fuel : Nat) (blkno : BlockNumber)
    (st : VacuumState) :
    (removeHeapTids callback fuel blkno st : HnswProgram V VacuumState).Yields Plain
      fun _ => True := by
  induction fuel generalizing blkno st with
  | zero => trivial
  | succ fuel ih =>
    refine ⟨trivial, fun reply => ?_⟩
    cases reply with
    | none => trivial
    | some reply =>
      dsimp only [Program.bind]
      split
      · trivial
      · exact ih _ _

variable (deleted : List ItemPointer)

omit [DecidableEq V] in
theorem repairPoint_plain (entryPoint point : Option EntryPoint) :
    (repairPoint ctx m deleted entryPoint point).Yields Plain fun _ => True := by
  cases point with
  | none => trivial
  | some point =>
    have hload : (hnswLoadElement point.tid true : HnswProgram V (HnswElement V)).Yields Plain
        fun _ => True :=
      (hnswLoadElement_yields point.tid true).uses_mono fun _ ho => plain_of_link (.inl ho)
    refine hload.bind fun e _ => ?_
    exact ((repairIfNeeded_yields ctx deleted entryPoint).uses_mono
      fun _ => plain_of_repair).bind fun _ _ => trivial

omit [DecidableEq V] in
theorem repairGraphEntryPoint_plain (st : VacuumState) :
    (repairGraphEntryPoint ctx m st).Yields Plain fun _ => True := by
  have hhighest : (repairHighestPoint ctx m st).Yields Plain fun _ => True := by
    unfold repairHighestPoint
    split
    · trivial
    · refine ⟨trivial, fun _ => ?_⟩
      refine hnswGetEntryPoint_plain.bind fun entryPoint _ => ?_
      exact (repairPoint_plain ctx st.deleted entryPoint _).bind fun _ _ =>
        ⟨trivial, fun _ => trivial⟩
  have hreplace (highestPoint entryPoint : Option EntryPoint) :
      (replaceEntryPoint ctx m st.deleted highestPoint entryPoint).Yields Plain fun _ => True := by
    cases entryPoint with
    | none => trivial
    | some entryPoint =>
      change Program.Yields _ _ (if _ then _ else _)
      split
      · exact ⟨trivial, fun _ => trivial⟩
      · have hload : (hnswLoadElement entryPoint.tid true :
            HnswProgram V (HnswElement V)).Yields Plain fun _ => True :=
          (hnswLoadElement_yields entryPoint.tid true).uses_mono fun _ ho => plain_of_link (.inl ho)
        exact hload.bind fun e _ =>
          (repairIfNeeded_yields ctx st.deleted highestPoint).uses_mono fun _ => plain_of_repair
  refine hhighest.bind fun highestPoint _ => ⟨trivial, fun _ => ?_⟩
  refine hnswGetEntryPoint_plain.bind fun entryPoint _ => ?_
  exact (hreplace highestPoint entryPoint).bind fun _ _ => ⟨trivial, fun _ => trivial⟩

omit [DecidableEq V] in
theorem repairElements_plain (elements : List (HnswElement V)) :
    (repairElements ctx m deleted elements).Yields Plain fun _ => True := by
  induction elements with
  | nil => trivial
  | cons e rest ih =>
    have hneeds : (needsUpdated deleted e).Yields Plain fun _ => True :=
      (needsUpdated_yields deleted e).uses_mono fun _ ho => plain_of_link (.inl ho)
    refine hneeds.bind fun needed _ => ?_
    cases needed with
    | false => exact ih
    | true =>
      exact ((repairElement_yields ctx).uses_mono fun _ => plain_of_repair).bind fun _ _ => ih

omit [DecidableEq V] in
theorem repairPages_plain (fuel : Nat) (blkno : BlockNumber) :
    (repairPages ctx m deleted fuel blkno).Yields Plain fun _ => True := by
  induction fuel generalizing blkno with
  | zero => trivial
  | succ fuel ih =>
    refine ⟨trivial, fun page => ?_⟩
    cases page with
    | none => trivial
    | some page =>
      refine (repairElements_plain ctx deleted _).bind fun _ _ => ?_
      split
      · trivial
      · exact ih _

omit [LinearOrder D] [LinearOrder F] [DecidableEq V] in
theorem confirmRepaired_plain (fuel : Nat) (blkno : BlockNumber) :
    (confirmRepaired deleted fuel blkno : HnswProgram V Unit).Yields Plain fun _ => True := by
  refine (confirmRepaired_yields deleted fuel blkno).uses_mono ?_
  rintro o (ho | ⟨blkno, rfl⟩)
  · exact plain_of_link (.inl ho)
  · trivial

end Plain

/-! ## Inserts -/

/-- The insert page is a page, and not after a deleted element. -/
def HnswIndex.Reusable (index : HnswIndex V) : Prop :=
  ∃ q, index.metapage.insertPage = some q ∧ index.FirstFree q

theorem PageTurn.firstFree {index : HnswIndex V} {request : AddElementRequest V}
    {blkno : BlockNumber} {before : Option BlockNumber} {result : AddElementReply × HnswIndex V}
    (h : PageTurn index request blkno before result) (hchained : index.Chained)
    (hfirst : index.FirstFree (before.getD blkno)) (hnone : NoneFreed index result.2) :
    (∀ next after, result.1 = .next next after →
      (result.2.page? next).isSome ∧ result.2.FirstFree (after.getD next)) ∧
    ∀ tid ntid q, result.1 = .placed tid ntid q → result.2.FirstFree q := by
  cases h with
  | @next after next page hpage hnext hpassed =>
    refine ⟨?_, by rintro _ _ _ ⟨⟩⟩
    rintro _ _ ⟨⟩
    obtain ⟨rfl, hlt⟩ := hchained.next_eq hpage hnext
    have hpage' : (index.page? (blkno + 1)).isSome :=
      HnswIndex.page?_isSome.mpr ⟨Nat.succ_pos _, hlt⟩
    refine ⟨hpage', ?_, hpassed.least hfirst.least⟩
    cases after with
    | none => exact hpage'
    | some q =>
      rw [Option.getD_some, hpassed.carried.set q rfl]
      exact hfirst.page
  | put hput =>
    rcases hput.reply with ⟨e, hreply⟩ | ⟨t, nt, hreply⟩
    · simp [hreply]
    · refine ⟨by simp [hreply], ?_⟩
      intro tid ntid q hq
      rw [hreply] at hq
      cases hq
      exact hfirst.noneFreed hnone
  | @extended after extended nblkno page _ hpage hlast hpassed hput hnew =>
    rcases hput.reply with ⟨e, hreply⟩ | ⟨t, nt, hreply⟩
    · simp [hreply]
    · refine ⟨by simp [hreply], ?_⟩
      intro tid ntid q hq
      rw [hreply] at hq
      cases hq
      cases after with
      | some q =>
        rw [Option.getD_some, hpassed.carried.set q rfl]
        exact hfirst.noneFreed hnone
      | none =>
        -- all pages have been seen, and there is no deleted element
        refine ⟨HnswIndex.page?_isSome_mono hput.length.ge hnew, ?_⟩
        intro tid htid
        have hle := hpassed.least hfirst.least tid (hnone.deleted htid)
        have hpages := (blkno_of_deleted (hnone.deleted htid)).2
        rw [← hchained.last_eq hpage hlast] at hpages
        exact absurd (hle.trans hpages) (Nat.not_succ_le_self blkno)

theorem monitoredHandler_shared {self : ThreadId} {o : HnswOp V} {r : o.Res} {x y : Monitored V}
    (h : monitoredHandler self o x = some (r, y)) :
    hnswHandler self o x.shared = some (r, y.shared) := by
  obtain ⟨⟨r', s'⟩, hhandler, heq⟩ := Option.map_eq_some_iff.mp h
  cases heq
  exact hhandler

section Inserts

variable [LinearOrder D] [LinearOrder F] [DecidableEq V]

def insertsOnly : System (hnswSignature V) (Monitored V) (Task V D F) :=
  ((hnswSystem (fun _ => True) fun _ _ _ => True).assuming
    fun s => s.shared.index.Matched).starting fun t => ¬ t.isVacuum = true

variable (V D F) in
def insertsArgument : (insertsOnly : System (hnswSignature V) _ (Task V D F)).Argument
    (Monitored V) where
  shared := id
  inv x := x.shared.index.Reusable
  rely _ _ x y := NoneFreed x.shared.index y.shared.index
  allowed _ := True
  resting _ _ := True
  during _ _ _ := True
  post _ _ _ := True
  rely_refl _ _ _ := .refl _
  rely_trans _ _ _ _ _ h h' := h.trans h'
  during_rely _ _ _ _ _ h := h

abbrev inserting (self : ThreadId) (t : Task V D F) :
    Discipline (hnswSignature V) (Monitored V) (Monitored V) :=
  (insertsArgument V D F).discipline self t

variable {self : ThreadId} {t : Task V D F} {x y : Monitored V}

theorem inserting_exec {o : HnswOp V} {r : o.Res} {z : Monitored V}
    (hmark : ∀ tid, o ≠ .markDeleted tid)
    (hadd : ∀ request blkno newInsertPage, o = .addElement request blkno newInsertPage →
      request.etup.deleted = false)
    (hmay : (inserting self t).may y o)
    (hexec : (inserting self t).handler o ((inserting self t).shared y) = some (r, z)) :
    hnswHandler self o y.shared = some (r, z.shared) ∧
      NoneFreed y.shared.index z.shared.index ∧ (inserting self t).guar y z := by
  have hhandler := monitoredHandler_shared hexec
  have hnone := noneFreed_hnswHandler hmay.2.toWellFormed hmark hadd hhandler
  exact ⟨hhandler, hnone, ⟨fun _ _ _ _ => hnone, fun _ _ _ => trivial⟩, fun _ => trivial⟩

omit [LinearOrder D] [LinearOrder F] [DecidableEq V] in
theorem HnswIndex.Reusable.kept {index index' : HnswIndex V} (h : index.Reusable)
    (hnone : NoneFreed index index')
    (hsame : index'.metapage.insertPage = index.metapage.insertPage) : index'.Reusable := by
  obtain ⟨q, hq, hfirst⟩ := h
  exact ⟨q, hsame.trans hq, hfirst.noneFreed hnone⟩

theorem plain_inserting {α : Type} {p : HnswProgram V α} {Q : α → Prop}
    (hp : p.Yields Plain Q) : p.Safe (inserting self t) (fun a _ => Q a) x := by
  refine .mono (Program.Safe.of_yields (J := fun _ => True) (fun _ _ _ _ => trivial)
    ?_ (fun _ _ _ _ => trivial) hp trivial) fun _ _ _ h => h.1
  intro y o r s hinv _ hmay ho hexec
  have hmark : ∀ tid, o ≠ .markDeleted tid := by
    rintro tid rfl
    exact ho
  obtain ⟨hhandler, hnone, hguar⟩ := inserting_exec hmark (by rintro _ _ _ rfl; exact ho.elim)
    hmay hexec
  have hspares : SparesInsertPage o := by
    cases o with
    | addElement | markDeleted => exact ho.elim
    | _ => exact ho
  exact ⟨s, rfl, hinv.kept hnone (insertPage_hnswHandler hspares hhandler), hguar, trivial⟩

theorem addElementLoop_inserting {request : AddElementRequest V}
    (hlive : request.etup.deleted = false) (fuel : Nat) {blkno : BlockNumber}
    {before : Option BlockNumber} (hfirst : x.shared.index.FirstFree (before.getD blkno)) :
    (addElementLoop request fuel blkno before).Safe (inserting self t)
      (fun p y => y.shared.index.FirstFree p.newInsertPage) x := by
  induction fuel generalizing blkno before x with
  | zero => exact fun _ _ _ => trivial
  | succ fuel ih =>
    intro y hxy hinv hmay reply z hexec
    obtain ⟨hhandler, hnone, hguar⟩ := inserting_exec (by simp)
      (by rintro _ _ _ ⟨⟩; exact hlive) hmay hexec
    have hsame := insertPage_hnswHandler (o := .addElement request blkno before) trivial hhandler
    have hkept := hinv.kept hnone hsame
    refine ⟨z, rfl, hkept, hguar, ?_⟩
    obtain ⟨hreply, hz⟩ := Prod.mk.inj (Option.some.inj hhandler)
    have hindex : z.shared.index = (addElementOnPage y.shared.index request blkno before).2 := by
      rw [← hz, Shared.withIndex_index]
    rw [hindex] at hnone
    obtain ⟨hnext, hplaced⟩ := (addElementOnPage_turn y.shared.index request blkno before).firstFree
      hmay.2.chained (hfirst.noneFreed hxy) hnone
    cases reply with
    | next next after =>
      have hstate := (hnext next after hreply).2
      rw [← hindex] at hstate
      exact ih hstate
    | placed tid ntid q =>
      have hstate := hplaced tid ntid q hreply
      rw [← hindex] at hstate
      exact fun w hzw _ => hstate.noneFreed hzw
    | failed => exact fun _ _ _ => trivial

theorem getInsertPage_inserting :
    (getInsertPage : HnswProgram V BlockNumber).Safe (inserting self t)
      (fun q y => y.shared.index.FirstFree q) x := by
  intro y _ hinv hmay metap z hexec
  obtain ⟨hhandler, hnone, hguar⟩ := inserting_exec (by simp) (by simp) hmay hexec
  have hsame := insertPage_hnswHandler (o := .getMetaPage) trivial hhandler
  refine ⟨z, rfl, hinv.kept hnone hsame, hguar, ?_⟩
  obtain ⟨rfl, hz⟩ := Prod.mk.inj (Option.some.inj hhandler)
  obtain ⟨q, hq, hfirst⟩ := hinv
  dsimp only [Program.bind]
  rw [hq]
  exact fun w hzw _ => (hfirst.noneFreed hnone).noneFreed hzw

theorem updateInsertPage_inserting {q q' : BlockNumber} (hfirst : x.shared.index.FirstFree q') :
    (updateInsertPage q q' : HnswProgram V Unit).Safe (inserting self t) (fun _ _ => True) x := by
  unfold updateInsertPage
  split
  · exact fun _ _ _ => trivial
  · intro y hxy _ hmay _ z hexec
    obtain ⟨hhandler, hnone, hguar⟩ := inserting_exec (by simp) (by simp) hmay hexec
    obtain ⟨-, hz⟩ := Prod.mk.inj (Option.some.inj hhandler)
    refine ⟨z, rfl, ⟨q', ?_, (hfirst.noneFreed hxy).noneFreed hnone⟩, hguar, fun _ _ _ => trivial⟩
    rw [← hz]
    rfl

theorem addToGraphOnDisk_inserting (ctx : InsertContext V D F) (value : V) (heaptid : ItemPointer)
    (level m : Nat) (entryPoint : Option EntryPoint)
    (layers : List (List (HnswCandidate (HnswElement V) F))) :
    (addToGraphOnDisk ctx value heaptid level m entryPoint layers).Safe (inserting self t)
      (fun _ _ => True) x := by
  refine getInsertPage_inserting.seq fun q y _ hq => ?_
  refine (addElementLoop_inserting rfl ctx.fuel hq).seq fun p z _ hp => ?_
  refine (updateInsertPage_inserting hp).seq fun _ w _ _ => ?_
  have hlink := (hnswUpdateNeighborsOnDisk_yields ctx (placedElement value heaptid level p) m false
    layers).uses_mono fun _ => plain_of_link
  refine plain_inserting (hlink.bind fun _ _ => ?_)
  unfold updateEntryPoint
  split
  · exact ⟨trivial, fun _ => trivial⟩
  · trivial

theorem insertLocked_inserting (ctx : InsertContext V D F) (value : V) (heaptid : ItemPointer)
    (level m : Nat) (entryPoint : Option EntryPoint) (lockmode : LockMode) :
    (insertLocked ctx value heaptid level m entryPoint lockmode).Safe (inserting self t)
      (fun _ _ => True) x := by
  have hfind := (findNeighborsOnDisk_yields ctx (some value) level m
    (entryPoint.map EntryPoint.tid) none).uses_mono fun _ ho => plain_of_link (.inl ho)
  refine (plain_inserting hfind).seq fun found y _ _ => ?_
  have hgraph : (updateGraphOnDisk ctx value heaptid level m (found.loadedEntry entryPoint)
      found.layers).Safe (inserting self t) (fun _ _ => True) y := by
    refine (plain_inserting (findDuplicateOnDisk_plain value heaptid _)).seq ?_
    intro duplicate z _ _
    cases duplicate with
    | true => exact fun _ _ _ => trivial
    | false => exact addToGraphOnDisk_inserting ctx value heaptid level m _ _
  have hunlock : (unlockPage .update lockmode : HnswProgram V Unit).Yields Plain fun _ => True :=
    ⟨trivial, fun _ => trivial⟩
  exact hgraph.seq fun _ z _ _ => plain_inserting hunlock

theorem insert_inserting (ctx : InsertContext V D F) (value : Option V) (heaptid : ItemPointer)
    (drawnLevel : Nat) :
    (hnswinsert ctx value heaptid drawnLevel).Safe (inserting self t) (fun _ _ => True) x := by
  unfold hnswinsert
  split
  · exact fun _ _ _ => trivial
  · split
    · split
      · exact fun _ _ _ => trivial
      · next value _ =>
        have hlock : (do
            lockPage .update .share
            hnswGetMetaPageInfo : HnswProgram V (Nat × Option EntryPoint)).Yields Plain
            fun _ => True :=
          ⟨trivial, fun _ => hnswGetMetaPageInfo_yields.uses_mono
            fun _ ho => plain_of_link (.inl ho)⟩
        have hlock' : (do
            unlockPage .update .share
            lockPage .update .exclusive
            hnswGetEntryPoint : HnswProgram V (Option EntryPoint)).Yields Plain
            fun _ => True :=
          ⟨trivial, fun _ => ⟨trivial, fun _ => hnswGetEntryPoint_plain⟩⟩
        refine (plain_inserting hlock).seq fun info y _ _ => ?_
        change Program.Safe _ (if _ then _ else _) _ _
        split
        · exact (plain_inserting hlock').seq fun entryPoint z _ _ =>
            insertLocked_inserting ctx value heaptid _ _ entryPoint .exclusive
        · exact insertLocked_inserting ctx value heaptid _ _ _ .share
    · exact fun _ _ _ => trivial

theorem scan_inserting (ctx : ScanContext V D) (last : ScanSettings)
    (calls : List (ScanSettings × ScanCall V)) (so : HnswScanOpaque V D) :
    (scanRun ctx last calls so).Safe (inserting self t) (fun _ _ => True) x :=
  plain_inserting ((scanRun_yields ctx last calls so).uses_mono fun _ => plain_of_scan)

theorem insertsArgument_sound : (insertsArgument V D F).Sound where
  start := fun _ _ _ _ _ _ => trivial
  program := by
    intro i t x ht _ _
    cases t with
    | insert ctx value heaptid drawnLevel => exact insert_inserting ctx value heaptid drawnLevel
    | vacuum ctx callback => exact absurd rfl ht.2
    | scan ctx last calls so =>
      exact (scan_inserting ctx last calls so).seq fun _ _ _ _ _ _ _ => trivial
  finish := fun _ _ x hx _ =>
    ⟨_, rfl, hx, trivial, fun _ _ _ _ => .refl _, fun _ _ _ => trivial⟩
  abort := fun _ _ x _ hx _ =>
    ⟨_, rfl, hx, trivial, fun _ _ _ _ => .refl _, fun _ _ _ => trivial⟩

theorem reusable_of_inserts {s : Monitored V}
    {pool : Pool (hnswSignature V) (Monitored V) (Task V D F)} (hs : s.shared.index.Reusable)
    (h : insertsOnly.Reaches (Pool.idle s) pool) : pool.shared.shared.index.Reusable := by
  obtain ⟨y, hy⟩ := insertsArgument_sound.reaches
    (System.Argument.holds_idle (A := insertsArgument V D F) hs fun _ => trivial) h
  have hinv := hy.inv
  rwa [← hy.shared]

end Inserts

/-! ## Vacuums -/

section Vacuums

def vacuuming (self : ThreadId) : Discipline (hnswSignature V) (Monitored V) (Monitored V) where
  handler := monitoredHandler self
  shared := id
  inv x := ∃ q, x.shared.index.metapage.insertPage = some q ∧ (x.shared.index.page? q).isSome
  rely x y := x = y
  guar _ _ := True
  may x _ := x.shared.index.Matched
  allowed _ _ := True
  rely_refl _ := rfl
  rely_trans h h' := h.trans h'

variable {self : ThreadId} {x y : Monitored V}

theorem vacuuming_exec {o : HnswOp V} {r : o.Res} {z : Monitored V} (ho : SparesInsertPage o)
    (hinv : (vacuuming self).inv y)
    (hexec : (vacuuming self).handler o ((vacuuming self).shared y) = some (r, z)) :
    hnswHandler self o y.shared = some (r, z.shared) ∧ (vacuuming self).inv z := by
  have hhandler := monitoredHandler_shared hexec
  obtain ⟨q, hq, hpage⟩ := hinv
  have hpage' := HnswIndex.page?_isSome_mono (length_hnswHandler hhandler) hpage
  exact ⟨hhandler, q, (insertPage_hnswHandler ho hhandler).trans hq, hpage'⟩

theorem plain_vacuuming {α : Type} {p : HnswProgram V α} {Q : α → Prop}
    (hp : p.Yields Plain Q) : p.Safe (vacuuming self) (fun _ _ => True) x := by
  refine .mono (Program.Safe.of_yields (J := fun _ => True) (fun _ _ _ _ => trivial)
    ?_ (fun _ _ _ _ => trivial) hp trivial) fun _ _ _ _ => trivial
  intro y o r s hinv _ _ ho hexec
  have hspares : SparesInsertPage o := by
    cases o with
    | addElement | markDeleted => exact ho.elim
    | _ => exact ho
  exact ⟨s, rfl, (vacuuming_exec hspares hinv hexec).2, trivial, trivial⟩

/-- The deleted elements before `blkno`, and on it but for those `left`, are not before the
first freed page. -/
structure MarkedUpTo (index : HnswIndex V) (first : Option BlockNumber) (blkno : BlockNumber)
    (left : List OffsetNumber) : Prop where
  page : ∀ q, first = some q → (index.page? q).isSome ∧ q ≤ blkno
  least : ∀ tid ∈ index.net.deleted,
    tid.blkno < blkno ∨ tid.blkno = blkno ∧ tid.offno ∉ left → ∃ q, first = some q ∧ q ≤ tid.blkno

variable {first : Option BlockNumber} {blkno : BlockNumber}

theorem MarkedUpTo.step {s s' : Shared V} {offno : OffsetNumber} {left : List OffsetNumber}
    {reply : MarkReply} (h : MarkedUpTo s.index first blkno (offno :: left))
    (hwf : s.index.WellFormed) (hpage : (s.index.page? blkno).isSome)
    (hexec : hnswHandler self (.markDeleted ⟨blkno, offno⟩) s = some (reply, s')) :
    MarkedUpTo s'.index (if reply = .skipped then first else some (first.getD blkno)) blkno
      left := by
  have hlength := length_markDeleted hexec
  -- the first freed page, if there is one, is not after the current page
  have hfirst : first.getD blkno ≤ blkno := by
    cases first with
    | none => exact le_rfl
    | some q => exact (h.page q rfl).2
  constructor
  · intro q hq
    split at hq
    · exact ⟨HnswIndex.page?_isSome_mono hlength.ge (h.page q hq).1, (h.page q hq).2⟩
    · cases hq
      refine ⟨HnswIndex.page?_isSome_mono hlength.ge ?_, hfirst⟩
      cases first with
      | none => exact hpage
      | some q => exact (h.page q rfl).1
  · intro tid htid hwhere
    obtain ⟨hother, hmarked⟩ := deleted_of_markDeleted hwf hexec htid
    by_cases heq : tid = ⟨blkno, offno⟩
    · rw [if_neg (hmarked heq)]
      subst heq
      exact ⟨_, rfl, hfirst⟩
    · have hleft : tid.blkno < blkno ∨ tid.blkno = blkno ∧ tid.offno ∉ offno :: left := by
        rcases hwhere with hlt | ⟨hblkno, hnot⟩
        · exact .inl hlt
        · refine .inr ⟨hblkno, ?_⟩
          rintro hmem
          rcases List.mem_cons.mp hmem with hoffno | hmem
          · exact heq (by rw [← hblkno, ← hoffno])
          · exact hnot hmem
      obtain ⟨q, rfl, hq⟩ := h.least tid (hother heq) hleft
      split
      · exact ⟨q, rfl, hq⟩
      · exact ⟨q, rfl, hq⟩

theorem markElements_vacuuming (elements : List (OffsetNumber × HnswElementTuple V))
    (hx : MarkedUpTo x.shared.index first blkno (elements.map Prod.fst))
    (hpage : (x.shared.index.page? blkno).isSome) :
    (markElements blkno elements first).Safe (vacuuming self)
      (fun first y => MarkedUpTo y.shared.index first blkno [] ∧
        y.shared.index.pages.length = x.shared.index.pages.length) x := by
  induction elements generalizing x first with
  | nil =>
    rintro _ rfl _
    exact ⟨hx, rfl⟩
  | cons element rest ih =>
    rintro _ rfl hinv hmay reply z hexec
    obtain ⟨hhandler, hinv'⟩ :=
      vacuuming_exec (o := .markDeleted ⟨blkno, element.1⟩) trivial hinv hexec
    refine ⟨z, rfl, hinv', trivial, ?_⟩
    have hlength := length_markDeleted hhandler
    have hstep := hx.step hmay.toWellFormed hpage hhandler
    have hpage' := HnswIndex.page?_isSome_mono hlength.ge hpage
    cases reply with
    | missing => exact fun _ _ _ => trivial
    | skipped => exact .mono (ih hstep hpage') fun _ _ _ h => ⟨h.1, h.2.trans hlength⟩
    | alreadyDeleted =>
      exact .mono (ih hstep hpage') fun _ _ _ h => ⟨h.1, h.2.trans hlength⟩
    | marked => exact .mono (ih hstep hpage') fun _ _ _ h => ⟨h.1, h.2.trans hlength⟩

theorem markPages_vacuuming (fuel : Nat)
    (hfirst : ∀ q, first = some q → (x.shared.index.page? q).isSome ∧ q ≤ blkno)
    (hleast : ∀ tid ∈ x.shared.index.net.deleted, tid.blkno < blkno →
      ∃ q, first = some q ∧ q ≤ tid.blkno) :
    (markPages fuel blkno first).Safe (vacuuming self)
      (fun first y => (∀ q, first = some q → (y.shared.index.page? q).isSome) ∧
        ∀ tid ∈ y.shared.index.net.deleted, ∃ q, first = some q ∧ q ≤ tid.blkno) x := by
  induction fuel generalizing blkno first x with
  | zero => exact fun _ _ _ => trivial
  | succ fuel ih =>
    rintro _ rfl hinv hmay page? z hexec
    obtain ⟨hhandler, hinv'⟩ := vacuuming_exec (o := .readPage blkno) trivial hinv hexec
    refine ⟨z, rfl, hinv', trivial, ?_⟩
    obtain ⟨rfl, hz⟩ := Prod.mk.inj (Option.some.inj hhandler)
    have hchained : x.shared.index.Chained := hmay.chained
    rw [hz] at hfirst hleast hchained
    cases hpage : x.shared.index.page? blkno with
    | none => exact fun _ _ _ => trivial
    | some page =>
      rw [hz] at hpage
      have hmarked : MarkedUpTo z.shared.index first blkno (page.elements.map Prod.fst) := by
        refine ⟨hfirst, ?_⟩
        rintro tid htid (hlt | ⟨hblkno, hnot⟩)
        · exact hleast tid htid hlt
        · obtain ⟨etup, hetup, -⟩ := htid
          refine absurd (List.mem_map.mpr ⟨(tid.offno, etup), ?_, rfl⟩) hnot
          exact (HnswIndex.mem_elements_page hpage).mpr (by rw [← hblkno]; exact hetup)
      have hsome : (z.shared.index.page? blkno).isSome := Option.isSome_of_eq_some hpage
      refine (markElements_vacuuming page.elements hmarked hsome).seq ?_
      rintro first' w _ ⟨hw, hlength⟩
      have hupTo (tid : ItemPointer) (htid : tid ∈ w.shared.index.net.deleted)
          (hle : tid.blkno ≤ blkno) : ∃ q, first' = some q ∧ q ≤ tid.blkno := by
        refine hw.least tid htid ?_
        rcases Nat.lt_or_eq_of_le hle with hlt | heq
        · exact .inl hlt
        · exact .inr ⟨heq, by simp⟩
      split
      · next hlast =>
        rintro _ rfl _
        refine ⟨fun q hq => (hw.page q hq).1, fun tid htid => hupTo tid htid ?_⟩
        have hpages := (blkno_of_deleted htid).2
        rwa [hlength, ← hchained.last_eq hpage hlast] at hpages
      · next next hnext =>
        obtain ⟨rfl, -⟩ := hchained.next_eq hpage hnext
        refine ih ?_ ?_
        · intro q hq
          exact ⟨(hw.page q hq).1, (hw.page q hq).2.trans (Nat.le_succ blkno)⟩
        · intro tid htid hlt
          exact hupTo tid htid (Nat.lt_succ_iff.mp hlt)

/-- The metapage is updated last; with no page freed its insert page stays. -/
theorem updateMetaPage_vacuuming (hfirst : ∀ q, first = some q → (x.shared.index.page? q).isSome)
    (hleast : ∀ tid ∈ x.shared.index.net.deleted, ∃ q, first = some q ∧ q ≤ tid.blkno) :
    (HnswOp.exec (.updateMetaPage .no none first)).Safe
      (vacuuming self) (fun _ y => y.shared.index.Reusable) x := by
  rintro _ rfl ⟨q₀, hq₀, hpage₀⟩ _ _ z hexec
  have hexec' : monitoredHandler self (.updateMetaPage .no none first) x = some ((), z) := hexec
  obtain ⟨-, hz⟩ := Prod.mk.inj (Option.some.inj (monitoredHandler_shared hexec'))
  have hreusable : z.shared.index.Reusable := by
    rw [← hz]
    cases first with
    | none =>
      refine ⟨q₀, hq₀, hpage₀, fun tid htid => ?_⟩
      obtain ⟨q, hq, -⟩ := hleast tid htid
      cases hq
    | some q =>
      refine ⟨q, rfl, hfirst q rfl, fun tid htid => ?_⟩
      obtain ⟨_, ⟨⟩, hle⟩ := hleast tid htid
      exact hle
  have hinv : (vacuuming self).inv z := by
    obtain ⟨q, hq, hpage⟩ := hreusable
    exact ⟨q, hq, hpage.page⟩
  refine ⟨z, rfl, hinv, trivial, ?_⟩
  rintro _ rfl _
  exact hreusable

theorem markDeleted_vacuuming (fuel : Nat) (deleted : List ItemPointer) :
    (markDeleted fuel deleted).Safe (vacuuming self) (fun _ y => y.shared.index.Reusable) x := by
  have hwait (lock : PageLock) : (do
      lockPage lock .exclusive
      unlockPage lock .exclusive : HnswProgram V Unit).Yields Plain fun _ => True :=
    ⟨trivial, fun _ => ⟨trivial, fun _ => trivial⟩⟩
  refine (plain_vacuuming (hwait .update)).seq fun _ y _ _ => ?_
  refine (plain_vacuuming (confirmRepaired_plain deleted fuel hnswHeadBlkno)).seq fun _ z _ _ => ?_
  have hconfirmed : (emit .repairConfirmed : HnswProgram V Unit).Yields Plain fun _ => True :=
    ⟨trivial, fun _ => trivial⟩
  refine (plain_vacuuming hconfirmed).seq fun _ v _ _ => ?_
  refine (plain_vacuuming (hwait .scan)).seq fun _ w _ _ => ?_
  have hnone : ∀ tid ∈ w.shared.index.net.deleted, tid.blkno < hnswHeadBlkno →
      ∃ q, (none : Option BlockNumber) = some q ∧ q ≤ tid.blkno := by
    intro tid htid hlt
    exact absurd (blkno_of_deleted htid).1 (Nat.not_le_of_lt hlt)
  refine (markPages_vacuuming fuel (by simp) hnone).seq ?_
  rintro first u _ ⟨hfirst, hleast⟩
  exact updateMetaPage_vacuuming hfirst hleast

variable [LinearOrder D] [LinearOrder F] [DecidableEq V]

theorem vacuum_vacuuming (ctx : InsertContext V D F) (callback : ItemPointer → Bool) :
    (hnswbulkdelete ctx callback).Safe (vacuuming self) (fun _ y => y.shared.index.Reusable) x := by
  have hinfo : (hnswGetMetaPageInfo : HnswProgram V (Nat × Option EntryPoint)).Yields Plain
      fun _ => True :=
    hnswGetMetaPageInfo_yields.uses_mono fun _ ho => plain_of_link (.inl ho)
  have hrepair (m : Nat) (st : VacuumState) : (repairGraph ctx m st).Yields Plain
      fun _ => True := by
    refine ⟨trivial, fun _ => ⟨trivial, fun _ => ?_⟩⟩
    exact (repairGraphEntryPoint_plain ctx st).bind fun _ _ =>
      repairPages_plain ctx st.deleted ctx.fuel hnswHeadBlkno
  refine (plain_vacuuming hinfo).seq fun info y _ _ => ?_
  refine (plain_vacuuming (removeHeapTids_plain callback ctx.fuel hnswHeadBlkno .start)).seq
    fun st z _ _ => ?_
  refine (plain_vacuuming (hrepair info.1 st)).seq fun _ w _ _ => ?_
  exact markDeleted_vacuuming ctx.fuel st.deleted

end Vacuums

end PgVector.Hnsw
