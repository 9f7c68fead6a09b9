import PgVector.Hnsw.Concurrent
import PgVector.Hnsw.InsertYields
import PgVector.Hnsw.MemorySafe
import PgVector.Hnsw.Pairing

/-!
# Tuples in step, whatever the interleaving

An insert makes its two tuples itself.  The vacuum writes the neighbors of an
element anew long after it has loaded the element: by then the element tuple has
to be the same, which it is since only a vacuum marks elements as deleted.
-/

namespace PgVector.Hnsw

open Foundation

variable {V D F : Type}

/-! ## One instruction -/

def Apt (index : HnswIndex V) : HnswOp V → Prop
  | .addElement r _ _ => r.Proper index.metapage.m
  | .overwriteNeighbor ntid ntup _ =>
    ∃ tid etup, index.element? tid = some etup ∧ etup.neighbortid = ntid ∧
      ntup.version = etup.version ∧ ntup.count = (etup.level + 2) * index.metapage.m
  | _ => True

theorem hnswHandler_tends {self : ThreadId} {o : HnswOp V} {s s' : Shared V} {r : o.Res}
    (h : s.index.Matched) (ho : Apt s.index o) (hexec : hnswHandler self o s = some (r, s')) :
    Tends (∀ tid, o ≠ .markDeleted tid) s.index s'.index := by
  cases o with
  | addElement request blkno newInsertPage =>
    cases hexec
    exact addElementOnPage_tends h ho blkno newInsertPage
  | updateNeighbor ntid tid idx startIdx lm checkExisting =>
    cases hexec
    exact updateNeighborOnPage_tends h ntid tid idx startIdx lm checkExisting
  | overwriteNeighbor ntid ntup ntupSize =>
    obtain ⟨tid, etup, hetup, rfl, hversion, hcount⟩ := ho
    rcases hnswHandler_overwriteNeighbor hexec with ⟨rfl, -⟩ | ⟨index', hwrite, rfl⟩
    · exact .refl h
    · exact overwriteNeighborOnPage_tends h hetup hversion hcount hwrite
  | addDuplicate tid heaptid =>
    simp only [hnswHandler] at hexec
    split at hexec
    · cases hexec
      exact .refl h
    · next added index' hadd =>
      cases hexec
      exact addDuplicateOnPage_tends h hadd
  | removeHeapTids blkno callback =>
    simp only [hnswHandler] at hexec
    split at hexec
    · cases hexec
      exact .refl h
    · next reply index' hremove =>
      cases hexec
      exact removeHeapTidsOnPage_tends h hremove
  | markDeleted tid =>
    cases hexec
    have htends := markDeletedAt_tends h tid
    exact ⟨htends.matched, htends.steady.mono fun hne => absurd rfl (hne tid)⟩
  | updateMetaPage updateEntry entryPoint insertPage =>
    cases hexec
    exact updateMetaPage_tends h updateEntry entryPoint insertPage
  | lockPage lock mode =>
    obtain ⟨-, rfl⟩ := hnswHandler_lockPage_eq_some hexec
    exact .refl h
  | _ =>
    cases hexec
    exact .refl h

/-! ## Programs -/

section Programs

variable [LinearOrder D] [LinearOrder F] [DecidableEq V] (m₀ : Nat)
  (scans : ScanSettings → Prop) (may : Monitored V → Task V D F → HnswOp V → Prop)

def pairingArgument : (hnswSystem scans may).Argument (Monitored V) where
  shared := id
  inv x := x.shared.index.Matched ∧ x.shared.index.metapage.m = m₀
  rely _ t x y := Steady (t.isVacuum = true) x.shared.index y.shared.index
  allowed _ := True
  resting _ _ := True
  during _ _ _ := True
  post _ _ _ := True
  rely_refl _ _ _ := .refl _ _
  rely_trans _ _ _ _ _ h h' := h.trans h'
  during_rely _ _ _ _ _ h := h

abbrev pairing (self : ThreadId) (t : Task V D F) :
    Discipline (hnswSignature V) (Monitored V) (Monitored V) :=
  (pairingArgument m₀ scans may).discipline self t

variable {m₀ scans may} {self : ThreadId} {t : Task V D F} {x y : Monitored V}

theorem pairing_exec {o : HnswOp V} {r : o.Res} {s : Monitored V}
    (hspares : t.isVacuum = true ∨ ∀ tid, o ≠ .markDeleted tid)
    (hy : (pairing m₀ scans may self t).inv y) (ho : Apt y.shared.index o)
    (hexec : (pairing m₀ scans may self t).handler o ((pairing m₀ scans may self t).shared y) =
      some (r, s)) :
    (pairing m₀ scans may self t).inv s ∧ (pairing m₀ scans may self t).guar y s ∧
      Steady (∀ tid, o ≠ .markDeleted tid) y.shared.index s.shared.index := by
  have hmap : (hnswHandler self o y.shared).map (fun reply =>
      (reply.1, (⟨reply.2, y.history.note y.shared o reply.1⟩ : Monitored V))) =
      some (r, s) := hexec
  obtain ⟨⟨r', s'⟩, hhandler, heq⟩ := Option.map_eq_some_iff.mp hmap
  cases heq
  have htends := hnswHandler_tends hy.1 ho hhandler
  refine ⟨⟨htends.matched, htends.steady.m_eq.trans hy.2⟩,
    ⟨⟨?_, fun _ _ _ => trivial⟩, fun _ => trivial⟩, htends.steady⟩
  intro j t' _ hbeside
  refine htends.steady.mono fun ht' => hspares.resolve_left fun ht => hbeside ⟨ht, ht'⟩

/--
A program is safe if its instructions fit the index as long as `J` holds, and they
and the environment keep `J`.
-/
theorem pairing_safe_of_yields {α : Type} {p : HnswProgram V α} {uses : HnswOp V → Prop}
    {Q : α → Prop} {J : HnswIndex V → Prop}
    (hspares : t.isVacuum = true ∨ ∀ o, uses o → ∀ tid, o ≠ .markDeleted tid)
    (hrely : ∀ {index index'}, Steady (t.isVacuum = true) index index' → J index → J index')
    (huses : ∀ {index o}, index.Matched → J index → uses o → Apt index o)
    (hkeeps : ∀ {index index' o}, uses o → Steady (∀ tid, o ≠ .markDeleted tid) index index' →
      J index → J index')
    (hp : p.Yields uses Q) (hx : J x.shared.index) :
    p.Safe (pairing m₀ scans may self t) (fun a y => Q a ∧ J y.shared.index) x := by
  refine .of_yields (J := fun y : Monitored V => J y.shared.index)
    (fun _ _ h hJ => hrely h hJ) ?_ (fun _ _ _ _ => trivial) hp hx
  intro y o r s hy hJ _ ho hexec
  have hspares' : t.isVacuum = true ∨ ∀ tid, o ≠ .markDeleted tid :=
    hspares.imp_right fun h => h o ho
  obtain ⟨hinv, hguar, hsteady⟩ := pairing_exec hspares' hy (huses hy.1 hJ ho) hexec
  exact ⟨s, rfl, hinv, hguar, hkeeps ho hsteady hJ⟩

theorem hnswGetMetaPageInfo_pairing {α : Type}
    {f : Nat × Option EntryPoint → HnswProgram V α} {Q : α → Monitored V → Prop}
    (hf : ∀ r y, y.shared.index.metapage.m = r.1 → (f r).Safe (pairing m₀ scans may self t) Q y) :
    (hnswGetMetaPageInfo >>= f).Safe (pairing m₀ scans may self t) Q x := by
  intro y _ hy _ r s hexec
  have hapt : Apt y.shared.index .getMetaPage := trivial
  obtain ⟨hinv, hguar, -⟩ := pairing_exec (.inr (by simp)) hy hapt hexec
  refine ⟨s, rfl, hinv, hguar, ?_⟩
  have hpair : (y.shared.index.metapage, y) = (r, s) := Option.some.inj hexec
  cases hpair
  change Program.Safe _ ((if _ then _ else _) >>= f) _ _
  split
  · exact fun _ _ _ => trivial
  · exact hf _ y rfl

/-! ## Inserts and scans -/

omit [LinearOrder D] [LinearOrder F] [DecidableEq V] in
theorem insertUses_spares {m : Nat} {heaptid : ItemPointer} {o : HnswOp V}
    (ho : InsertUses m heaptid o) (tid : ItemPointer) : o ≠ .markDeleted tid := by
  rintro rfl
  exact ho

theorem insertUses_pairing {α : Type} {p : HnswProgram V α} {m : Nat}
    {heaptid : ItemPointer} {Q : α → Prop} (hp : p.Yields (InsertUses m heaptid) Q)
    (hx : x.shared.index.metapage.m = m) :
    p.Safe (pairing m₀ scans may self t) (fun _ _ => True) x := by
  refine .mono (pairing_safe_of_yields
    (J := fun index => index.metapage.m = m) (.inr fun o ho => insertUses_spares ho)
    (fun h hm => h.m_eq.trans hm) ?_ (fun _ h hm => h.m_eq.trans hm) hp hx)
    fun _ _ _ _ => trivial
  intro index o _ hm ho
  cases o with
  | addElement r blkno newInsertPage =>
    obtain ⟨hlive, hversion, hcount, -⟩ := ho
    exact ⟨hlive, hversion, by rw [hm]; exact hcount⟩
  | overwriteNeighbor => exact ho.elim
  | _ => trivial

theorem insert_pairing (ctx : InsertContext V D F) (value : Option V)
    (heaptid : ItemPointer) (drawnLevel : Nat) :
    (hnswinsert ctx value heaptid drawnLevel).Safe (pairing m₀ scans may self t)
      (fun _ _ => True) x := by
  unfold hnswinsert
  split
  · exact fun _ _ _ => trivial
  · split
    · split
      · exact fun _ _ _ => trivial
      · have hlock : (lockPage .update .share : HnswProgram V Unit).Yields
            (InsertUses x.shared.index.metapage.m heaptid) fun _ => True :=
          ⟨trivial, fun _ => trivial⟩
        refine (insertUses_pairing hlock rfl).seq ?_
        intro _ y _ _
        refine hnswGetMetaPageInfo_pairing ?_
        rintro ⟨m, entryPoint⟩ z hm
        exact insertUses_pairing (insertFromMeta_yields ctx _) hm
    · exact fun _ _ _ => trivial

theorem scan_pairing (ctx : ScanContext V D) (last : ScanSettings)
    (calls : List (ScanSettings × ScanCall V)) (so : HnswScanOpaque V D) :
    (scanRun ctx last calls so).Safe (pairing m₀ scans may self t) (fun _ _ => True) x := by
  refine .mono (pairing_safe_of_yields (J := fun _ => True) (.inr ?_)
    (fun _ _ => trivial) ?_ (fun _ _ _ => trivial) (scanRun_yields ctx last calls so)
    trivial) fun _ _ _ _ => trivial
  · rintro o ho tid rfl
    exact ho
  · intro index o _ _ ho
    cases o with
    | addElement | overwriteNeighbor => exact ho.elim
    | _ => trivial

/-! ## Vacuums -/

def HnswElement.Current (e : HnswElement V) (index : HnswIndex V) : Prop :=
  ∃ etup, index.element? e.tid = some etup ∧ etup.deleted = false ∧
    etup.level = e.level ∧ etup.version = e.version ∧ etup.neighbortid = e.neighbortid

omit [LinearOrder D] [LinearOrder F] [DecidableEq V] in
theorem HnswElement.Current.steady {e : HnswElement V} {index index' : HnswIndex V}
    {spared : Prop} (h : e.Current index) (hsteady : Steady spared index index')
    (hspared : spared) : e.Current index' := by
  obtain ⟨etup, hetup, hlive, hlevel, hversion, hntid⟩ := h
  obtain ⟨etup', hetup', hlive', hlevel', hversion'⟩ := hsteady.live hspared hetup hlive
  obtain ⟨etup'', hetup'', hntid'⟩ := hsteady.evolves.element hetup
  obtain rfl := Option.some.inj (hetup'.symm.trans hetup'')
  exact ⟨etup', hetup', hlive', hlevel'.trans hlevel, hversion'.trans hversion, hntid'.trans hntid⟩

def RepairsFrom (m : Nat) (elements : List (HnswElement V)) (index : HnswIndex V) : Prop :=
  index.metapage.m = m ∧ ∀ e ∈ elements, e.Current index

omit [LinearOrder D] [LinearOrder F] [DecidableEq V] in
theorem RepairsFrom.steady {m : Nat} {elements : List (HnswElement V)}
    {index index' : HnswIndex V} {spared : Prop} (h : RepairsFrom m elements index)
    (hsteady : Steady spared index index') (hspared : spared) :
    RepairsFrom m elements index' :=
  ⟨hsteady.m_eq.trans h.1, fun e he => (h.2 e he).steady hsteady hspared⟩

def AroundUses : HnswOp V → Prop
  | .addElement _ _ _ | .addDuplicate _ _ | .overwriteNeighbor _ _ _ => False
  | .updateNeighbor _ _ _ _ _ _ | .removeHeapTids _ _ | .markDeleted _ => False
  | _ => True

omit [LinearOrder D] [LinearOrder F] [DecidableEq V] in
theorem aroundUses_of_search {o : HnswOp V} (h : SearchUses none o) : AroundUses o := by
  cases o <;> trivial

section Vacuum

variable {m : Nat} {elements : List (HnswElement V)} {e : HnswElement V}
  (ht : t.isVacuum = true)
include ht

theorem repairUses_pairing {α : Type} {p : HnswProgram V α} {Q : α → Prop}
    (hp : p.Yields (RepairsOnly m e) Q) (he : e ∈ elements)
    (hx : RepairsFrom m elements x.shared.index) :
    p.Safe (pairing m₀ scans may self t)
      (fun a y => Q a ∧ RepairsFrom m elements y.shared.index) x := by
  have hspares : ∀ {o : HnswOp V}, RepairUses m e o → ∀ tid, o ≠ .markDeleted tid := by
    rintro o ho tid rfl
    exact ho
  refine pairing_safe_of_yields (.inl ht) (fun h hJ => hJ.steady h ht) ?_
    (fun ho h hJ => hJ.steady h (hspares ho)) (hp.uses_mono fun _ ho => ho.1) hx
  rintro index o _ ⟨hm, hcurrent⟩ ho
  cases o with
  | overwriteNeighbor ntid ntup ntupSize =>
    obtain ⟨rfl, hversion, hcount⟩ := ho
    obtain ⟨etup, hetup, -, hlevel, hversion', hntid⟩ := hcurrent e he
    exact ⟨e.tid, etup, hetup, hntid, hversion.trans hversion'.symm,
      by rw [hlevel, hm]; exact hcount⟩
  | addElement => exact ho.elim
  | _ => trivial

theorem aroundUses_pairing {α : Type} {p : HnswProgram V α} {Q : α → Prop}
    (hp : p.Yields AroundUses Q) (hx : RepairsFrom m elements x.shared.index) :
    p.Safe (pairing m₀ scans may self t)
      (fun a y => Q a ∧ RepairsFrom m elements y.shared.index) x := by
  have hspares : ∀ {o : HnswOp V}, AroundUses o → ∀ tid, o ≠ .markDeleted tid := by
    rintro o ho tid rfl
    exact ho
  refine pairing_safe_of_yields (.inl ht) (fun h hJ => hJ.steady h ht) ?_
    (fun ho h hJ => hJ.steady h (hspares ho)) hp hx
  intro index o _ _ ho
  cases o <;> trivial

theorem hnswLoadElement_pairing {α : Type} {tid : ItemPointer}
    {f : HnswElement V → HnswProgram V α} {Q : α → Monitored V → Prop}
    (hx : RepairsFrom m elements x.shared.index)
    (hf : ∀ e y, RepairsFrom m (e :: elements) y.shared.index →
      (f e).Safe (pairing m₀ scans may self t) Q y) :
    (hnswLoadElement tid true >>= f).Safe (pairing m₀ scans may self t) Q x := by
  intro y hxy hy _ r s hexec
  have hapt : Apt y.shared.index (.readTuple tid) := trivial
  obtain ⟨hinv, hguar, -⟩ := pairing_exec (.inr (by simp)) hy hapt hexec
  refine ⟨s, rfl, hinv, hguar, ?_⟩
  have hpair : (y.shared.index.tuple? tid, y) = (r, s) := Option.some.inj hexec
  cases hpair
  have hy' := hx.steady hxy ht
  cases htuple : y.shared.index.tuple? tid with
  | none => exact fun _ _ _ => trivial
  | some tuple =>
    cases tuple with
    | neighbor ntup => exact fun _ _ _ => trivial
    | placeholder => exact fun _ _ _ => trivial
    | element etup =>
      change Program.Safe _ ((if _ then _ else _) >>= f) _ _
      split
      · exact fun _ _ _ => trivial
      · next hlive =>
        refine hf _ y ⟨hy'.1, ?_⟩
        intro e he
        rcases List.mem_cons.mp he with rfl | he
        · exact ⟨etup, HnswIndex.element?_eq_some.mpr htuple, by simpa using hlive, rfl, rfl, rfl⟩
        · exact hy'.2 e he

variable (ctx : InsertContext V D F) (deleted : List ItemPointer)

theorem repairPoint_pairing (entryPoint point : Option EntryPoint)
    (hx : RepairsFrom m elements x.shared.index) :
    (repairPoint ctx m deleted entryPoint point).Safe (pairing m₀ scans may self t)
      (fun _ y => RepairsFrom m elements y.shared.index) x := by
  cases point with
  | none => exact fun y hxy _ => hx.steady hxy ht
  | some point =>
    refine hnswLoadElement_pairing ht hx ?_
    intro e y hy
    refine (repairUses_pairing ht (repairIfNeeded_yields ctx deleted entryPoint)
      (List.mem_cons_self ..) hy).seq ?_
    rintro _ z _ ⟨-, hz⟩ w hzw _
    have hw := hz.steady hzw ht
    exact ⟨hw.1, fun e' he' => hw.2 e' (.tail _ he')⟩

theorem lockedEntryPoint_pairing (mode : LockMode) (hx : RepairsFrom m elements x.shared.index) :
    (do
      lockPage .update mode
      hnswGetEntryPoint : HnswProgram V (Option EntryPoint)).Safe (pairing m₀ scans may self t)
        (fun _ y => RepairsFrom m elements y.shared.index) x := by
  refine .mono (aroundUses_pairing ht (Q := fun _ => True) ⟨trivial, fun _ => ?_⟩ hx)
    fun _ _ _ h => h.2
  exact hnswGetEntryPoint_yields.uses_mono fun _ => aroundUses_of_search

theorem repairHighestPoint_pairing (st : VacuumState) (hx : RepairsFrom m elements x.shared.index) :
    (repairHighestPoint ctx m st).Safe (pairing m₀ scans may self t)
      (fun _ y => RepairsFrom m elements y.shared.index) x := by
  unfold repairHighestPoint
  split
  · exact fun y hxy _ => hx.steady hxy ht
  · refine (lockedEntryPoint_pairing ht .share hx).seq ?_
    intro entryPoint y _ hy
    refine (repairPoint_pairing ht ctx st.deleted entryPoint _ hy).seq ?_
    intro point z _ hz
    have hafter : (do
        unlockPage .update .share
        return point : HnswProgram V (Option EntryPoint)).Yields AroundUses fun _ => True :=
      ⟨trivial, fun _ => trivial⟩
    exact .mono (aroundUses_pairing ht hafter hz) fun _ _ _ h => h.2

theorem replaceEntryPoint_pairing (highestPoint entryPoint : Option EntryPoint)
    (hx : RepairsFrom m elements x.shared.index) :
    (replaceEntryPoint ctx m deleted highestPoint entryPoint).Safe (pairing m₀ scans may self t)
      (fun _ y => RepairsFrom m elements y.shared.index) x := by
  unfold replaceEntryPoint
  split
  · exact fun y hxy _ => hx.steady hxy ht
  · split
    · have hupdate : (HnswOp.exec (V := V)
          (.updateMetaPage .always highestPoint none)).Yields AroundUses fun _ => True :=
        ⟨trivial, fun _ => trivial⟩
      exact .mono (aroundUses_pairing ht hupdate hx) fun _ _ _ h => h.2
    · refine hnswLoadElement_pairing ht hx ?_
      intro e y hy
      refine .mono (repairUses_pairing ht
        (repairIfNeeded_yields ctx deleted highestPoint) (List.mem_cons_self ..) hy) ?_
      rintro _ z _ ⟨-, hz⟩
      exact ⟨hz.1, fun e' he' => hz.2 e' (.tail _ he')⟩

theorem repairGraphEntryPoint_pairing (st : VacuumState)
    (hx : RepairsFrom m elements x.shared.index) :
    (repairGraphEntryPoint ctx m st).Safe (pairing m₀ scans may self t)
      (fun _ y => RepairsFrom m elements y.shared.index) x := by
  refine (repairHighestPoint_pairing ht ctx st hx).seq ?_
  intro highestPoint y _ hy
  refine (lockedEntryPoint_pairing ht .exclusive hy).seq ?_
  intro entryPoint z _ hz
  refine (replaceEntryPoint_pairing ht ctx st.deleted highestPoint entryPoint hz).seq ?_
  intro _ w _ hw
  have hafter : (unlockPage .update .exclusive : HnswProgram V Unit).Yields AroundUses
      fun _ => True :=
    ⟨trivial, fun _ => trivial⟩
  exact .mono (aroundUses_pairing ht hafter hw) fun _ _ _ h => h.2

theorem repairElements_pairing (rest : List (HnswElement V)) (hrest : ∀ e ∈ rest, e ∈ elements)
    (hx : RepairsFrom m elements x.shared.index) :
    (repairElements ctx m deleted rest).Safe (pairing m₀ scans may self t)
      (fun _ y => RepairsFrom m elements y.shared.index) x := by
  induction rest generalizing x with
  | nil => exact fun y hxy _ => hx.steady hxy ht
  | cons e rest ih =>
    have hneeds : (needsUpdated deleted e).Yields AroundUses fun _ => True :=
      (needsUpdated_yields deleted e).uses_mono fun _ => aroundUses_of_search
    have hlater : ∀ e' ∈ rest, e' ∈ elements :=
      fun e' he' => hrest e' (.tail _ he')
    refine (aroundUses_pairing ht hneeds hx).seq ?_
    rintro needed y _ ⟨-, hy⟩
    cases needed with
    | false => exact ih hlater hy
    | true =>
      refine (repairUses_pairing ht (repairElement_yields ctx)
        (hrest e (List.mem_cons_self ..)) hy).seq ?_
      rintro _ z _ ⟨-, hz⟩
      exact ih hlater hz

theorem repairPages_pairing (fuel : Nat) (blkno : BlockNumber)
    (hx : RepairsFrom m [] x.shared.index) :
    (repairPages ctx m deleted fuel blkno).Safe (pairing m₀ scans may self t)
      (fun _ y => RepairsFrom m [] y.shared.index) x := by
  induction fuel generalizing blkno x with
  | zero => exact fun _ _ _ => trivial
  | succ fuel ih =>
    intro y hxy hy _ r s hexec
    have hapt : Apt y.shared.index (.readPage blkno) := trivial
    obtain ⟨hinv, hguar, -⟩ := pairing_exec (.inr (by simp)) hy hapt hexec
    refine ⟨s, rfl, hinv, hguar, ?_⟩
    have hpair : (y.shared.index.page? blkno, y) = (r, s) := Option.some.inj hexec
    cases hpair
    have hy' := hx.steady hxy ht
    cases hpage : y.shared.index.page? blkno with
    | none => exact fun _ _ _ => trivial
    | some page =>
      have hloaded : RepairsFrom m (repairableElements blkno page) y.shared.index := by
        refine ⟨hy'.1, ?_⟩
        intro e he
        obtain ⟨⟨offno, etup⟩, hmem, hsome⟩ := List.mem_filterMap.mp he
        dsimp only at hsome
        split at hsome
        · cases hsome
        · next hfull =>
          cases hsome
          have htuple := (HnswIndex.mem_elements_page hpage).mp hmem
          refine ⟨etup, htuple, ?_, rfl, rfl, rfl⟩
          by_contra hdeleted
          exact hfull (hinv.1.emptied htuple (by simpa using hdeleted))
      refine (repairElements_pairing ht ctx deleted _ (fun _ he => he) hloaded).seq ?_
      intro _ z _ hz
      have hz' : RepairsFrom m [] z.shared.index := ⟨hz.1, by simp⟩
      split
      · exact fun w hzw _ => hz'.steady hzw ht
      · exact ih _ hz'

theorem vacuum_pairing (callback : ItemPointer → Bool) :
    (hnswbulkdelete ctx callback).Safe (pairing m₀ scans may self t) (fun _ _ => True) x := by
  refine hnswGetMetaPageInfo_pairing ?_
  rintro ⟨m, entry⟩ y hm
  have hremove : ∀ fuel blkno st, (removeHeapTids callback fuel blkno st :
      HnswProgram V VacuumState).Yields (fun o => ∃ b, o = HnswOp.removeHeapTids b callback)
      fun _ => True := by
    intro fuel
    induction fuel with
    | zero => exact fun _ _ => trivial
    | succ fuel ih =>
      intro blkno st
      refine ⟨⟨blkno, rfl⟩, fun reply => ?_⟩
      cases reply with
      | none => trivial
      | some reply =>
        dsimp only [Program.bind]
        split
        · trivial
        · exact ih _ _
  have hfirst : (removeHeapTids callback ctx.fuel hnswHeadBlkno .start :
      HnswProgram V VacuumState).Safe (pairing m₀ scans may self t)
      (fun _ z => True ∧ z.shared.index.metapage.m = m) y := by
    refine pairing_safe_of_yields (J := fun index => index.metapage.m = m) (.inl ht)
      (fun h hm => h.m_eq.trans hm) ?_ (fun _ h hm => h.m_eq.trans hm)
      (hremove ctx.fuel hnswHeadBlkno .start) hm
    rintro index o _ _ ⟨b, rfl⟩
    trivial
  refine hfirst.seq ?_
  rintro st z _ ⟨-, hz⟩
  have hz' : RepairsFrom m [] z.shared.index := ⟨hz, by simp⟩
  have hwait : (do
      lockPage .update .exclusive
      unlockPage .update .exclusive : HnswProgram V Unit).Yields AroundUses fun _ => True :=
    ⟨trivial, fun _ => ⟨trivial, fun _ => trivial⟩⟩
  have hrepair : (repairGraph ctx m st).Safe (pairing m₀ scans may self t) (fun _ _ => True) z := by
    refine (aroundUses_pairing ht hwait hz').seq ?_
    rintro _ w _ ⟨-, hw⟩
    refine (repairGraphEntryPoint_pairing ht ctx st hw).seq ?_
    intro _ u _ hu
    exact .mono (repairPages_pairing ht ctx st.deleted ctx.fuel hnswHeadBlkno hu)
      fun _ _ _ _ => trivial
  refine hrepair.seq ?_
  intro _ w _ _
  refine .mono (pairing_safe_of_yields (J := fun _ => True) (.inl ht)
    (fun _ _ => trivial) ?_ (fun _ _ _ => trivial) (markDeleted_yields ctx.fuel st.deleted)
    trivial) fun _ _ _ _ => trivial
  intro index o _ _ ho
  cases o with
  | addElement | overwriteNeighbor => exact ho.elim
  | _ => trivial

end Vacuum

variable (m₀ scans may) in
theorem pairingArgument_sound : (pairingArgument m₀ scans may).Sound where
  start := fun _ _ _ _ _ _ => trivial
  program := by
    intro i t x _ _ _
    cases t with
    | insert ctx value heaptid drawnLevel => exact insert_pairing ctx value heaptid drawnLevel
    | vacuum ctx callback => exact vacuum_pairing rfl ctx callback
    | scan ctx last calls so =>
      exact (scan_pairing ctx last calls so).seq fun _ _ _ _ _ _ _ => trivial
  finish := fun _ _ x hx _ =>
    ⟨_, rfl, hx, trivial, fun _ _ _ _ => .refl _ _, fun _ _ _ => trivial⟩
  abort := fun _ _ x _ hx _ =>
    ⟨_, rfl, hx, trivial, fun _ _ _ _ => .refl _ _, fun _ _ _ => trivial⟩

end Programs

end PgVector.Hnsw
