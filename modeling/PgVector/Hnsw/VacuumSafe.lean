import PgVector.Hnsw.InsertSafe

/-!
# A vacuum beside inserts and scans

What the three passes of `hnswbulkdelete` find out.  After the first, every element
without heap TIDs is recorded; the two points are elements that have some.  Once the
vacuum has waited for the inserts that were under way, nothing new is linked to an emptied
element, so that repairing the pages one after another leaves no such link.
-/

namespace PgVector.Hnsw

open Foundation

open Tracked

/-! ## The points -/

namespace VacuumState

def points (st : VacuumState) : List ItemPointer :=
  (st.highestPoint.toList ++ st.fallbackPoint.toList).map EntryPoint.tid

theorem deleted_notePoint (st : VacuumState) (point : EntryPoint) :
    (st.notePoint point).deleted = st.deleted := by
  unfold notePoint
  repeat' split <;> try rfl

theorem points_notePoint (st : VacuumState) (point : EntryPoint) :
    (st.notePoint point).points.Subperm (point.tid :: st.points) := by
  rcases st with ⟨deleted, _ | highest, fallback⟩
  · exact List.Subperm.refl _
  · simp only [notePoint, points]
    split
    · exact ((List.nil_sublist _).cons_cons _ |>.cons_cons _).subperm
    · cases fallback with
      | none => exact (List.Perm.swap _ _ _).subperm
      | some fallback =>
        dsimp only
        split
        · refine (List.Perm.swap _ _ _).subperm.trans ?_
          exact ((List.nil_sublist _).cons_cons _ |>.cons_cons _).subperm
        · exact (List.sublist_cons_self _ _).subperm

variable {st : VacuumState}

theorem mem_points_notePoint {point : EntryPoint} {tid : ItemPointer}
    (h : tid ∈ (st.notePoint point).points) : tid = point.tid ∨ tid ∈ st.points :=
  List.mem_cons.mp ((st.points_notePoint point).subset h)

theorem nodup_points_notePoint {point : EntryPoint} (hst : st.points.Nodup)
    (hpoint : point.tid ∉ st.points) : (st.notePoint point).points.Nodup := by
  obtain ⟨l, hperm, hsub⟩ := st.points_notePoint point
  exact hperm.nodup_iff.mp (hsub.nodup (List.nodup_cons.mpr ⟨hpoint, hst⟩))

theorem foldl_visit {blkno : BlockNumber} {visited : List VisitedElement}
    (hordered : visited.Pairwise fun a b => a.offno < b.offno) (hst : st.points.Nodup)
    (hfresh : ∀ e ∈ visited, ⟨blkno, e.offno⟩ ∉ st.points) :
    (visited.foldl (visit blkno) st).deleted = st.deleted ++
        (visited.filter VisitedElement.emptied).map (fun e => ⟨blkno, e.offno⟩) ∧
      (visited.foldl (visit blkno) st).points.Nodup ∧
      ∀ tid ∈ (visited.foldl (visit blkno) st).points, tid ∈ st.points ∨
        ∃ e ∈ visited, e.emptied = false ∧ tid = ⟨blkno, e.offno⟩ := by
  induction visited generalizing st with
  | nil => exact ⟨by simp, hst, fun tid h => .inl h⟩
  | cons e visited ih =>
    obtain ⟨hlt, hordered⟩ := List.pairwise_cons.mp hordered
    have hnew := hfresh e (List.mem_cons_self ..)
    rw [List.foldl_cons]
    cases hemptied : e.emptied with
    | true =>
      have hvisit : visit blkno st e =
          { st with deleted := st.deleted ++ [⟨blkno, e.offno⟩] } := by
        simp [visit, hemptied]
      have hst' : (visit blkno st e).points.Nodup := by
        rw [hvisit]
        exact hst
      have hfresh' : ∀ e' ∈ visited, ⟨blkno, e'.offno⟩ ∉ (visit blkno st e).points := by
        rw [hvisit]
        exact fun e' he' => hfresh e' (.tail _ he')
      obtain ⟨hdeleted, hnodup, hpoints⟩ := ih hordered hst' hfresh'
      refine ⟨?_, hnodup, fun tid htid => ?_⟩
      · rw [hdeleted, hvisit]
        simp [hemptied]
      · refine (hpoints tid htid).imp (fun h => ?_) fun ⟨e', he', h⟩ =>
          ⟨e', List.mem_cons_of_mem _ he', h⟩
        rw [hvisit] at h
        exact h
    | false =>
      have hvisit : visit blkno st e = st.notePoint ⟨⟨blkno, e.offno⟩, e.level⟩ := by
        simp [visit, hemptied]
      have hst' : (visit blkno st e).points.Nodup := by
        rw [hvisit]
        exact nodup_points_notePoint hst hnew
      have hfresh' : ∀ e' ∈ visited, ⟨blkno, e'.offno⟩ ∉ (visit blkno st e).points := by
        intro e' he' hmem
        rw [hvisit] at hmem
        rcases mem_points_notePoint hmem with heq | hold
        · have hoffno : e'.offno = e.offno := congrArg ItemPointer.offno heq
          exact Nat.ne_of_gt (hlt e' he') hoffno
        · exact hfresh e' (.tail _ he') hold
      obtain ⟨hdeleted, hnodup, hpoints⟩ := ih hordered hst' hfresh'
      refine ⟨?_, hnodup, fun tid htid => ?_⟩
      · rw [hdeleted, hvisit, deleted_notePoint]
        simp [hemptied]
      · rcases hpoints tid htid with h | ⟨e', he', h⟩
        · rw [hvisit] at h
          exact (mem_points_notePoint h).symm.imp id fun heq =>
            ⟨e, List.mem_cons_self .., hemptied, heq⟩
        · exact .inr ⟨e', List.mem_cons_of_mem _ he', h⟩

end VacuumState

variable {V D F : Type} {strict : Prop} {self : ThreadId} {t : Task V D F} {x y z : Tracked V}

/-! ## What the vacuum knows -/

structure Intact (x : Tracked V) (tid : ItemPointer) : Prop where
  present : tid ∈ x.index.net.present
  nonempty : tid ∉ x.index.net.emptied

theorem Intact.linkable {tid : ItemPointer} (h : Intact x tid) (hx : Invariant strict x) :
    x.reclaim.Linkable tid :=
  ⟨h.present, fun hdoomed => h.nonempty (hx.valid.doomed_emptied hdoomed), fun _ => h.nonempty⟩

theorem Intact.loadable {tid : ItemPointer} (h : Intact x tid) (hx : Invariant strict x) :
    Loadable x .update tid :=
  ⟨h.present, (h.linkable hx).doomed⟩

/-- The elements that have been `seen` are recorded if they are emptied. -/
structure Surveyed (x : Tracked V) (seen : ItemPointer → Prop) (st : VacuumState) : Prop where
  emptied : ∀ tid ∈ x.index.net.emptied, seen tid → tid ∈ st.deleted
  recorded : ∀ tid ∈ st.deleted, tid ∈ x.recorded
  points : ∀ tid ∈ st.points, seen tid ∧ Intact x tid
  distinct : st.points.Nodup

def Clean (x : Tracked V) (point : Option EntryPoint) : Prop :=
  ∀ p ∈ point, Intact x p.tid ∧ p.tid ∉ x.index.net.dirty

structure Repairing (me : ThreadId) (x : Tracked V) (st : VacuumState) : Prop where
  locks : x.locksOf me = []
  settled : x.settled
  surveyed : Surveyed x (fun _ => True) st

namespace Tracked.Drift

variable (ht : t.isVacuum = true)

include ht

theorem intact {tid : ItemPointer} (h : Drift t x y) (hx : Intact x tid) : Intact y tid :=
  ⟨(h.benign ht).present hx.present, fun hempty => hx.nonempty ((h.benign ht).emptied hempty)⟩

theorem surveyed {seen : ItemPointer → Prop} {st : VacuumState} (h : Drift t x y)
    (hx : Surveyed x seen st) : Surveyed y seen st where
  emptied := fun tid hempty => hx.emptied tid ((h.benign ht).emptied hempty)
  recorded := fun tid htid => (h.recorded ht).symm ▸ hx.recorded tid htid
  points := fun tid htid => ⟨(hx.points tid htid).1, h.intact ht (hx.points tid htid).2⟩
  distinct := hx.distinct

theorem settled (h : Drift t x y) (hx : x.settled) : y.settled :=
  (h.benign ht).settled.mpr hx

theorem clean {tid : ItemPointer} (h : Drift t x y) (hx : x.settled)
    (hclean : tid ∉ x.index.net.dirty) : tid ∉ y.index.net.dirty :=
  fun hdirty => hclean ((h.benign ht).dirty hx hdirty)

theorem cleanPoint {point : Option EntryPoint} (h : Drift t x y)
    (hsettled : x.settled) (hx : Clean x point) : Clean y point :=
  fun p hp => ⟨h.intact ht (hx p hp).1, h.clean ht hsettled (hx p hp).2⟩

theorem repairing {st : VacuumState} (h : Drift t x y) (hx : Repairing self x st)
    (hlocks : y.locksOf self = []) : Repairing self y st :=
  ⟨hlocks, h.settled ht hx.settled, h.surveyed ht hx.surveyed⟩

theorem entryClean (h : Drift t x y) (hx : x.settled) (hclean : x.index.net.EntryClean) :
    y.index.net.EntryClean :=
  (h.benign ht).entryClean hx hclean

end Tracked.Drift

theorem Surveyed.page {blkno : BlockNumber} {st : VacuumState} {reply : RemoveHeapTidsReply}
    (hx : Surveyed x (fun tid => tid.blkno < blkno) st) (hremoved : Removed x z blkno reply) :
    Surveyed z (fun tid => tid.blkno < blkno + 1)
      (reply.visited.foldl (VacuumState.visit blkno) st) := by
  have hfresh : ∀ e ∈ reply.visited, (⟨blkno, e.offno⟩ : ItemPointer) ∉ st.points :=
    fun e _ hmem => absurd (hx.points _ hmem).1 (Nat.lt_irrefl blkno)
  obtain ⟨hdeleted, hnodup, hpoints⟩ :=
    VacuumState.foldl_visit hremoved.ordered hx.distinct hfresh
  constructor
  · rintro tid hempty hseen
    rw [hdeleted, List.mem_append]
    by_cases hblkno : tid.blkno = blkno
    · right
      obtain ⟨etup, hetup, hflag⟩ := hempty
      subst hblkno
      refine List.mem_map.mpr ⟨⟨tid.offno, etup.level, etup.isEmptied⟩, ?_, rfl⟩
      exact List.mem_filter.mpr ⟨(hremoved.visited _).mpr ⟨etup, hetup, rfl⟩, hflag⟩
    · left
      exact hx.emptied tid (hremoved.emptied tid hempty hblkno)
        (Nat.lt_of_le_of_ne (Nat.le_of_lt_succ hseen) hblkno)
  · intro tid htid
    rw [hdeleted, List.mem_append] at htid
    rw [hremoved.recorded, List.mem_append]
    exact htid.imp (hx.recorded tid) id
  · intro tid htid
    rcases hpoints tid htid with hold | ⟨e, he, hflag, rfl⟩
    · obtain ⟨hlt, hintact⟩ := hx.points tid hold
      obtain ⟨etup, hetup⟩ := hintact.present
      obtain ⟨etup', hetup', -⟩ := hremoved.evolves.element hetup
      refine ⟨Nat.lt_succ_of_lt hlt, ⟨etup', hetup'⟩, fun hempty => ?_⟩
      exact hintact.nonempty (hremoved.emptied tid hempty (Nat.ne_of_lt hlt))
    · obtain ⟨etup, hetup, heq⟩ := (hremoved.visited e).mp he
      refine ⟨Nat.lt_succ_self blkno, ⟨etup, hetup⟩, ?_⟩
      rintro ⟨etup', hetup', hempty⟩
      obtain rfl := Option.some.inj (hetup.symm.trans hetup')
      rw [heq] at hflag
      exact absurd (hempty.symm.trans hflag) (by simp)
  · exact hnodup

section Passes

variable [LinearOrder D] [LinearOrder F] [DecidableEq V] {scans : ScanSettings → Prop}
  {may : Monitored V → Task V D F → HnswOp V → Prop} (ht : t.isVacuum = true)

include ht

/-! ## Removing heap TIDs -/

variable {blkno : BlockNumber} {st : VacuumState} {e : HnswElement V}
  {entryPoint : Option EntryPoint} (ctx : InsertContext V D F)

theorem removeHeapTids_surveys (callback : ItemPointer → Bool) (fuel : Nat)
    (hrest : x.locksOf self = []) (hpage : 1 ≤ blkno ∧ blkno ≤ x.index.pages.length)
    (hx : Surveyed x (fun tid => tid.blkno < blkno) st) :
    (removeHeapTids callback fuel blkno st).Safe (backend strict scans may self t)
      (fun st' y => y.locksOf self = [] ∧ Surveyed y (fun _ => True) st') x := by
  induction fuel generalizing x blkno st with
  | zero => exact fun _ _ _ => allowed_outOfFuel _
  | succ fuel ih =>
    refine removeHeapTids_safe ht hpage fun z reply hremoved hz hlocks => ?_
    have hsurveyed := hx.page hremoved
    have hnext := hremoved.next
    dsimp only
    split at hnext
    · next hlt =>
      rw [hnext]
      exact ih (hlocks.trans hrest) ⟨Nat.succ_pos _, hlt⟩ hsurveyed
    · next hge =>
      rw [hnext]
      intro w hzw hw
      have hwsurveyed := hzw.toDrift.surveyed ht hsurveyed
      refine ⟨hzw.locks.trans (hlocks.trans hrest), ?_⟩
      refine { hwsurveyed with
        emptied := fun tid hempty _ => ?_
        points := fun tid htid => ⟨trivial, (hwsurveyed.points tid htid).2⟩ }
      -- what is emptied by now was already there when the last page was visited
      have hemptyz := (hzw.benign ht).emptied hempty
      have hle : tid.blkno ≤ z.index.pages.length := by
        obtain ⟨etup, hetup, -⟩ := hemptyz
        exact (HnswIndex.blkno_of_element? hetup).2
      exact hsurveyed.emptied tid hemptyz (Nat.lt_succ_of_le (hle.trans (Nat.le_of_not_lt hge)))

/-! ## Repairing the graph -/

theorem needsUpdated_keeps (he : Paired x.index e) (hsettled : x.settled)
    (hx : Surveyed x (fun _ => True) st) :
    (needsUpdated st.deleted e).Keeps (backend strict scans may self t)
      (fun needed w => needed = false → e.tid ∉ w.index.net.dirty) x := by
  apply Program.Keeps.bind (readNeighborTuple_keeps
    (Q := fun ntup w => ntup.namesDeleted st.deleted = false → e.tid ∉ w.index.net.dirty) he ?_)
  · intro ntup y hxy _ hntup
    apply Program.Keeps.ret
    intro w hyw _ hneeded
    rw [Bool.or_eq_false_iff] at hneeded
    exact hyw.toDrift.clean ht (hxy.toDrift.settled ht hsettled) (hntup hneeded.1)
  · intro y w ntup hxy hy _ hntup hyw _ hnone
    have hysettled := hxy.toDrift.settled ht hsettled
    refine hyw.toDrift.clean ht hysettled ?_
    rintro ⟨-, b, hb, hempty⟩
    rw [← hntup] at hb
    have hdeleted := (hxy.toDrift.surveyed ht hx).emptied b hempty trivial
    have hany := List.any_eq_false.mp hnone b hb.1
    simp [hb.2, hdeleted] at hany

omit ht in
theorem overwriteNeighbors_keeps (m : Nat) {skip : Option ItemPointer}
    {layers : List (List (HnswCandidate (HnswElement V) F))} (hlock : x.Holds self .update)
    (he : Paired x.index e) (hfree : e.tid ∉ x.doomed)
    (hlayers : LayersOf (fun _ e => Found x skip e) m layers) :
    (overwriteNeighbors e m (layerTids layers)).Keeps (backend strict scans may self t)
      (fun _ w => w.settled → e.tid ∉ w.index.net.dirty) x := by
  refine (overwriteNeighbor_keeps _ _ hlock he hfree (linkable_of_named hlayers)).bind ?_
  rintro reply y hxy _ ⟨hthere, hdone⟩
  cases reply with
  | missing => exact absurd rfl hthere
  | failed => exact .fail fun _ => ⟨by simp, by simp, by simp⟩
  | written =>
    apply Program.Keeps.ret
    intro w hyw _ hsettled hdirty
    have hlocky := (hxy.holds .update).mpr hlock
    exact hdone rfl (hyw.stays.settled hlocky hsettled) (hyw.stays.dirty hlocky hsettled hdirty)

/-- A repaired element names no emptied one, unless it was skipped as the entry point. -/
theorem repairGraphElement_keeps (m : Nat) (hlock : x.Holds self .update) (hsettled : x.settled)
    (he : Paired x.index e) (hintact : Intact x e.tid)
    (hentry : ∀ p ∈ entryPoint, Loadable x .update p.tid) :
    (repairGraphElement ctx m e entryPoint).Keeps (backend strict scans may self t)
      (fun _ w => entryPoint.map EntryPoint.tid ≠ some e.tid → e.tid ∉ w.index.net.dirty) x := by
  unfold repairGraphElement
  split
  · next hskip => exact .ret fun _ _ _ h => absurd hskip h
  · have htids : ∀ tid ∈ entryPoint.map EntryPoint.tid, Loadable x .update tid := by
      intro tid htid
      obtain ⟨p, hp, rfl⟩ := Option.mem_map.mp htid
      exact hentry p hp
    refine (findNeighborsOnDisk_keeps ctx e.value e.level m (some e.tid) hlock htids).bind ?_
    intro found y hxy hy hfound
    have hlocky := (hxy.holds .update).mpr hlock
    have hintacty := hxy.toDrift.intact ht hintact
    refine (overwriteNeighbors_keeps m hlocky (he.evolves hxy.evolves)
      (hintacty.linkable hy).doomed hfound.layers).bind ?_
    intro _ z hyz hz hclean
    have hlockz := (hyz.holds .update).mpr hlocky
    have hsettledz := (hxy.trans hyz).toDrift.settled ht hsettled
    have hlink : z.reclaim.Linkable ({ e with heaptids := [] } : HnswElement V).tid :=
      (hyz.toDrift.intact ht hintacty).linkable hz
    refine (hnswUpdateNeighborsOnDisk_keeps ctx m true hlockz hlink
      (hfound.layers.mono fun _ _ h => hyz.found hlocky h)).bind ?_
    intro _ w hzw _ _
    apply Program.Keeps.ret
    intro u hwu _ _
    exact (hzw.trans hwu).toDrift.clean ht hsettledz (hclean hsettledz)

theorem repairIfNeeded_keeps (m : Nat) (hlock : x.Holds self .update) (hsettled : x.settled)
    (hx : Surveyed x (fun _ => True) st) (he : Paired x.index e) (hintact : Intact x e.tid)
    (hentry : ∀ p ∈ entryPoint, Loadable x .update p.tid) :
    (repairIfNeeded ctx m st.deleted e entryPoint).Keeps (backend strict scans may self t)
      (fun _ w => entryPoint.map EntryPoint.tid ≠ some e.tid → e.tid ∉ w.index.net.dirty) x := by
  refine (needsUpdated_keeps ht he hsettled hx).bind fun needed y hxy _ hneeded => ?_
  have hlocky := (hxy.holds .update).mpr hlock
  have hsettledy := hxy.toDrift.settled ht hsettled
  cases needed with
  | false =>
    apply Program.Keeps.ret
    exact fun w hyw _ _ => hyw.toDrift.clean ht hsettledy (hneeded rfl)
  | true =>
    refine (repairGraphElement_keeps ht ctx m hlocky hsettledy (he.evolves hxy.evolves)
      (hxy.toDrift.intact ht hintact) fun p hp => hxy.loadable hlock (hentry p hp)).bind ?_
    intro _ z hyz _ hclean
    apply Program.Keeps.ret
    exact fun w hzw _ hne =>
      hzw.toDrift.clean ht (hyz.toDrift.settled ht hsettledy) (hclean hne)

omit ht in
theorem hnswGetEntryPoint_read :
    (hnswGetEntryPoint : HnswProgram V (Option EntryPoint)).Keeps (backend strict scans may self t)
      (fun r w => ∃ y, Rely self t x y ∧ Invariant strict y ∧
        r = y.index.metapage.entryPoint ∧ Rely self t y w) x := by
  refine hnswGetMetaPageInfo_keeps.bind ?_
  rintro ⟨m, entryPoint⟩ w _ _ ⟨y, hxy, hy, hentry, hyw⟩
  apply Program.Keeps.ret
  exact fun z hwz _ => ⟨y, hxy, hy, hentry, hyw.trans hwz⟩

theorem repairPoint_keeps (m : Nat) {point : Option EntryPoint} (hlock : x.Holds self .update)
    (hsettled : x.settled) (hx : Surveyed x (fun _ => True) st)
    (hentry : ∀ p ∈ entryPoint, Loadable x .update p.tid)
    (hpoint : ∀ p ∈ point, Intact x p.tid ∧ entryPoint.map EntryPoint.tid ≠ some p.tid) :
    (repairPoint ctx m st.deleted entryPoint point).Keeps (backend strict scans may self t)
      (fun r w => Clean w r) x := by
  cases point with
  | none => exact .ret fun _ _ _ _ h => nomatch h
  | some point =>
    obtain ⟨hintact, hne⟩ := hpoint point rfl
    refine Program.Keeps.of_inv fun y hxy hy => ?_
    have hlocky := (hxy.holds .update).mpr hlock
    have hintacty := hxy.toDrift.intact ht hintact
    refine (hnswLoadElement_keeps true hlocky (hintacty.loadable hy)).bind ?_
    rintro e z hyz hz ⟨htid, hloaded⟩
    have hxz := hxy.trans hyz
    have hlockz := (hyz.holds .update).mpr hlocky
    have hsettledz := hxz.toDrift.settled ht hsettled
    have hintactz : Intact z e.tid := by
      rw [htid]
      exact hyz.toDrift.intact ht hintacty
    refine (repairIfNeeded_keeps ht ctx m hlockz hsettledz (hxz.toDrift.surveyed ht hx)
      hloaded.paired hintactz fun p hp => hxz.loadable hlock (hentry p hp)).bind ?_
    intro _ w hzw _ hclean
    apply Program.Keeps.ret
    rintro u hwu _ p ⟨⟩
    rw [htid] at hclean hintactz
    exact ⟨(hzw.trans hwu).toDrift.intact ht hintactz,
      hwu.toDrift.clean ht (hzw.toDrift.settled ht hsettledz) (hclean hne)⟩

omit ht [LinearOrder D] [LinearOrder F] [DecidableEq V] in
theorem holds_of_locksOf {held : HeldLock} (h : x.locksOf self = [held]) : x.Holds self held.lock :=
  ⟨held, by rw [h]; exact List.mem_singleton_self _, rfl⟩

theorem repairHighestPoint_safe (m : Nat) (hx : Repairing self x st) :
    (repairHighestPoint ctx m st).Safe (backend strict scans may self t)
      (fun point y => Repairing self y st ∧ Clean y point) x := by
  unfold repairHighestPoint
  split
  · intro y hxy _
    exact ⟨hxy.toDrift.repairing ht hx (hxy.locks.trans hx.locks), fun _ h => nomatch h⟩
  · next highest hhighest =>
    refine lockPage_safe (.inl rfl) fun y hxy _ hy => ?_
    rw [hx.locks] at hy
    have hlocky := holds_of_locksOf hy
    refine (hnswGetEntryPoint_loadable hlocky).seq fun entryPoint z hyz _ hentry => ?_
    have hxz : Drift t x z := hxy.trans hyz.toDrift
    have hlockz := (hyz.holds .update).mpr hlocky
    have hsettledz := hxz.settled ht hx.settled
    have hsurveyedz := hxz.surveyed ht hx.surveyed
    have hpoint : ∀ p ∈ (if entryPoint.map EntryPoint.tid = some highest.tid then
        st.fallbackPoint else some highest), Intact z p.tid ∧
          entryPoint.map EntryPoint.tid ≠ some p.tid := by
      intro p hp
      split at hp
      · next heq =>
        have hdistinct := hsurveyedz.distinct
        refine ⟨(hsurveyedz.points p.tid ?_).2, ?_⟩
        · simp [VacuumState.points, Option.mem_def.mp hp]
        · rw [heq]
          simp only [VacuumState.points, hhighest, Option.mem_def.mp hp] at hdistinct
          simpa using hdistinct
      · next hne =>
        cases hp
        refine ⟨(hsurveyedz.points highest.tid ?_).2, hne⟩
        simp [VacuumState.points, hhighest]
    refine (repairPoint_keeps ht ctx m hlockz hsettledz hsurveyedz hentry hpoint).seq ?_
    intro point w hzw _ hclean
    refine unlockPage_safe fun u hwu _ hu => ?_
    rw [hzw.locks, hyz.locks, hy, List.erase_cons_head] at hu
    intro v huv _
    have hwv := hwu.trans huv.toDrift
    exact ⟨(hxz.trans (hzw.toDrift.trans hwv)).repairing ht hx (huv.locks.trans hu),
      hwv.cleanPoint ht (hzw.toDrift.settled ht hsettledz) hclean⟩

/-- Whatever the entry point is afterwards, it is intact and names no emptied element. -/
theorem replaceEntryPoint_keeps (m : Nat) {highestPoint : Option EntryPoint}
    (hlock : x.Holds self .update) (hsettled : x.settled) (hx : Surveyed x (fun _ => True) st)
    (hinv : Invariant strict x) (hpoint : Clean x highestPoint)
    (hload : ∀ p ∈ entryPoint, Loadable x .update p.tid)
    (hentry : ∀ a, x.index.net.entry = some a → entryPoint.map EntryPoint.tid = some a ∨
      (a ∉ x.index.net.emptied ∧ a ∉ x.index.net.dirty)) :
    (replaceEntryPoint ctx m st.deleted highestPoint entryPoint).Keeps
      (backend strict scans may self t) (fun _ w => w.index.net.EntryClean) x := by
  cases entryPoint with
  | none =>
    apply Program.Keeps.ret
    intro w hxw _
    refine hxw.toDrift.entryClean ht hsettled fun a ha => ?_
    exact (hentry a ha).resolve_left (by simp)
  | some entryPoint =>
    change Program.Keeps _ (if _ then _ else _) _ _
    split
    · refine (updateMetaPage_keeps .always highestPoint none (.inl hlock) ?_).mono ?_
      · intro _ p hp
        exact ⟨(hpoint p hp).1.linkable hinv, fun _ => (hpoint p hp).2⟩
      · intro _ w hxw _ hclean
        exact hclean rfl ht (hxw.toDrift.settled ht hsettled)
    · next hnot =>
      have hkept : entryPoint.tid ∉ x.index.net.emptied := by
        intro hempty
        exact hnot (List.contains_iff_mem.mpr (hx.emptied _ hempty trivial))
      have hloadable := hload entryPoint rfl
      refine (hnswLoadElement_keeps true hlock hloadable).bind ?_
      rintro e y hxy hy ⟨htid, hloaded⟩
      have hsettledy := hxy.toDrift.settled ht hsettled
      have hpointy := hxy.toDrift.cleanPoint ht hsettled hpoint
      have hintact : Intact y e.tid := by
        rw [htid]
        exact hxy.toDrift.intact ht ⟨hloadable.present, hkept⟩
      refine (repairIfNeeded_keeps ht ctx m ((hxy.holds .update).mpr hlock) hsettledy
        (hxy.toDrift.surveyed ht hx) hloaded.paired hintact
        fun p hp => (hpointy p hp).1.loadable hy).mono ?_
      intro _ w hyw _ hclean
      have hrepaired : e.tid ∉ w.index.net.dirty := by
        by_cases hsame : highestPoint.map EntryPoint.tid = some e.tid
        · obtain ⟨p, hp, heq⟩ := Option.map_eq_some_iff.mp hsame
          rw [← heq]
          exact hyw.toDrift.clean ht hsettledy (hpointy p hp).2
        · exact hclean hsame
      have hxw := (hxy.trans hyw).toDrift
      intro a ha
      refine ((hxw.benign ht).entry hsettled a ha).elim (fun hold => ?_) id
      rcases hentry a hold with heq | hgood
      · cases heq
        exact ⟨(hxw.intact ht ⟨hloadable.present, hkept⟩).nonempty, htid ▸ hrepaired⟩
      · exact ⟨fun h => hgood.1 ((hxw.benign ht).emptied h), hxw.clean ht hsettled hgood.2⟩

theorem repairGraphEntryPoint_safe (m : Nat) (hx : Repairing self x st) :
    (repairGraphEntryPoint ctx m st).Safe (backend strict scans may self t)
      (fun _ y => Repairing self y st ∧ y.index.net.EntryClean) x := by
  refine (repairHighestPoint_safe ht ctx m hx).seq ?_
  rintro highestPoint y _ ⟨hy, hpoint⟩
  refine lockPage_safe (.inl rfl) fun z hyz _ hz => ?_
  rw [hy.locks] at hz
  have hlockz := holds_of_locksOf hz
  refine hnswGetEntryPoint_read.seq ?_
  rintro entryPoint w hzw hw ⟨u, hzu, hu, rfl, huw⟩
  have hyw : Drift t y w := hyz.trans hzw.toDrift
  have hlocku := (hzu.holds .update).mpr hlockz
  have hsettledu : u.settled := (hyz.trans hzu.toDrift).settled ht hy.settled
  refine (replaceEntryPoint_keeps ht ctx m ((hzw.holds .update).mpr hlockz)
    (hyw.settled ht hy.settled) (hyw.surveyed ht hy.surveyed) hw
    (hyw.cleanPoint ht hy.settled hpoint) ?_ ?_).seq ?_
  · exact fun p hp => huw.loadable hlocku (loadable_of_entry hu .update hp)
  · exact (huw.benign ht).entry hsettledu
  · intro _ v hwv _ hclean
    have hyv : Drift t y v := hyw.trans hwv.toDrift
    refine unlockPage_safe (k := .ret) fun s hvs _ hs r hsr _ => ?_
    rw [hwv.locks, hzw.locks, hz, List.erase_cons_head] at hs
    have hvr := hvs.trans hsr.toDrift
    exact ⟨(hyv.trans hvr).repairing ht hy (hsr.locks.trans hs),
      hvr.entryClean ht (hyv.settled ht hy.settled) hclean⟩

/-! ## The elements of the pages -/

theorem repairLocked_safe (m : Nat) (lockmode : LockMode)
    (hlocks : x.locksOf self = [⟨self, .update, lockmode⟩]) (hsettled : x.settled)
    (he : Paired x.index e) (hintact : Intact x e.tid)
    (hload : ∀ p ∈ entryPoint, Loadable x .update p.tid ∧ p.tid ∉ x.index.net.dirty) :
    (repairLocked ctx m e entryPoint lockmode).Safe (backend strict scans may self t)
      (fun _ y => Drift t x y ∧ y.locksOf self = [] ∧ e.tid ∉ y.index.net.dirty) x := by
  have hlock := holds_of_locksOf hlocks
  refine (repairGraphElement_keeps ht ctx m hlock hsettled he hintact
    fun p hp => (hload p hp).1).seq fun entryPoint' y hxy hy hclean => ?_
  have hsettledy := hxy.toDrift.settled ht hsettled
  have hrepaired : e.tid ∉ y.index.net.dirty := by
    by_cases hsame : entryPoint.map EntryPoint.tid = some e.tid
    · obtain ⟨p, hp, heq⟩ := Option.map_eq_some_iff.mp hsame
      rw [← heq]
      exact hxy.toDrift.clean ht hsettled (hload p hp).2
    · exact hclean hsame
  have hupdate : (updateEntryPoint e.tid e.level entryPoint' : HnswProgram V Unit).Keeps
      (backend strict scans may self t) (fun _ _ => True) y := by
    unfold updateEntryPoint
    split
    · refine (updateMetaPage_keeps .greater _ none (.inl ((hxy.holds .update).mpr hlock))
        ?_).mono fun _ _ _ _ _ => trivial
      rintro - p ⟨⟩
      exact ⟨(hxy.toDrift.intact ht hintact).linkable hy, fun _ => hrepaired⟩
    · exact .ret fun _ _ _ => trivial
  refine hupdate.seq fun _ z hyz _ _ => ?_
  refine unlockPage_safe (k := .ret) fun w hzw _ hw u hwu _ => ?_
  rw [hyz.locks, hxy.locks, hlocks, List.erase_cons_head] at hw
  have hyu := hyz.toDrift.trans (hzw.trans hwu.toDrift)
  exact ⟨hxy.toDrift.trans hyu, hwu.locks.trans hw, hyu.clean ht hsettledy hrepaired⟩

theorem hnswGetEntryPoint_clean (hlock : x.Holds self .update) (hsettled : x.settled)
    (hclean : x.index.net.EntryClean) :
    (hnswGetEntryPoint : HnswProgram V (Option EntryPoint)).Keeps (backend strict scans may self t)
      (fun r w => ∀ p ∈ r, Loadable w .update p.tid ∧ p.tid ∉ w.index.net.dirty) x := by
  refine hnswGetEntryPoint_read.mono ?_
  rintro r w _ _ ⟨y, hxy, hy, rfl, hyw⟩ p hp
  have hsettledy := hxy.toDrift.settled ht hsettled
  have hentry : y.index.net.entry = some p.tid := congrArg (Option.map EntryPoint.tid) hp
  exact ⟨hyw.loadable ((hxy.holds .update).mpr hlock) (loadable_of_entry hy .update hp),
    hyw.toDrift.clean ht hsettledy (hxy.toDrift.entryClean ht hsettled hclean p.tid hentry).2⟩

theorem repairElement_safe (m : Nat) (hrest : x.locksOf self = []) (hsettled : x.settled)
    (hclean : x.index.net.EntryClean) (he : Paired x.index e) (hintact : Intact x e.tid) :
    (repairElement ctx m e).Safe (backend strict scans may self t)
      (fun _ y => Drift t x y ∧ y.locksOf self = [] ∧ e.tid ∉ y.index.net.dirty) x := by
  refine lockPage_safe (.inl rfl) fun y hxy _ hy => ?_
  rw [hrest] at hy
  have hsettledy := hxy.settled ht hsettled
  refine (hnswGetEntryPoint_clean ht (holds_of_locksOf hy) hsettledy
    (hxy.entryClean ht hsettled hclean)).seq fun entryPoint z hyz _ hload => ?_
  have hxz := hxy.trans hyz.toDrift
  split
  · refine unlockPage_safe fun w hzw _ hw => ?_
    rw [hyz.locks, hy, List.erase_cons_head] at hw
    refine lockPage_safe (.inl rfl) fun u hwu _ hu => ?_
    rw [hw] at hu
    have hxu := hxz.trans (hzw.trans hwu)
    refine (hnswGetEntryPoint_clean ht (holds_of_locksOf hu) (hxu.settled ht hsettled)
      (hxu.entryClean ht hsettled hclean)).seq fun entryPoint' v huv _ hload' => ?_
    have hxv := hxu.trans huv.toDrift
    refine (repairLocked_safe ht ctx m .exclusive (huv.locks.trans hu)
      (hxv.settled ht hsettled) (he.evolves hxv.evolves) (hxv.intact ht hintact) hload').mono ?_
    exact fun _ r _ h => ⟨hxv.trans h.1, h.2⟩
  · refine (repairLocked_safe ht ctx m .share (hyz.locks.trans hy) (hxz.settled ht hsettled)
      (he.evolves hxz.evolves) (hxz.intact ht hintact) hload).mono ?_
    exact fun _ r _ h => ⟨hxz.trans h.1, h.2⟩

theorem repairElements_safe (m : Nat) {elements : List (HnswElement V)} (hx : Repairing self x st)
    (hclean : x.index.net.EntryClean)
    (helements : ∀ e ∈ elements, Paired x.index e ∧ Intact x e.tid) :
    (repairElements ctx m st.deleted elements).Safe (backend strict scans may self t)
      (fun _ y => Drift t x y ∧ y.locksOf self = [] ∧
        ∀ e ∈ elements, e.tid ∉ y.index.net.dirty) x := by
  induction elements generalizing x with
  | nil => exact fun y hxy _ => ⟨hxy.toDrift, hxy.locks.trans hx.locks, fun _ h => nomatch h⟩
  | cons e elements ih =>
    obtain ⟨he, hintact⟩ := helements e (List.mem_cons_self ..)
    -- the rest, once this element names no emptied one
    have hrest {y : Tracked V} (hxy : Drift t x y) (hlocks : y.locksOf self = [])
        (hrepaired : e.tid ∉ y.index.net.dirty) :
        (repairElements ctx m st.deleted elements).Safe (backend strict scans may self t)
          (fun _ z => Drift t x z ∧ z.locksOf self = [] ∧
            ∀ e' ∈ e :: elements, e'.tid ∉ z.index.net.dirty) y := by
      have hy := hxy.repairing ht hx hlocks
      refine (ih hy (hxy.entryClean ht hx.settled hclean) fun e' he' => ?_).mono ?_
      · obtain ⟨hpaired, hintact'⟩ := helements e' (.tail _ he')
        exact ⟨hpaired.evolves hxy.evolves, hxy.intact ht hintact'⟩
      · rintro _ z _ ⟨hyz, hz, hothers⟩
        refine ⟨hxy.trans hyz, hz, List.forall_mem_cons.mpr ⟨?_, hothers⟩⟩
        exact hyz.clean ht hy.settled hrepaired
    refine (needsUpdated_keeps ht he hx.settled hx.surveyed).seq ?_
    intro needed y hxy _ hneeded
    have hlocks := hxy.locks.trans hx.locks
    cases needed with
    | false => exact hrest hxy.toDrift hlocks (hneeded rfl)
    | true =>
      refine (repairElement_safe ht ctx m hlocks (hxy.toDrift.settled ht hx.settled)
        (hxy.toDrift.entryClean ht hx.settled hclean) (he.evolves hxy.evolves)
        (hxy.toDrift.intact ht hintact)).seq ?_
      rintro _ z _ ⟨hyz, hz, hrepaired⟩
      exact hrest (hxy.toDrift.trans hyz) hz hrepaired

omit ht in
theorem readPage_present (hpage : 1 ≤ blkno ∧ blkno ≤ x.index.pages.length) :
    (HnswOp.exec (.readPage blkno)).Keeps (backend strict scans may self t)
      (fun r w => ∃ y page, r = some page ∧ y.index.page? blkno = some page ∧
        Rely self t x y ∧ Invariant strict y ∧ Rely self t y w) x := by
  apply answer_keeps (fun _ => rfl) (fun _ _ _ => rfl)
  intro y w hxy hy _ hyw _
  have hsome : (y.index.page? blkno).isSome :=
    HnswIndex.page?_isSome.mpr ⟨hpage.1, hpage.2.trans hxy.evolves.length⟩
  obtain ⟨page, hread⟩ := Option.isSome_iff_exists.mp hsome
  exact ⟨y, page, hread, hread, hxy, hy, hyw⟩

omit ht [LinearOrder D] [LinearOrder F] [DecidableEq V] in
theorem repairableElements_intact {page : Page (IndexTuple V)}
    (hpage : x.index.page? blkno = some page) :
    ∀ e ∈ repairableElements blkno page, Paired x.index e ∧ Intact x e.tid := by
  intro e he
  obtain ⟨⟨offno, etup⟩, hmem, hsome⟩ := List.mem_filterMap.mp he
  have hetup := (HnswIndex.mem_elements_page hpage).mp hmem
  dsimp only at hsome
  split at hsome
  · cases hsome
  · next hfull =>
    cases hsome
    refine ⟨⟨etup, hetup, rfl⟩, ⟨etup, hetup⟩, ?_⟩
    rintro ⟨etup', hetup', hempty⟩
    obtain rfl := Option.some.inj (hetup.symm.trans hetup')
    exact hfull hempty

omit ht [LinearOrder D] [LinearOrder F] [DecidableEq V] in
theorem exists_repairable {page : Page (IndexTuple V)} {tid : ItemPointer}
    (hpage : x.index.page? tid.blkno = some page) (hdirty : tid ∈ x.index.net.dirty) :
    ∃ e ∈ repairableElements tid.blkno page, e.tid = tid := by
  obtain ⟨hfull, b, ⟨etup, ntup, hetup, -⟩, -⟩ := hdirty
  refine ⟨{ hnswLoadElementFromTuple tid etup true with heaptids := [] },
    List.mem_filterMap.mpr ⟨(tid.offno, etup), ?_, ?_⟩, rfl⟩
  · exact (HnswIndex.mem_elements_page hpage).mpr hetup
  · exact if_neg fun hempty => hfull ⟨etup, hetup, hempty⟩

theorem repairPages_safe (m : Nat) (fuel : Nat) (hx : Repairing self x st)
    (hclean : x.index.net.EntryClean) (hpage : 1 ≤ blkno ∧ blkno ≤ x.index.pages.length)
    (hbefore : ∀ tid ∈ x.index.net.dirty, blkno ≤ tid.blkno) :
    (repairPages ctx m st.deleted fuel blkno).Safe (backend strict scans may self t)
      (fun _ z => Drift t x z ∧ z.locksOf self = [] ∧ z.index.net.dirty = ∅) x := by
  induction fuel generalizing x blkno with
  | zero => exact fun _ _ _ => allowed_outOfFuel _
  | succ fuel ih =>
    refine (readPage_present hpage).seq ?_
    rintro _ w hxw _ ⟨y, page, rfl, hread, hxy, hy, hyw⟩
    have hsettledy := hxy.toDrift.settled ht hx.settled
    have helements : ∀ e ∈ repairableElements blkno page, Paired w.index e ∧ Intact w e.tid := by
      intro e he
      obtain ⟨hpaired, hintact⟩ := repairableElements_intact hread e he
      exact ⟨hpaired.evolves hyw.evolves, hyw.toDrift.intact ht hintact⟩
    refine (repairElements_safe ht ctx m (hxw.toDrift.repairing ht hx (hxw.locks.trans hx.locks))
      (hxw.toDrift.entryClean ht hx.settled hclean) helements).seq ?_
    rintro _ z _ ⟨hwz, hz, hrepaired⟩
    have hyz : Drift t y z := hyw.toDrift.trans hwz
    have hxz : Drift t x z := hxy.toDrift.trans hyz
    -- what is dirty now was dirty when the page was read
    have hback : z.index.net.dirty ⊆ y.index.net.dirty := (hyz.benign ht).dirty hsettledy
    have hafter : ∀ tid ∈ z.index.net.dirty, blkno + 1 ≤ tid.blkno := by
      intro tid hdirty
      have hle := hbefore tid ((hxy.benign ht).dirty hx.settled (hback hdirty))
      refine Nat.lt_of_le_of_ne hle fun heq => ?_
      subst heq
      obtain ⟨e, he, htid⟩ := exists_repairable hread (hback hdirty)
      exact hrepaired e he (htid ▸ hdirty)
    cases hnext : page.nextblkno with
    | none =>
      intro u hzu _
      refine ⟨hxz.trans hzu.toDrift, hzu.locks.trans hz, ?_⟩
      refine Set.eq_empty_iff_forall_notMem.mpr fun tid hdirty => ?_
      have hdirtyz := (hzu.benign ht).dirty (hxz.settled ht hx.settled) hdirty
      obtain ⟨-, b, ⟨etup, ntup, hetup, -⟩, -⟩ := hback hdirtyz
      have hle := (HnswIndex.blkno_of_element? hetup).2
      rw [← hy.wellFormed.chained.last_eq hread hnext] at hle
      exact Nat.not_succ_le_self blkno ((hafter tid hdirtyz).trans hle)
    | some next =>
      obtain ⟨rfl, hlt⟩ := hy.wellFormed.chained.next_eq hread hnext
      refine (ih (hxz.repairing ht hx hz) (hxz.entryClean ht hx.settled hclean)
        ⟨Nat.succ_pos _, hlt.trans hyz.evolves.length⟩ hafter).mono ?_
      exact fun _ u _ h => ⟨hxz.trans h.1, h.2⟩

/-- Afterwards no element in use names an emptied one, nor is one the entry point. -/
theorem repairGraph_safe (m : Nat) (hrest : x.locksOf self = [])
    (hx : Surveyed x (fun _ => True) st) :
    (repairGraph ctx m st).Safe (backend strict scans may self t)
      (fun _ z => Repairing self z st ∧ z.index.net.EntryClean ∧ z.index.net.dirty = ∅) x := by
  refine settle_safe ht fun y hsettled hevolves hempty hrecorded hy hlocks => ?_
  rw [hrest] at hlocks
  have hsurveyed : Surveyed y (fun _ => True) st := by
    refine ⟨fun tid h => hx.emptied tid (hempty h), fun tid h => hrecorded ▸ hx.recorded tid h,
      fun tid h => ⟨trivial, ?_⟩, hx.distinct⟩
    obtain ⟨etup, hetup⟩ := (hx.points tid h).2.present
    obtain ⟨etup', hetup', -⟩ := hevolves.element hetup
    exact ⟨⟨etup', hetup'⟩, fun h' => (hx.points tid h).2.nonempty (hempty h')⟩
  refine unlockPage_safe fun z hyz hz hzlocks => ?_
  rw [hlocks, List.erase_cons_head] at hzlocks
  have hrepairing : Repairing self z st :=
    ⟨hzlocks, hyz.settled ht hsettled, hyz.surveyed ht hsurveyed⟩
  refine (repairGraphEntryPoint_safe ht ctx m hrepairing).seq ?_
  rintro _ w hw ⟨hrepairing', hclean⟩
  refine (repairPages_safe ht ctx m ctx.fuel hrepairing' hclean
    ⟨Nat.le_refl 1, hw.wellFormed.head⟩ ?_).mono ?_
  · rintro tid ⟨-, b, ⟨etup, ntup, hetup, -⟩, -⟩
    exact (HnswIndex.blkno_of_element? hetup).1
  · rintro _ u _ ⟨hwu, hu, hdirty⟩
    exact ⟨hwu.repairing ht hrepairing' hu, hwu.entryClean ht hrepairing'.settled hclean, hdirty⟩

/-! ## Marking elements as deleted -/

/-- An element in use names nothing that was recorded, if all that is still emptied. -/
theorem confirmElements_keeps {deleted : List ItemPointer}
    {elements : List (OffsetNumber × HnswElementTuple V)} (hx : ∀ tid ∈ deleted, tid ∈ x.recorded)
    (hsettled : x.settled) (hdirty : x.index.net.dirty = ∅)
    (helements : ∀ p ∈ elements, ∃ etup, x.index.element? ⟨blkno, p.1⟩ = some etup ∧
      etup.neighbortid = p.2.neighbortid ∧ (p.2.isEmptied = false → Intact x ⟨blkno, p.1⟩)) :
    (confirmElements deleted elements).Keeps (backend strict scans may self t)
      (fun _ _ => True) x := by
  induction elements generalizing x with
  | nil => exact .ret fun _ _ _ => trivial
  | cons p elements ih =>
    obtain ⟨offno, etup⟩ := p
    obtain ⟨etup', hetup', hntid, hintact⟩ := helements _ (List.mem_cons_self ..)
    have hrest := fun p hp => helements p (.tail _ hp)
    unfold confirmElements
    split
    · exact ih hx hsettled hdirty hrest
    · next hfull =>
      have hpaired : Paired x.index (hnswLoadElementFromTuple ⟨blkno, offno⟩ etup true) :=
        ⟨etup', hetup', hntid⟩
      have hread : (readNeighborTuple etup.neighbortid).Keeps (backend strict scans may self t)
          (fun ntup _ => strict → ntup.namesDeleted deleted = false) x := by
        refine readNeighborTuple_keeps hpaired ?_
        intro y w ntup hxy hy _ hntup _ _ hstrict
        rw [Bool.eq_false_iff]
        intro hnames
        obtain ⟨b, hb, hdeleted⟩ := List.any_eq_true.mp hnames
        rw [Bool.and_eq_true, List.contains_iff_mem] at hdeleted
        have hnamed : b ∈ y.index.net.names ⟨blkno, offno⟩ := hntup ▸ ⟨hb, hdeleted.1⟩
        have hempty := hy.recorded hstrict b (hxy.recorded ht ▸ hx b hdeleted.2)
        have hdirtyy : (⟨blkno, offno⟩ : ItemPointer) ∉ y.index.net.dirty :=
          hxy.toDrift.clean ht hsettled (by rw [hdirty]; exact Set.notMem_empty _)
        refine hdirtyy ⟨?_, b, hnamed, hempty⟩
        exact (hxy.toDrift.intact ht (hintact (by simpa using hfull))).nonempty
      refine hread.bind fun ntup y hxy _ hnone => ?_
      split
      · next hnames =>
        refine .fail fun _ => ⟨by simp, by simp, fun hstrict => ?_⟩
        rw [hnone hstrict] at hnames
        cases hnames
      · refine ih (hxy.recorded ht ▸ hx) (hxy.toDrift.settled ht hsettled)
          (Set.subset_eq_empty ((hxy.benign ht).dirty hsettled) hdirty) fun p hp => ?_
        obtain ⟨etup₁, hetup₁, hntid₁, hintact₁⟩ := hrest p hp
        obtain ⟨etup₂, hetup₂, hntid₂⟩ := hxy.evolves.element hetup₁
        exact ⟨etup₂, hetup₂, hntid₂.trans hntid₁,
          fun hfull => hxy.toDrift.intact ht (hintact₁ hfull)⟩

theorem confirmRepaired_keeps {deleted : List ItemPointer} (fuel : Nat)
    (hx : ∀ tid ∈ deleted, tid ∈ x.recorded) (hsettled : x.settled)
    (hdirty : x.index.net.dirty = ∅) (hpage : 1 ≤ blkno ∧ blkno ≤ x.index.pages.length) :
    (confirmRepaired deleted fuel blkno).Keeps (backend strict scans may self t)
      (fun _ _ => True) x := by
  induction fuel generalizing x blkno with
  | zero => exact .fail fun _ => allowed_outOfFuel _
  | succ fuel ih =>
    refine (readPage_present hpage).bind ?_
    rintro _ w hxw _ ⟨y, page, rfl, hread, hxy, hy, hyw⟩
    have hdrained {z : Tracked V} (hxz : Drift t x z) : z.index.net.dirty = ∅ :=
      Set.subset_eq_empty ((hxz.benign ht).dirty hsettled) hdirty
    have helements : ∀ p ∈ page.elements, ∃ etup, w.index.element? ⟨blkno, p.1⟩ = some etup ∧
        etup.neighbortid = p.2.neighbortid ∧ (p.2.isEmptied = false → Intact w ⟨blkno, p.1⟩) := by
      rintro ⟨offno, etup⟩ hmem
      have hetup := (HnswIndex.mem_elements_page hread).mp hmem
      obtain ⟨etup', hetup', hntid⟩ := hyw.evolves.element hetup
      refine ⟨etup', hetup', hntid, fun hfull => ?_⟩
      refine hyw.toDrift.intact ht ⟨⟨etup, hetup⟩, ?_⟩
      rintro ⟨etup₂, hetup₂, hempty⟩
      obtain rfl := Option.some.inj (hetup.symm.trans hetup₂)
      exact absurd (hempty.symm.trans hfull) (by simp)
    refine (confirmElements_keeps ht (hxw.recorded ht ▸ hx)
      (hxw.toDrift.settled ht hsettled) (hdrained hxw.toDrift) helements).bind ?_
    intro _ z hwz _ _
    have hxz := hxw.trans hwz
    cases hnext : page.nextblkno with
    | none => exact .ret fun _ _ _ => trivial
    | some next =>
      obtain ⟨rfl, hlt⟩ := hy.wellFormed.chained.next_eq hread hnext
      exact ih (hxz.recorded ht ▸ hx) (hxz.toDrift.settled ht hsettled) (hdrained hxz.toDrift)
        ⟨Nat.succ_pos _, hlt.trans (hyw.evolves.trans hwz.evolves).length⟩

omit [LinearOrder D] [LinearOrder F] [DecidableEq V] in
/-- What is emptied may be marked, as long as no insert and no scan can meet it. -/
theorem Tracked.Drift.marking (h : Drift t x y)
    (hx : x.index.net.emptied ⊆ x.reclaim.condemned) :
    y.index.net.emptied ⊆ y.reclaim.condemned :=
  fun tid hempty => (h.benign ht).condemned_kept tid (hx ((h.benign ht).emptied hempty)) hempty

theorem markElements_keeps (blkno : BlockNumber)
    (elements : List (OffsetNumber × HnswElementTuple V)) (insertPage : Option BlockNumber)
    (hx : x.index.net.emptied ⊆ x.reclaim.condemned) :
    (markElements blkno elements insertPage).Keeps (backend strict scans may self t)
      (fun _ _ => True) x := by
  induction elements generalizing x insertPage with
  | nil => exact .ret fun _ _ _ => trivial
  | cons p elements ih =>
    refine (markDeleted_keeps _ ht hx).bind fun reply y hxy _ hthere => ?_
    cases reply with
    | missing => exact absurd rfl hthere
    | skipped => exact ih _ (hxy.toDrift.marking ht hx)
    | alreadyDeleted => exact ih _ (hxy.toDrift.marking ht hx)
    | marked => exact ih _ (hxy.toDrift.marking ht hx)

theorem markPages_keeps (fuel : Nat) (insertPage : Option BlockNumber)
    (hx : x.index.net.emptied ⊆ x.reclaim.condemned)
    (hpage : 1 ≤ blkno ∧ blkno ≤ x.index.pages.length) :
    (markPages fuel blkno insertPage).Keeps (backend strict scans may self t)
      (fun _ _ => True) x := by
  induction fuel generalizing x blkno insertPage with
  | zero => exact .fail fun _ => allowed_outOfFuel _
  | succ fuel ih =>
    refine (readPage_present hpage).bind ?_
    rintro _ w hxw _ ⟨y, page, rfl, hread, hxy, hy, hyw⟩
    refine (markElements_keeps ht blkno _ _ (hxw.toDrift.marking ht hx)).bind ?_
    intro insertPage' z hwz _ _
    cases hnext : page.nextblkno with
    | none => exact .ret fun _ _ _ => trivial
    | some next =>
      obtain ⟨rfl, hlt⟩ := hy.wellFormed.chained.next_eq hread hnext
      exact ih _ ((hxw.trans hwz).toDrift.marking ht hx)
        ⟨Nat.succ_pos _, hlt.trans (hyw.evolves.trans hwz.evolves).length⟩

theorem markDeleted_safe (fuel : Nat) (hx : Repairing self x st) (hclean : x.index.net.EntryClean)
    (hdirty : x.index.net.dirty = ∅) :
    (markDeleted fuel st.deleted).Safe (backend strict scans may self t)
      (fun _ y => y.locksOf self = []) x := by
  refine doom_safe ht hx.settled hdirty hclean ?_
  intro y hsettled hdirtyy hdoomed hevolves hrecorded hy hlocks
  rw [hx.locks] at hlocks
  refine unlockPage_safe fun z hyz hz hzlocks => ?_
  rw [hlocks, List.erase_cons_head] at hzlocks
  have hkept : ∀ tid ∈ st.deleted, tid ∈ z.recorded := by
    rw [hyz.recorded ht, hrecorded]
    exact hx.surveyed.recorded
  refine (confirmRepaired_keeps ht fuel hkept (hyz.settled ht hsettled)
    (Set.subset_eq_empty ((hyz.benign ht).dirty hsettled) hdirtyy)
    ⟨Nat.le_refl 1, hz.wellFormed.head⟩).seq ?_
  intro _ w hzw _ _
  have hyw := hyz.trans hzw.toDrift
  have hdoomedw : w.index.net.emptied ⊆ w.reclaim.doomed := fun tid hempty =>
    (hyw.benign ht).doomed_kept tid (hdoomed ((hyw.benign ht).emptied hempty)) hempty
  refine repairConfirmed_safe ht hdoomedw fun c hdoomedc _ hclocks => ?_
  refine condemn_safe ht hdoomedc fun u hcondemned _ hu hulocks => ?_
  rw [hclocks, hzw.locks, hzlocks] at hulocks
  refine unlockPage_safe fun v huv hv hvlocks => ?_
  rw [hulocks, List.erase_cons_head] at hvlocks
  refine (markPages_keeps ht fuel none (huv.marking ht hcondemned)
    ⟨Nat.le_refl 1, hv.wellFormed.head⟩).seq ?_
  intro insertPage r hvr _ _
  refine .mono (updateMetaPage_keeps .no none insertPage (.inr rfl) (fun h => absurd rfl h)) ?_
  rintro _ s _ ⟨hrs, -⟩
  exact hrs.locks.trans (hvr.locks.trans hvlocks)

theorem vacuum_safe (callback : ItemPointer → Bool) (hrest : x.locksOf self = []) :
    (hnswbulkdelete ctx callback).Safe (backend strict scans may self t)
      (fun _ y => y.locksOf self = []) x := by
  refine hnswGetMetaPageInfo_keeps.seq ?_
  rintro ⟨m, entryPoint⟩ y hxy hy -
  have hstart : Surveyed y (fun tid => tid.blkno < hnswHeadBlkno) .start := by
    refine ⟨?_, by simp [VacuumState.start], by simp [VacuumState.start, VacuumState.points],
      by simp [VacuumState.start, VacuumState.points]⟩
    rintro tid ⟨etup, hetup, -⟩ hlt
    exact absurd hlt (Nat.not_lt.mpr (HnswIndex.blkno_of_element? hetup).1)
  refine (removeHeapTids_surveys ht callback ctx.fuel (hxy.locks.trans hrest)
    ⟨Nat.le_refl 1, hy.wellFormed.head⟩ hstart).seq ?_
  rintro st z _ ⟨hz, hsurveyed⟩
  refine (repairGraph_safe ht ctx m hz hsurveyed).seq ?_
  rintro _ w _ ⟨hrepairing, hclean, hdirty⟩
  exact markDeleted_safe ht ctx.fuel hrepairing hclean hdirty

end Passes

end PgVector.Hnsw
