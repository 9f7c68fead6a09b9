import PgVector.Hnsw.DiskSafe
import PgVector.Hnsw.FindNeighbors

/-!
# Inserts beside a vacuum

An insert holds `HNSW_UPDATE_LOCK` from before it reads the entry point until it has
linked its neighbors back.  All elements it loads meanwhile are walked to from there, so
that none of them is doomed, and it links only elements that have heap TIDs.
-/

namespace PgVector.Hnsw

open Foundation

open Tracked

variable {V D F : Type} [LinearOrder D] [LinearOrder F] [DecidableEq V] {strict : Prop}
  {scans : ScanSettings → Prop} {may : Monitored V → Task V D F → HnswOp V → Prop}
  {self : ThreadId} {t : Task V D F} {x y : Tracked V}

/-! ## Finding neighbors -/

structure Found (x : Tracked V) (skip : Option ItemPointer) (e : HnswElement V) : Prop where
  loaded : Loaded x .update e
  nonempty : e.heaptids ≠ []
  other : skip ≠ some e.tid

omit [LinearOrder D] [LinearOrder F] [DecidableEq V] in
theorem Tracked.Rely.found {skip : Option ItemPointer} {e : HnswElement V} (h : Rely self t x y)
    (hlock : x.Holds self .update) (he : Found x skip e) : Found y skip e :=
  ⟨h.loaded hlock he.loaded, he.nonempty, he.other⟩

theorem neighborSearch_keeps (ctx : InsertContext V D F) (q : Option V) (m : Nat)
    (skip : Option ItemPointer) :
    NeighborSearchKeeps (backend strict scans may self t) (ctx.neighborSearch q m skip)
      (fun x => x.Holds self .update) (fun _ e x => Loaded x .update e)
      (fun _ n x => Loadable x .update n)
      (fun e => e.heaptids ≠ [] ∧ skip ≠ some e.tid) where
  access := fun lc => diskAccess_keeps ctx.support q m lc true .update
  down := id
  removeElements := by
    intro w hc hmem
    obtain ⟨hw, hkept⟩ := List.mem_filter.mp hmem
    simp only [Bool.and_eq_true, decide_eq_true_eq, Bool.not_eq_true',
      List.isEmpty_eq_false_iff] at hkept
    exact ⟨hw, hkept.2, hkept.1⟩

theorem findNeighborsOnDisk_keeps (ctx : InsertContext V D F) (q : Option V) (level m : Nat)
    {entryPoint : Option ItemPointer} (skip : Option ItemPointer)
    (hlock : x.Holds self .update) (hentry : ∀ tid ∈ entryPoint, Loadable x .update tid) :
    (findNeighborsOnDisk ctx q level m entryPoint skip).Keeps (backend strict scans may self t)
      (fun found y => FoundOf (fun _ e => Found y skip e) m level found) x := by
  refine (hnswFindElementNeighbors_keeps (neighborSearch_keeps ctx q m skip) level hlock ?_).mono ?_
  · intro p hp
    obtain ⟨tid, htid, rfl⟩ := Option.mem_map.mp hp
    refine (hnswEntryCandidate_keeps ctx.support q true hlock (hentry tid htid)).bind ?_
    intro entry y hxy _ hloaded
    apply Program.Keeps.ret
    intro z hyz _
    exact hyz.loaded ((hxy.holds .update).mpr hlock) hloaded
  · rintro found y _ _ ⟨hlength, hlayers⟩
    exact ⟨hlength, hlayers.mono fun _ _ h => ⟨h.1, h.2.1, h.2.2⟩⟩

/-! ## Linking the neighbors back -/

theorem loadElementsForInsert_keeps (ctx : InsertContext V D F) (q : Option V)
    {tids : List ItemPointer} (loaded : List (HnswCandidate (AllocatedElement V) F))
    (hlock : x.Holds self .update) (htids : ∀ tid ∈ tids, Loadable x .update tid) :
    (loadElementsForInsert ctx q tids loaded).Keeps (backend strict scans may self t)
      (fun _ _ => True) x := by
  induction tids generalizing x loaded with
  | nil => exact .ret fun _ _ _ => trivial
  | cons tid rest ih =>
    refine (hnswLoadElementImpl_keeps ctx.support q true none none hlock
      (htids tid (List.mem_cons_self ..))).bind ?_
    rintro ⟨distance, element, trace⟩ y hxy _ ⟨-, hsome⟩
    cases element with
    | none => cases hsome rfl
    | some e =>
      change Program.Keeps _ (if _ then _ else _) _ _
      split
      · exact .ret fun _ _ _ => trivial
      · exact ih _ ((hxy.holds .update).mpr hlock) fun tid htid =>
          hxy.loadable hlock (htids tid (.tail _ htid))

theorem getUpdateIndex_keeps (ctx : InsertContext V D F) {element : HnswElement V}
    (newElement : HnswElement V) (distance : F) (m lc : Nat) (hlock : x.Holds self .update)
    (he : Loaded x .update element) :
    (getUpdateIndex ctx element newElement distance m lc).Keeps
      (backend strict scans may self t) (fun _ _ => True) x := by
  refine (diskNeighbors_keeps m lc none hlock he.paired fun _ hxy hy _ _ hn =>
    loadable_of_names hy (fun hb => he.free (hxy.barred hlock hb)) hn).bind ?_
  rintro ⟨tids, trace⟩ y hxy _ htids
  change Program.Keeps _ (if _ then _ else _) _ _
  split
  · exact .ret fun _ _ _ => trivial
  · refine (loadElementsForInsert_keeps ctx element.value [] ((hxy.holds .update).mpr hlock)
      htids).bind ?_
    rintro ⟨loaded, pruned⟩ z _ _ _
    dsimp only
    split <;> exact .ret fun _ _ _ => trivial

theorem updateLayerOnDisk_keeps (ctx : InsertContext V D F) {e : HnswElement V} (m lc : Nat)
    (checkExisting : Bool) {skip : Option ItemPointer}
    {neighbors : List (HnswCandidate (HnswElement V) F)} (hlock : x.Holds self .update)
    (he : x.reclaim.Linkable e.tid) (hneighbors : ∀ hc ∈ neighbors, Found x skip hc.element) :
    (updateLayerOnDisk ctx e m lc checkExisting neighbors).Keeps
      (backend strict scans may self t) (fun _ _ => True) x := by
  induction neighbors generalizing x with
  | nil => exact .ret fun _ _ _ => trivial
  | cons hc rest ih =>
    have hhc := hneighbors hc (List.mem_cons_self ..)
    refine (getUpdateIndex_keeps ctx e hc.distance m lc hlock hhc.loaded).bind ?_
    intro idx y hxy _ _
    have hlocky := (hxy.holds .update).mpr hlock
    have hhcy := hxy.found hlock hhc
    have hey := hxy.stays.linkable hlock he
    have hupdate : (updateNeighborOnDisk hc.element e idx m lc checkExisting).Keeps
        (backend strict scans may self t) (fun _ _ => True) y := by
      unfold updateNeighborOnDisk
      split
      · exact .ret fun _ _ _ => trivial
      · refine (updateNeighbor_keeps idx _ _ checkExisting hlocky hhcy.loaded.paired
          hhcy.loaded.free hey).bind ?_
        rintro _ _ _ _ rfl
        exact .ret fun _ _ _ => trivial
    refine hupdate.bind ?_
    intro _ z hyz _ _
    have hxz := hxy.trans hyz
    exact ih ((hxz.holds .update).mpr hlock) (hxz.stays.linkable hlock he) fun hc' hmem =>
      hxz.found hlock (hneighbors hc' (.tail _ hmem))

theorem hnswUpdateNeighborsOnDisk_keeps (ctx : InsertContext V D F) {e : HnswElement V}
    (m : Nat) (checkExisting : Bool) {skip : Option ItemPointer}
    {layers : List (List (HnswCandidate (HnswElement V) F))} (hlock : x.Holds self .update)
    (he : x.reclaim.Linkable e.tid) (hlayers : LayersOf (fun _ e => Found x skip e) m layers) :
    (hnswUpdateNeighborsOnDisk ctx e m checkExisting layers).Keeps
      (backend strict scans may self t) (fun _ _ => True) x := by
  induction layers generalizing x with
  | nil => exact .ret fun _ _ _ => trivial
  | cons layer lower ih =>
    refine (updateLayerOnDisk_keeps ctx m lower.length checkExisting hlock he hlayers.1.2).bind ?_
    intro _ y hxy _ _
    exact ih ((hxy.holds .update).mpr hlock) (hxy.stays.linkable hlock he)
      (hlayers.2.mono fun _ _ h => hxy.found hlock h)

/-! ## Adding the element -/

theorem hnswGetEntryPoint_loadable (hlock : x.Holds self .update) :
    (hnswGetEntryPoint : HnswProgram V (Option EntryPoint)).Keeps
      (backend strict scans may self t) (fun r w => ∀ e ∈ r, Loadable w .update e.tid) x := by
  refine (hnswGetMetaPageInfo_loadable hlock).bind ?_
  rintro ⟨m, entryPoint⟩ y hxy _ hentry
  apply Program.Keeps.ret
  intro z hyz _ e he
  exact hyz.loadable ((hxy.holds .update).mpr hlock) (hentry e he)

theorem findDuplicateOnDisk_keeps (value : V) (heaptid : ItemPointer)
    {neighbors : List (HnswCandidate (HnswElement V) F)}
    (hneighbors : ∀ hc ∈ neighbors, Paired x.index hc.element) :
    (findDuplicateOnDisk value heaptid neighbors).Keeps (backend strict scans may self t)
      (fun _ _ => True) x := by
  induction neighbors generalizing x with
  | nil => exact .ret fun _ _ _ => trivial
  | cons neighbor rest ih =>
    unfold findDuplicateOnDisk
    split
    · exact .ret fun _ _ _ => trivial
    · refine (addDuplicate_keeps (hneighbors neighbor (List.mem_cons_self ..)).present).bind ?_
      intro added y hxy _ hadded
      match added with
      | none => exact absurd rfl hadded
      | some true => exact .ret fun _ _ _ => trivial
      | some false =>
        exact ih fun hc hmem =>
          (hneighbors hc (.tail _ hmem)).evolves hxy.evolves

theorem getInsertPage_keeps :
    (getInsertPage : HnswProgram V BlockNumber).Keeps (backend strict scans may self t)
      (fun _ _ => True) x := by
  refine .bind (answer_keeps (o := .getMetaPage) (fun _ => rfl) (fun _ _ _ => rfl)
    (Q := fun metap _ => metap.insertPage.isSome) ?_) ?_
  · intro y _ _ hy _ _ _
    exact hy.wellFormed.insertPage
  · intro metap y _ _ hsome
    obtain ⟨q, hq⟩ := Option.isSome_iff_exists.mp hsome
    rw [hq]
    exact .ret fun _ _ _ => trivial

theorem updateInsertPage_keeps (insertPage newInsertPage : BlockNumber) :
    (updateInsertPage insertPage newInsertPage : HnswProgram V Unit).Keeps
      (backend strict scans may self t) (fun _ _ => True) x := by
  unfold updateInsertPage
  split
  · exact .ret fun _ _ _ => trivial
  · exact (updateMetaPage_keeps .no none _ (.inr rfl) (fun h => absurd rfl h)).mono
      fun _ _ _ _ _ => trivial

omit [LinearOrder D] [LinearOrder F] [DecidableEq V] in
theorem mem_neighborSlots {m : Nat} {layers : List (List ItemPointer)} {n : ItemPointer}
    (h : n ∈ neighborSlots m layers) (hvalid : n.isValid = true) :
    ∃ tids ∈ layers, n ∈ tids := by
  induction layers with
  | nil => cases h
  | cons tids lower ih =>
    rcases List.mem_append.mp h with hlayer | hlower
    · rcases List.mem_append.mp hlayer with htids | hinvalid
      · exact ⟨tids, List.mem_cons_self .., List.mem_of_mem_take htids⟩
      · rw [List.eq_of_mem_replicate hinvalid] at hvalid
        cases hvalid
    · obtain ⟨tids', htids', hn⟩ := ih hlower
      exact ⟨tids', List.mem_cons_of_mem _ htids', hn⟩

omit [LinearOrder F] [DecidableEq V] in
theorem linkable_of_named {m version : Nat} {skip : Option ItemPointer}
    {layers : List (List (HnswCandidate (HnswElement V) F))}
    (hlayers : LayersOf (fun _ e => Found x skip e) m layers) :
    ∀ b ∈ (hnswSetNeighborTuple m version (layerTids layers)).named, x.reclaim.Linkable b := by
  rintro b ⟨hmem, hvalid⟩
  obtain ⟨tids, htids, hb⟩ := mem_neighborSlots hmem hvalid
  obtain ⟨layer, hlayer, rfl⟩ := List.mem_map.mp htids
  obtain ⟨hc, hhc, rfl⟩ := List.mem_map.mp hb
  obtain ⟨lc, hfound⟩ := hlayers.mem hlayer hhc
  exact hfound.loaded.linkable hfound.nonempty

omit [LinearOrder D] [LinearOrder F] [DecidableEq V] in
theorem isEmptied_hnswSetElementTuple (level version : Nat) {heaptid : ItemPointer} (value : V)
    (neighbortid : ItemPointer) (hvalid : heaptid.isValid = true) :
    (hnswSetElementTuple level version [heaptid] value neighbortid).isEmptied = false := by
  simp [HnswElementTuple.isEmptied, HnswElementTuple.liveTids, hnswSetElementTuple, heaptidSlots,
    hnswHeaptids, hvalid]

variable (hreuse : strict → ∀ s o, may s t o → ReusesUnrecorded s t o)
include hreuse

theorem addElementLoop_keeps {request : AddElementRequest V} (fuel : Nat)
    (blkno : BlockNumber) (newInsertPage : Option BlockNumber)
    (hnonempty : request.etup.isEmptied = false) (hlive : request.etup.deleted = false)
    (hlock : x.Holds self .update) (hlink : ∀ b ∈ request.ntup.named, x.reclaim.Linkable b) :
    (addElementLoop request fuel blkno newInsertPage).Keeps (backend strict scans may self t)
      (fun p y => Fit y p.tid p.neighbortid) x := by
  induction fuel generalizing x blkno newInsertPage with
  | zero => exact .fail allowed_outOfFuel
  | succ fuel ih =>
    refine (addElement_keeps hreuse blkno newInsertPage hnonempty hlive hlock hlink).bind ?_
    rintro reply y hxy _ ⟨hfit, hfailed⟩
    have hlocky := (hxy.holds .update).mpr hlock
    match reply with
    | .next _ _ =>
      exact ih _ _ hlocky fun b hb => hxy.stays.linkable hlock (hlink b hb)
    | .placed tid neighbortid insertPage =>
      apply Program.Keeps.ret
      intro z hyz _
      exact hyz.fit hlocky (hfit tid neighbortid insertPage rfl)
    | .failed e =>
      obtain rfl := hfailed e rfl
      exact .fail fun _ => ⟨by simp, by simp, by simp⟩

theorem addToGraphOnDisk_keeps (ctx : InsertContext V D F) (value : V) {heaptid : ItemPointer}
    (level m : Nat) (entryPoint : Option EntryPoint) {skip : Option ItemPointer}
    {layers : List (List (HnswCandidate (HnswElement V) F))} (hvalid : heaptid.isValid = true)
    (hlock : x.Holds self .update) (hlayers : LayersOf (fun _ e => Found x skip e) m layers) :
    (addToGraphOnDisk ctx value heaptid level m entryPoint layers).Keeps
      (backend strict scans may self t) (fun _ _ => True) x := by
  refine getInsertPage_keeps.bind fun insertPage y hxy _ _ => ?_
  have hlocky := (hxy.holds .update).mpr hlock
  have hlayersy := hlayers.mono fun _ _ h => hxy.found hlock h
  have hadd : (addElementLoop (ctx.addRequest value heaptid level m (layerTids layers)) ctx.fuel
      insertPage none).Keeps (backend strict scans may self t)
      (fun p z => Fit z p.tid p.neighbortid) y :=
    addElementLoop_keeps hreuse ctx.fuel insertPage none
      (isEmptied_hnswSetElementTuple level 1 value _ hvalid) rfl hlocky
      (linkable_of_named hlayersy)
  refine hadd.bind fun p z hyz _ hfit => ?_
  have hlockz := (hyz.holds .update).mpr hlocky
  have hlayersz := hlayersy.mono fun _ _ h => hyz.found hlocky h
  refine (updateInsertPage_keeps insertPage p.newInsertPage).bind fun _ w hzw _ _ => ?_
  have hlockw := (hzw.holds .update).mpr hlockz
  have hfitw := hzw.fit hlockz hfit
  refine (hnswUpdateNeighborsOnDisk_keeps ctx m false hlockw hfitw.linkable
    (hlayersz.mono fun _ _ h => hzw.found hlockz h)).bind fun _ u hwu _ _ => ?_
  have hfitu := hwu.fit hlockw hfitw
  unfold updateEntryPoint
  split
  · refine (updateMetaPage_keeps .greater _ none (.inl ((hwu.holds .update).mpr hlockw))
      ?_).mono fun _ _ _ _ _ => trivial
    rintro - e ⟨⟩
    exact ⟨hfitu.linkable, hfitu.clean⟩
  · exact .ret fun _ _ _ => trivial

theorem insertLocked_safe (ctx : InsertContext V D F) (value : V) {heaptid : ItemPointer}
    (level m : Nat) {entryPoint : Option EntryPoint} (lockmode : LockMode)
    (hvalid : heaptid.isValid = true) (hlock : x.locksOf self = [⟨self, .update, lockmode⟩])
    (hentry : ∀ e ∈ entryPoint, Loadable x .update e.tid) :
    (insertLocked ctx value heaptid level m entryPoint lockmode).Safe
      (backend strict scans may self t) (fun _ y => y.locksOf self = []) x := by
  have hholds : x.Holds self .update := ⟨_, by rw [hlock]; exact List.mem_singleton_self _, rfl⟩
  have htids : ∀ tid ∈ entryPoint.map EntryPoint.tid, Loadable x .update tid := by
    intro tid htid
    obtain ⟨e, he, rfl⟩ := Option.mem_map.mp htid
    exact hentry e he
  refine (findNeighborsOnDisk_keeps ctx (some value) level m none hholds htids).seq ?_
  intro found y hxy _ hfound
  have hholdsy := (hxy.holds .update).mpr hholds
  have hlayer : ∀ hc ∈ found.layers.getLast?.getD [], Paired y.index hc.element := by
    intro hc hhc
    cases hlast : found.layers.getLast? with
    | none =>
      rw [hlast] at hhc
      cases hhc
    | some layer =>
      rw [hlast] at hhc
      obtain ⟨lc, hc'⟩ := hfound.layers.mem (List.mem_of_getLast? hlast) hhc
      exact hc'.loaded.paired
  have hgraph : (updateGraphOnDisk ctx value heaptid level m (found.loadedEntry entryPoint)
      found.layers).Keeps (backend strict scans may self t) (fun _ _ => True) y := by
    refine (findDuplicateOnDisk_keeps value heaptid hlayer).bind fun duplicate z hyz _ _ => ?_
    cases duplicate with
    | true => exact .ret fun _ _ _ => trivial
    | false =>
      exact addToGraphOnDisk_keeps hreuse ctx value level m _ hvalid
        ((hyz.holds .update).mpr hholdsy) (hfound.layers.mono fun _ _ h => hyz.found hholdsy h)
  refine hgraph.seq fun _ z hyz _ _ => ?_
  have hlocks : z.locksOf self = [⟨self, .update, lockmode⟩] :=
    hyz.locks.trans (hxy.locks.trans hlock)
  refine unlockPage_safe (k := .ret) fun w _ _ hw u hwu _ => ?_
  rw [hwu.locks, hw, hlocks, List.erase_cons_head]

theorem insert_safe (ctx : InsertContext V D F) (value : Option V) {heaptid : ItemPointer}
    (drawnLevel : Nat) (hvalid : heaptid.isValid = true) (hrest : x.locksOf self = []) :
    (hnswinsert ctx value heaptid drawnLevel).Safe (backend strict scans may self t)
      (fun _ y => y.locksOf self = []) x := by
  have hret : (Program.ret () : HnswProgram V Unit).Safe (backend strict scans may self t)
      (fun _ y => y.locksOf self = []) x := fun y hxy _ => hxy.locks.trans hrest
  unfold hnswinsert
  split
  · exact hret
  · split
    · split
      · exact hret
      · next value _ =>
        refine lockPage_safe (.inl rfl) fun y _ _ hy => ?_
        rw [hrest] at hy
        have hholds : y.Holds self .update :=
          ⟨_, by rw [hy]; exact List.mem_singleton_self _, rfl⟩
        refine (hnswGetMetaPageInfo_loadable hholds).seq ?_
        rintro ⟨m, entryPoint⟩ z hyz _ hentry
        change Program.Safe _ (if _ then _ else _) _ _
        split
        · refine unlockPage_safe fun w _ _ hw => ?_
          rw [hyz.locks, hy, List.erase_cons_head] at hw
          refine lockPage_safe (.inl rfl) fun u _ _ hu => ?_
          rw [hw] at hu
          have hholds' : u.Holds self .update :=
            ⟨_, by rw [hu]; exact List.mem_singleton_self _, rfl⟩
          refine (hnswGetEntryPoint_loadable hholds').seq fun entryPoint' w' huw' _ hentry' => ?_
          exact insertLocked_safe hreuse ctx value _ m .exclusive hvalid
            (huw'.locks.trans hu) hentry'
        · exact insertLocked_safe hreuse ctx value _ m .share hvalid (hyz.locks.trans hy) hentry
    · exact fun _ _ _ => ⟨by simp, by simp, by simp⟩

end PgVector.Hnsw
