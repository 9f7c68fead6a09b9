import PgVector.Hnsw.SearchSafe
import PgVector.Hnsw.VacuumProtocol

/-!
# Walking the graph on disk

A backend that holds one of the two locks meets no element that is barred to it:
it starts from the entry point or from an element it has loaded under the lock,
and neighbors of elements that are not barred are not barred either.
-/

namespace PgVector.Hnsw

open Foundation

open Tracked

variable {V D F : Type}

structure Loadable (x : Tracked V) (lock : PageLock) (tid : ItemPointer) : Prop where
  present : tid ∈ x.index.net.present
  free : tid ∉ x.barred lock

structure Loaded (x : Tracked V) (lock : PageLock) (e : HnswElement V) : Prop where
  paired : Paired x.index e
  free : e.tid ∉ x.barred lock
  nonempty : lock = .update → e.heaptids ≠ [] → x.settled → e.tid ∉ x.index.net.emptied

section Stable

variable {x y : Tracked V} {lock : PageLock} {tid : ItemPointer} {e : HnswElement V}
  {self : ThreadId} {t : Task V D F} {strict : Prop}

theorem barred_of_deleted (hx : Invariant strict x) (lock : PageLock)
    (h : tid ∈ x.index.net.deleted) : tid ∈ x.barred lock := by
  have hcondemned := hx.valid.deleted_condemned h
  cases lock with
  | update => exact hx.valid.condemned_doomed hcondemned
  | scan => exact hcondemned

theorem Tracked.Rely.barred (h : Rely self t x y) (hlock : x.Holds self lock) :
    y.barred lock ⊆ x.barred lock := by
  cases lock with
  | update => exact h.stays.doomed hlock
  | scan => exact h.stays.condemned hlock

theorem Tracked.Rely.loadable (h : Rely self t x y) (hlock : x.Holds self lock)
    (htid : Loadable x lock tid) : Loadable y lock tid :=
  ⟨h.stays.present htid.present, fun hb => htid.free (h.barred hlock hb)⟩

theorem Tracked.Rely.loaded (h : Rely self t x y) (hlock : x.Holds self lock)
    (he : Loaded x lock e) : Loaded y lock e := by
  refine ⟨he.paired.evolves h.evolves, fun hb => he.free (h.barred hlock hb), ?_⟩
  rintro rfl hne hsettled hempty
  exact he.nonempty rfl hne (h.stays.settled hlock hsettled) (h.stays.emptied hlock hsettled hempty)

theorem loadable_of_names (hx : Invariant strict x) (hfree : tid ∉ x.barred lock)
    {n : ItemPointer} (hn : n ∈ x.index.net.names tid) : Loadable x lock n := by
  refine ⟨hx.valid.names_present tid n hn, ?_⟩
  cases lock with
  | update => exact hx.valid.names_doomed tid hfree n hn
  | scan => exact hx.valid.names_condemned tid hfree n hn

theorem loadable_of_entry (hx : Invariant strict x) (lock : PageLock) {entry : EntryPoint}
    (h : x.index.metapage.entryPoint = some entry) : Loadable x lock entry.tid := by
  have hentry : x.reclaim.net.entry = some entry.tid :=
    congrArg (Option.map EntryPoint.tid) h
  refine ⟨hx.valid.entry_present _ hentry, ?_⟩
  cases lock with
  | update => exact hx.valid.entry_doomed _ hentry
  | scan => exact hx.valid.entry_condemned hentry

theorem Loaded.linkable (he : Loaded x .update e) (hne : e.heaptids ≠ []) :
    x.reclaim.Linkable e.tid :=
  ⟨he.paired.present, he.free, he.nonempty rfl hne⟩

end Stable

section Disk

variable [LinearOrder D] [LinearOrder F] [DecidableEq V] {strict : Prop}
  {scans : ScanSettings → Prop} {may : Monitored V → Task V D F → HnswOp V → Prop}
  {self : ThreadId} {t : Task V D F} {x : Tracked V} {lock : PageLock}

theorem allowed_outOfFuel (y : Tracked V) :
    (backend strict scans may self t).allowed .outOfFuel y :=
  ⟨by simp, by simp, by simp⟩

theorem readElementTuple_keeps {tid : ItemPointer}
    {Q : HnswElementTuple V → Tracked V → Prop} (htid : tid ∈ x.index.net.present)
    (h : ∀ y w etup, Rely self t x y → Invariant strict y →
      y.index.element? tid = some etup → Rely self t y w → Invariant strict w → Q etup w) :
    (readElementTuple tid).Keeps (backend strict scans may self t) Q x := by
  apply Program.Keeps.bind (answer_keeps (fun _ => rfl) (fun _ _ _ => rfl)
    (Q := fun r w => ∃ y etup, Rely self t x y ∧ Invariant strict y ∧
      y.index.element? tid = some etup ∧ r = some (.element etup) ∧ Rely self t y w) ?_)
  · rintro r w hxw hw ⟨y, etup, hxy, hy, hetup, rfl, hyw⟩
    apply Program.Keeps.ret
    intro z hwz hz
    exact h y z etup hxy hy hetup (hyw.trans hwz) hz
  · intro y w hxy hy _ hyw _
    obtain ⟨etup, hetup⟩ := hxy.stays.present htid
    exact ⟨y, etup, hxy, hy, hetup, HnswIndex.element?_eq_some.mp hetup, hyw⟩

theorem readNeighborTuple_keeps {e : HnswElement V}
    {Q : HnswNeighborTuple → Tracked V → Prop} (he : Paired x.index e)
    (h : ∀ y w ntup, Rely self t x y → Invariant strict y →
      may y.state t (.readTuple e.neighbortid) → ntup.named = y.index.net.names e.tid →
      Rely self t y w → Invariant strict w → Q ntup w) :
    (readNeighborTuple e.neighbortid).Keeps (backend strict scans may self t) Q x := by
  apply Program.Keeps.bind (answer_keeps (fun _ => rfl) (fun _ _ _ => rfl)
    (Q := fun r w => ∃ y ntup, Rely self t x y ∧ Invariant strict y ∧
      may y.state t (.readTuple e.neighbortid) ∧ ntup.named = y.index.net.names e.tid ∧
      r = some (.neighbor ntup) ∧ Rely self t y w) ?_)
  · rintro r w hxw hw ⟨y, ntup, hxy, hy, hmay, hntup, rfl, hyw⟩
    apply Program.Keeps.ret
    intro z hwz hz
    exact h y z ntup hxy hy hmay hntup (hyw.trans hwz) hz
  · intro y w hxy hy hmay hyw _
    obtain ⟨etup, hetup, hntid⟩ := he.evolves hxy.evolves
    obtain ⟨ntup, hntup⟩ := hy.wellFormed.neighbortid hetup
    rw [hntid] at hntup
    refine ⟨y, ntup, hxy, hy, hmay, ?_, HnswIndex.neighbor?_eq_some.mp hntup, hyw⟩
    ext n
    simp [HnswIndex.net, hetup, hntid, hntup]

theorem touchTrace_keeps (trace : Option HnswTraceStats)
    (f : HnswTraceStats → HnswTraceStats) :
    (touchTrace trace f).Keeps (backend strict scans may self t) (fun _ _ => True) x := by
  cases trace with
  | none => exact .ret fun _ _ _ => trivial
  | some trace =>
    apply (emit_keeps .traceAccess (by simp)).bind
    intro _ _ _ _ _
    exact .ret fun _ _ _ => trivial

theorem countDistance_keeps (q : Option V) (trace : Option HnswTraceStats) :
    (countDistance q trace).Keeps (backend strict scans may self t) (fun _ _ => True) x := by
  unfold countDistance
  split
  · exact .ret fun _ _ _ => trivial
  · apply (emit_keeps .distanceCall (by simp)).bind
    intro _ _ _ _ _
    exact touchTrace_keeps trace _

omit [LinearOrder D] [LinearOrder F] [DecidableEq V] in
theorem loaded_of_tuple {y w : Tracked V} {tid : ItemPointer} {etup : HnswElementTuple V}
    (loadVec : Bool) (hlock : y.Holds self lock) (hload : Loadable y lock tid)
    (hetup : y.index.element? tid = some etup) (hyw : Rely self t y w) :
    Loaded w lock (hnswLoadElementFromTuple tid etup loadVec) := by
  refine hyw.loaded hlock ⟨⟨etup, hetup, rfl⟩, hload.free, ?_⟩
  rintro rfl hne - ⟨etup', hetup', hempty⟩
  obtain rfl := Option.some.inj (hetup.symm.trans hetup')
  exact hne (HnswElementTuple.isEmptied_iff.mp hempty)

omit [LinearOrder D] [LinearOrder F] [DecidableEq V] in
theorem deleted_eq_false {y : Tracked V} {tid : ItemPointer} {etup : HnswElementTuple V}
    (hy : Invariant strict y) (hload : Loadable y lock tid)
    (hetup : y.index.element? tid = some etup) : etup.deleted = false := by
  by_contra hdeleted
  exact hload.free (barred_of_deleted hy lock ⟨etup, hetup, by simpa using hdeleted⟩)

variable (support : HnswSupport V D)

theorem hnswLoadElementImpl_keeps {tid : ItemPointer} (q : Option V) (loadVec : Bool)
    (maxDistance : Option D) (trace : Option HnswTraceStats) (hlock : x.Holds self lock)
    (hload : Loadable x lock tid) :
    (hnswLoadElementImpl support tid q loadVec maxDistance trace).Keeps
      (backend strict scans may self t)
      (fun r w => (∀ e ∈ r.2.1, e.tid = tid ∧ Loaded w lock e) ∧
        (maxDistance = none → r.2.1.isSome)) x := by
  apply Program.Keeps.bind (readElementTuple_keeps
    (Q := fun etup w => etup.deleted = false ∧
      Loaded w lock (hnswLoadElementFromTuple tid etup loadVec)) hload.present ?_)
  · rintro etup y hxy - ⟨hdeleted, hloaded⟩
    rw [if_neg (by simp [hdeleted])]
    have hlocky : y.Holds self lock := (hxy.holds lock).mpr hlock
    apply (countDistance_keeps q trace).bind
    intro trace' z hyz _ _
    apply (touchTrace_keeps trace' _).bind
    intro trace'' u hzu _ _
    apply Program.Keeps.ret
    intro w huw _
    have hyw : Rely self t y w := hyz.trans (hzu.trans huw)
    constructor
    · intro e he
      split at he
      · cases he
        exact ⟨rfl, hyw.loaded hlocky hloaded⟩
      · cases he
    · rintro rfl
      rfl
  · intro y w etup hxy hy hetup hyw _
    have hload' := hxy.loadable hlock hload
    exact ⟨deleted_eq_false hy hload' hetup,
      loaded_of_tuple loadVec ((hxy.holds lock).mpr hlock) hload' hetup hyw⟩

theorem hnswLoadElement_keeps {tid : ItemPointer} (loadVec : Bool)
    (hlock : x.Holds self lock) (hload : Loadable x lock tid) :
    (hnswLoadElement tid loadVec).Keeps (backend strict scans may self t)
      (fun e w => e.tid = tid ∧ Loaded w lock e) x := by
  apply Program.Keeps.bind (readElementTuple_keeps
    (Q := fun etup w => etup.deleted = false ∧
      Loaded w lock (hnswLoadElementFromTuple tid etup loadVec)) hload.present ?_)
  · rintro etup y hxy - ⟨hdeleted, hloaded⟩
    rw [if_neg (by simp [hdeleted])]
    apply Program.Keeps.ret
    intro w hyw _
    exact ⟨rfl, hyw.loaded ((hxy.holds lock).mpr hlock) hloaded⟩
  · intro y w etup hxy hy hetup hyw _
    have hload' := hxy.loadable hlock hload
    exact ⟨deleted_eq_false hy hload' hetup,
      loaded_of_tuple loadVec ((hxy.holds lock).mpr hlock) hload' hetup hyw⟩

theorem diskNeighbors_keeps {e : HnswElement V} (m lc : Nat)
    (trace : Option HnswTraceStats) (hlock : x.Holds self lock) (he : Paired x.index e)
    (hnames : ∀ y, Rely self t x y → Invariant strict y →
      may y.state t (.readTuple e.neighbortid) →
      ∀ n ∈ y.index.net.names e.tid, Loadable y lock n) :
    (diskNeighbors m lc e trace).Keeps (backend strict scans may self t)
      (fun r w => ∀ n ∈ r.1, Loadable w lock n) x := by
  have hload : (hnswLoadNeighborTids e m lc trace).Keeps (backend strict scans may self t)
      (fun r w => ∀ tids ∈ r.1, ∀ n ∈ tids, n.isValid = true → Loadable w lock n) x := by
    apply Program.Keeps.bind (readNeighborTuple_keeps
      (Q := fun ntup w => ∀ n ∈ ntup.named, Loadable w lock n) he ?_)
    · intro ntup y hxy _ hntup
      split
      · apply Program.Keeps.ret
        intro w _ _ tids htids
        cases htids
      · apply (touchTrace_keeps trace _).bind
        intro trace' z hyz _ _
        apply Program.Keeps.ret
        intro w hzw _ tids htids n hn hvalid
        cases htids
        have hmem : n ∈ ntup.indextids := List.mem_of_mem_drop (List.mem_of_mem_take hn)
        exact (hyz.trans hzw).loadable ((hxy.holds lock).mpr hlock) (hntup n ⟨hmem, hvalid⟩)
    · intro y w ntup hxy hy hmay hntup hyw _ n hn
      rw [hntup] at hn
      exact hyw.loadable ((hxy.holds lock).mpr hlock) (hnames y hxy hy hmay n hn)
  apply hload.bind
  rintro ⟨tids, trace'⟩ y hxy _ htids
  cases tids with
  | none => exact .ret fun _ _ _ n hn => nomatch hn
  | some tids =>
    apply (emit_keeps .neighborsPassed (by simp)).bind
    intro _ z hyz _ _
    apply Program.Keeps.ret
    intro w hzw _ n hn
    exact (hyz.trans hzw).loadable ((hxy.holds lock).mpr hlock)
      (htids tids rfl n ((List.takeWhile_sublist _).subset hn) (List.mem_takeWhile_imp hn))

theorem diskAccess_keeps (q : Option V) (m lc : Nat) (inserting : Bool) (lock : PageLock) :
    AccessKeeps (backend strict scans may self t) (diskAccess support q m lc inserting)
      (fun x => x.Holds self lock) (fun e x => Loaded x lock e)
      (fun n x => Loadable x lock n) where
  stable := fun h hlock => (Rely.holds h lock).mpr hlock
  good_stable := fun h hlock he => Rely.loaded h hlock he
  ref_stable := fun h hlock hn => Rely.loadable h hlock hn
  loadNeighbors := fun trace hlock he =>
    diskNeighbors_keeps m lc trace hlock he.paired fun _ hxy hy _ _ hn =>
      loadable_of_names hy (fun hb => he.free (hxy.barred hlock hb)) hn
  loadElement := fun limit trace hlock hn =>
    (hnswLoadElementImpl_keeps support q inserting limit trace hlock hn).mono
      fun _ _ _ _ h e he => (h.1 e he).2
  touchTrace := fun trace f _ => touchTrace_keeps trace f
  outOfFuel := allowed_outOfFuel

theorem hnswEntryCandidate_keeps {tid : ItemPointer} (q : Option V) (loadVec : Bool)
    (hlock : x.Holds self lock) (hload : Loadable x lock tid) :
    (hnswEntryCandidate support tid q loadVec).Keeps (backend strict scans may self t)
      (fun sc w => Loaded w lock sc.element) x := by
  apply (hnswLoadElementImpl_keeps support q loadVec none none hlock hload).bind
  rintro ⟨d, e, trace⟩ y hxy _ ⟨hloaded, hsome⟩
  cases e with
  | none => cases hsome rfl
  | some e =>
    apply Program.Keeps.ret
    intro w hyw _
    exact hyw.loaded ((hxy.holds lock).mpr hlock) (hloaded e rfl).2

theorem hnswGetMetaPageInfo_keeps :
    (hnswGetMetaPageInfo : HnswProgram V (Nat × Option EntryPoint)).Keeps
      (backend strict scans may self t)
      (fun r w => ∃ y, Rely self t x y ∧ Invariant strict y ∧
        r.2 = y.index.metapage.entryPoint ∧ Rely self t y w) x := by
  apply Program.Keeps.bind (answer_keeps (fun _ => rfl) (fun _ _ _ => rfl)
    (Q := fun metap w => ∃ y, Rely self t x y ∧ Invariant strict y ∧
      metap = y.index.metapage ∧ Rely self t y w) ?_)
  · rintro metap w hxw hw ⟨y, hxy, hy, rfl, hyw⟩
    rw [if_neg (by simp [hy.wellFormed.magicNumber])]
    apply Program.Keeps.ret
    intro z hwz _
    exact ⟨y, hxy, hy, rfl, hyw.trans hwz⟩
  · intro y w hxy hy _ hyw _
    exact ⟨y, hxy, hy, rfl, hyw⟩

theorem hnswGetMetaPageInfo_loadable (hlock : x.Holds self lock) :
    (hnswGetMetaPageInfo : HnswProgram V (Nat × Option EntryPoint)).Keeps
      (backend strict scans may self t)
      (fun r w => ∀ e ∈ r.2, Loadable w lock e.tid) x := by
  apply hnswGetMetaPageInfo_keeps.mono
  rintro ⟨m, entryPoint⟩ w _ _ ⟨y, hxy, hy, hentry, hyw⟩ e he
  exact hyw.loadable ((hxy.holds lock).mpr hlock) (loadable_of_entry hy lock (hentry ▸ he))

end Disk

end PgVector.Hnsw
