import PgVector.Hnsw.DiskSafe

/-!
# Scans beside a vacuum

A scan holds `HNSW_SCAN_LOCK` while it searches, and nothing between two calls.  The
elements that it loads under the lock are not condemned.  An iterative scan keeps
candidates from one search for the next one; what it may do with them under the next lock
is a parameter here.
-/

namespace PgVector.Hnsw

open Foundation

open Tracked

variable {V D F : Type} [LinearOrder D] [LinearOrder F] [DecidableEq V] {strict : Prop}
  {scans : ScanSettings → Prop} {may : Monitored V → Task V D F → HnswOp V → Prop}
  {self : ThreadId} {t : Task V D F} {x y : Tracked V}

/--
What a scan needs to know of a candidate to expand it.  Candidates are used again only if
the scan is `iterative`.
-/
structure ScanKeeps (strict : Prop) (scans : ScanSettings → Prop)
    (may : Monitored V → Task V D F → HnswOp V → Prop) (me : ThreadId) (t : Task V D F)
    (Good : HnswElement V → Tracked V → Prop) (iterative : Prop) : Prop where
  access : ∀ support q m lc, AccessKeeps (backend strict scans may me t)
    (diskAccess (D := D) support q m lc false) (fun x => x.Holds me .scan) Good
    (fun n x => Loadable x .scan n)
  loaded : ∀ {x e}, Loaded x .scan e → Good e x
  stable : iterative → ∀ {x y e}, Evolves x.index y.index → Good e x → Good e y
  off : ¬ iterative → ∀ settings, scans settings → settings.iterativeScan = .off

variable {Good : HnswElement V → Tracked V → Prop} {iterative : Prop}
  (hscan : ScanKeeps strict scans may self t Good iterative)

include hscan

/-! ## Searching under the lock -/

variable {so : HnswScanOpaque V D}
  {discarded : PairingHeap (DiskCandidate V D)} (ctx : ScanContext V D)
  (settings : ScanSettings)

theorem scanUpperLayers_keeps (q : Option V) (m lc : Nat)
    {ep : List (DiskCandidate V D)} (trace : Option HnswTraceStats)
    (allocated : Nat) (hlock : x.Holds self .scan) (hep : ∀ sc ∈ ep, Good sc.element x) :
    (scanUpperLayers ctx q m lc ep trace allocated).Keeps (backend strict scans may self t)
      (fun r y => ∀ sc ∈ r.1, Good sc.element y) x := by
  induction lc generalizing x ep trace allocated with
  | zero =>
    apply Program.Keeps.ret
    intro y hxy _ sc hsc
    exact (hscan.access ctx.support q m 0).good_stable hxy hlock (hep sc hsc)
  | succ lc ih =>
    refine (hnswSearchLayer_keeps (hscan.access ctx.support q m (lc + 1)) ctx.sizes ctx.fuel 1
      (lc + 1) m false true hlock hep (by simp)).bind ?_
    rintro ⟨w, st⟩ y hxy _ ⟨hw, -⟩
    exact ih _ _ ((hxy.holds .scan).mpr hlock) hw

def Aside (Good : HnswElement V → Tracked V → Prop) (so : HnswScanOpaque V D) (x : Tracked V) :
    Prop :=
  ∀ heap ∈ so.discarded, HeapOf (Good · x) heap

theorem getScanItems_keeps (value : Option V) (hlock : x.Holds self .scan)
    (hso : iterative → Aside Good so x) :
    (getScanItems ctx settings so value).Keeps (backend strict scans may self t)
      (fun so' y => iterative → Aside Good so' y) x := by
  have hkept {y : Tracked V} (hxy : Rely self t x y) (hi : iterative) : Aside Good so y :=
    fun heap hheap => (hso hi heap hheap).mono fun _ he => hscan.stable hi hxy.evolves he
  refine (hnswGetMetaPageInfo_loadable hlock).bind ?_
  rintro ⟨m, entryPoint⟩ y hxy _ hentry
  cases entryPoint with
  | none => exact .ret fun z hyz _ hi => hkept (hxy.trans hyz) hi
  | some e =>
    have hlocky := (hxy.holds .scan).mpr hlock
    refine (hnswEntryCandidate_keeps ctx.support value false hlocky (hentry e rfl)).bind ?_
    intro ep z hyz _ hep
    have hlockz := (hyz.holds .scan).mpr hlocky
    refine (scanUpperLayers_keeps hscan ctx value m ep.element.level _ _ hlockz ?_).bind ?_
    · intro sc hsc
      rw [List.mem_singleton.mp hsc]
      exact hscan.loaded hep
    · rintro ⟨ep', trace, allocated⟩ w hzw _ hep'
      have hlockw := (hzw.holds .scan).mpr hlockz
      refine (hnswSearchLayer_keeps (hscan.access ctx.support value m 0) ctx.sizes ctx.fuel
        settings.efSearch 0 m false true hlockw hep' ?_).bind ?_
      · intro heap hheap
        split at hheap
        · cases hheap
        · cases hheap
          exact .nil
      · rintro ⟨found, st⟩ u hwu _ ⟨-, hst⟩
        apply Program.Keeps.ret
        intro v huv _ hi heap hheap
        split at hheap
        · exact hkept (hxy.trans (hyz.trans (hzw.trans (hwu.trans huv)))) hi heap hheap
        · exact (hst heap hheap).mono fun _ he =>
            (hscan.access ctx.support value m 0).good_stable huv ((hwu.holds .scan).mpr hlockw) he

theorem resumeScanItems_keeps (hlock : x.Holds self .scan)
    (hdiscarded : HeapOf (Good · x) discarded) (hso : Aside Good so x) :
    (resumeScanItems ctx settings so discarded).Keeps (backend strict scans may self t)
      (fun so' y => Aside Good so' y) x := by
  have hgood {e : HnswElement V} {y z : Tracked V} (hyz : Rely self t y z)
      (hy : y.Holds self .scan) (he : Good e y) : Good e z :=
    (hscan.access ctx.support so.q so.m 0).good_stable hyz hy he
  unfold resumeScanItems
  split
  · apply Program.Keeps.ret
    intro y hxy _ heap hheap
    exact (hso heap hheap).mono fun _ he => hgood hxy hlock he
  · obtain ⟨hbatch, hrest⟩ := hdiscarded.take settings.efSearch
    refine (hnswSearchLayer_keeps (hscan.access ctx.support so.q so.m 0) ctx.sizes ctx.fuel
      settings.efSearch 0 so.m false false hlock hbatch ?_).bind ?_
    · rintro heap ⟨⟩
      exact hrest
    · rintro ⟨found, st⟩ y hxy _ ⟨-, hst⟩
      apply Program.Keeps.ret
      intro z hyz _ heap hheap
      exact (hst heap hheap).mono fun _ he => hgood hyz ((hxy.holds .scan).mpr hlock) he

/-! ## Calls -/

structure Between (me : ThreadId) (Good : HnswElement V → Tracked V → Prop) (iterative : Prop)
    (so : HnswScanOpaque V D) (x : Tracked V) : Prop where
  locks : x.locksOf me = []
  aside : iterative → Aside Good so x

theorem Between.evolves (h : Between self Good iterative so x)
    (hevolves : Evolves x.index y.index) (hlocks : y.locksOf self = []) :
    Between self Good iterative so y := by
  refine ⟨hlocks, fun hi heap hheap => ?_⟩
  exact (h.aside hi heap hheap).mono fun _ he => hscan.stable hi hevolves he

theorem locked_safe {body : HnswProgram V (HnswScanOpaque V D)}
    (f : HnswScanOpaque V D → HnswScanOpaque V D) (hf : ∀ so, (f so).discarded = so.discarded)
    (hso : Between self Good iterative so x)
    (hbody : ∀ y, y.Holds self .scan → (iterative → Aside Good so y) →
      body.Keeps (backend strict scans may self t) (fun so' z => iterative → Aside Good so' z) y) :
    (do
      lockPage .scan .share
      let so ← body
      unlockPage .scan .share
      return f so : HnswProgram V (HnswScanOpaque V D)).Safe (backend strict scans may self t)
        (Between self Good iterative) x := by
  refine lockPage_safe (.inr rfl) fun y hxy _ hy => ?_
  rw [hso.locks] at hy
  have hholds : y.Holds self .scan := ⟨_, by rw [hy]; exact List.mem_singleton_self _, rfl⟩
  refine (hbody y hholds fun hi heap hheap =>
    (hso.aside hi heap hheap).mono fun _ he => hscan.stable hi hxy.evolves he).seq ?_
  intro so' z hyz _ hso'
  refine unlockPage_safe fun w hzw _ hw => ?_
  rw [hyz.locks, hy, List.erase_cons_head] at hw
  intro u hwu _
  refine ⟨hwu.locks.trans hw, fun hi heap hheap => ?_⟩
  exact (hso' hi heap (hf so' ▸ hheap)).mono fun _ he =>
    hscan.stable hi (hzw.evolves.trans hwu.evolves) he

theorem lockedScanItems_safe (value : Option V × Nat) (hso : Between self Good iterative so x) :
    (lockedScanItems ctx settings so value).Safe (backend strict scans may self t)
      (Between self Good iterative) x :=
  locked_safe hscan (fun so => { so with first := false }) (fun _ => rfl) hso
    fun _ hholds haside => getScanItems_keeps hscan ctx settings value.1 hholds haside

theorem lockedResume_safe (hi : iterative) (hdiscarded : so.discarded = some discarded)
    (hso : Between self Good iterative so x) :
    (lockedResume ctx settings so discarded).Safe (backend strict scans may self t)
      (Between self Good iterative) x :=
  locked_safe hscan id (fun _ => rfl) hso fun _ hholds haside =>
    (resumeScanItems_keeps hscan ctx settings hholds (haside hi discarded hdiscarded)
      (haside hi)).mono fun _ _ _ _ h _ => h

theorem refill_safe {settings : ScanSettings} (hsettings : scans settings)
    (hso : Between self Good iterative so x) :
    (refill ctx settings so).Safe (backend strict scans may self t)
      (Between self Good iterative) x := by
  have hret {so : HnswScanOpaque V D} {x : Tracked V} (hso : Between self Good iterative so x) :
      (Program.ret so : HnswProgram V (HnswScanOpaque V D)).Safe (backend strict scans may self t)
        (Between self Good iterative) x :=
    fun y hxy _ => hso.evolves hscan hxy.evolves (hxy.locks.trans hso.locks)
  unfold refill
  split
  · exact hret hso
  · split
    · exact hret hso
    · next hon =>
      have hi : iterative := by
        by_contra hnot
        exact hon (hscan.off hnot settings hsettings)
      split
      · exact hret hso
      · next discarded hdiscarded =>
        refine (emit_keeps _ (by simp)).seq fun _ y hxy _ _ => ?_
        have hy := hso.evolves hscan hxy.evolves (hxy.locks.trans hso.locks)
        split
        · refine hret ⟨hy.locks, fun _ heap hheap => ?_⟩
          unfold returnRemaining at hheap
          split at hheap
          · exact hy.aside hi heap hheap
          · next sc rest hremove =>
            cases hheap
            exact ((hy.aside hi discarded hdiscarded).removeFirst? hremove).2
        · exact lockedResume_safe hscan ctx settings hi hdiscarded hy

theorem firstScan_safe (hso : Between self Good iterative so x) :
    (firstScan ctx settings so).Safe (backend strict scans may self t)
      (Between self Good iterative) x := by
  unfold firstScan
  split
  · split
    · exact fun _ _ _ => ⟨by simp, by simp, by simp⟩
    · split
      · exact lockedScanItems_safe hscan ctx settings _ hso
      · exact fun _ _ _ => ⟨by simp, by simp, by simp⟩
  · exact fun y hxy _ => hso.evolves hscan hxy.evolves (hxy.locks.trans hso.locks)

omit hscan [DecidableEq V] in
theorem takeHeaptid_discarded (so : HnswScanOpaque V D) :
    (takeHeaptid settings so).1.discarded = so.discarded := by
  unfold takeHeaptid
  split
  · rfl
  · split
    · rfl
    · dsimp only
      split
      · split <;> rfl
      · rfl

theorem fetchLoop_safe {settings : ScanSettings} (hsettings : scans settings) (fuel : Nat)
    (hso : Between self Good iterative so x) :
    (fetchLoop ctx settings fuel so).Safe (backend strict scans may self t)
      (fun r y => Between self Good iterative r.1 y) x := by
  induction fuel generalizing x so with
  | zero => exact fun _ _ _ => ⟨by simp, by simp, by simp⟩
  | succ fuel ih =>
    refine (refill_safe hscan ctx hsettings hso).seq fun so' y _ hso' => ?_
    split
    · exact fun z hyz _ => hso'.evolves hscan hyz.evolves (hyz.locks.trans hso'.locks)
    · have htaken : Between self Good iterative (takeHeaptid settings so').1 y := by
        refine ⟨hso'.locks, fun hi heap hheap => hso'.aside hi heap ?_⟩
        rwa [takeHeaptid_discarded] at hheap
      split
      · next so'' heaptid heq =>
        rw [heq] at htaken
        exact fun z hyz _ => htaken.evolves hscan hyz.evolves (hyz.locks.trans htaken.locks)
      · next so'' heq =>
        rw [heq] at htaken
        exact ih htaken

theorem searchAndFetch_safe {settings : ScanSettings} (hsettings : scans settings)
    (hso : Between self Good iterative so x) :
    (searchAndFetch ctx settings so).Safe (backend strict scans may self t)
      (fun r y => Between self Good iterative r.1 y) x := by
  exact (firstScan_safe hscan ctx settings hso).seq fun so' y _ hso' =>
    fetchLoop_safe hscan ctx hsettings ctx.fuel hso'

theorem Between.seq {α : Type} {β : Type} {p : HnswProgram V α} {f : α → HnswProgram V β}
    {Q : β → Tracked V → Prop} (hso : Between self Good iterative so x)
    (hp : p.Keeps (backend strict scans may self t) (fun _ _ => True) x)
    (hf : ∀ a y, Between self Good iterative so y →
      (f a).Safe (backend strict scans may self t) Q y) :
    (p >>= f).Safe (backend strict scans may self t) Q x :=
  hp.seq fun a y hxy _ _ => hf a y (hso.evolves hscan hxy.evolves (hxy.locks.trans hso.locks))

theorem gettuple_between {settings : ScanSettings} (hsettings : scans settings)
    (hso : Between self Good iterative so x) :
    (hnswgettuple ctx settings so).Safe (backend strict scans may self t)
      (fun r y => Between self Good iterative r.1 y) x := by
  unfold hnswgettuple
  split
  · refine hso.seq hscan observe_keeps fun entry y hy => ?_
    refine (searchAndFetch_safe hscan ctx hsettings hy).seq ?_
    rintro ⟨so', heaptid⟩ z _ hz
    refine Between.seq hscan hz (emit_keeps _ (by simp)) fun _ w hw => ?_
    refine hw.seq hscan observe_keeps fun exit u hu => ?_
    intro v huv _
    have hv := hu.evolves hscan huv.evolves (huv.locks.trans hu.locks)
    exact ⟨hv.locks, hv.aside⟩
  · exact searchAndFetch_safe hscan ctx hsettings hso

omit hscan in
theorem hnswrescan_keeps (so : HnswScanOpaque V D) (orderbys : Option (Option V)) :
    (hnswrescan settings so orderbys).Keeps (backend strict scans may self t)
      (fun so' _ => so'.discarded = none) x := by
  refine (emit_keeps _ (by simp)).bind fun _ y _ _ _ => ?_
  split
  · refine (emit_keeps _ (by simp)).bind fun _ z _ _ _ => ?_
    refine nextQueryId_keeps.bind fun queryId w _ _ _ => ?_
    refine observe_keeps.bind fun now u _ _ _ => ?_
    exact .ret fun _ _ _ => rfl
  · exact .ret fun _ _ _ => rfl

omit hscan in
theorem rescan_between (so : HnswScanOpaque V D) (orderbys : Option (Option V))
    (hlocks : x.locksOf self = []) :
    (hnswrescan settings so orderbys).Safe (backend strict scans may self t)
      (Between self Good iterative) x := by
  refine .mono (hnswrescan_keeps settings so orderbys) ?_
  rintro so' y _ ⟨hxy, hnone⟩
  refine ⟨hxy.locks.trans hlocks, fun _ heap hheap => ?_⟩
  rw [hnone] at hheap
  cases hheap

omit hscan in
theorem hnswendscan_keeps (so : HnswScanOpaque V D) :
    (hnswendscan settings so).Keeps (backend strict scans may self t) (fun _ _ => True) x := by
  unfold hnswendscan
  split
  · refine (emit_keeps _ (by simp)).bind fun _ y _ _ _ => ?_
    refine observe_keeps.bind fun now z _ _ _ => ?_
    exact emit_keeps _ (by simp)
  · exact .ret fun _ _ _ => trivial

theorem rescanCall_safe (orderbys : Option (Option V)) (so : HnswScanOpaque V D)
    (hlocks : x.locksOf self = []) :
    (scanCall ctx settings (.rescan orderbys) so).Safe (backend strict scans may self t)
      (fun r y => Between self Good iterative r.1 y) x := by
  have hrescan : (hnswrescan settings so orderbys).Safe (backend strict scans may self t)
      (Between self Good iterative) x := rescan_between settings so orderbys hlocks
  refine hrescan.seq fun so' y _ hy => ?_
  exact fun z hyz _ => Between.evolves hscan hy hyz.evolves (hyz.locks.trans hy.locks)

theorem scanCall_safe {settings : ScanSettings} (hsettings : scans settings) (call : ScanCall V)
    (hso : Between self Good iterative so x) :
    (scanCall ctx settings call so).Safe (backend strict scans may self t)
      (fun r y => Between self Good iterative r.1 y) x := by
  cases call with
  | rescan orderbys => exact rescanCall_safe hscan ctx settings orderbys so hso.locks
  | gettuple =>
    refine (gettuple_between hscan ctx hsettings hso).seq ?_
    rintro ⟨so', heaptid⟩ y _ hy
    exact fun z hyz _ => Between.evolves hscan hy hyz.evolves (hyz.locks.trans hy.locks)

theorem scanRun_between (last : ScanSettings) {calls : List (ScanSettings × ScanCall V)}
    (hcalls : ∀ call ∈ calls, scans call.1) (hso : Between self Good iterative so x) :
    (scanRun ctx last calls so).Safe (backend strict scans may self t)
      (fun _ y => y.locksOf self = []) x := by
  induction calls generalizing x so with
  | nil =>
    refine (hnswendscan_keeps last so).seq fun _ y hxy _ _ => ?_
    exact fun z hyz _ => hyz.locks.trans (hxy.locks.trans hso.locks)
  | cons call calls ih =>
    obtain ⟨settings, call⟩ := call
    refine (scanCall_safe hscan ctx (hcalls _ (List.mem_cons_self ..)) call hso).seq ?_
    rintro ⟨so', result⟩ y _ hy
    refine (ih (fun call hcall => hcalls call (.tail _ hcall)) hy).seq ?_
    exact fun results z _ hz w hzw _ => hzw.locks.trans hz

theorem scan_safe (last settings : ScanSettings) (orderbys : Option (Option V))
    {rest : List (ScanSettings × ScanCall V)}
    (hcalls : ∀ call ∈ (settings, .rescan orderbys) :: rest, scans call.1)
    (so : HnswScanOpaque V D) (hrest : x.locksOf self = []) :
    (scanRun ctx last ((settings, .rescan orderbys) :: rest) so).Safe
      (backend strict scans may self t) (fun _ y => y.locksOf self = []) x := by
  refine (rescanCall_safe hscan ctx settings orderbys so hrest).seq ?_
  rintro ⟨so', result⟩ y _ hy
  refine (scanRun_between hscan ctx last (fun call hcall => hcalls call (.tail _ hcall)) hy).seq ?_
  exact fun results z _ hz w hzw _ => hzw.locks.trans hz

/-! ## Which candidates may be expanded -/

omit hscan in
/-- Without iterations, only candidates that were loaded under the lock are expanded. -/
theorem scanKeeps_once (hoff : ∀ settings, scans settings → settings.iterativeScan = .off) :
    ScanKeeps strict scans may self t (fun e x => Loaded x .scan e) False where
  access := fun support q m lc => diskAccess_keeps support q m lc false .scan
  loaded := id
  stable := False.elim
  off := fun _ => hoff

omit hscan in
/-- A candidate that was kept is expanded unless the vacuum is about to mark it. -/
theorem scanKeeps_intact (ht : ∃ ctx last calls so, t = .scan ctx last calls so)
    (hmay : ∀ s o, may s t o → ExpandsIntact s t o) :
    ScanKeeps strict scans may self t (fun e x => Paired x.index e) True where
  access := by
    intro support q m lc
    refine { diskAccess_keeps support q m lc false .scan with
      good_stable := fun h _ he => he.evolves h.evolves
      loadNeighbors := ?_
      loadElement := ?_ }
    · intro x e trace hlock he
      refine diskNeighbors_keeps m lc trace hlock he fun y hxy hy hread n hn => ?_
      by_cases hcondemned : e.tid ∈ y.barred .scan
      · -- it is marked already, and has lost its neighbors
        obtain ⟨etup, hetup, hntid⟩ := he.evolves hxy.evolves
        have hintact := hmay y.state _ hread
        obtain ⟨_, _, _, _, rfl⟩ := ht
        have hdeleted : e.tid ∈ y.index.net.deleted :=
          ⟨etup, hetup, hintact e.tid hcondemned etup hetup hntid⟩
        have hnone : y.index.net.names e.tid = ∅ := hy.valid.names_deleted e.tid hdeleted
        rw [hnone] at hn
        exact hn.elim
      · exact loadable_of_names hy hcondemned hn
    · intro x n limit trace hlock hn
      exact (hnswLoadElementImpl_keeps support q false limit trace hlock hn).mono
        fun _ _ _ _ h e he => (h.1 e he).2.paired
  loaded := fun h => h.paired
  stable := fun _ _ _ _ h he => he.evolves h
  off := fun h => absurd trivial h

end PgVector.Hnsw
