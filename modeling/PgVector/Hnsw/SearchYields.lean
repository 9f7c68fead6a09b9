import PgVector.Hnsw.Scan

/-!
# What a search may do

Whatever it reads, a search executes only the instructions below, and it hands
back the trace it was given with nothing but its own counters changed.
-/

namespace PgVector.Hnsw

open Foundation

/-- A trace without the counters of the searches: what the calls record in it. -/
def HnswTraceStats.callRecord (t : HnswTraceStats) : HnswTraceStats :=
  { t with
    distanceComputeCount := 0
    visitedNodes := 0
    element := default
    neighbor := default }

/-- What a passed trace holds for the calls; `none` when tracing is off. -/
def passedRecord (trace : Option HnswTraceStats) : Option HnswTraceStats :=
  trace.map HnswTraceStats.callRecord

def SearchEvent (traced : Bool) : Event → Prop
  | .traceAccess => traced = true
  | .limitTest _ _ _ | .distanceCall | .neighborsPassed => True
  | _ => False

def SearchUses {V : Type} (kept : Option HnswTraceStats) : HnswOp V → Prop
  | .readTuple _ => True
  | .getMetaPage => True
  | .lockPage .scan .share => True
  | .unlockPage .scan .share => True
  | .emit event => SearchEvent kept.isSome event
  | _ => False

structure AccessYields {L : Signature} {E N K D : Type}
    (A : SearchAccess L E N K D) (uses : L.Op → Prop) (kept : Option HnswTraceStats) :
    Prop where
  loadNeighbors : ∀ e trace, passedRecord trace = kept →
    (A.loadNeighbors e trace).Yields uses fun r => passedRecord r.2 = kept
  loadElement : ∀ n maxDistance trace, passedRecord trace = kept →
    (A.loadElement n maxDistance trace).Yields uses fun r => passedRecord r.2.2 = kept
  touchTrace : ∀ trace f, passedRecord trace = kept →
    (∀ t, (f t).callRecord = t.callRecord) →
    (A.touchTrace trace f).Yields uses fun t => passedRecord t = kept

section SearchLayer

variable {L : Signature} {E N K D : Type} [LinearOrder D]
  {A : SearchAccess L E N K D} {uses : L.Op → Prop} {kept : Option HnswTraceStats}

@[simp] theorem trace_discard (st : SearchState E K D)
    (sc : HnswSearchCandidate E D) : (discard st sc).trace = st.trace := rfl

@[simp] theorem trace_addCandidate (ef : Nat) (skip : Bool)
    (st : SearchState E K D) (sc : HnswSearchCandidate E D) :
    (addCandidate A ef skip st sc).trace = st.trace := by
  unfold addCandidate
  split
  · split
    · unfold evictFurthest
      split <;> rfl
    · rfl
  · rfl

@[simp] theorem trace_visitElement (sizes : AllocSizes) (ef lc : Nat)
    (skip : Bool) (st : SearchState E K D) (f : HnswSearchCandidate E D)
    (e : E) (d : D) :
    (visitElement A sizes ef lc skip st f e d).trace = st.trace := by
  unfold visitElement
  split
  · split <;> rfl
  · split
    · rfl
    · exact trace_addCandidate ..

variable [DecidableEq K]

omit [DecidableEq K] in
theorem visitUnvisited_yields (hA : AccessYields A uses kept)
    (sizes : AllocSizes) (ef lc : Nat) (skip : Bool) (ns : List N)
    (st : SearchState E K D) (hst : passedRecord st.trace = kept) :
    (visitUnvisited A sizes ef lc skip ns st).Yields uses
      fun st' => passedRecord st'.trace = kept := by
  induction ns generalizing st with
  | nil => exact hst
  | cons n rest ih =>
    unfold visitUnvisited
    split
    · trivial
    · refine (hA.loadElement n _ st.trace hst).bind ?_
      rintro ⟨d, e, trace⟩ htrace
      cases e with
      | none => exact ih _ htrace
      | some e => exact ih _ (by simpa using htrace)

theorem expandCandidate_yields (hA : AccessYields A uses kept)
    (sizes : AllocSizes) (ef lc : Nat) (skip : Bool) (c : E)
    (st : SearchState E K D) (hst : passedRecord st.trace = kept) :
    (expandCandidate A sizes ef lc skip c st).Yields uses
      fun st' => passedRecord st'.trace = kept := by
  refine (hA.loadNeighbors c st.trace hst).bind ?_
  rintro ⟨neighbors, trace⟩ htrace
  refine .bind (hA.touchTrace trace _ htrace fun _ => rfl) ?_
  intro trace' htrace'
  exact visitUnvisited_yields hA sizes ef lc skip _ _ htrace'

theorem searchLoop_yields (hA : AccessYields A uses kept)
    (sizes : AllocSizes) (ef lc : Nat) (skip : Bool) (fuel : Nat)
    (st : SearchState E K D) (hst : passedRecord st.trace = kept) :
    (searchLoop A sizes ef lc skip fuel st).Yields uses
      fun st' => passedRecord st'.trace = kept := by
  induction fuel generalizing st with
  | zero => trivial
  | succ fuel ih =>
    unfold searchLoop
    split
    · exact hst
    · split
      · trivial
      · split
        · exact hst
        · refine .bind ?_ ih
          exact expandCandidate_yields hA sizes ef lc skip _ _ hst

omit [LinearOrder D] [DecidableEq K] in
@[simp] theorem trace_searchStart (sizes : AllocSizes) (ef m lm : Nat)
    (initVisited : Bool) (st : SearchState E K D) :
    (searchStart sizes ef m lm initVisited st).trace = st.trace := by
  unfold searchStart
  split <;> rfl

@[simp] theorem trace_foldl_addEntryPoint (skip initVisited : Bool)
    (ep : List (HnswSearchCandidate E D)) (st : SearchState E K D) :
    (ep.foldl (addEntryPoint A skip initVisited) st).trace = st.trace := by
  induction ep generalizing st with
  | nil => rfl
  | cons sc rest ih => exact ih _

theorem hnswSearchLayer_yields (hA : AccessYields A uses kept)
    (sizes : AllocSizes) (fuel : Nat) (ep : List (HnswSearchCandidate E D))
    (ef lc m : Nat) (skip initVisited : Bool) (st : SearchState E K D)
    (hst : passedRecord st.trace = kept) :
    (hnswSearchLayer A sizes fuel ep ef lc m skip initVisited st).Yields uses
      fun r => passedRecord r.2.trace = kept := by
  refine (searchLoop_yields hA sizes ef lc skip fuel _ (by simpa using hst)).bind ?_
  exact fun st' h => h

end SearchLayer

/-! ## On disk -/

section Disk

variable {V D : Type} [LinearOrder D] {kept : Option HnswTraceStats}

theorem touchTrace_yields (trace : Option HnswTraceStats)
    (f : HnswTraceStats → HnswTraceStats) (htrace : passedRecord trace = kept)
    (hf : ∀ t, (f t).callRecord = t.callRecord) :
    (touchTrace (V := V) trace f).Yields (SearchUses kept) fun t => passedRecord t = kept := by
  cases trace with
  | none => exact htrace
  | some t =>
    subst htrace
    refine ⟨rfl, fun _ => ?_⟩
    exact congrArg some (hf t)

theorem countDistance_yields (q : Option V) (trace : Option HnswTraceStats)
    (htrace : passedRecord trace = kept) :
    (countDistance q trace).Yields (SearchUses kept) fun t => passedRecord t = kept := by
  unfold countDistance
  split
  · exact htrace
  · exact ⟨trivial, fun _ => touchTrace_yields trace _ htrace fun _ => rfl⟩

theorem readElementTuple_yields (tid : ItemPointer) :
    (readElementTuple (V := V) tid).Yields (SearchUses kept) fun _ => True := by
  refine ⟨trivial, fun r => ?_⟩
  cases r with
  | none => trivial
  | some tuple => cases tuple <;> trivial

theorem readNeighborTuple_yields (tid : ItemPointer) :
    (readNeighborTuple (V := V) tid).Yields (SearchUses kept) fun _ => True := by
  refine ⟨trivial, fun r => ?_⟩
  cases r with
  | none => trivial
  | some tuple => cases tuple <;> trivial

theorem hnswLoadElementImpl_yields (support : HnswSupport V D) (tid : ItemPointer)
    (q : Option V) (loadVec : Bool) (maxDistance : Option D)
    (trace : Option HnswTraceStats) (htrace : passedRecord trace = kept) :
    (hnswLoadElementImpl support tid q loadVec maxDistance trace).Yields
      (SearchUses kept) fun r => passedRecord r.2.2 = kept := by
  refine (readElementTuple_yields tid).bind fun etup _ => ?_
  split
  · trivial
  · refine (countDistance_yields q trace htrace).bind fun trace' htrace' => ?_
    refine .bind (touchTrace_yields trace' _ htrace' fun _ => rfl) ?_
    exact fun trace'' htrace'' => htrace''

theorem diskNeighbors_yields (m lc : Nat) (e : HnswElement V)
    (trace : Option HnswTraceStats) (htrace : passedRecord trace = kept) :
    (diskNeighbors m lc e trace).Yields (SearchUses kept) fun r => passedRecord r.2 = kept := by
  have htids : (hnswLoadNeighborTids e m lc trace).Yields (SearchUses kept)
      fun r => passedRecord r.2 = kept := by
    refine (readNeighborTuple_yields e.neighbortid).bind fun ntup _ => ?_
    split
    · exact htrace
    · refine .bind (touchTrace_yields trace _ htrace fun _ => rfl) ?_
      exact fun trace' htrace' => htrace'
  refine htids.bind ?_
  rintro ⟨tids, trace'⟩ htrace'
  cases tids with
  | none => exact htrace'
  | some tids => exact ⟨trivial, fun _ => htrace'⟩

theorem diskAccess_yields (support : HnswSupport V D) (q : Option V) (m lc : Nat)
    (inserting : Bool) :
    AccessYields (diskAccess support q m lc inserting) (SearchUses kept)
      kept where
  loadNeighbors := diskNeighbors_yields m lc
  loadElement := fun tid maxDistance trace =>
    hnswLoadElementImpl_yields support tid q inserting maxDistance trace
  touchTrace := touchTrace_yields

end Disk

/-! ## Scans -/

section Scan

variable {V D : Type} [LinearOrder D] {kept : Option HnswTraceStats}
  (ctx : ScanContext V D) (settings : ScanSettings)

theorem scanUpperLayers_yields (q : Option V) (m lc : Nat) (ep : List (DiskCandidate V D))
    (trace : Option HnswTraceStats) (allocated : Nat)
    (htrace : passedRecord trace = kept) :
    (scanUpperLayers ctx q m lc ep trace allocated).Yields (SearchUses kept)
      fun r => passedRecord r.2.1 = kept := by
  induction lc generalizing ep trace allocated with
  | zero => exact htrace
  | succ lc ih =>
    refine (hnswSearchLayer_yields (diskAccess_yields ctx.support q m _ false)
      ctx.sizes ctx.fuel ep 1 (lc + 1) m false true _ htrace).bind ?_
    rintro ⟨w, st⟩ hst
    exact ih w st.trace st.allocated hst

/-- Of the opaque, a search changes neither `first` nor the fetch kept. -/
def SearchKeeps (so so' : HnswScanOpaque V D) : Prop :=
  so'.first = so.first ∧ so'.trace.callRecord = so.trace.callRecord

def HnswScanOpaque.passedTrace (so : HnswScanOpaque V D) (settings : ScanSettings) :
    Option HnswTraceStats :=
  passedRecord (so.tracePointer settings)

omit [LinearOrder D] in
theorem passedTrace_congr {so so' : HnswScanOpaque V D}
    (h : so'.trace.callRecord = so.trace.callRecord) :
    so'.passedTrace settings = so.passedTrace settings := by
  unfold HnswScanOpaque.passedTrace HnswScanOpaque.tracePointer
  split
  · exact congrArg some h
  · rfl

omit [LinearOrder D] in
theorem SearchKeeps.trans {so so' so'' : HnswScanOpaque V D}
    (h : SearchKeeps so so') (h' : SearchKeeps so' so'') : SearchKeeps so so'' :=
  ⟨h'.1.trans h.1, h'.2.trans h.2⟩

variable (so : HnswScanOpaque V D)
  (discarded : PairingHeap (DiskCandidate V D))

omit [LinearOrder D] in
theorem searchKeeps_leaveSearch (st : SearchState (HnswElement V) ItemPointer D)
    (hst : passedRecord st.trace = so.passedTrace settings) :
    SearchKeeps so (so.leaveSearch st) := by
  refine ⟨rfl, ?_⟩
  unfold HnswScanOpaque.passedTrace HnswScanOpaque.tracePointer at hst
  unfold HnswScanOpaque.leaveSearch
  cases htrace : st.trace with
  | none => rfl
  | some t =>
    rw [htrace] at hst
    cases henabled : settings.traceEnabled with
    | false => simp [henabled, passedRecord] at hst
    | true => simpa [henabled, passedRecord] using hst

theorem hnswGetMetaPageInfo_yields :
    (hnswGetMetaPageInfo (V := V)).Yields (SearchUses kept) fun _ => True := by
  refine .bind (P := fun _ => True) ⟨trivial, fun _ => trivial⟩ fun metap _ => ?_
  split <;> trivial

theorem hnswEntryCandidate_yields (support : HnswSupport V D) (tid : ItemPointer)
    (q : Option V) (loadVec : Bool) :
    (hnswEntryCandidate support tid q loadVec).Yields (SearchUses kept) fun _ => True := by
  have hload := hnswLoadElementImpl_yields support tid q loadVec none none rfl
  refine .bind (hload.uses_mono ?_) ?_
  · intro o ho
    unfold SearchUses at ho ⊢
    split at ho
    case h_5 event => cases event <;> simp_all [SearchEvent, passedRecord]
    all_goals simp_all
  · rintro ⟨distance, element, trace⟩ -
    cases element <;> trivial

theorem scanGroundLayer_yields (ep : List (DiskCandidate V D))
    (discarded : Option (PairingHeap (DiskCandidate V D)))
    (initVisited : Bool) (trace : Option HnswTraceStats) (allocated : Nat)
    (htrace : passedRecord trace = kept) :
    (scanGroundLayer ctx settings so ep discarded initVisited trace
      allocated).Yields (SearchUses kept) fun r => passedRecord r.2.trace = kept :=
  hnswSearchLayer_yields (diskAccess_yields ctx.support so.q so.m 0 false)
    ctx.sizes ctx.fuel ep settings.efSearch 0 so.m false initVisited _ htrace

theorem getScanItems_yields (value : Option V) :
    (getScanItems ctx settings so value).Yields
      (SearchUses (so.passedTrace settings)) (SearchKeeps so) := by
  refine hnswGetMetaPageInfo_yields.bind ?_
  rintro ⟨m, entryPoint⟩ -
  cases entryPoint with
  | none => exact ⟨rfl, rfl⟩
  | some e =>
    refine (hnswEntryCandidate_yields ctx.support e.tid value false).bind ?_
    intro ep _
    refine .bind (scanUpperLayers_yields ctx value m ep.element.level [ep] _ _ rfl) ?_
    rintro ⟨ep', trace, allocated⟩ htrace
    refine .bind (scanGroundLayer_yields ctx settings _ ep' _ true trace _ htrace) ?_
    rintro ⟨w, st⟩ hst
    exact searchKeeps_leaveSearch settings so st hst

theorem resumeScanItems_yields :
    (resumeScanItems ctx settings so discarded).Yields
      (SearchUses (so.passedTrace settings)) (SearchKeeps so) := by
  unfold resumeScanItems
  split
  · exact ⟨rfl, rfl⟩
  · refine .bind (scanGroundLayer_yields ctx settings so _ _ false _ _ rfl) ?_
    rintro ⟨w, st⟩ hst
    exact searchKeeps_leaveSearch settings so st hst

theorem searchKeeps_returnRemaining : SearchKeeps so (returnRemaining ctx so discarded) := by
  unfold returnRemaining
  split <;> exact ⟨rfl, rfl⟩

theorem refill_yields :
    (refill ctx settings so).Yields (SearchUses (so.passedTrace settings)) (SearchKeeps so) := by
  unfold refill
  split
  · exact ⟨rfl, rfl⟩
  split
  · exact ⟨rfl, rfl⟩
  split
  · exact ⟨rfl, rfl⟩
  refine ⟨trivial, fun _ => ?_⟩
  split
  · exact searchKeeps_returnRemaining ctx so _
  · refine ⟨trivial, fun _ => ?_⟩
    refine (resumeScanItems_yields ctx settings so _).bind fun so' hso' => ?_
    exact ⟨trivial, fun _ => hso'⟩

theorem searchKeeps_takeHeaptid : SearchKeeps so (takeHeaptid settings so).1 := by
  unfold takeHeaptid
  split
  · exact ⟨rfl, rfl⟩
  · split
    · exact ⟨rfl, rfl⟩
    · dsimp only
      split
      · split <;> exact ⟨rfl, rfl⟩
      · exact ⟨rfl, rfl⟩

theorem fetchLoop_yields (fuel : Nat) (so : HnswScanOpaque V D) :
    (fetchLoop ctx settings fuel so).Yields
      (SearchUses (so.passedTrace settings)) fun r => SearchKeeps so r.1 := by
  induction fuel generalizing so with
  | zero => trivial
  | succ fuel ih =>
    refine (refill_yields ctx settings so).bind fun so₁ h₁ => ?_
    split
    · exact h₁
    · have h₂ := searchKeeps_takeHeaptid settings so₁
      split
      · next heq =>
        rw [heq] at h₂
        exact h₁.trans h₂
      · next so₂ heq =>
        rw [heq] at h₂
        have hkeep := h₁.trans h₂
        rw [← passedTrace_congr settings hkeep.2]
        exact (ih so₂).mono fun r hr => hkeep.trans hr

theorem lockedScanItems_yields (value : Option V × Nat) :
    (lockedScanItems ctx settings so value).Yields (SearchUses (so.passedTrace settings))
      fun so' => so'.first = false ∧ so'.trace.callRecord = so.trace.callRecord := by
  have hitems := getScanItems_yields ctx settings
    { so with tmpCtx := so.tmpCtx + value.2 } value.1
  refine ⟨trivial, fun _ => hitems.bind fun so' hso' => ?_⟩
  exact ⟨trivial, fun _ => ⟨rfl, hso'.2⟩⟩

theorem firstScan_yields :
    (firstScan ctx settings so).Yields (SearchUses (so.passedTrace settings))
      fun so' => so'.first = false ∧ so'.trace.callRecord = so.trace.callRecord := by
  unfold firstScan
  split
  · split
    · trivial
    · split
      · exact lockedScanItems_yields ctx settings so _
      · trivial
  · next hfirst => exact ⟨by simpa using hfirst, rfl⟩

theorem searchAndFetch_yields :
    (searchAndFetch ctx settings so).Yields (SearchUses (so.passedTrace settings))
      fun r => r.1.first = false ∧ r.1.trace.callRecord = so.trace.callRecord := by
  refine (firstScan_yields ctx settings so).bind ?_
  rintro so' ⟨hfirst, hcount⟩
  rw [← passedTrace_congr settings hcount]
  refine (fetchLoop_yields ctx settings ctx.fuel so').mono ?_
  rintro r ⟨hr, hr'⟩
  exact ⟨hr.trans hfirst, hr'.trans hcount⟩

end Scan

end PgVector.Hnsw
