import PgVector.Foundation.History
import PgVector.Hnsw.TraceInterference

/-!
# What the trace counts

The counters of a trace against the work that shows in the history of a run: the element
tuples that were read, and the events of the distance calls and of the neighbor tuples that
passed their check.  The loads of a layer search are all counted, and counted alike; the
load of the entry point is not passed the trace and goes uncounted.
-/

namespace PgVector.Hnsw

open Foundation

section Fetches

variable {V D : Type} [LinearOrder D]

def gettuples (ctx : ScanContext V D) :
    List ScanSettings → HnswScanOpaque V D →
      HnswProgram V (HnswScanOpaque V D × List (Option ItemPointer))
  | [], so => .ret (so, [])
  | settings :: gets, so => do
    let (so, heaptid) ← hnswgettuple ctx settings so
    let (so, heaptids) ← gettuples ctx gets so
    return (so, heaptid :: heaptids)

def rescanAndGettuples (ctx : ScanContext V D) (first : ScanSettings)
    (orderbys : Option (Option V)) (gets : List ScanSettings)
    (so : HnswScanOpaque V D) :
    HnswProgram V (HnswScanOpaque V D × List (Option ItemPointer)) := do
  let so ← hnswrescan first so orderbys
  gettuples ctx gets so

end Fetches

namespace Counting

section Counted

variable {V T : Type}

abbrev HnswMoment (V T : Type) := Moment (hnswSignature V) T

def isElementRead : HnswMoment V T → Bool
  | ⟨.readTuple _, some (.element _), _⟩ => true
  | _ => false

def isEvent (event : Event) : HnswMoment V T → Bool
  | ⟨.emit event', _, _⟩ => decide (event' = event)
  | _ => false

def isEntryPoint : HnswMoment V T → Bool
  | ⟨.getMetaPage, metap, _⟩ => HnswMetaPage.entryPoint metap |>.isSome
  | _ => false

def elementReads (history : List (HnswMoment V T)) : Nat := history.countP isElementRead

def distanceCalls (history : List (HnswMoment V T)) : Nat :=
  history.countP (isEvent .distanceCall)

def neighborsPassed (history : List (HnswMoment V T)) : Nat :=
  history.countP (isEvent .neighborsPassed)

def entryPoints (history : List (HnswMoment V T)) : Nat := history.countP isEntryPoint

section Append

variable (h h' : List (HnswMoment V T))

@[simp] theorem elementReads_append :
    elementReads (h ++ h') = elementReads h + elementReads h' := List.countP_append

@[simp] theorem distanceCalls_append :
    distanceCalls (h ++ h') = distanceCalls h + distanceCalls h' := List.countP_append

@[simp] theorem neighborsPassed_append :
    neighborsPassed (h ++ h') = neighborsPassed h + neighborsPassed h' := List.countP_append

@[simp] theorem entryPoints_append :
    entryPoints (h ++ h') = entryPoints h + entryPoints h' := List.countP_append

end Append

/--
The counters `t'` are the counters `t` and the work that shows in `history`, except
that the loads of entry points are missing.
-/
structure TraceCounted (history : List (HnswMoment V T)) (t t' : HnswTraceStats) :
    Prop where
  distances : distanceCalls history = elementReads history
  loads : t'.element.loads + entryPoints history = t.element.loads + elementReads history
  visited : t'.visitedNodes + entryPoints history = t.visitedNodes + elementReads history
  computed : t'.distanceComputeCount + entryPoints history =
    t.distanceComputeCount + elementReads history
  neighbors : t'.neighbor.loads = t.neighbor.loads + neighborsPassed history

variable {h h' : List (HnswMoment V T)} {t t' t'' : HnswTraceStats}

theorem TraceCounted.trans (ht : TraceCounted h t t') (ht' : TraceCounted h' t' t'') :
    TraceCounted (h ++ h') t t'' := by
  obtain ⟨hdistances, hloads, hvisited, hcomputed, hneighbors⟩ := ht
  obtain ⟨hdistances', hloads', hvisited', hcomputed', hneighbors'⟩ := ht'
  constructor <;>
    simp only [elementReads_append, distanceCalls_append, neighborsPassed_append,
      entryPoints_append] <;>
    omega

/-- Instructions that do none of the work that is counted. -/
def Idle : HnswOp V → Prop
  | .getMetaPage | .readTuple _ | .emit .distanceCall | .emit .neighborsPassed => False
  | _ => True

structure Quiet (history : List (HnswMoment V T)) : Prop where
  reads : elementReads history = 0
  distances : distanceCalls history = 0
  neighbors : neighborsPassed history = 0
  entryPoints : entryPoints history = 0

theorem Quiet.counted (hh : Quiet h) (t : HnswTraceStats) : TraceCounted h t t := by
  constructor <;> simp [hh.reads, hh.distances, hh.neighbors, hh.entryPoints]

theorem quiet_of_forall (hh : ∀ m ∈ h, isElementRead m = false ∧
    isEvent .distanceCall m = false ∧ isEvent .neighborsPassed m = false ∧
    isEntryPoint m = false) : Quiet h := by
  constructor <;> refine List.countP_eq_zero.mpr fun m hm => ?_ <;> simp [hh m hm]

theorem Quiet.append (hh : Quiet h) (hh' : Quiet h') : Quiet (h ++ h') := by
  constructor <;>
    simp [hh.reads, hh.distances, hh.neighbors, hh.entryPoints, hh'.reads, hh'.distances,
      hh'.neighbors, hh'.entryPoints]

theorem quiet_nil : Quiet ([] : List (HnswMoment V T)) := ⟨rfl, rfl, rfl, rfl⟩

theorem quiet_follows {α : Type} {p : HnswProgram V α} {Q : α → Prop}
    (hp : p.Yields Idle Q) {a : α} (hfollows : p.Follows h a) : Q a ∧ Quiet h := by
  refine ⟨hp.follows hfollows, quiet_of_forall ?_⟩
  rintro ⟨o, r, mark⟩ hm
  have ho : Idle o := hp.follows_uses hfollows _ hm
  cases o with
  | getMetaPage | readTuple => exact ho.elim
  | emit event => cases event <;> simp_all [Idle, isElementRead, isEvent, isEntryPoint]
  | _ => simp [isElementRead, isEvent, isEntryPoint]

variable {α β : Type} {P : α → HnswTraceStats → Prop} {Q : β → HnswTraceStats → Prop}

/-- Along every history, the program counts its work from `t` on. -/
def Counts (T : Type) (p : HnswProgram V α) (t : HnswTraceStats)
    (Q : α → HnswTraceStats → Prop) : Prop :=
  ∀ (history : List (HnswMoment V T)) (a : α), p.Follows history a →
    ∃ t', TraceCounted history t t' ∧ Q a t'

namespace Counts

theorem ret {a : α} (hP : P a t) : Counts T (.ret a : HnswProgram V α) t P := by
  intro history b hfollows
  obtain ⟨rfl, rfl⟩ := Program.follows_ret_iff.mp hfollows
  exact ⟨t, quiet_nil.counted t, hP⟩

theorem fail {e : HnswError} : Counts T (.fail e : HnswProgram V α) t P := by
  intro history a hfollows
  cases hfollows

theorem bind {p : HnswProgram V α} {f : α → HnswProgram V β} (hp : Counts T p t P)
    (hf : ∀ a t', P a t' → Counts T (f a) t' Q) : Counts T (p >>= f) t Q := by
  intro history b hfollows
  obtain ⟨a, before, after, rfl, hbefore, hafter⟩ := Program.follows_bind_iff.mp hfollows
  obtain ⟨t₁, hcounted, ha⟩ := hp before a hbefore
  obtain ⟨t₂, hcounted', hb⟩ := hf a t₁ ha after b hafter
  exact ⟨t₂, hcounted.trans hcounted', hb⟩

theorem idle {p : HnswProgram V α} {P : α → Prop} (hp : p.Yields Idle P) :
    Counts T p t fun a t' => P a ∧ t' = t := by
  intro history a hfollows
  obtain ⟨hP, hquiet⟩ := quiet_follows hp hfollows
  exact ⟨t, hquiet.counted t, hP, rfl⟩

theorem perform {o : HnswOp V} {f : HnswOp.Res o → HnswProgram V β} (ho : Idle o)
    (hf : ∀ r, Counts T (f r) t Q) :
    Counts T (HnswOp.exec o >>= f) t Q := by
  refine bind (idle (Program.Yields.exec ho)) ?_
  rintro r _ ⟨-, rfl⟩
  exact hf r

end Counts

end Counted

/-! ## Loads -/

section Loads

variable {V T D : Type} [LinearOrder D] {history : List (HnswMoment V T)}

variable {trace trace' : Option HnswTraceStats} {tid : ItemPointer} {t : HnswTraceStats}

omit [LinearOrder D] in
theorem touchTrace_idle (trace : Option HnswTraceStats)
    (f : HnswTraceStats → HnswTraceStats) :
    (touchTrace (V := V) trace f).Yields Idle (· = trace.map f) := by
  cases trace with
  | none => exact rfl
  | some t => exact ⟨trivial, fun _ => rfl⟩

omit [LinearOrder D] in
theorem readElementTuple_follows {etup : HnswElementTuple V}
    (hfollows : (readElementTuple tid).Follows history etup) :
    ∃ mark, history = [⟨.readTuple tid, some (.element etup), mark⟩] := by
  obtain ⟨r, mark, rest, rfl, hreply⟩ := Program.follows_perform_iff.mp hfollows
  match r with
  | some (.element _) =>
    obtain ⟨rfl, rfl⟩ := Program.follows_ret_iff.mp hreply
    exact ⟨mark, rfl⟩
  | some (.neighbor _) | some .placeholder | none => cases hreply

omit [LinearOrder D] in
theorem readNeighborTuple_quiet {ntup : HnswNeighborTuple}
    (hfollows : (readNeighborTuple (V := V) tid).Follows history ntup) : Quiet history := by
  obtain ⟨r, mark, rest, rfl, hreply⟩ := Program.follows_perform_iff.mp hfollows
  match r with
  | some (.neighbor _) =>
    obtain ⟨rfl, -⟩ := Program.follows_ret_iff.mp hreply
    exact ⟨rfl, rfl, rfl, rfl⟩
  | some (.element _) | some .placeholder | none => cases hreply

def countLoad (t : HnswTraceStats) (blkno : BlockNumber) : HnswTraceStats :=
  hnswTraceRecordElementPage { t with distanceComputeCount := t.distanceComputeCount + 1 }
    blkno

@[simp] theorem record_loads (c : PageCounters) (blkno : BlockNumber) :
    (c.record blkno).loads = c.loads + 1 := by
  unfold PageCounters.record
  split <;> rfl

structure LoadShown (history : List (HnswMoment V T)) : Prop where
  reads : elementReads history = 1
  distances : distanceCalls history = 1
  neighbors : neighborsPassed history = 0
  entryPoints : entryPoints history = 0

omit [LinearOrder D] in
theorem LoadShown.append {h h' : List (HnswMoment V T)} (hh : LoadShown h) (hh' : Quiet h') :
    LoadShown (h ++ h') := by
  constructor <;>
    simp [hh.reads, hh.distances, hh.neighbors, hh.entryPoints, hh'.reads, hh'.distances,
      hh'.neighbors, hh'.entryPoints]

theorem hnswLoadElementImpl_shown {support : HnswSupport V D} {value : V} {loadVec : Bool}
    {maxDistance : Option D} {distance : D} {element : Option (HnswElement V)}
    (hfollows : (hnswLoadElementImpl support tid (some value) loadVec maxDistance
      trace).Follows history (distance, element, trace')) :
    LoadShown history ∧ trace' = trace.map fun t => countLoad t tid.blkno := by
  obtain ⟨etup, read, _, rfl, hread, hload⟩ := Program.follows_bind_iff.mp hfollows
  obtain ⟨mark, rfl⟩ := readElementTuple_follows hread
  split at hload
  · cases hload
  · obtain ⟨counted, count, _, rfl, hcount, hrecord⟩ := Program.follows_bind_iff.mp hload
    obtain ⟨_, mark', called, rfl, hcounted⟩ := Program.follows_perform_iff.mp hcount
    obtain ⟨recorded, record, _, rfl, hrecorded, hreturn⟩ :=
      Program.follows_bind_iff.mp hrecord
    obtain ⟨rfl, hresult⟩ := Program.follows_ret_iff.mp hreturn
    obtain ⟨-, -, rfl⟩ : distance = _ ∧ element = _ ∧ trace' = recorded := by
      simpa using hresult
    obtain ⟨rfl, hcountQuiet⟩ := quiet_follows (touchTrace_idle ..) hcounted
    obtain ⟨rfl, hrecordQuiet⟩ := quiet_follows (touchTrace_idle ..) hrecorded
    have hread : LoadShown ([⟨.readTuple tid, some (.element etup), mark⟩,
        ⟨.emit .distanceCall, (), mark'⟩] : List (HnswMoment V T)) := ⟨rfl, rfl, rfl, rfl⟩
    exact ⟨hread.append (hcountQuiet.append (hrecordQuiet.append quiet_nil)),
      by cases trace <;> rfl⟩

omit [LinearOrder D] in
theorem hnswLoadNeighborTids_follows {m lc : Nat} {element : HnswElement V}
    {tids : Option (List ItemPointer)}
    (hfollows : (hnswLoadNeighborTids element m lc (some t)).Follows history (tids, trace)) :
    Quiet history ∧ trace = some (if tids.isSome then
      hnswTraceRecordNeighborPage t element.neighbortid.blkno else t) := by
  obtain ⟨ntup, read, _, rfl, hread, hcheck⟩ := Program.follows_bind_iff.mp hfollows
  have hquiet := readNeighborTuple_quiet hread
  split at hcheck
  · obtain ⟨rfl, hresult⟩ := Program.follows_ret_iff.mp hcheck
    obtain ⟨rfl, rfl⟩ := Prod.mk.inj hresult
    exact ⟨hquiet.append quiet_nil, rfl⟩
  · obtain ⟨recorded, record, _, rfl, hrecorded, hreturn⟩ := Program.follows_bind_iff.mp hcheck
    obtain ⟨rfl, hresult⟩ := Program.follows_ret_iff.mp hreturn
    obtain ⟨rfl, rfl⟩ := Prod.mk.inj hresult
    obtain ⟨rfl, hrecordQuiet⟩ := quiet_follows (touchTrace_idle ..) hrecorded
    exact ⟨hquiet.append (hrecordQuiet.append quiet_nil), rfl⟩

omit [LinearOrder D] in
theorem diskNeighbors_counted {m lc : Nat} {element : HnswElement V} :
    Counts T (diskNeighbors m lc element (some t)) t fun r t' => r.2 = some t' := by
  intro history r hfollows
  obtain ⟨⟨tids, trace⟩, load, _, rfl, hload, hpassed⟩ := Program.follows_bind_iff.mp hfollows
  obtain ⟨hquiet, rfl⟩ := hnswLoadNeighborTids_follows hload
  cases tids with
  | none =>
    obtain ⟨rfl, rfl⟩ := Program.follows_ret_iff.mp hpassed
    exact ⟨t, (hquiet.append quiet_nil).counted t, rfl⟩
  | some tids =>
    obtain ⟨_, mark, _, rfl, hreturn⟩ := Program.follows_perform_iff.mp hpassed
    obtain ⟨rfl, rfl⟩ := Program.follows_ret_iff.mp hreturn
    refine ⟨_, (hquiet.counted t).trans ?_, rfl⟩
    constructor <;> simp [distanceCalls, elementReads, entryPoints, neighborsPassed,
      isElementRead, isEvent, isEntryPoint, hnswTraceRecordNeighborPage]

end Loads

/-! ## Layer searches -/

section Search

variable {V T D : Type} [LinearOrder D] {support : HnswSupport V D} {value : V} {m lc : Nat}
  {inserting : Bool} {t : HnswTraceStats}

def visit (t : HnswTraceStats) (n : Nat) : HnswTraceStats :=
  { t with visitedNodes := t.visitedNodes + n }

theorem hnswLoadElementImpl_counted {tid : ItemPointer} {maxDistance : Option D} (rest : Nat) :
    Counts T (hnswLoadElementImpl support tid (some value) inserting maxDistance
      (some (visit t (rest + 1)))) t fun r t' => r.2.2 = some (visit t' rest) := by
  rintro history ⟨distance, element, trace⟩ hfollows
  obtain ⟨⟨hreads, hdistances, hneighbors, hentry⟩, rfl⟩ := hnswLoadElementImpl_shown hfollows
  refine ⟨countLoad (visit t 1) tid.blkno, ?_, ?_⟩
  · constructor <;>
      simp [hreads, hdistances, hneighbors, hentry, countLoad, visit, hnswTraceRecordElementPage]
  · simp [visit, countLoad, hnswTraceRecordElementPage, Nat.add_assoc, Nat.add_comm 1]

variable {sizes : AllocSizes} {ef layer : Nat} {skip : Bool}
  {st : SearchState (HnswElement V) ItemPointer D}

theorem visitUnvisited_counted {ns : List ItemPointer}
    (hst : st.trace = some (visit t ns.length)) :
    Counts T (visitUnvisited (diskAccess support (some value) m lc inserting) sizes ef layer
      skip ns st) t fun st' t' => st'.trace = some t' := by
  induction ns generalizing st t with
  | nil => exact .ret hst
  | cons n rest ih =>
    unfold visitUnvisited
    split
    · exact .fail
    · rw [hst]
      refine .bind (hnswLoadElementImpl_counted rest.length) ?_
      rintro ⟨distance, element, _⟩ t' rfl
      cases element with
      | none => exact ih rfl
      | some e => exact ih (by simp)

theorem expandCandidate_counted {c : HnswElement V} (hst : st.trace = some t) :
    Counts T (expandCandidate (diskAccess support (some value) m lc inserting) sizes ef layer
      skip c st) t fun st' t' => st'.trace = some t' := by
  unfold expandCandidate
  rw [hst]
  refine .bind diskNeighbors_counted ?_
  rintro ⟨ns, _⟩ t₁ rfl
  refine .bind (.idle (touchTrace_idle (some t₁) fun t => visit t _)) ?_
  rintro _ _ ⟨rfl, rfl⟩
  exact visitUnvisited_counted rfl

theorem searchLoop_counted {fuel : Nat} (hst : st.trace = some t) :
    Counts T (searchLoop (diskAccess support (some value) m lc inserting) sizes ef layer skip
      fuel st) t fun st' t' => st'.trace = some t' := by
  induction fuel generalizing st t with
  | zero => exact .fail
  | succ fuel ih =>
    unfold searchLoop
    split
    · exact .ret hst
    split
    · exact .fail
    split
    · exact .ret hst
    · exact .bind (expandCandidate_counted hst) fun st' t' => ih

theorem hnswSearchLayer_counted {fuel layerM : Nat}
    {ep : List (DiskCandidate V D)} {initVisited : Bool}
    (hst : st.trace = some t) :
    Counts T (hnswSearchLayer (diskAccess support (some value) m lc inserting) sizes fuel ep ef
      layer layerM skip initVisited st) t fun r t' => r.2.trace = some t' :=
  .bind (searchLoop_counted (by simpa using hst)) fun _ _ hst' => .ret hst'

end Search

/-! ## Scans -/

section Scan

variable {V T D : Type} [LinearOrder D] {ctx : ScanContext V D} {settings : ScanSettings}
  {value : V} {so : HnswScanOpaque V D} {t : HnswTraceStats}

variable {ep : List (DiskCandidate V D)} {orderbys : Option (Option V)}

theorem scanUpperLayers_counted {m lc allocated : Nat} :
    Counts T (scanUpperLayers ctx (some value) m lc ep (some t) allocated) t
      fun r t' => r.2.1 = some t' := by
  induction lc generalizing ep t allocated with
  | zero => exact .ret rfl
  | succ lc ih =>
    refine .bind (hnswSearchLayer_counted rfl) ?_
    rintro ⟨w, st⟩ t₁ ht₁
    dsimp only at ht₁ ⊢
    rw [ht₁]
    exact ih

theorem scanGroundLayer_counted
    {discarded : Option (PairingHeap (DiskCandidate V D))}
    {initVisited : Bool} {allocated : Nat} (hq : so.q = some value) :
    Counts T (scanGroundLayer ctx settings so ep discarded initVisited (some t) allocated) t
      fun r t' => r.2.trace = some t' := by
  unfold scanGroundLayer
  rw [hq]
  exact hnswSearchLayer_counted rfl

theorem hnswEntryCandidate_shown {support : HnswSupport V D} {tid : ItemPointer}
    {loadVec : Bool} {ep : DiskCandidate V D}
    {history : List (HnswMoment V T)}
    (hfollows : (hnswEntryCandidate support tid (some value) loadVec).Follows history
      ep) : LoadShown history := by
  obtain ⟨⟨distance, element, trace⟩, before, after, rfl, hload, hreturn⟩ :=
    Program.follows_bind_iff.mp hfollows
  cases element with
  | none => cases hreturn
  | some e =>
    obtain ⟨rfl, -⟩ := Program.follows_ret_iff.mp hreturn
    rw [List.append_nil]
    exact (hnswLoadElementImpl_shown hload).1

omit [LinearOrder D] in
theorem hnswGetMetaPageInfo_follows {m : Nat} {entryPoint : Option EntryPoint}
    {history : List (HnswMoment V T)}
    (hfollows : (hnswGetMetaPageInfo (V := V)).Follows history (m, entryPoint)) :
    ∃ metap mark, history = [⟨.getMetaPage, metap, mark⟩] ∧ metap.entryPoint = entryPoint := by
  obtain ⟨metap, mark, rest, rfl, hcheck⟩ := Program.follows_perform_iff.mp hfollows
  split at hcheck
  · cases hcheck
  · obtain ⟨rfl, hresult⟩ := Program.follows_ret_iff.mp hcheck
    exact ⟨metap, mark, rfl, (Prod.mk.inj hresult).2.symm⟩

omit [LinearOrder D] in
theorem entryPoint_counted {metap : HnswMetaPage} (mark : T) {load : List (HnswMoment V T)}
    (hentry : metap.entryPoint.isSome) (hload : LoadShown load) (t : HnswTraceStats) :
    TraceCounted (⟨.getMetaPage, metap, mark⟩ :: load) t t := by
  obtain ⟨hreads, hdistances, hneighbors, hnone⟩ := hload
  simp only [distanceCalls, elementReads, entryPoints, neighborsPassed] at *
  constructor <;>
    simp [distanceCalls, elementReads, entryPoints, neighborsPassed, isElementRead, isEvent,
      isEntryPoint, hentry, hreads, hdistances, hneighbors, hnone]

omit [LinearOrder D] in
theorem leaveSearch_trace {st : SearchState (HnswElement V) ItemPointer D}
    (h : st.trace = some t) : (so.leaveSearch st).trace = t := by
  simp [HnswScanOpaque.leaveSearch, h]

theorem getScanItems_counted (htraced : settings.traceEnabled = true) :
    Counts T (getScanItems ctx settings so (some value)) so.trace
      fun so' t' => so'.q = some value ∧ so'.trace = t' := by
  intro history so' hfollows
  obtain ⟨⟨m, entryPoint⟩, page, _, rfl, hpage, hsearch⟩ :=
    Program.follows_bind_iff.mp hfollows
  obtain ⟨metap, mark, rfl, hentry⟩ := hnswGetMetaPageInfo_follows hpage
  cases entryPoint with
  | none =>
    obtain ⟨rfl, rfl⟩ := Program.follows_ret_iff.mp hsearch
    refine ⟨_, Quiet.counted ⟨rfl, rfl, rfl, ?_⟩ _, rfl, rfl⟩
    simp [entryPoints, isEntryPoint, hentry]
  | some e =>
    obtain ⟨ep, load, layers, rfl, hload, hlayers⟩ := Program.follows_bind_iff.mp hsearch
    have hmissing := entryPoint_counted mark (by rw [hentry]; rfl)
      (hnswEntryCandidate_shown hload) so.trace
    simp only [HnswScanOpaque.tracePointer, htraced, if_true] at hlayers
    obtain ⟨t', hcounted, hso'⟩ : ∃ t', TraceCounted layers so.trace t' ∧
        (so'.q = some value ∧ so'.trace = t') := by
      refine Counts.bind (Q := fun so' t' => so'.q = some value ∧ so'.trace = t')
        scanUpperLayers_counted ?_ layers so' hlayers
      rintro ⟨w, _, allocated⟩ t₁ rfl
      refine .bind (scanGroundLayer_counted rfl) ?_
      rintro ⟨w', st⟩ t₂ ht₂
      exact .ret ⟨rfl, leaveSearch_trace ht₂⟩
    exact ⟨t', hmissing.trans hcounted, hso'⟩

/-- What a search leaves of the opaque, with the counts in its trace. -/
structure Searched (so so' : HnswScanOpaque V D) (t : HnswTraceStats) : Prop where
  first : so'.first = so.first
  q : so'.q = so.q
  trace : so'.trace = t

theorem resumeScanItems_searched (htraced : settings.traceEnabled = true)
    {discarded : PairingHeap (DiskCandidate V D)}
    (hq : so.q = some value) :
    Counts T (resumeScanItems ctx settings so discarded) so.trace (Searched so) := by
  unfold resumeScanItems
  split
  · exact .ret ⟨rfl, rfl, rfl⟩
  · simp only [HnswScanOpaque.tracePointer, htraced, if_true]
    refine .bind (scanGroundLayer_counted hq) ?_
    rintro ⟨w, st⟩ t' ht'
    exact .ret ⟨rfl, rfl, leaveSearch_trace ht'⟩

def Asks (so : HnswScanOpaque V D) : Prop :=
  if so.first then so.orderByData ≠ some none else so.q.isSome

theorem lockedScanItems_counted (htraced : settings.traceEnabled = true) {bytes : Nat} :
    Counts T (lockedScanItems ctx settings so (some value, bytes)) so.trace
      fun so' t' => so'.first = false ∧ Asks so' ∧ so'.trace = t' := by
  refine .perform trivial fun _ => ?_
  refine .bind (getScanItems_counted htraced) ?_
  rintro so₁ t' ⟨hq, htrace⟩
  exact .perform trivial fun _ => .ret ⟨rfl, by simp [Asks, hq], htrace⟩

theorem firstScan_counted (htraced : settings.traceEnabled = true) (hso : Asks so) :
    Counts T (firstScan ctx settings so) so.trace
      fun so' t' => so'.first = false ∧ Asks so' ∧ so'.trace = t' := by
  unfold firstScan
  split
  · next hfirst =>
    rw [Asks, if_pos hfirst] at hso
    split
    · exact .fail
    · next argument hargument =>
      split
      · obtain ⟨value, rfl⟩ : ∃ value, argument = some value := by
          cases argument with
          | none => exact absurd hargument hso
          | some value => exact ⟨value, rfl⟩
        obtain ⟨asked, hasked⟩ : ∃ asked, (getScanValue ctx (some value)).1 = some asked := by
          unfold getScanValue
          dsimp only
          split <;> exact ⟨_, rfl⟩
        rw [← Prod.mk.eta (p := getScanValue ctx (some value)), hasked]
        exact lockedScanItems_counted htraced
      · exact .fail
  · next hfirst => exact .ret ⟨by simpa using hfirst, hso, rfl⟩

theorem returnRemaining_searched
    (discarded : PairingHeap (DiskCandidate V D)) :
    Searched so (returnRemaining ctx so discarded) so.trace := by
  unfold returnRemaining
  split <;> exact ⟨rfl, rfl, rfl⟩

theorem takeHeaptid_searched (so : HnswScanOpaque V D) :
    Searched so (takeHeaptid settings so).1 so.trace := by
  unfold takeHeaptid
  split
  · exact ⟨rfl, rfl, rfl⟩
  split
  · exact ⟨rfl, rfl, rfl⟩
  dsimp only
  split
  · split <;> exact ⟨rfl, rfl, rfl⟩
  · exact ⟨rfl, rfl, rfl⟩

theorem refill_searched (htraced : settings.traceEnabled = true) (hq : so.q = some value) :
    Counts T (refill ctx settings so) so.trace (Searched so) := by
  unfold refill
  split
  · exact .ret ⟨rfl, rfl, rfl⟩
  split
  · exact .ret ⟨rfl, rfl, rfl⟩
  split
  · exact .ret ⟨rfl, rfl, rfl⟩
  · refine .perform trivial fun _ => ?_
    split
    · exact .ret (returnRemaining_searched _)
    · refine .perform trivial fun _ => ?_
      refine .bind (resumeScanItems_searched htraced hq) fun so' t' hso' => ?_
      exact .perform trivial fun _ => .ret hso'

theorem fetchLoop_searched (htraced : settings.traceEnabled = true) {fuel : Nat}
    (hq : so.q = some value) :
    Counts T (fetchLoop ctx settings fuel so) so.trace fun r t' => Searched so r.1 t' := by
  induction fuel generalizing so with
  | zero => exact .fail
  | succ fuel ih =>
    refine .bind (refill_searched htraced hq) ?_
    rintro so₁ _ ⟨hfirst, hq₁, rfl⟩
    split
    · exact .ret ⟨hfirst, hq₁, rfl⟩
    · have htake : Searched so₁ (takeHeaptid settings so₁).1 so₁.trace :=
        takeHeaptid_searched so₁
      split
      · next so₂ tid htid =>
        rw [htid] at htake
        exact .ret ⟨htake.first.trans hfirst, htake.q.trans hq₁, htake.trace⟩
      · next so₂ htid =>
        rw [htid] at htake
        rw [← htake.trace]
        intro history r hfollows
        obtain ⟨t', hcounted, hr⟩ :=
          ih (htake.q.trans (hq₁.trans hq)) history r hfollows
        exact ⟨t', hcounted, hr.first.trans (htake.first.trans hfirst),
          hr.q.trans (htake.q.trans hq₁), hr.trace⟩

theorem searchAndFetch_counted (htraced : settings.traceEnabled = true) (hso : Asks so) :
    Counts T (searchAndFetch ctx settings so) so.trace fun r t' => Asks r.1 ∧ r.1.trace = t' := by
  refine .bind (firstScan_counted htraced hso) ?_
  rintro so₁ _ ⟨hpast, hasks, rfl⟩
  rw [Asks, hpast] at hasks
  obtain ⟨value, hvalue⟩ := Option.isSome_iff_exists.mp (by simpa using hasks)
  intro history r hfollows
  obtain ⟨t', hcounted, hr⟩ := fetchLoop_searched htraced hvalue history r hfollows
  exact ⟨t', hcounted, by simp [Asks, hr.first, hr.q, hpast, hvalue], hr.trace⟩

theorem TraceCounted.recorded {history : List (HnswMoment V T)} {t t' : HnswTraceStats}
    (h : TraceCounted history t t') (heaptid : Option ItemPointer) (entry exit : Observation) :
    TraceCounted history t ((heaptid.elim t' t'.recordTid).leaveIndex entry exit) := by
  cases heaptid <;> exact ⟨h.distances, h.loads, h.visited, h.computed, h.neighbors⟩

theorem hnswgettuple_counted (htraced : settings.traceEnabled = true) (hso : Asks so) :
    Counts T (hnswgettuple ctx settings so) so.trace fun r t' => Asks r.1 ∧ r.1.trace = t' := by
  unfold hnswgettuple
  rw [if_pos htraced]
  refine .perform trivial fun entry => ?_
  refine .bind (searchAndFetch_counted htraced hso) ?_
  rintro ⟨so₁, heaptid⟩ _ ⟨hasks, rfl⟩
  refine .perform trivial fun _ => .perform trivial fun exit => ?_
  intro history r hfollows
  obtain ⟨rfl, rfl⟩ := Program.follows_ret_iff.mp hfollows
  exact ⟨_, (quiet_nil.counted _).recorded heaptid entry exit, hasks, rfl⟩

theorem gettuples_counted {gets : List ScanSettings}
    (hgets : ∀ settings ∈ gets, settings.traceEnabled = true) (hso : Asks so) :
    Counts T (gettuples ctx gets so) so.trace fun r t' => r.1.trace = t' := by
  induction gets generalizing so with
  | nil => exact .ret rfl
  | cons settings gets ih =>
    obtain ⟨htraced, hgets⟩ := List.forall_mem_cons.mp hgets
    refine .bind (hnswgettuple_counted htraced hso) ?_
    rintro ⟨so₁, heaptid⟩ _ ⟨hasks, rfl⟩
    refine .bind (ih hgets hasks) ?_
    rintro ⟨so₂, tids⟩ t' htrace
    exact .ret htrace

theorem rescanAndGettuples_counted {first : ScanSettings} {gets : List ScanSettings}
    {so' : HnswScanOpaque V D} {heaptids : List (Option ItemPointer)}
    {history : List (HnswMoment V T)}
    (hfirst : first.traceEnabled = true) (hgets : ∀ settings ∈ gets, settings.traceEnabled = true)
    (hquery : so.orderByData.map (orderbys.getD ·) ≠ some none)
    (hfollows : (rescanAndGettuples ctx first orderbys gets so).Follows history
      (so', heaptids)) : ∃ now, TraceCounted history (hnswTraceInit so.trace now) so'.trace := by
  obtain ⟨so₁, rescan, calls, rfl, hrescan, hcalls⟩ := Program.follows_bind_iff.mp hfollows
  have hyields : (hnswrescan first so orderbys).Yields Idle fun so' =>
      so'.first = true ∧ so'.orderByData = so.orderByData.map (orderbys.getD ·) ∧
        ∃ now, so'.trace = hnswTraceInit so.trace now := by
    refine ⟨trivial, fun _ => ?_⟩
    rw [if_pos hfirst]
    exact ⟨trivial, fun _ => ⟨trivial, fun _ => ⟨trivial, fun now =>
      ⟨rfl, rfl, now, rfl⟩⟩⟩⟩
  obtain ⟨⟨hfresh, hargument, now, htrace⟩, hquiet⟩ := quiet_follows hyields hrescan
  have hasks : Asks so₁ := by
    rw [Asks, if_pos hfresh, hargument]
    exact hquery
  obtain ⟨_, hcounted', rfl⟩ := gettuples_counted hgets hasks calls _ hcalls
  rw [htrace] at hcounted'
  exact ⟨now, (hquiet.counted _).trans hcounted'⟩

/-! ## The counters of a record -/

/--
Tracing on, a query that is not null, any number of fetches after a restart: the
record counts each visited element once in each of three counters, and the
expanded candidates whose neighbor tuple passed its check.
-/
theorem trace_counters_agree (ctx : ScanContext V D) (first : ScanSettings)
    (hfirst : first.traceEnabled = true) (gets : List ScanSettings)
    (hgets : ∀ settings ∈ gets, settings.traceEnabled = true)
    (orderbys : Option (Option V)) (so : HnswScanOpaque V D)
    (hquery : so.orderByData.map (orderbys.getD ·) ≠ some none) :
    ∀ (history : List (HnswMoment V T)) (so' : HnswScanOpaque V D)
      (heaptids : List (Option ItemPointer)) (line : TraceLine) (now : Observation),
      (rescanAndGettuples ctx first orderbys gets so).Follows history (so', heaptids) →
      line = hnswTraceEmit so'.trace so'.queryId so'.trace.heapFetchCount now →
      line.visitedNodes = line.indexElementLoads ∧
      line.indexElementLoads = line.distanceComputeCount ∧
      line.indexNeighborLoads = neighborsPassed history := by
  rintro history so' heaptids line now hfollows rfl
  obtain ⟨start, hcounted⟩ := rescanAndGettuples_counted hfirst hgets hquery hfollows
  obtain ⟨-, hloads, hvisited, hcomputed, hneighbors⟩ := hcounted
  simp only [hnswTraceInit, PageCounters.start] at hloads hvisited hcomputed hneighbors
  simp only [hnswTraceEmit]
  omega

end Scan

def fetchesOfSeven (fetches : Nat) :
    HnswProgram Nat (HnswScanOpaque Nat Nat × List (Option ItemPointer)) :=
  rescanAndGettuples (numberContext 8) (defaultSettings true) (some (some 7))
    (List.replicate fetches (defaultSettings true)) (hnswbeginscan default 4096 1 1)

/-- Two fetches from three elements, of which layer searches find two. -/
theorem trace_counters_agree_three :
    ∃ (history : List (HnswMoment Nat Unit)) (so' : HnswScanOpaque Nat Nat),
      (fetchesOfSeven 2).Follows history (so', [some ⟨3, 3⟩, some ⟨3, 2⟩]) ∧
      so'.trace.visitedNodes = 2 ∧ so'.trace.element.loads = 2 ∧
      so'.trace.distanceComputeCount = 2 ∧
      so'.trace.neighbor.loads = neighborsPassed history := by
  have hrun : ∃ so' t, (fetchesOfSeven 2).run (hnswHandler 0)
      threeElementShared = (.done (so', [some ⟨3, 3⟩, some ⟨3, 2⟩]), t) ∧
        so'.trace.visitedNodes = 2 := ⟨_, _, rfl, rfl⟩
  obtain ⟨so', t, hrun, hvisited⟩ := hrun
  have hfollows : (fetchesOfSeven 2).Follows ((fetchesOfSeven 2).history
      (hnswHandler 0) (fun _ => ()) threeElementShared) _ :=
    Program.follows_history hrun
  obtain ⟨hloads, hcomputed, hneighbors⟩ := trace_counters_agree (numberContext 8)
    (defaultSettings true) rfl (List.replicate 2 (defaultSettings true)) (by decide)
    (some (some 7)) (hnswbeginscan default 4096 1 1) (by decide) _ _ _ _ default
    hfollows rfl
  have hloads' := hvisited.symm.trans hloads
  exact ⟨_, so', hfollows, hvisited, hloads'.symm, (hloads'.trans hcomputed).symm, hneighbors⟩

section Scan

variable {V T D : Type} [LinearOrder D]

/--
The record counts all distance calls and all element reads exactly if no fetch
found an entry point in the meta page.
-/
theorem trace_counts_all_iff (ctx : ScanContext V D) (first : ScanSettings)
    (hfirst : first.traceEnabled = true) (gets : List ScanSettings)
    (hgets : ∀ settings ∈ gets, settings.traceEnabled = true)
    (orderbys : Option (Option V)) (so : HnswScanOpaque V D)
    (hquery : so.orderByData.map (orderbys.getD ·) ≠ some none) :
    ∀ (history : List (HnswMoment V T)) (so' : HnswScanOpaque V D)
      (heaptids : List (Option ItemPointer)) (line : TraceLine) (now : Observation),
      (rescanAndGettuples ctx first orderbys gets so).Follows history (so', heaptids) →
      line = hnswTraceEmit so'.trace so'.queryId so'.trace.heapFetchCount now →
      ((line.distanceComputeCount = distanceCalls history ∧
          line.indexElementLoads = elementReads history) ↔
        ∀ m ∈ history, isEntryPoint m = false) := by
  rintro history so' heaptids line now hfollows rfl
  obtain ⟨start, hcounted⟩ := rescanAndGettuples_counted hfirst hgets hquery hfollows
  obtain ⟨hdistances, hloads, -, hcomputed, -⟩ := hcounted
  simp only [hnswTraceInit, PageCounters.start] at hloads hcomputed
  have hnone : (∀ m ∈ history, isEntryPoint m = false) ↔ entryPoints history = 0 := by
    simp [entryPoints, List.countP_eq_zero]
  rw [hnone]
  simp only [hnswTraceEmit]
  omega

end Scan

/-- Nothing is loaded from an empty index, and nothing counted. -/
theorem trace_counts_all_iff_empty :
    ∃ (history : List (HnswMoment Nat Unit)) (so' : HnswScanOpaque Nat Nat),
      (fetchesOfSeven 1).Follows history (so', [none]) ∧
      so'.trace.distanceComputeCount = distanceCalls history ∧
      so'.trace.element.loads = elementReads history := by
  have hrun : ∃ so' t, (fetchesOfSeven 1).run (hnswHandler 0)
      (emptyShared 16) = (.done (so', [none]), t) := ⟨_, _, rfl⟩
  obtain ⟨so', t, hrun⟩ := hrun
  have hfollows : (fetchesOfSeven 1).Follows ((fetchesOfSeven 1).history
      (hnswHandler 0) (fun _ => ()) (emptyShared 16)) _ :=
    Program.follows_history hrun
  have hiff := trace_counts_all_iff (numberContext 8) (defaultSettings true) rfl
    (List.replicate 1 (defaultSettings true)) (by decide) (some (some 7))
    (hnswbeginscan default 4096 1 1) (by decide) _ _ _ _ default hfollows rfl
  exact ⟨_, so', hfollows, hiff.mpr (by decide)⟩

/-- The only element is the entry point: it is read and its distance computed. -/
theorem trace_misses_entry_point :
    ∃ (history : List (HnswMoment Nat Unit)) (so' : HnswScanOpaque Nat Nat) (t : Shared Nat),
      (fetchesOfSeven 1).run (hnswHandler 0) oneElementShared = (.done (so', [some ⟨3, 1⟩]), t) ∧
      (fetchesOfSeven 1).Follows history (so', [some ⟨3, 1⟩]) ∧
      distanceCalls history = 1 ∧ elementReads history = 1 ∧
      so'.trace.distanceComputeCount = 0 ∧ so'.trace.element.loads = 0 := by
  have hrun : ∃ so' t, (fetchesOfSeven 1).run (hnswHandler 0) oneElementShared =
      (.done (so', [some ⟨3, 1⟩]), t) ∧
        so'.trace.distanceComputeCount = 0 ∧ so'.trace.element.loads = 0 :=
    ⟨_, _, rfl, rfl, rfl⟩
  obtain ⟨so', t, hrun, hcomputed, hloads⟩ := hrun
  exact ⟨(fetchesOfSeven 1).history (hnswHandler 0) (fun _ => ()) oneElementShared, so', t, hrun,
    Program.follows_history hrun, rfl, rfl, hcomputed, hloads⟩

end Counting

end PgVector.Hnsw
