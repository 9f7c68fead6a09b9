import PgVector.Hnsw.SearchAlike

/-!
# Two scans side by side

The same scan is run twice on an index that nothing else uses.  The runs may
differ in the trace, in what was allocated before, and in the order that is asked
for; what is searched and kept is the same on both sides, unless a test of the
limits comes out differently.
-/

namespace PgVector.Hnsw

open Foundation

/--
A test of the limits that comes out the same with `extra` bytes more, or that has
no candidate left to decide about.
-/
def LimitUnaffected {V D : Type} (ctx : ScanContext V D) (extra maxScanTuples : Nat)
    (maxMemory : Nat) : Event → Prop
  | .limitTest tuples allocated more =>
    more = true → tuples < maxScanTuples →
      maxMemory < ctx.memAllocated allocated ∨ ctx.memAllocated (allocated + extra) ≤ maxMemory
  | _ => True

theorem limitUnaffected_zero {V D : Type} (ctx : ScanContext V D)
    (maxScanTuples maxMemory : Nat) (event : Event) :
    LimitUnaffected ctx 0 maxScanTuples maxMemory event := by
  cases event with
  | limitTest tuples allocated more =>
    intro _ _
    exact Nat.lt_or_ge _ _
  | _ => trivial

section Comparison

variable {V D : Type} (self : ThreadId) (ctx : ScanContext V D)
  (extra maxScanTuples maxMemory : Nat)

/-- The first run has allocated more; a test of the second may fall into the gap. -/
def scanComparison : Comparison (hnswSignature V) (hnswSignature V) (Shared V)
    (Shared V) where
  handler := hnswHandler self
  handler' := hnswHandler self
  errors := Eq
  excused s := ∃ event ∈ s.log self,
    ¬ LimitUnaffected ctx extra maxScanTuples maxMemory event
  excused_step := by
    rintro o s r t hexec ⟨event, hmem, hgap⟩
    exact ⟨event, mem_log_hnswHandler hexec self hmem, hgap⟩

def SameIndex (s s' : Shared V) : Prop :=
  s.index = s'.index ∧ Alone self s ∧ Alone self s'

/-- The same elements; the first side has allocated `extra` bytes more. -/
def scanCorrespondence : Correspondence (HnswElement V) ItemPointer ItemPointer
    (HnswElement V) ItemPointer ItemPointer where
  element := Eq
  neighbor := Eq
  key := Eq
  key_inj := by
    rintro k l k' l' rfl rfl
    rfl
  allocated a b := a = b + extra
  allocated_add := by
    rintro a b n rfl
    omega
  trace _ _ := True
  layer _ := True

variable {self ctx extra maxScanTuples maxMemory}

variable {s s' : Shared V}

theorem readTuple_alike {α β : Type} {Q : α → β → Shared V → Shared V → Prop} {tid : ItemPointer}
    {f : Option (IndexTuple V) → HnswProgram V α} {f' : Option (IndexTuple V) → HnswProgram V β}
    (hs : SameIndex self s s')
    (hf : ∀ r, (f r).Alike (scanComparison self ctx extra maxScanTuples maxMemory) Q (f' r) s s') :
    (Program.step (L := hnswSignature V) (.readTuple tid) f).Alike
      (scanComparison self ctx extra maxScanTuples maxMemory) Q
      (Program.step (L := hnswSignature V) (.readTuple tid) f') s s' := by
  have hsame : s'.index.tuple? tid = s.index.tuple? tid := by rw [hs.1]
  have hright : hnswHandler self (.readTuple tid) s' =
      some (s.index.tuple? tid, s') := congrArg (fun r => some (r, s')) hsame
  exact .left rfl (.right hright (hf _))

theorem touchTrace_alike (t t' : Option HnswTraceStats) (f f' : HnswTraceStats → HnswTraceStats)
    (hs : SameIndex self s s') :
    (touchTrace t f).Alike (scanComparison self ctx extra maxScanTuples maxMemory)
      (fun _ _ s s' => SameIndex self s s') (touchTrace t' f') s s' := by
  cases t with
  | none =>
    cases t' with
    | none => exact .ret hs
    | some t' => exact .right rfl (.ret hs)
  | some t =>
    refine .left rfl ?_
    cases t' with
    | none => exact .ret hs
    | some t' => exact .right rfl (.ret hs)

theorem readElementTuple_alike (tid : ItemPointer) (hs : SameIndex self s s') :
    (readElementTuple tid).Alike (scanComparison self ctx extra maxScanTuples maxMemory)
      (fun etup etup' s s' => etup = etup' ∧ SameIndex self s s')
      (readElementTuple tid) s s' := by
  refine readTuple_alike hs fun r => ?_
  match r with
  | some (.element etup) => exact .ret ⟨rfl, hs⟩
  | some (.neighbor _) | some .placeholder | none => exact .fail rfl

theorem readNeighborTuple_alike (tid : ItemPointer) (hs : SameIndex self s s') :
    (readNeighborTuple tid).Alike (scanComparison self ctx extra maxScanTuples maxMemory)
      (fun ntup ntup' s s' => ntup = ntup' ∧ SameIndex self s s')
      (readNeighborTuple tid) s s' := by
  refine readTuple_alike hs fun r => ?_
  match r with
  | some (.neighbor ntup) => exact .ret ⟨rfl, hs⟩
  | some (.element _) | some .placeholder | none => exact .fail rfl

theorem countDistance_alike (q : Option V) (t t' : Option HnswTraceStats)
    (hs : SameIndex self s s') :
    (countDistance q t).Alike (scanComparison self ctx extra maxScanTuples maxMemory)
      (fun _ _ s s' => SameIndex self s s') (countDistance q t') s s' := by
  unfold countDistance
  split
  · exact .ret hs
  · exact .left rfl (.right rfl (touchTrace_alike t t' _ _ hs))

variable [LinearOrder D]

theorem hnswLoadElementImpl_alike (support : HnswSupport V D) (tid : ItemPointer) (q : Option V)
    (loadVec : Bool) (maxDistance : Option D) (t t' : Option HnswTraceStats)
    (hs : SameIndex self s s') :
    (hnswLoadElementImpl support tid q loadVec maxDistance t).Alike
      (scanComparison self ctx extra maxScanTuples maxMemory)
      (fun r r' s s' => r.1 = r'.1 ∧ r.2.1 = r'.2.1 ∧ SameIndex self s s')
      (hnswLoadElementImpl support tid q loadVec maxDistance t') s s' := by
  refine (readElementTuple_alike tid hs).bind ?_
  rintro etup etup' s s' ⟨rfl, hs⟩
  split
  · exact .fail rfl
  · refine (countDistance_alike q t t' hs).bind ?_
    intro t t' s s' hs
    refine .bind (touchTrace_alike t t' _ _ hs) ?_
    intro t t' s s' hs
    exact .ret ⟨rfl, rfl, hs⟩

omit [LinearOrder D] in
theorem hnswLoadNeighborTids_alike (e : HnswElement V) (m lc : Nat) (t t' : Option HnswTraceStats)
    (hs : SameIndex self s s') :
    (hnswLoadNeighborTids e m lc t).Alike (scanComparison self ctx extra maxScanTuples maxMemory)
      (fun r r' s s' => r.1 = r'.1 ∧ SameIndex self s s')
      (hnswLoadNeighborTids e m lc t') s s' := by
  refine (readNeighborTuple_alike e.neighbortid hs).bind ?_
  rintro ntup ntup' s s' ⟨rfl, hs⟩
  split
  · exact .ret ⟨rfl, hs⟩
  · refine .bind (touchTrace_alike t t' _ _ hs) ?_
    intro t t' s s' hs
    exact .ret ⟨rfl, hs⟩

omit [LinearOrder D] in
theorem diskNeighbors_alike (e : HnswElement V) (m lc : Nat) (t t' : Option HnswTraceStats)
    (hs : SameIndex self s s') :
    (diskNeighbors m lc e t).Alike (scanComparison self ctx extra maxScanTuples maxMemory)
      (fun r r' s s' => r.1 = r'.1 ∧ SameIndex self s s')
      (diskNeighbors m lc e t') s s' := by
  refine (hnswLoadNeighborTids_alike e m lc t t' hs).bind ?_
  rintro ⟨tids, t⟩ ⟨tids', t'⟩ s s' ⟨htids, hs⟩
  simp only at htids
  subst htids
  cases tids with
  | none => exact .ret ⟨rfl, hs⟩
  | some tids => exact .left rfl (.right rfl (.ret ⟨rfl, hs⟩))

theorem diskAccess_alike (support : HnswSupport V D) (q : Option V) (m lc : Nat)
    (skip inserting : Bool) :
    AccessAlike (scanComparison self ctx extra maxScanTuples maxMemory) (SameIndex self)
      (scanCorrespondence extra) lc skip (diskAccess support q m lc inserting)
      (diskAccess support q m lc inserting) where
  elementKey := congrArg HnswElement.tid
  neighborKey := id
  level := congrArg HnswElement.level
  layer := fun _ _ => trivial
  heaptidsLength := by
    rintro e e' - rfl
    rfl
  loadNeighbors := by
    rintro e e' t t' s s' rfl - - hs
    refine (diskNeighbors_alike e m lc t t' hs).mono ?_
    rintro ⟨tids, t⟩ ⟨tids', t'⟩ s s' ⟨htids, hs⟩
    exact ⟨List.forall₂_eq_eq_eq ▸ htids, trivial, hs⟩
  loadElement := by
    rintro n n' t t' s s' maxDistance rfl - hs
    refine (hnswLoadElementImpl_alike support n q inserting maxDistance t t' hs).mono ?_
    rintro ⟨d, e, t⟩ ⟨d', e', t'⟩ s s' ⟨hd, he, hs⟩
    refine ⟨hd, ?_, trivial, hs⟩
    simp only at he
    subst he
    cases e with
    | none => exact .none
    | some e => exact .some rfl
  touchTrace := by
    rintro t t' s s' f - hs
    refine (touchTrace_alike t t' f f hs).mono ?_
    intro _ _ s s' hs
    exact ⟨trivial, hs⟩
  corrupted := rfl
  outOfFuel := rfl

end Comparison

/-! ## What two scans have in common -/

section Scan

variable {V D : Type} {self : ThreadId} {ctx : ScanContext V D}
  {extra maxScanTuples maxMemory : Nat}

abbrev Candidates (V D : Type) := List (DiskCandidate V D)

abbrev CandidateHeap (V D : Type) :=
  PairingHeap (DiskCandidate V D)

variable {s s' : Shared V} {so so' : HnswScanOpaque V D}
  (c : DiskCandidate V D)

theorem candidateAlike_refl : CandidateAlike (scanCorrespondence extra) c c :=
  ⟨rfl, rfl⟩

theorem eq_of_candidateAlike (c' : DiskCandidate V D)
    (h : CandidateAlike (scanCorrespondence extra) c c') : c = c' := by
  obtain ⟨e, d⟩ := c
  obtain ⟨e', d'⟩ := c'
  obtain ⟨rfl, rfl⟩ : e = e' ∧ d = d' := h
  rfl

theorem eq_of_candidatesAlike {w w' : Candidates V D}
    (h : List.Forall₂ (LayerAlike (scanCorrespondence extra)) w w') : w = w' := by
  induction h with
  | nil => rfl
  | cons hc _ ih => rw [eq_of_candidateAlike _ _ hc.1, ih]

theorem layerAlike_refl : LayerAlike (scanCorrespondence extra) c c :=
  ⟨candidateAlike_refl c, trivial⟩

theorem candidatesAlike_refl (w : Candidates V D) :
    List.Forall₂ (LayerAlike (scanCorrespondence extra)) w w :=
  List.forall₂_same.mpr fun c _ => layerAlike_refl c

theorem discardedAlike_refl (d : Option (CandidateHeap V D)) :
    Option.Rel (PairingHeap.Rel (CandidateAlike (scanCorrespondence extra))) d d := by
  cases d with
  | none => exact .none
  | some d => exact .some (PairingHeap.rel_refl candidateAlike_refl d)

def SearchState.traced {E K : Type} (st : SearchState E K D) (extra : Nat)
    (trace : Option HnswTraceStats) : SearchState E K D :=
  { st with trace := trace, allocated := st.allocated + extra }

theorem stateAlike_traced (st : SearchState (HnswElement V) ItemPointer D)
    (trace : Option HnswTraceStats) :
    StateAlike (scanCorrespondence extra) (st.traced extra trace) st where
  candidates := PairingHeap.rel_refl layerAlike_refl _
  results := PairingHeap.rel_refl layerAlike_refl _
  wlen := rfl
  visited := List.forall₂_same.mpr fun _ _ => rfl
  discarded := discardedAlike_refl _
  tuples := rfl
  trace := trivial
  allocated := rfl

theorem eq_of_stateAlike {st st' : SearchState (HnswElement V) ItemPointer D}
    (h : StateAlike (scanCorrespondence extra) st st') :
    st = st'.traced extra st.trace := by
  obtain ⟨candidates, results, wlen, visited, discarded, tuples, trace, allocated⟩ := st
  obtain ⟨candidates', results', wlen', visited', discarded', tuples', trace', allocated'⟩ := st'
  have hc : candidates = candidates' :=
    PairingHeap.eq_of_rel (fun _ _ hc => eq_of_candidateAlike _ _ hc.1) h.candidates
  have hr : results = results' :=
    PairingHeap.eq_of_rel (fun _ _ hc => eq_of_candidateAlike _ _ hc.1) h.results
  have hw : wlen = wlen' := h.wlen
  have hv : visited = visited' := List.forall₂_eq_eq_eq ▸ h.visited
  have hd : discarded = discarded' := by
    have hrel := h.discarded
    simp only at hrel
    cases hrel with
    | none => rfl
    | some hd => rw [PairingHeap.eq_of_rel eq_of_candidateAlike hd]
  have ht : tuples = tuples' := h.tuples
  have ha : allocated = allocated' + extra := h.allocated
  subst hc hr hw hv hd ht ha
  rfl

def HnswScanOpaque.beside (so : HnswScanOpaque V D) (extra : Nat) (trace : HnswTraceStats)
    (queryId : Nat) (previousDistance : WithBot D) : HnswScanOpaque V D :=
  { so with
    trace := trace
    queryId := queryId
    previousDistance := previousDistance
    tmpCtx := so.tmpCtx + extra }

/-- The same candidates and limits; the last distances are related by `P`. -/
def OpaqueAlike (extra maxMemory : Nat) (P : WithBot D → WithBot D → Prop)
    (so so' : HnswScanOpaque V D) : Prop :=
  so'.maxMemory = maxMemory ∧ ∃ trace queryId previous,
    P previous so'.previousDistance ∧ so = so'.beside extra trace queryId previous

structure ScanSettings.Matching (settings settings' : ScanSettings) : Prop where
  efSearch : settings.efSearch = settings'.efSearch
  off : settings.iterativeScan = .off ↔ settings'.iterativeScan = .off
  maxScanTuples : settings.maxScanTuples = settings'.maxScanTuples

variable {settings settings' : ScanSettings} {P : WithBot D → WithBot D → Prop}

variable [LinearOrder D]

theorem scanUpperLayers_alike (q : Option V) (m lc : Nat) (ep : Candidates V D)
    (trace trace' : Option HnswTraceStats) {a b : Nat} (hab : a = b + extra)
    (hs : SameIndex self s s') :
    (scanUpperLayers ctx q m lc ep trace a).Alike
      (scanComparison self ctx extra maxScanTuples maxMemory)
      (fun r r' s s' => r.1 = r'.1 ∧ r.2.2 = r'.2.2 + extra ∧ SameIndex self s s')
      (scanUpperLayers ctx q m lc ep trace' b) s s' := by
  subst hab
  induction lc generalizing ep trace trace' b s s' with
  | zero => exact .ret ⟨rfl, rfl, hs⟩
  | succ lc ih =>
    refine .bind (hnswSearchLayer_alike
      (diskAccess_alike ctx.support q m (lc + 1) false false) ctx.sizes ctx.fuel
      (candidatesAlike_refl ep) 1 m true (stateAlike_traced _ trace) hs) ?_
    rintro ⟨w, st⟩ ⟨w', st'⟩ s s' ⟨hw, hst, hs⟩
    obtain rfl := eq_of_candidatesAlike hw
    have hst := eq_of_stateAlike hst
    simp only at hst ⊢
    rw [hst]
    exact ih w st.trace st'.trace hs

def GroundAlike (extra : Nat) (so : HnswScanOpaque V D) (trace : HnswTraceStats)
    (queryId : Nat) (previous : WithBot D)
    (r r' : Candidates V D × SearchState (HnswElement V) ItemPointer D) : Prop :=
  r.1 = r'.1 ∧ r.2.discarded = r'.2.discarded ∧
    ∃ trace' queryId', (so.beside extra trace queryId previous).leaveSearch r.2 =
      (so.leaveSearch r'.2).beside extra trace' queryId' previous

theorem scanGroundLayer_alike (hsettings : settings.Matching settings') (so : HnswScanOpaque V D)
    (trace : HnswTraceStats) (queryId : Nat) (previous : WithBot D) (ep : Candidates V D)
    (discarded : Option (CandidateHeap V D)) (initVisited : Bool) (t t' : Option HnswTraceStats)
    {a b : Nat} (hab : a = b + extra) (hs : SameIndex self s s') :
    (scanGroundLayer ctx settings (so.beside extra trace queryId previous) ep
      discarded initVisited t a).Alike
      (scanComparison self ctx extra maxScanTuples maxMemory)
      (fun r r' s s' => GroundAlike extra so trace queryId previous r r' ∧ SameIndex self s s')
      (scanGroundLayer ctx settings' so ep discarded initVisited t' b) s s' := by
  subst hab
  unfold scanGroundLayer
  rw [hsettings.efSearch]
  refine (hnswSearchLayer_alike
    (diskAccess_alike ctx.support so.q so.m 0 false false) ctx.sizes ctx.fuel
    (candidatesAlike_refl ep) settings'.efSearch so.m initVisited
    (stateAlike_traced _ t) hs).mono ?_
  rintro ⟨w, st⟩ ⟨w', st'⟩ s s' ⟨hw, hst, hs⟩
  have hst := eq_of_stateAlike hst
  simp only at hst
  refine ⟨⟨eq_of_candidatesAlike hw, ?_, st.trace.getD trace, queryId, ?_⟩, hs⟩
  · have hdiscarded := congrArg SearchState.discarded hst
    exact hdiscarded
  · dsimp only
    rw [hst]
    rfl

omit [LinearOrder D] in
theorem hnswGetMetaPageInfo_alike (hs : SameIndex self s s') :
    hnswGetMetaPageInfo.Alike (scanComparison self ctx extra maxScanTuples maxMemory)
      (fun r r' s s' => r = r' ∧ SameIndex self s s') hnswGetMetaPageInfo s s' := by
  have hmeta : s'.index.metapage = s.index.metapage := by rw [hs.1]
  refine .left rfl (.right rfl ?_)
  change Program.Alike _ _ (if _ then _ else _) (if _ then _ else _) _ _
  rw [hmeta]
  split
  · exact .fail rfl
  · exact .ret ⟨rfl, hs⟩

theorem hnswEntryCandidate_alike (tid : ItemPointer) (q : Option V) (hs : SameIndex self s s') :
    (hnswEntryCandidate ctx.support tid q false).Alike
      (scanComparison self ctx extra maxScanTuples maxMemory)
      (fun r r' s s' => r = r' ∧ SameIndex self s s')
      (hnswEntryCandidate ctx.support tid q false) s s' := by
  refine (hnswLoadElementImpl_alike ctx.support tid q false none none none hs).bind ?_
  rintro ⟨d, e, t⟩ ⟨d', e', t'⟩ s s' ⟨hd, he, hs⟩
  simp only at hd he
  subst hd he
  cases e with
  | none => exact .fail rfl
  | some e => exact .ret ⟨rfl, hs⟩

theorem getScanItems_alike (hsettings : settings.Matching settings')
    (hso : OpaqueAlike extra maxMemory P so so') (value : Option V) (hs : SameIndex self s s') :
    (getScanItems ctx settings so value).Alike
      (scanComparison self ctx extra maxScanTuples maxMemory)
      (fun so so' s s' => OpaqueAlike extra maxMemory P so so' ∧ SameIndex self s s')
      (getScanItems ctx settings' so' value) s s' := by
  obtain ⟨hmax, trace, queryId, previous, hP, rfl⟩ := hso
  refine (hnswGetMetaPageInfo_alike hs).bind ?_
  rintro ⟨m, entryPoint⟩ r s s' ⟨rfl, hs⟩
  cases entryPoint with
  | none => exact .ret ⟨⟨hmax, trace, queryId, previous, hP, rfl⟩, hs⟩
  | some e =>
    refine (hnswEntryCandidate_alike e.tid value hs).bind ?_
    rintro ep ep' s s' ⟨rfl, hs⟩
    have hbytes : so'.tmpCtx + extra + ctx.sizes.element +
        ctx.sizes.searchCandidate + ctx.sizes.list 1 =
        so'.tmpCtx + ctx.sizes.element + ctx.sizes.searchCandidate + ctx.sizes.list 1 + extra := by
      omega
    refine .bind (scanUpperLayers_alike value m ep.element.level [ep] _ _ hbytes hs) ?_
    rintro ⟨ep, t, a⟩ ⟨ep', t', b⟩ s s' ⟨hep, hab, hs⟩
    simp only at hep hab
    subst hep
    simp only [hsettings.off]
    refine .bind (scanGroundLayer_alike hsettings
      { so' with q := value, m := m } trace queryId previous ep _ true t t' hab hs) ?_
    rintro ⟨w, st⟩ ⟨w', st'⟩ s s' ⟨⟨hw, hdiscarded, trace', queryId', hso⟩, hs⟩
    simp only at hw hdiscarded hso
    subst hw
    refine .ret ⟨⟨hmax, trace', queryId', previous, hP, ?_⟩, hs⟩
    rw [hdiscarded]
    exact congrArg (fun so : HnswScanOpaque V D =>
      { so with
        w := w
        discarded :=
          if settings'.iterativeScan = IterativeScan.off then so'.discarded
          else st'.discarded }) hso

theorem resumeScanItems_alike (hsettings : settings.Matching settings')
    (hso : OpaqueAlike extra maxMemory P so so') (discarded : CandidateHeap V D)
    (hs : SameIndex self s s') :
    (resumeScanItems ctx settings so discarded).Alike
      (scanComparison self ctx extra maxScanTuples maxMemory)
      (fun so so' s s' => OpaqueAlike extra maxMemory P so so' ∧ SameIndex self s s')
      (resumeScanItems ctx settings' so' discarded) s s' := by
  obtain ⟨hmax, trace, queryId, previous, hP, rfl⟩ := hso
  unfold resumeScanItems
  split
  · exact .ret ⟨⟨hmax, trace, queryId, previous, hP, rfl⟩, hs⟩
  · dsimp only
    rw [hsettings.efSearch]
    refine .bind (scanGroundLayer_alike hsettings so' trace queryId previous _ _
      false _ _ (Nat.add_right_comm _ _ _) hs) ?_
    rintro ⟨w, st⟩ ⟨w', st'⟩ s s' ⟨⟨hw, -, trace', queryId', hso⟩, hs⟩
    simp only at hw hso
    subst hw
    refine .ret ⟨⟨hmax, trace', queryId', previous, hP, ?_⟩, hs⟩
    exact congrArg (fun so : HnswScanOpaque V D => { so with w := w }) hso

omit [LinearOrder D] in
theorem lockPage_alike {α β : Type} {Q : α → β → Shared V → Shared V → Prop}
    {f : Unit → HnswProgram V α} {f' : Unit → HnswProgram V β} (lock : PageLock) (mode : LockMode)
    (hs : SameIndex self s s')
    (hf : ∀ s s', SameIndex self s s' →
      (f ()).Alike (scanComparison self ctx extra maxScanTuples maxMemory) Q (f' ()) s s') :
    (lockPage lock mode >>= f).Alike
      (scanComparison self ctx extra maxScanTuples maxMemory) Q
      (lockPage lock mode >>= f') s s' := by
  have hfree := conflicts_of_alone lock mode hs.2.1
  have hfree' := conflicts_of_alone lock mode hs.2.2
  refine .left (hnswHandler_lockPage hfree) (.right (hnswHandler_lockPage hfree') ?_)
  apply hf
  exact ⟨hs.1, alone_withLock lock mode hs.2.1, alone_withLock lock mode hs.2.2⟩

omit [LinearOrder D] in
theorem unlockPage_alike {α β : Type} {Q : α → β → Shared V → Shared V → Prop}
    {f : Unit → HnswProgram V α} {f' : Unit → HnswProgram V β} (lock : PageLock) (mode : LockMode)
    (hs : SameIndex self s s')
    (hf : ∀ s s', SameIndex self s s' →
      (f ()).Alike (scanComparison self ctx extra maxScanTuples maxMemory) Q (f' ()) s s') :
    (unlockPage lock mode >>= f).Alike
      (scanComparison self ctx extra maxScanTuples maxMemory) Q
      (unlockPage lock mode >>= f') s s' := by
  refine .left rfl (.right rfl (hf _ _ ?_))
  exact ⟨hs.1, alone_erase hs.2.1 _, alone_erase hs.2.2 _⟩

theorem lockedScanItems_alike (hsettings : settings.Matching settings')
    (hso : OpaqueAlike extra maxMemory P so so') (value : Option V × Nat)
    (hs : SameIndex self s s') :
    (lockedScanItems ctx settings so value).Alike
      (scanComparison self ctx extra maxScanTuples maxMemory)
      (fun so so' s s' => OpaqueAlike extra maxMemory P so so' ∧ SameIndex self s s')
      (lockedScanItems ctx settings' so' value) s s' := by
  obtain ⟨hmax, trace, queryId, previous, hP, rfl⟩ := hso
  have hbytes : OpaqueAlike extra maxMemory P
      { so'.beside extra trace queryId previous with
        tmpCtx := (so'.beside extra trace queryId previous).tmpCtx + value.2 }
      { so' with tmpCtx := so'.tmpCtx + value.2 } := by
    refine ⟨hmax, trace, queryId, previous, hP, ?_⟩
    simp only [HnswScanOpaque.beside, Nat.add_right_comm]
  refine lockPage_alike .scan .share hs fun s s' hs => ?_
  refine (getScanItems_alike hsettings hbytes value.1 hs).bind ?_
  rintro so so' s s' ⟨⟨hmax, trace, queryId, previous, hP, rfl⟩, hs⟩
  refine unlockPage_alike .scan .share hs fun s s' hs => ?_
  exact .ret ⟨⟨hmax, trace, queryId, previous, hP, rfl⟩, hs⟩

theorem firstScan_alike (hsettings : settings.Matching settings')
    (hso : OpaqueAlike extra maxMemory P so so') (hs : SameIndex self s s') :
    (firstScan ctx settings so).Alike (scanComparison self ctx extra maxScanTuples maxMemory)
      (fun so so' s s' => OpaqueAlike extra maxMemory P so so' ∧ SameIndex self s s')
      (firstScan ctx settings' so') s s' := by
  have hfirst : so.first = so'.first := by
    obtain ⟨_, _, _, _, _, rfl⟩ := hso
    rfl
  have horder : so.orderByData = so'.orderByData := by
    obtain ⟨_, _, _, _, _, rfl⟩ := hso
    rfl
  unfold firstScan
  rw [hfirst, horder]
  cases so'.first with
  | false => exact .ret ⟨hso, hs⟩
  | true =>
    cases so'.orderByData with
    | none => exact .fail rfl
    | some argument =>
      cases ctx.mvccSnapshot with
      | false => exact .fail rfl
      | true => exact lockedScanItems_alike hsettings hso _ hs

theorem lockedResume_alike (hsettings : settings.Matching settings')
    (hso : OpaqueAlike extra maxMemory P so so') (discarded : CandidateHeap V D)
    (hs : SameIndex self s s') :
    (lockedResume ctx settings so discarded).Alike
      (scanComparison self ctx extra maxScanTuples maxMemory)
      (fun so so' s s' => OpaqueAlike extra maxMemory P so so' ∧ SameIndex self s s')
      (lockedResume ctx settings' so' discarded) s s' := by
  refine lockPage_alike .scan .share hs fun s s' hs => ?_
  refine (resumeScanItems_alike hsettings hso discarded hs).bind ?_
  rintro so so' s s' ⟨hso, hs⟩
  refine unlockPage_alike .scan .share hs fun s s' hs => ?_
  exact .ret ⟨hso, hs⟩

theorem returnRemaining_alike (hso : OpaqueAlike extra maxMemory P so so')
    (discarded : CandidateHeap V D) :
    OpaqueAlike extra maxMemory P (returnRemaining ctx so discarded)
      (returnRemaining ctx so' discarded) := by
  obtain ⟨hmax, trace, queryId, previous, hP, rfl⟩ := hso
  unfold returnRemaining
  split
  · exact ⟨hmax, trace, queryId, previous, hP, rfl⟩
  · refine ⟨hmax, trace, queryId, previous, hP, ?_⟩
    simp only [HnswScanOpaque.beside, Nat.add_right_comm]

theorem resume_nothing_alike (hso : OpaqueAlike extra maxMemory P so so') (hw : so'.w = [])
    (hs : SameIndex self s s') :
    (Program.ret so : HnswProgram V _).Alike (scanComparison self ctx extra maxScanTuples maxMemory)
      (fun so so' s s' => OpaqueAlike extra maxMemory P so so' ∧ SameIndex self s s')
      (lockedResume ctx settings' so' .nil) s s' := by
  obtain ⟨hmax, trace, queryId, previous, hP, rfl⟩ := hso
  refine .right (hnswHandler_lockPage (conflicts_of_alone .scan .share hs.2.2)) ?_
  refine .right (hnswHandler_unlockPage self _ _ s') (.ret ⟨?_, hs⟩)
  refine ⟨hmax, trace, queryId, previous, hP, ?_⟩
  simp only [HnswScanOpaque.beside, hw]

omit [LinearOrder D] in
theorem limitReached_beside (hsettings : settings.Matching settings')
    (hso : OpaqueAlike extra maxMemory P so so') (h : limitReached ctx settings' so' = true) :
    limitReached ctx settings so = true := by
  obtain ⟨hmax, trace, queryId, previous, hP, rfl⟩ := hso
  have hmono := ctx.memAllocated_mono (Nat.le_add_right so'.tmpCtx extra)
  rw [limitReached_iff] at h ⊢
  rw [hsettings.maxScanTuples]
  rcases h with htuples | hmemory
  · exact .inl htuples
  · exact .inr (hmemory.trans_le hmono)

omit [LinearOrder D] in
theorem limitReached_alike (hsettings : settings.Matching settings')
    (hso : OpaqueAlike extra maxMemory P so so') (more : Bool) (hmore : more = true)
    (hgap : LimitUnaffected ctx extra settings'.maxScanTuples maxMemory
      (.limitTest so'.tuples so'.tmpCtx more)) :
    limitReached ctx settings so = limitReached ctx settings' so' := by
  rw [Bool.eq_iff_iff]
  refine ⟨fun h => ?_, limitReached_beside hsettings hso⟩
  obtain ⟨hmax, trace, queryId, previous, hP, rfl⟩ := hso
  rw [limitReached_iff] at h ⊢
  rw [hsettings.maxScanTuples] at h
  rcases h with htuples | hmemory
  · exact .inl htuples
  · by_cases htuples : settings'.maxScanTuples ≤ so'.tuples
    · exact .inl htuples
    · right
      have hmemory' : maxMemory < ctx.memAllocated (so'.tmpCtx + extra) := hmax ▸ hmemory
      have hgap' := hgap hmore (Nat.lt_of_not_le htuples)
      rw [hmax]
      omega

theorem refill_alike (hsettings : settings.Matching settings')
    (hso : OpaqueAlike extra maxMemory P so so') (hs : SameIndex self s s') :
    (refill ctx settings so).Alike (scanComparison self ctx extra settings'.maxScanTuples maxMemory)
      (fun so so' s s' => OpaqueAlike extra maxMemory P so so' ∧ SameIndex self s s')
      (refill ctx settings' so') s s' := by
  have hw : so.w = so'.w := by
    obtain ⟨_, _, _, _, _, rfl⟩ := hso
    rfl
  have hdiscarded : so.discarded = so'.discarded := by
    obtain ⟨_, _, _, _, _, rfl⟩ := hso
    rfl
  unfold refill
  rw [hw, hdiscarded]
  simp only [hsettings.off]
  split
  · exact .ret ⟨hso, hs⟩
  next hempty =>
  have hw' : so'.w = [] := by simpa using hempty
  split
  · exact .ret ⟨hso, hs⟩
  cases so'.discarded with
  | none => exact .ret ⟨hso, hs⟩
  | some discarded =>
    refine .left rfl (.right rfl ?_)
    by_cases hgap : LimitUnaffected ctx extra settings'.maxScanTuples maxMemory
        (.limitTest so'.tuples so'.tmpCtx (!discarded.isEmpty))
    · cases discarded with
      | nil =>
        have hnone : ∀ so : HnswScanOpaque V D, returnRemaining ctx so .nil = so := fun _ => rfl
        rw [hnone, hnone]
        cases hreached : limitReached ctx settings' so' with
        | true =>
          rw [limitReached_beside hsettings hso hreached]
          exact .ret ⟨hso, hs⟩
        | false =>
          split
          · exact resume_nothing_alike hso hw' hs
          · exact lockedResume_alike hsettings hso _ hs
      | node sc child sibling =>
        rw [limitReached_alike hsettings hso _ rfl hgap]
        split
        · exact .ret ⟨returnRemaining_alike hso _, hs⟩
        · exact lockedResume_alike hsettings hso _ hs
    · refine .excuse _ _ ⟨_, ?_, hgap⟩
      simp

end Scan

end PgVector.Hnsw
