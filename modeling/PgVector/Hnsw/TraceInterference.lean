import PgVector.Hnsw.ScanAlike
import PgVector.Hnsw.ScanReport

/-!
# Tracing and the tuples that are returned

The same scan, run with tracing on and with tracing off.  The two runs take the
same decisions but for one test: the arrays of the trace are allocated in the
memory context whose size limits an iterative scan.  They return the same heap
TIDs if no test of the limits falls into that gap.
-/

namespace PgVector.Hnsw

open Foundation

def ScanSettings.withTrace (settings : ScanSettings) (traceEnabled : Bool) : ScanSettings :=
  { settings with traceEnabled := traceEnabled }

section Runs

variable {V D : Type} [LinearOrder D]

def fetches (ctx : ScanContext V D) (settings : ScanSettings) :
    Nat → HnswScanOpaque V D → HnswProgram V (List (Option ItemPointer))
  | 0, _ => .ret []
  | n + 1, so => do
    let (so, heaptid) ← hnswgettuple ctx settings so
    let heaptids ← fetches ctx settings n so
    return heaptid :: heaptids

def rescanAndFetch (ctx : ScanContext V D) (settings : ScanSettings)
    (orderbys : Option (Option V)) (n : Nat) (so : HnswScanOpaque V D) :
    HnswProgram V (List (Option ItemPointer)) := do
  let so ← hnswrescan settings so orderbys
  fetches ctx settings n so

end Runs

/--
A test of the limits that comes out the same when the arrays of the trace are
counted, or that has no candidate left to decide about.
-/
def LimitUndisturbed {V D : Type} (ctx : ScanContext V D) (maxScanTuples : Nat)
    (maxMemory : Nat) : Event → Prop
  | .limitTest tuples allocated more =>
    more = true → tuples < maxScanTuples →
      maxMemory < ctx.memAllocated allocated ∨
        ctx.memAllocated (allocated + hnswTraceInitBytes) ≤ maxMemory
  | _ => True

theorem limitUnaffected_traced {V D : Type} (ctx : ScanContext V D)
    (maxScanTuples maxMemory : Nat) (event : Event) :
    LimitUnaffected ctx hnswTraceInitBytes maxScanTuples maxMemory event ↔
      LimitUndisturbed ctx maxScanTuples maxMemory event := by
  cases event <;> rfl

/-! ## Scans -/

section Scan

variable {V D : Type} {self : ThreadId} {ctx : ScanContext V D}
  {settings : ScanSettings} {maxMemory : Nat}

theorem matching_traced (settings : ScanSettings) :
    (settings.withTrace true).Matching (settings.withTrace false) :=
  ⟨rfl, Iff.rfl, rfl⟩

def HnswScanOpaque.traced (so : HnswScanOpaque V D) (trace : HnswTraceStats)
    (queryId : Nat) : HnswScanOpaque V D :=
  { so with
    trace := trace
    queryId := queryId
    tmpCtx := so.tmpCtx + hnswTraceInitBytes }

def TracedAlike (maxMemory : Nat) (so so' : HnswScanOpaque V D) : Prop :=
  OpaqueAlike hnswTraceInitBytes maxMemory Eq so so'

variable {so so' : HnswScanOpaque V D} {s s' : Shared V}

theorem tracedAlike_iff :
    TracedAlike maxMemory so so' ↔
      so'.maxMemory = maxMemory ∧ ∃ trace queryId, so = so'.traced trace queryId := by
  constructor
  · rintro ⟨hmax, trace, queryId, _, rfl, hso⟩
    exact ⟨hmax, trace, queryId, hso⟩
  · rintro ⟨hmax, trace, queryId, hso⟩
    exact ⟨hmax, trace, queryId, _, rfl, hso⟩

variable [LinearOrder D]

theorem takeHeaptid_traced (so : HnswScanOpaque V D) (trace : HnswTraceStats)
    (queryId : Nat) :
    takeHeaptid (settings.withTrace true) (so.traced trace queryId) =
      ((takeHeaptid (settings.withTrace false) so).1.traced trace queryId,
        (takeHeaptid (settings.withTrace false) so).2) := by
  have hw : (so.traced trace queryId).w = so.w := rfl
  rw [takeHeaptid, takeHeaptid, hw]
  cases so.w.getLast? with
  | none => rfl
  | some sc =>
    dsimp only
    cases sc.element.heaptids.getLast? with
    | none => rfl
    | some heaptid =>
      by_cases hstrict : settings.iterativeScan = .strict
      · by_cases hnear : (sc.distance : WithBot D) < so.previousDistance <;>
          simp [HnswScanOpaque.traced, ScanSettings.withTrace, hstrict, hnear]
      · simp [HnswScanOpaque.traced, ScanSettings.withTrace, hstrict]

theorem maxMemory_takeHeaptid (so : HnswScanOpaque V D) :
    (takeHeaptid settings so).1.maxMemory = so.maxMemory := by
  unfold takeHeaptid
  split
  · rfl
  · split
    · rfl
    · dsimp only
      split
      · split <;> rfl
      · rfl

theorem fetchLoop_alike (fuel : Nat) (hso : TracedAlike maxMemory so so')
    (hs : SameIndex self s s') :
    (fetchLoop ctx (settings.withTrace true) fuel so).Alike
      (scanComparison self ctx hnswTraceInitBytes settings.maxScanTuples maxMemory)
      (fun r r' s s' => TracedAlike maxMemory r.1 r'.1 ∧ r.2 = r'.2 ∧ SameIndex self s s')
      (fetchLoop ctx (settings.withTrace false) fuel so') s s' := by
  induction fuel generalizing so so' s s' with
  | zero => exact .fail rfl
  | succ fuel ih =>
    refine (refill_alike (matching_traced settings) hso hs).bind ?_
    rintro so so' s s' ⟨hso, hs⟩
    obtain ⟨hmax, trace, queryId, rfl⟩ := tracedAlike_iff.mp hso
    have hw : (so'.traced trace queryId).w = so'.w := rfl
    have hmax' : (takeHeaptid (settings.withTrace false) so').1.maxMemory =
        so'.maxMemory := maxMemory_takeHeaptid so'
    rw [hw, takeHeaptid_traced]
    split
    · exact .ret ⟨tracedAlike_iff.mpr ⟨hmax, trace, queryId, rfl⟩, rfl, hs⟩
    · generalize takeHeaptid (settings.withTrace false) so' = taken at hmax'
      obtain ⟨so₁, heaptid⟩ := taken
      have hso₁ : TracedAlike maxMemory (so₁.traced trace queryId) so₁ :=
        tracedAlike_iff.mpr ⟨hmax'.trans hmax, trace, queryId, rfl⟩
      cases heaptid with
      | none => exact ih hso₁ hs
      | some heaptid => exact .ret ⟨hso₁, rfl, hs⟩

theorem hnswgettuple_alike (hso : TracedAlike maxMemory so so') (hs : SameIndex self s s') :
    (hnswgettuple ctx (settings.withTrace true) so).Alike
      (scanComparison self ctx hnswTraceInitBytes settings.maxScanTuples maxMemory)
      (fun r r' s s' => TracedAlike maxMemory r.1 r'.1 ∧ r.2 = r'.2 ∧ SameIndex self s s')
      (hnswgettuple ctx (settings.withTrace false) so') s s' := by
  have hsearch : ∀ {s s' : Shared V}, SameIndex self s s' →
      (searchAndFetch ctx (settings.withTrace true) so).Alike
        (scanComparison self ctx hnswTraceInitBytes settings.maxScanTuples maxMemory)
        (fun r r' s s' => TracedAlike maxMemory r.1 r'.1 ∧ r.2 = r'.2 ∧ SameIndex self s s')
        (searchAndFetch ctx (settings.withTrace false) so') s s' := by
    intro s s' hs
    refine (firstScan_alike (matching_traced settings) hso hs).bind ?_
    rintro so so' s s' ⟨hso, hs⟩
    exact fetchLoop_alike ctx.fuel hso hs
  refine .performLeft rfl ?_
  -- what the traced call does after the search stays within the trace
  rw [← Program.bind_ret (hnswgettuple ctx (settings.withTrace false) so')]
  refine .bind (hsearch hs) ?_
  rintro ⟨so, heaptid⟩ ⟨so', heaptid'⟩ s s' ⟨hso, hheaptid, hs⟩
  obtain ⟨hmax, trace, queryId, hso⟩ := tracedAlike_iff.mp hso
  simp only at hmax hso hheaptid
  subst hso hheaptid
  exact .performLeft rfl (.performLeft rfl
    (.ret ⟨tracedAlike_iff.mpr ⟨hmax, _, queryId, rfl⟩, rfl, hs⟩))

theorem fetches_alike (n : Nat) (hso : TracedAlike maxMemory so so') (hs : SameIndex self s s') :
    (fetches ctx (settings.withTrace true) n so).Alike
      (scanComparison self ctx hnswTraceInitBytes settings.maxScanTuples maxMemory)
      (fun r r' _ _ => r = r')
      (fetches ctx (settings.withTrace false) n so') s s' := by
  induction n generalizing so so' s s' with
  | zero => exact .ret rfl
  | succ n ih =>
    refine (hnswgettuple_alike hso hs).bind ?_
    rintro ⟨so, heaptid⟩ ⟨so', heaptid'⟩ s s' ⟨hso, hheaptid, hs⟩
    simp only at hso hheaptid
    subst hheaptid
    refine .bind (ih hso hs) ?_
    rintro heaptids _ s s' rfl
    exact .ret rfl

theorem rescanAndFetch_alike (orderbys : Option (Option V)) (n : Nat) (so : HnswScanOpaque V D)
    (hs : SameIndex self s s') :
    (rescanAndFetch ctx (settings.withTrace true) orderbys n so).Alike
      (scanComparison self ctx hnswTraceInitBytes settings.maxScanTuples so.maxMemory)
      (fun r r' _ _ => r = r')
      (rescanAndFetch ctx (settings.withTrace false) orderbys n so) s s' := by
  have hrescan : (hnswrescan (settings.withTrace true) so orderbys).Alike
      (scanComparison self ctx hnswTraceInitBytes settings.maxScanTuples so.maxMemory)
      (fun so₁ so₁' s s' => TracedAlike so.maxMemory so₁ so₁' ∧ SameIndex self s s')
      (hnswrescan (settings.withTrace false) so orderbys) s s' := by
    refine .left rfl (.right rfl ?_)
    refine .left rfl (.left rfl (.left rfl (.ret ⟨tracedAlike_iff.mpr ⟨rfl, ?_⟩, hs⟩)))
    refine ⟨hnswTraceInit so.trace (s.env s.observed), s.queryCounter + 1, ?_⟩
    simp only [HnswScanOpaque.traced, Nat.zero_add]
  refine hrescan.bind ?_
  rintro so₁ so₁' s s' ⟨hso, hs⟩
  exact fetches_alike n hso hs

/--
The same scan with tracing on and with tracing off, run without other backends:
the calls return the same heap TIDs, or fail the same way, if no test of the
limits in the untraced run falls into the gap that the trace's arrays open.
-/
theorem traced_fetches_eq_untraced (self : ThreadId) (ctx : ScanContext V D)
    (settings : ScanSettings) (memory : HnswScanOpaque V D) (workMem : Nat)
    (scanMemMultiplier : ℚ) (norderbys : Nat) (orderbys : Option (Option V))
    (n : Nat) (s : Shared V) (halone : Alone self s)
    (hlimits : ∀ event ∈ (((rescanAndFetch ctx (settings.withTrace false) orderbys n
        (hnswbeginscan memory workMem scanMemMultiplier norderbys)).run
        (hnswHandler self) s).2.log self).drop (s.log self).length,
      LimitUndisturbed ctx settings.maxScanTuples (scanMaxMemory workMem scanMemMultiplier) event) :
    ((rescanAndFetch ctx (settings.withTrace true) orderbys n
        (hnswbeginscan memory workMem scanMemMultiplier norderbys)).run
        (hnswHandler self) s).1 =
      ((rescanAndFetch ctx (settings.withTrace false) orderbys n
        (hnswbeginscan memory workMem scanMemMultiplier norderbys)).run
        (hnswHandler self) s).1 := by
  have hsame : SameIndex self (s.freshLog self) (s.freshLog self) := ⟨rfl, halone, halone⟩
  have halike : (rescanAndFetch ctx (settings.withTrace true) orderbys n
      (hnswbeginscan memory workMem scanMemMultiplier norderbys)).Alike
      (scanComparison self ctx hnswTraceInitBytes settings.maxScanTuples
        (scanMaxMemory workMem scanMemMultiplier)) (fun r r' _ _ => r = r')
      (rescanAndFetch ctx (settings.withTrace false) orderbys n
        (hnswbeginscan memory workMem scanMemMultiplier norderbys)) _ _ :=
    rescanAndFetch_alike orderbys n _ hsame
  obtain ⟨htraced, -⟩ := run_freshLog self (rescanAndFetch ctx (settings.withTrace true) orderbys n
    (hnswbeginscan memory workMem scanMemMultiplier norderbys)) s
  obtain ⟨huntraced, hlog⟩ := run_freshLog self (rescanAndFetch ctx (settings.withTrace false)
    orderbys n (hnswbeginscan memory workMem scanMemMultiplier norderbys)) s
  rw [← htraced, ← huntraced]
  rw [← hlog] at hlimits
  rcases halike with ⟨event, hevent, hgap⟩ | hend
  · exact absurd ((limitUnaffected_traced _ _ _ event).mpr (hlimits event hevent)) hgap
  · exact hend.outcome_eq id id

end Scan

instance {V D : Type} (ctx : ScanContext V D) (maxScanTuples maxMemory : Nat) :
    DecidablePred (LimitUndisturbed ctx maxScanTuples maxMemory)
  | .limitTest tuples allocated more =>
    inferInstanceAs (Decidable (more = true → tuples < maxScanTuples →
      maxMemory < ctx.memAllocated allocated ∨
        ctx.memAllocated (allocated + hnswTraceInitBytes) ≤ maxMemory))
  | .contextReset => isTrue trivial
  | .traceInit => isTrue trivial
  | .traceAccess => isTrue trivial
  | .traceLine _ => isTrue trivial
  | .repairConfirmed => isTrue trivial
  | .distanceCall => isTrue trivial
  | .neighborsPassed => isTrue trivial

def relaxedSettings (efSearch : Nat) : ScanSettings :=
  { defaultSettings false with efSearch := efSearch, iterativeScan := .relaxed }

/-- What the allocations of a search take on a 64-bit server. -/
def serverSizes : AllocSizes where
  pairingheap := 24
  searchCandidate := 64
  element := 128
  unvisited := fun n => 8 * n
  tidhash := fun n => 64 + 16 * n
  tidhashGrow := fun _ => 0
  list := fun n => 16 + 8 * n

def serverContext (fuel : Nat) : ScanContext Nat Nat :=
  { numberContext fuel with sizes := serverSizes }

def numberElement (value : Nat) (heaptid neighbortid : ItemPointer) :
    HnswElementTuple Nat where
  level := 0
  deleted := false
  version := 1
  heaptids := heaptid :: List.replicate 9 .invalid
  heaptids_length := rfl
  neighbortid := neighbortid
  data := some value
  data_isSome := fun _ => rfl

/-- Three elements in a row; the first one is the entry point. -/
def rowShared (first second third : Nat) : Shared Nat :=
  (emptyShared 2).withIndex
    { metapage := ⟨hnswMagicNumber, 2, some ⟨⟨1, 1⟩, 0⟩, some 1⟩
      pages :=
        [{ items :=
             [⟨80, .element (numberElement first ⟨3, 1⟩ ⟨1, 2⟩)⟩,
               ⟨32, .neighbor ⟨1, [⟨1, 3⟩, .invalid, .invalid, .invalid]⟩⟩,
               ⟨80, .element (numberElement second ⟨3, 2⟩ ⟨1, 4⟩)⟩,
               ⟨32, .neighbor ⟨1, [⟨1, 1⟩, ⟨1, 5⟩, .invalid, .invalid]⟩⟩,
               ⟨80, .element (numberElement third ⟨3, 3⟩ ⟨1, 6⟩)⟩,
               ⟨32, .neighbor ⟨1, [⟨1, 3⟩, .invalid, .invalid, .invalid]⟩⟩]
           nextblkno := none }] }

def threeElementShared : Shared Nat := rowShared 1 2 3

theorem rowShared_alone (first second third : Nat) : Alone 0 (rowShared first second third) := by
  simp [Alone, rowShared, emptyShared, Shared.withIndex]

/-- With `work_mem` at 4 MB the arrays of the trace fit as well. -/
theorem traced_fetches_eq_untraced_default :
    ((rescanAndFetch (serverContext 4) ((relaxedSettings 1).withTrace true)
        (some (some 0)) 4 (hnswbeginscan default 4096 1 1)).run
        (hnswHandler 0) threeElementShared).1 =
      ((rescanAndFetch (serverContext 4) ((relaxedSettings 1).withTrace false)
        (some (some 0)) 4 (hnswbeginscan default 4096 1 1)).run
        (hnswHandler 0) threeElementShared).1 :=
  traced_fetches_eq_untraced 0 (serverContext 4) (relaxedSettings 1) default 4096 1 1
    (some (some 0)) 4 threeElementShared (rowShared_alone 1 2 3)
    (by decide +kernel)

/-- With `work_mem` at 64 kB the traced scan ends before it has found the third element. -/
theorem traced_fetches_ne_untraced :
    ((rescanAndFetch (serverContext 4) ((relaxedSettings 1).withTrace true)
        (some (some 0)) 4 (hnswbeginscan default 64 1 1)).run
        (hnswHandler 0) threeElementShared).1 =
      .done [some ⟨3, 1⟩, some ⟨3, 2⟩, none, none] ∧
    ((rescanAndFetch (serverContext 4) ((relaxedSettings 1).withTrace false)
        (some (some 0)) 4 (hnswbeginscan default 64 1 1)).run
        (hnswHandler 0) threeElementShared).1 =
      .done [some ⟨3, 1⟩, some ⟨3, 2⟩, some ⟨3, 3⟩, none] := by
  decide +kernel

end PgVector.Hnsw
