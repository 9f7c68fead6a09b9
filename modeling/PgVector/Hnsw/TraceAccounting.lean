import Mathlib.Data.Int.ConditionallyCompleteOrder
import PgVector.Foundation.History
import PgVector.Hnsw.ScanReport

/-!
# What a trace line accounts for

A traced scan looks at the buffer counters and the clock when it starts, at both
ends of every `hnswgettuple` call and when it reports.  The index share of its
line is summed over the calls; the heap share is what is left of the whole.  The
marks of a history are the true counters and the true clock of each moment.
They change in any way between two instructions, but they never go down.
-/

namespace PgVector.Hnsw

open Foundation

/-! ## Moments of a backend -/

instance : Preorder Observation where
  le a b :=
    a.sharedBlksHit ≤ b.sharedBlksHit ∧ a.sharedBlksRead ≤ b.sharedBlksRead ∧ a.time ≤ b.time
  le_refl _ := ⟨le_rfl, le_rfl, le_rfl⟩
  le_trans _ _ _ h h' :=
    ⟨h.1.trans h'.1, h.2.1.trans h'.2.1, h.2.2.trans h'.2.2⟩

theorem sharedBlksHit_mono : Monotone Observation.sharedBlksHit := fun _ _ h => h.1

theorem sharedBlksRead_mono : Monotone Observation.sharedBlksRead :=
  fun _ _ h => h.2.1

theorem time_mono : Monotone Observation.time := fun _ _ h => h.2.2

abbrev Instant (V : Type) := Moment (hnswSignature V) Observation

section Instants

variable {V : Type}

/-- A look at the environment shows the counters and the clock of its moment. -/
def Honest : Instant V → Prop
  | ⟨.observe, seen, now⟩ => seen = now
  | _ => True

def look? : Instant V → Option Observation
  | ⟨.observe, _, now⟩ => some now
  | _ => none

def line? : Instant V → Option TraceLine
  | ⟨.emit (.traceLine line), _, _⟩ => some line
  | _ => none

end Instants

/-! ## A scan that is traced since its last rescan -/

/-- A traced call of `hnswgettuple`: what it did and what it returned. -/
structure TracedCall (V : Type) where
  settings : ScanSettings
  traced : settings.traceEnabled = true
  history : List (Instant V)
  heaptid : Option ItemPointer

namespace TracedCall

variable {V : Type}

def opened (call : TracedCall V) : Observation :=
  (call.history.head?.map Moment.mark).getD default

def closed (call : TracedCall V) : Observation :=
  (call.history.getLast?.map Moment.mark).getD default

end TracedCall

section Scan

variable {V D : Type} [LinearOrder D] (ctx : ScanContext V D)

inductive CallsFollow :
    HnswScanOpaque V D → List (TracedCall V) → HnswScanOpaque V D → Prop where
  | nil (so : HnswScanOpaque V D) : CallsFollow so [] so
  | cons {so so' so'' : HnswScanOpaque V D} {call : TracedCall V}
      {calls : List (TracedCall V)}
      (hcall : (hnswgettuple ctx call.settings so).Follows call.history (so', call.heaptid))
      (hcalls : CallsFollow so' calls so'') : CallsFollow so (call :: calls) so''

/--
A scan from its last rescan to its end.  Before the rescan it may have been used
in any way: nothing is known of `start`.
-/
structure TracedScan where
  start : HnswScanOpaque V D
  first : ScanSettings
  first_traced : first.traceEnabled = true
  orderbys : Option (Option V)
  rescan : List (Instant V)
  opened : HnswScanOpaque V D
  rescan_follows : (hnswrescan first start orderbys).Follows rescan opened
  calls : List (TracedCall V)
  used : HnswScanOpaque V D
  calls_follow : CallsFollow ctx opened calls used
  last : ScanSettings
  last_traced : last.traceEnabled = true
  endscan : List (Instant V)
  end_follows : (hnswendscan last used).Follows endscan ()
  honest : ∀ m ∈ rescan ++ calls.flatMap TracedCall.history ++ endscan, Honest m
  ordered :
    ((rescan ++ calls.flatMap TracedCall.history ++ endscan).map Moment.mark).Pairwise (· ≤ ·)

end Scan

/-! ## Increases inside and outside the calls -/

section Increase

variable {V : Type} (part : Observation → Int)

def insideCalls (calls : List (TracedCall V)) : Int :=
  (calls.map fun call => part call.closed - part call.opened).sum

/-- From `before` to the first call, from each call to the next, and to `after`. -/
def outsideCalls : Observation → List (TracedCall V) → Observation → Int
  | before, [], after => part after - part before
  | before, call :: calls, after =>
    (part call.opened - part before) + outsideCalls call.closed calls after

theorem inside_add_outside (calls : List (TracedCall V))
    (before after : Observation) :
    insideCalls part calls + outsideCalls part before calls after = part after - part before := by
  induction calls generalizing before with
  | nil => simp [insideCalls, outsideCalls]
  | cons call calls ih =>
    have htail := ih call.closed
    simp only [insideCalls, outsideCalls, List.map_cons, List.sum_cons] at htail ⊢
    omega

def callEnds (calls : List (TracedCall V)) : List Observation :=
  calls.flatMap fun call => [call.opened, call.closed]

variable {part}

theorem outsideCalls_nonneg (hpart : Monotone part) (calls : List (TracedCall V))
    {before after : Observation}
    (hordered : (before :: (callEnds calls ++ [after])).Pairwise (· ≤ ·)) :
    0 ≤ outsideCalls part before calls after := by
  induction calls generalizing before with
  | nil =>
    have hle : before ≤ after := by simpa [callEnds] using hordered
    have := hpart hle
    simp only [outsideCalls]
    omega
  | cons call calls ih =>
    rw [callEnds, List.flatMap_cons] at hordered
    obtain ⟨hbefore, hrest⟩ := List.pairwise_cons.mp hordered
    have hopened : part before ≤ part call.opened :=
      hpart (hbefore _ (by simp))
    have htail := ih (List.pairwise_cons.mp hrest).2
    simp only [outsideCalls]
    omega

end Increase

/-! ## What one call records -/

section Calls

variable {V D : Type} [LinearOrder D] {ctx : ScanContext V D}

def TracedCall.account (t : HnswTraceStats) (call : TracedCall V) : HnswTraceStats :=
  (call.heaptid.elim t t.recordTid).leaveIndex call.opened call.closed

variable {so' : HnswScanOpaque V D}

theorem hnswgettuple_follows {settings : ScanSettings} (htraced : settings.traceEnabled = true)
    {so : HnswScanOpaque V D} {history : List (Instant V)} {heaptid : Option ItemPointer}
    (hfollows : (hnswgettuple ctx settings so).Follows history (so', heaptid)) :
    ∃ entry exit a b middle,
      history = ⟨.observe, entry, a⟩ :: (middle ++ [⟨.observe, exit, b⟩]) ∧
        so'.first = false ∧ so'.trace.callRecord =
          (heaptid.elim so.trace.callRecord so.trace.callRecord.recordTid).leaveIndex
            entry exit := by
  unfold hnswgettuple at hfollows
  rw [if_pos htraced] at hfollows
  obtain ⟨entry, a, _, rfl, hcall⟩ := Program.follows_perform_iff.mp hfollows
  obtain ⟨⟨fetched, tid⟩, search, _, rfl, hsearch, hleave⟩ :=
    Program.follows_bind_iff.mp hcall
  obtain ⟨_, c, _, rfl, hlook⟩ := Program.follows_perform_iff.mp hleave
  obtain ⟨exit, b, _, rfl, hreturn⟩ := Program.follows_perform_iff.mp hlook
  obtain ⟨rfl, hresult⟩ := Program.follows_ret_iff.mp hreturn
  obtain ⟨hfirst, hrecord⟩ := (searchAndFetch_yields ctx settings so).follows hsearch
  cases hresult
  refine ⟨entry, exit, a, b, search ++ [⟨.emit .traceAccess, (), c⟩], ?_, hfirst, ?_⟩
  · simp
  · rw [← show fetched.trace.callRecord = so.trace.callRecord from hrecord]
    cases heaptid <;> rfl

theorem gettuple_account {so : HnswScanOpaque V D} {call : TracedCall V}
    (hcall : (hnswgettuple ctx call.settings so).Follows call.history (so', call.heaptid))
    (hhonest : ∀ m ∈ call.history, Honest m) :
    so'.first = false ∧ so'.trace.callRecord = call.account so.trace.callRecord ∧
      [call.opened, call.closed].Sublist (call.history.map Moment.mark) := by
  obtain ⟨entry, exit, a, b, middle, hhistory, hfirst, hrecord⟩ :=
    hnswgettuple_follows call.traced hcall
  have hentry : entry = a := hhonest ⟨.observe, entry, a⟩ (by simp [hhistory])
  have hexit : exit = b := hhonest ⟨.observe, exit, b⟩ (by simp [hhistory])
  have hopened : call.opened = a := by simp [TracedCall.opened, hhistory]
  have hclosed : call.closed = b := by
    simp [TracedCall.closed, hhistory, List.getLast?_cons]
  refine ⟨hfirst, ?_, ?_⟩
  · rw [hrecord, TracedCall.account, hopened, hclosed, hentry, hexit]
  · rw [hopened, hclosed, hhistory]
    simp

/-! ## What all calls record -/

theorem CallsFollow.account {so : HnswScanOpaque V D} {calls : List (TracedCall V)}
    (hcalls : CallsFollow ctx so calls so')
    (hhonest : ∀ m ∈ calls.flatMap TracedCall.history, Honest m) :
    so'.first = (so.first && calls.isEmpty) ∧
      so'.trace.callRecord = calls.foldl TracedCall.account so.trace.callRecord ∧
      (callEnds calls).Sublist ((calls.flatMap TracedCall.history).map Moment.mark) := by
  induction hcalls with
  | nil so => simp [callEnds]
  | @cons so so₁ so₂ call calls hcall hcalls ih =>
    rw [List.flatMap_cons] at hhonest ⊢
    obtain ⟨hfirst, hrecord, hends⟩ :=
      gettuple_account hcall fun m hm => hhonest m (List.mem_append_left _ hm)
    obtain ⟨hfirst', hrecord', hends'⟩ :=
      ih fun m hm => hhonest m (List.mem_append_right _ hm)
    refine ⟨?_, ?_, ?_⟩
    · simp [hfirst', hfirst]
    · rw [hrecord', hrecord, List.foldl_cons]
    · rw [List.map_append, callEnds, List.flatMap_cons]
      exact hends.append hends'

end Calls

section Record

variable {V : Type}

def HnswTraceStats.recorded (t : HnswTraceStats) : List ItemPointer :=
  (List.range (min t.heapFetchCount t.returnedTidsCapacity)).map t.returnedTids

theorem recorded_recordTid (t : HnswTraceStats) (tid : ItemPointer) :
    (t.recordTid tid).recorded = (t.recorded ++ [tid]).take t.returnedTidsCapacity := by
  unfold HnswTraceStats.recorded HnswTraceStats.recordTid
  by_cases hroom : t.heapFetchCount < t.returnedTidsCapacity
  · have hmin : min t.heapFetchCount t.returnedTidsCapacity = t.heapFetchCount := by
      omega
    have hmin' : min (t.heapFetchCount + 1) t.returnedTidsCapacity =
        t.heapFetchCount + 1 := by omega
    simp only [if_pos hroom, hmin, hmin', List.range_succ, List.map_append,
      List.map_cons, List.map_nil, if_true]
    rw [List.take_of_length_le (by simp; omega)]
    congr 1
    refine List.map_congr_left fun i hi => if_neg ?_
    have := List.mem_range.mp hi
    omega
  · have hmin : min t.heapFetchCount t.returnedTidsCapacity = t.returnedTidsCapacity := by omega
    have hmin' : min (t.heapFetchCount + 1) t.returnedTidsCapacity =
        t.returnedTidsCapacity := by omega
    simp only [if_neg hroom, hmin, hmin']
    rw [List.take_append_of_le_length (by simp), List.take_of_length_le (by simp)]

structure RecordedBy (calls : List (TracedCall V)) (t t' : HnswTraceStats) : Prop where
  hitBefore : t'.blksHitBefore = t.blksHitBefore
  readBefore : t'.blksReadBefore = t.blksReadBefore
  scanStart : t'.scanStart = t.scanStart
  capacity : t'.returnedTidsCapacity = t.returnedTidsCapacity
  fetches : t'.heapFetchCount = t.heapFetchCount + (calls.filterMap TracedCall.heaptid).length
  tids : t.returnedTidsCapacity = hnswTraceMaxTids → t'.recorded =
    (t.recorded ++ calls.filterMap TracedCall.heaptid).take hnswTraceMaxTids
  idxHit : t'.idxBlksHit = t.idxBlksHit + insideCalls Observation.sharedBlksHit calls
  idxRead : t'.idxBlksRead = t.idxBlksRead + insideCalls Observation.sharedBlksRead calls
  inIndex : t'.inIndexTime = t.inIndexTime + insideCalls Observation.time calls

theorem take_take_append {α : Type} (n : Nat) (l l' : List α) :
    (l.take n ++ l').take n = (l ++ l').take n := by
  rw [List.take_append, List.take_append, List.take_take, List.length_take, min_self]
  congr 2
  omega

theorem recordedBy_account (call : TracedCall V) (t : HnswTraceStats) :
    RecordedBy [call] t (call.account t) := by
  have hinside : ∀ part, insideCalls part [call] = part call.closed - part call.opened :=
    fun part => by simp [insideCalls]
  have hrecorded : (call.account t).recorded = (call.heaptid.elim t t.recordTid).recorded :=
    rfl
  cases hcall : call.heaptid with
  | none =>
    rw [hcall] at hrecorded
    refine ⟨?_, ?_, ?_, ?_, ?_, fun hcap => ?_, ?_, ?_, ?_⟩
    case refine_6 =>
      rw [hrecorded, List.take_of_length_le]
      · simp [hcall]
      · simp [hcall, HnswTraceStats.recorded, hcap]
    all_goals simp [TracedCall.account, HnswTraceStats.leaveIndex, hcall, hinside]
  | some tid =>
    rw [hcall] at hrecorded
    refine ⟨?_, ?_, ?_, ?_, ?_, fun hcap => ?_, ?_, ?_, ?_⟩
    case refine_6 =>
      rw [hrecorded, ← hcap]
      simpa [hcall] using recorded_recordTid t tid
    all_goals
      simp [TracedCall.account, HnswTraceStats.leaveIndex, HnswTraceStats.recordTid, hcall, hinside]

theorem RecordedBy.cons {call : TracedCall V} {calls : List (TracedCall V)}
    {t t' t'' : HnswTraceStats} (h : RecordedBy [call] t t')
    (h' : RecordedBy calls t' t'') : RecordedBy (call :: calls) t t'' where
  hitBefore := h'.hitBefore.trans h.hitBefore
  readBefore := h'.readBefore.trans h.readBefore
  scanStart := h'.scanStart.trans h.scanStart
  capacity := h'.capacity.trans h.capacity
  fetches := by
    rw [h'.fetches, h.fetches, Nat.add_assoc, ← List.length_append,
      ← List.filterMap_append, List.singleton_append]
  tids hcap := by
    rw [h'.tids (h.capacity.trans hcap), h.tids hcap, take_take_append,
      List.append_assoc, ← List.filterMap_append, List.singleton_append]
  idxHit := by
    rw [h'.idxHit, h.idxHit]
    simp [insideCalls, Int.add_assoc]
  idxRead := by
    rw [h'.idxRead, h.idxRead]
    simp [insideCalls, Int.add_assoc]
  inIndex := by
    rw [h'.inIndex, h.inIndex]
    simp [insideCalls, Int.add_assoc]

theorem recordedBy_foldl (calls : List (TracedCall V)) (t : HnswTraceStats) :
    RecordedBy calls t (calls.foldl TracedCall.account t) := by
  induction calls generalizing t with
  | nil =>
    refine ⟨rfl, rfl, rfl, rfl, rfl, fun hcap => ?_, ?_, ?_, ?_⟩
    case refine_1 =>
      rw [List.take_of_length_le]
      · simp
      · simp [HnswTraceStats.recorded, hcap]
    all_goals simp [insideCalls]
  | cons call calls ih => exact (recordedBy_account call t).cons (ih _)

end Record

/-! ## The start and the end of a scan -/

section Ends

variable {V D : Type} {settings : ScanSettings} {so : HnswScanOpaque V D}
  {history : List (Instant V)}

theorem hnswrescan_follows {so' : HnswScanOpaque V D} {orderbys : Option (Option V)}
    (htraced : settings.traceEnabled = true)
    (hfollows : (hnswrescan settings so orderbys).Follows history so')
    (hhonest : ∀ m ∈ history, Honest m) :
    ∃ now, history.filterMap look? = [now] ∧
      [now].Sublist (history.map Moment.mark) ∧ so'.first = true ∧
      so'.trace = hnswTraceInit so.trace now := by
  obtain ⟨_, a, _, rfl, hinit⟩ := Program.follows_perform_iff.mp hfollows
  rw [if_pos htraced] at hinit
  obtain ⟨_, b, _, rfl, hquery⟩ := Program.follows_perform_iff.mp hinit
  obtain ⟨queryId, c, _, rfl, hlook⟩ := Program.follows_perform_iff.mp hquery
  obtain ⟨seen, now, _, rfl, hreturn⟩ := Program.follows_perform_iff.mp hlook
  obtain ⟨rfl, rfl⟩ := Program.follows_ret_iff.mp hreturn
  have hseen : seen = now := hhonest ⟨.observe, seen, now⟩ (by simp)
  subst hseen
  exact ⟨seen, rfl, by simp, rfl, rfl⟩

theorem hnswendscan_follows (htraced : settings.traceEnabled = true) (hfirst : so.first = false)
    (hfollows : (hnswendscan settings so).Follows history ())
    (hhonest : ∀ m ∈ history, Honest m) :
    ∃ now, history.filterMap look? = [now] ∧
      [now].Sublist (history.map Moment.mark) ∧ history.filterMap line? =
        [hnswTraceEmit so.trace so.queryId so.trace.heapFetchCount now] := by
  unfold hnswendscan at hfollows
  rw [if_pos (by simp [htraced, hfirst])] at hfollows
  obtain ⟨_, a, _, rfl, hlook⟩ := Program.follows_perform_iff.mp hfollows
  obtain ⟨seen, now, _, rfl, hreport⟩ := Program.follows_perform_iff.mp hlook
  obtain ⟨_, b, _, rfl, hreturn⟩ := Program.follows_step_iff.mp hreport
  obtain ⟨rfl, -⟩ := Program.follows_ret_iff.mp hreturn
  have hseen : seen = now := hhonest ⟨.observe, seen, now⟩ (by simp)
  subst hseen
  exact ⟨seen, rfl, by simp, rfl⟩

theorem hnswendscan_follows_first (hfirst : so.first = true)
    (hfollows : (hnswendscan settings so).Follows history ()) : history = [] := by
  unfold hnswendscan at hfollows
  rw [if_neg (by simp [hfirst])] at hfollows
  exact (Program.follows_ret_iff.mp hfollows).1

end Ends

/-! ## The line of a scan -/

/--
What a line says of the calls since the rescan, which looked at the counters and
the clock at `before`, while the line was made up at `after`.
-/
structure Accounted {V : Type} (line : TraceLine) (calls : List (TracedCall V))
    (before after : Observation) : Prop where
  fetches : line.heapFetchCount = calls.countP fun call => call.heaptid.isSome
  topkIds : line.topkIds = (calls.filterMap TracedCall.heaptid).take
    (min line.heapFetchCount hnswTraceMaxTids)
  hitBefore : line.blksHitBefore = before.sharedBlksHit
  hitAfter : line.blksHitAfter = after.sharedBlksHit
  readBefore : line.blksReadBefore = before.sharedBlksRead
  readAfter : line.blksReadAfter = after.sharedBlksRead
  idxHit : line.idxBlksHit = insideCalls Observation.sharedBlksHit calls
  idxRead : line.idxBlksRead = insideCalls Observation.sharedBlksRead calls
  heapHit : line.heapBlksHit = outsideCalls Observation.sharedBlksHit before calls after
  heapRead : line.heapBlksRead = outsideCalls Observation.sharedBlksRead before calls after
  heapHit_nonneg : 0 ≤ line.heapBlksHit
  heapRead_nonneg : 0 ≤ line.heapBlksRead
  hit_total : line.idxBlksHit + line.heapBlksHit = line.blksHitAfter - line.blksHitBefore
  read_total : line.idxBlksRead + line.heapBlksRead = line.blksReadAfter - line.blksReadBefore
  searchTime : line.hnswSearchTime = insideCalls Observation.time calls
  latency : line.latency = after.time - before.time
  searchTime_le : line.hnswSearchTime ≤ line.latency

theorem accounted_emit {V : Type} {calls : List (TracedCall V)}
    {t : HnswTraceStats} {before after : Observation} (memory : HnswTraceStats)
    (queryId : Nat)
    (ht : RecordedBy calls (hnswTraceInit memory before).callRecord t.callRecord)
    (hordered : (before :: (callEnds calls ++ [after])).Pairwise (· ≤ ·)) :
    Accounted (hnswTraceEmit t queryId t.heapFetchCount after) calls before after := by
  have hitSum := inside_add_outside Observation.sharedBlksHit calls before after
  have readSum := inside_add_outside Observation.sharedBlksRead calls before after
  have timeSum := inside_add_outside Observation.time calls before after
  have hitOut := outsideCalls_nonneg sharedBlksHit_mono calls hordered
  have readOut := outsideCalls_nonneg sharedBlksRead_mono calls hordered
  have timeOut := outsideCalls_nonneg time_mono calls hordered
  have hfetches : t.heapFetchCount = (calls.filterMap TracedCall.heaptid).length := by
    simpa [HnswTraceStats.callRecord, hnswTraceInit] using ht.fetches
  have htids : t.recorded = (calls.filterMap TracedCall.heaptid).take hnswTraceMaxTids := by
    simpa [HnswTraceStats.recorded, HnswTraceStats.callRecord, hnswTraceInit] using ht.tids rfl
  have hitBefore : t.blksHitBefore = before.sharedBlksHit := ht.hitBefore
  have readBefore : t.blksReadBefore = before.sharedBlksRead := ht.readBefore
  have hstart : t.scanStart = before.time := ht.scanStart
  have idxHit : t.idxBlksHit = insideCalls Observation.sharedBlksHit calls :=
    ht.idxHit.trans (Int.zero_add _)
  have idxRead : t.idxBlksRead = insideCalls Observation.sharedBlksRead calls :=
    ht.idxRead.trans (Int.zero_add _)
  have inIndex : t.inIndexTime = insideCalls Observation.time calls :=
    ht.inIndex.trans (Int.zero_add _)
  refine ⟨?_, ?_, hitBefore, rfl, readBefore, rfl, idxHit, idxRead, ?_, ?_, ?_, ?_, ?_,
    ?_, inIndex, congrArg (after.time - ·) hstart, ?_⟩
  case refine_1 =>
    rw [List.countP_eq_length_filter]
    change t.heapFetchCount = _
    rw [hfetches, List.length_filterMap_eq_countP, List.countP_eq_length_filter]
  case refine_2 =>
    change t.recorded = List.take (min t.heapFetchCount hnswTraceMaxTids) _
    rw [htids, hfetches, Nat.min_comm, ← List.take_take,
      List.take_of_length_le (Nat.le_refl (List.length _))]
  all_goals
    simp only [hnswTraceEmit, hitBefore, readBefore, hstart, idxHit, idxRead, inIndex]
    omega

/-! ## Runs of a scan -/

section Runs

variable {V : Type} {self : ThreadId}

def Shared.now (s : Shared V) : Observation := s.env s.observed

variable {s t : Shared V}

theorem env_hnswHandler {o : HnswOp V} {r : HnswOp.Res o}
    (hexec : hnswHandler self o s = some (r, t)) : t.env = s.env ∧ s.observed ≤ t.observed := by
  cases o with
  | observe =>
    cases hexec
    exact ⟨rfl, Nat.le_succ _⟩
  | lockPage lock mode =>
    obtain ⟨-, rfl⟩ := hnswHandler_lockPage_eq_some hexec
    exact ⟨rfl, le_rfl⟩
  | overwriteNeighbor =>
    rcases hnswHandler_overwriteNeighbor hexec with ⟨rfl, -⟩ | ⟨index', -, rfl⟩ <;>
      exact ⟨rfl, le_rfl⟩
  | addDuplicate | removeHeapTids =>
    simp only [hnswHandler] at hexec
    split at hexec <;> cases hexec <;> exact ⟨rfl, le_rfl⟩
  | _ =>
    cases hexec
    exact ⟨rfl, le_rfl⟩

theorem now_hnswHandler {o : HnswOp V} {r : HnswOp.Res o} (henv : Monotone s.env)
    (hexec : hnswHandler self o s = some (r, t)) : Monotone t.env ∧ s.now ≤ t.now := by
  obtain ⟨hsame, hle⟩ := env_hnswHandler hexec
  unfold Shared.now
  rw [hsame]
  exact ⟨henv, henv hle⟩

theorem honest_history {α : Type} {p : HnswProgram V α} {m : Instant V}
    (hm : m ∈ p.history (hnswHandler self) Shared.now s) : Honest m := by
  obtain ⟨s₁, s₂, hexec, hmark⟩ := Program.mem_history hm
  obtain ⟨o, r, now⟩ := m
  cases o with
  | observe =>
    obtain ⟨rfl, -⟩ := Prod.mk.inj (Option.some.inj hexec)
    exact hmark.symm
  | _ => trivial

theorem exists_history {α : Type} {p : HnswProgram V α} {a : α} (henv : Monotone s.env)
    (hrun : p.run (hnswHandler self) s = (.done a, t)) :
    ∃ history : List (Instant V), p.Follows history a ∧ (∀ m ∈ history, Honest m) ∧
      (history.map Moment.mark).Pairwise (· ≤ ·) :=
  ⟨p.history (hnswHandler self) Shared.now s, Program.follows_history hrun,
    fun _ => honest_history,
    (Program.history_ordered now_hnswHandler henv hrun).2.2.1⟩

variable {D : Type} [LinearOrder D] {ctx : ScanContext V D}

theorem scanRun_follows {last : ScanSettings} {gets : List ScanSettings}
    (hgets : ∀ settings ∈ gets, settings.traceEnabled = true)
    {so : HnswScanOpaque V D} {history : List (Instant V)} {results : List ScanReturn}
    (hfollows : (scanRun ctx last (gets.map fun settings => (settings, .gettuple))
      so).Follows history results) :
    ∃ calls used endscan, history = calls.flatMap TracedCall.history ++ endscan ∧
      CallsFollow ctx so calls used ∧ (hnswendscan last used).Follows endscan () ∧
      results = calls.map fun call => call.heaptid.elim .exhausted .returned := by
  induction gets generalizing so history results with
  | nil =>
    obtain ⟨_, endscan, _, rfl, hend, hreturn⟩ := Program.follows_bind_iff.mp hfollows
    obtain ⟨rfl, rfl⟩ := Program.follows_ret_iff.mp hreturn
    exact ⟨[], so, endscan, by simp, .nil so, hend, rfl⟩
  | cons settings gets ih =>
    obtain ⟨htraced, hgets⟩ := List.forall_mem_cons.mp hgets
    obtain ⟨⟨so', result⟩, before, after, rfl, hcall, hrest⟩ :=
      Program.follows_bind_iff.mp hfollows
    obtain ⟨⟨fetched, heaptid⟩, called, _, rfl, hget, hresult⟩ :=
      Program.follows_bind_iff.mp hcall
    obtain ⟨rfl, hpair⟩ := Program.follows_ret_iff.mp hresult
    cases hpair
    obtain ⟨tail, rest, _, rfl, hrun, hreturn⟩ := Program.follows_bind_iff.mp hrest
    obtain ⟨rfl, rfl⟩ := Program.follows_ret_iff.mp hreturn
    obtain ⟨calls, used, endscan, rfl, hcalls, hend, rfl⟩ := ih hgets hrun
    refine ⟨⟨settings, htraced, called, heaptid⟩ :: calls, used, endscan, ?_,
      .cons hget hcalls, hend, rfl⟩
    simp

theorem exists_tracedScan {first last : ScanSettings} {gets : List ScanSettings}
    (hfirst : first.traceEnabled = true) (hlast : last.traceEnabled = true)
    (hgets : ∀ settings ∈ gets, settings.traceEnabled = true) {orderbys : Option (Option V)}
    {so : HnswScanOpaque V D} {results : List ScanReturn} (henv : Monotone s.env)
    (hrun : (scanRun ctx last ((first, .rescan orderbys) ::
      gets.map fun settings => (settings, .gettuple)) so).run (hnswHandler self) s =
        (.done results, t)) :
    ∃ scan : TracedScan ctx, scan.start = so ∧ scan.orderbys = orderbys ∧
      results = .rescanned ::
        scan.calls.map fun call => call.heaptid.elim .exhausted .returned := by
  obtain ⟨history, hfollows, hhonest, hordered⟩ := exists_history henv hrun
  obtain ⟨⟨opened, result⟩, before, after, rfl, hcall, hrest⟩ :=
    Program.follows_bind_iff.mp hfollows
  obtain ⟨so', rescan, _, rfl, hrescan, hresult⟩ := Program.follows_bind_iff.mp hcall
  obtain ⟨rfl, hpair⟩ := Program.follows_ret_iff.mp hresult
  cases hpair
  obtain ⟨tail, rest, _, rfl, hgettuples, hreturn⟩ := Program.follows_bind_iff.mp hrest
  obtain ⟨rfl, rfl⟩ := Program.follows_ret_iff.mp hreturn
  obtain ⟨calls, used, endscan, rfl, hcalls, hend, rfl⟩ :=
    scanRun_follows hgets hgettuples
  simp only [List.append_nil, ← List.append_assoc] at hhonest hordered
  exact ⟨⟨so, first, hfirst, orderbys, rescan, opened, hrescan, calls, used, hcalls, last,
    hlast, endscan, hend, hhonest, hordered⟩, rfl, rfl, rfl⟩

end Runs

section Line

variable {V D : Type} [LinearOrder D] {ctx : ScanContext V D}

/--
A scan that is traced from its last rescan to its end reports one line if it was
called at all, and the line accounts for the results, the blocks and the time.
-/
theorem trace_line_accounts (scan : TracedScan ctx) :
    ∃ before, scan.rescan.filterMap look? = [before] ∧
      (scan.calls = [] → scan.endscan.filterMap line? = []) ∧
      (scan.calls ≠ [] → ∃ after line, scan.endscan.filterMap look? = [after] ∧
        scan.endscan.filterMap line? = [line] ∧
        Accounted line scan.calls before after) := by
  have hhonest := scan.honest
  have hordered := scan.ordered
  simp only [List.mem_append, or_imp, forall_and] at hhonest
  obtain ⟨⟨hrescan, hcalls⟩, hend⟩ := hhonest
  obtain ⟨before, hlook, hbefore, hfirst, htrace⟩ :=
    hnswrescan_follows scan.first_traced scan.rescan_follows hrescan
  obtain ⟨hused, hrecord, hends⟩ := scan.calls_follow.account hcalls
  refine ⟨before, hlook, fun hnone => ?_, fun hsome => ?_⟩
  · rw [hfirst, hnone] at hused
    rw [hnswendscan_follows_first hused scan.end_follows, List.filterMap_nil]
  · rw [hfirst, Bool.true_and, List.isEmpty_eq_false_iff.mpr hsome] at hused
    obtain ⟨after, hlook', hafter, hline⟩ :=
      hnswendscan_follows scan.last_traced hused scan.end_follows hend
    refine ⟨after, _, hlook', hline, ?_⟩
    refine accounted_emit scan.start.trace scan.used.queryId ?_ ?_
    · rw [hrecord, htrace]
      exact recordedBy_foldl scan.calls _
    · rw [List.map_append, List.map_append] at hordered
      exact hordered.sublist ((hbefore.append hends).append hafter)

end Line

def busyElementShared : Shared Nat :=
  { oneElementShared with env := fun n => ⟨n, 2 * n, 3 * n⟩ }

theorem busyElementShared_env : Monotone busyElementShared.env := by
  intro i j h
  refine ⟨?_, ?_, ?_⟩ <;> simp only [busyElementShared] <;> omega

/-- A call that returns the heap TID of the element and one that finds no more. -/
theorem trace_line_accounts_two_calls :
    ∃ scan : TracedScan (numberContext 3),
      scan.calls.map (fun call => call.heaptid.elim .exhausted .returned) =
        [ScanReturn.returned ⟨3, 1⟩, .exhausted] ∧
      ∃ before after line, scan.endscan.filterMap line? = [line] ∧
        Accounted line scan.calls before after := by
  have hrun : ∃ t, (scanRun (numberContext 3) (defaultSettings true)
      ((defaultSettings true, .rescan (some (some 7))) ::
        [defaultSettings true, defaultSettings true].map fun settings =>
          (settings, .gettuple))
      (hnswbeginscan default 4096 1 1)).run (hnswHandler 0) busyElementShared =
        (.done [.rescanned, .returned ⟨3, 1⟩, .exhausted], t) := ⟨_, rfl⟩
  obtain ⟨t, hrun⟩ := hrun
  obtain ⟨scan, -, -, hresults⟩ :=
    exists_tracedScan rfl rfl (by decide) busyElementShared_env hrun
  have hcalls := (List.cons.inj hresults).2.symm
  obtain ⟨before, -, -, hline⟩ := trace_line_accounts scan
  have hsome : scan.calls ≠ [] := by
    intro hnone
    rw [hnone] at hcalls
    cases hcalls
  obtain ⟨after, line, -, hemitted, haccounted⟩ := hline hsome
  exact ⟨scan, hcalls, before, after, line, hemitted, haccounted⟩

end PgVector.Hnsw
