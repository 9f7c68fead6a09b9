import PgVector.Hnsw.ScanTrace

/-!
# What a scan reports

A trace line is reported when a scan ends, and a restart initialises the trace
again.  With tracing on throughout, the lines of a scan account for the heap
TIDs fetched since its last restart, and for no others.
-/

namespace PgVector.Hnsw

open Foundation

/-! ## Fetched and reported heap TIDs -/

def returnedCount : List ScanReturn → Nat
  | [] => 0
  | .returned _ :: results => returnedCount results + 1
  | _ :: results => returnedCount results

/-- The heap TIDs fetched since the last restart, if it was `n` at the start. -/
def pendingCount : Nat → List ScanReturn → Nat
  | n, [] => n
  | _, .rescanned :: results => pendingCount 0 results
  | n, .returned _ :: results => pendingCount (n + 1) results
  | n, .exhausted :: results => pendingCount n results

def RestartedUnfetched : Nat → List ScanReturn → Prop
  | _, [] => True
  | n, .rescanned :: results => n = 0 ∧ RestartedUnfetched 0 results
  | n, .returned _ :: results => RestartedUnfetched (n + 1) results
  | n, .exhausted :: results => RestartedUnfetched n results

theorem pendingCount_le (n : Nat) (results : List ScanReturn) :
    pendingCount n results ≤ n + returnedCount results := by
  induction results generalizing n with
  | nil => simp [pendingCount, returnedCount]
  | cons result results ih =>
    cases result with
    | rescanned =>
      have h := ih 0
      simp only [pendingCount, returnedCount]
      omega
    | returned heaptid =>
      have h := ih (n + 1)
      simp only [pendingCount, returnedCount]
      omega
    | exhausted => exact ih n

theorem pendingCount_eq_iff (n : Nat) (results : List ScanReturn) :
    pendingCount n results = n + returnedCount results ↔ RestartedUnfetched n results := by
  induction results generalizing n with
  | nil => simp [pendingCount, returnedCount, RestartedUnfetched]
  | cons result results ih =>
    cases result with
    | rescanned =>
      have hle := pendingCount_le 0 results
      simp only [pendingCount, returnedCount, RestartedUnfetched, ← ih]
      omega
    | returned heaptid =>
      simp only [pendingCount, returnedCount, RestartedUnfetched, ← ih]
      omega
    | exhausted => exact ih n

/-! ## Runs -/

section Runs

variable {V D : Type} [LinearOrder D] {self : ThreadId}

/-- After the calls, the lines account for what was fetched since the last restart. -/
def Reports (self : ThreadId) (ctx : ScanContext V D) (last : ScanSettings)
    (calls : List (ScanSettings × ScanCall V)) (n : Nat)
    (so : HnswScanOpaque V D) : Prop :=
  ∀ s : Shared V,
    (scanRun ctx last calls so).Safe (logDiscipline self fun _ => True)
      (fun results t => reportedCount (t.log self) =
        reportedCount (s.log self) + pendingCount n results) s

variable {last : ScanSettings}

theorem scanRun_nil_safe (ctx : ScanContext V D) (hlast : last.traceEnabled = true)
    (so : HnswScanOpaque V D) (s : Shared V) :
    (scanRun ctx last [] so).Safe (logDiscipline self fun _ => True)
      (fun results t => results = [] ∧ reportedCount (t.log self) =
        reportedCount (s.log self) +
          if so.first then 0 else so.trace.heapFetchCount) s := by
  refine (hnswendscan_safe last so fun _ _ => ⟨trivial, fun _ => trivial⟩).seq ?_
  intro _ t _ ht
  refine ret_safe fun u hu => ⟨rfl, ?_⟩
  rw [hu, ht, hlast]
  cases so.first <;> rfl

theorem reports_rescan {ctx : ScanContext V D} {settings : ScanSettings}
    (htrace : settings.traceEnabled = true) {calls : List (ScanSettings × ScanCall V)}
    (hcalls : ∀ so : HnswScanOpaque V D, so.trace.heapFetchCount = 0 →
      Reports self ctx last calls 0 so) (orderbys : Option (Option V)) (n : Nat)
    (so : HnswScanOpaque V D) :
    Reports self ctx last ((settings, .rescan orderbys) :: calls) n so := by
  intro s
  rw [scanRun, scanCall, Program.bind_assoc]
  refine (hnswrescan_safe settings so orderbys trivial fun _ => trivial).seq ?_
  rintro so' t - ⟨hlog, -, hcount⟩
  have hsame : reportedCount (t.log self) = reportedCount (s.log self) := by
    rw [hlog, htrace, reportedCount_append, reportedCount_append]
    rfl
  simp only [Program.pure_eq, Program.ret_bind]
  refine (hcalls so' (hcount htrace) t).seq ?_
  intro results u _ hu
  refine ret_safe fun v hv => ?_
  rw [hv, hu, hsame]
  rfl

theorem reports_calls (ctx : ScanContext V D) (hlast : last.traceEnabled = true)
    (calls : List (ScanSettings × ScanCall V))
    (hcalls : ∀ call ∈ calls, call.1.traceEnabled = true) (so : HnswScanOpaque V D)
    (hso : so.first = true → so.trace.heapFetchCount = 0) :
    Reports self ctx last calls so.trace.heapFetchCount so := by
  induction calls generalizing so with
  | nil =>
    intro s
    refine (scanRun_nil_safe ctx hlast so s).mono ?_
    rintro results t - ⟨rfl, ht⟩
    rw [ht]
    cases hfirst : so.first with
    | false => rfl
    | true =>
      rw [hso hfirst]
      rfl
  | cons call calls ih =>
    obtain ⟨settings, call⟩ := call
    have htrace : settings.traceEnabled = true :=
      hcalls (settings, call) (.head _)
    have hrest : ∀ call ∈ calls, call.1.traceEnabled = true :=
      fun call h => hcalls call (.tail _ h)
    cases call with
    | rescan orderbys =>
      refine reports_rescan htrace (fun so' hzero => ?_) orderbys _ so
      have hih := ih hrest so' fun _ => hzero
      rwa [hzero] at hih
    | gettuple =>
      intro s
      rw [scanRun, scanCall, Program.bind_assoc]
      refine (hnswgettuple_safe ctx settings
        (K := fun log => reportedCount log = reportedCount (s.log self))
        ?_ so rfl).seq ?_
      · intro event hevent log _ hlog
        refine ⟨trivial, ?_⟩
        dsimp only
        rw [reportedCount_append, hlog]
        cases event with
        | traceAccess => rfl
        | limitTest | distanceCall | neighborsPassed => rfl
        | _ => exact hevent.elim
      · rintro ⟨so', heaptid⟩ t - ⟨hsame, hfirst, hcount⟩
        have hih := ih hrest so' fun h => absurd (hfirst.symm.trans h) (by simp)
        simp only [Program.pure_eq, Program.ret_bind]
        refine (hih t).seq ?_
        intro results u _ hu
        refine ret_safe fun v hv => ?_
        rw [hv, hu, hsame, hcount htrace]
        cases heaptid <;> rfl

structure ScanSearch (V : Type) where
  settings : ScanSettings
  orderbys : Option (Option V)
  fetches : List ScanSettings

def ScanSearch.calls (search : ScanSearch V) : List (ScanSettings × ScanCall V) :=
  (search.settings, .rescan search.orderbys) ::
    search.fetches.map fun settings => (settings, .gettuple)

/--
A scan with tracing on throughout.  Its lines account for every heap TID it
returned exactly if it is only restarted while nothing was fetched since the
last restart.  A scan that is never restarted reports what `palloc` handed out.
-/
theorem reported_eq_returned_iff (self : ThreadId) (ctx : ScanContext V D)
    (memory : HnswScanOpaque V D) (workMem : Nat) (scanMemMultiplier : ℚ)
    (norderbys : Nat) (searches : List (ScanSearch V)) (last : ScanSettings)
    (hcalls : ∀ call ∈ searches.flatMap ScanSearch.calls, call.1.traceEnabled = true)
    (hlast : last.traceEnabled = true) (s t : Shared V) (hs : s.log self = [])
    (results : List ScanReturn)
    (hrun : Program.Reaches (hnswHandler self) (Undisturbed self)
      (scanRun ctx last (searches.flatMap ScanSearch.calls)
        (hnswbeginscan memory workMem scanMemMultiplier norderbys), s)
      (.ret results, t)) :
    reportedCount (t.log self) = returnedCount results ↔
      RestartedUnfetched 0 results ∧
        (searches = [] → memory.first = true ∨ memory.trace.heapFetchCount = 0) := by
  have hnone : reportedCount (s.log self) = 0 := by
    rw [hs]
    rfl
  cases searches with
  | nil =>
    obtain ⟨-, hsafe⟩ := logDiscipline_reaches trivial (scanRun_nil_safe ctx hlast _ s) hrun
    obtain ⟨rfl, hcount⟩ := hsafe t rfl trivial
    rw [hcount, hnone]
    cases hfirst : memory.first <;> simp [hnswbeginscan, hfirst, returnedCount, RestartedUnfetched]
  | cons search searches =>
    have hreports : Reports self ctx last
        ((search :: searches).flatMap ScanSearch.calls) 0
        (hnswbeginscan memory workMem scanMemMultiplier norderbys) := by
      refine reports_rescan ?_ (fun so hzero => ?_) _ 0 _
      · exact hcalls (search.settings, .rescan search.orderbys) (by simp [ScanSearch.calls])
      · have hrest : Reports self ctx last _ so.trace.heapFetchCount so :=
          reports_calls ctx hlast _
            (fun call h => hcalls call (.tail _ h)) so
            fun _ => hzero
        rwa [hzero] at hrest
    obtain ⟨-, hsafe⟩ := logDiscipline_reaches trivial (hreports s) hrun
    have hcount := hsafe t rfl trivial
    rw [hcount, hnone, Nat.zero_add, ← pendingCount_eq_iff]
    simp

end Runs

def oneElementShared : Shared Nat :=
  (emptyShared 2).withIndex
    { metapage := ⟨hnswMagicNumber, 2, some ⟨⟨1, 1⟩, 0⟩, some 1⟩
      pages :=
        [{ items :=
             [⟨80, .element
               { level := 0
                 deleted := false
                 version := 1
                 heaptids := ⟨3, 1⟩ :: List.replicate 9 .invalid
                 heaptids_length := rfl
                 neighbortid := ⟨1, 2⟩
                 data := some 5
                 data_isSome := fun _ => rfl }⟩,
               ⟨32, .neighbor ⟨1, List.replicate 4 .invalid⟩⟩]
           nextblkno := none }] }

def tracedSearch (fetches : Nat) : ScanSearch Nat where
  settings := defaultSettings true
  orderbys := some (some 7)
  fetches := List.replicate fetches (defaultSettings true)

/-- One search that returns its heap TID and is then exhausted. -/
theorem reported_eq_returned_one_search :
    ∃ (results : List ScanReturn) (t : Shared Nat),
      results = [.rescanned, .returned ⟨3, 1⟩, .exhausted] ∧
      reportedCount (t.log 0) = returnedCount results := by
  refine ⟨_, _, ?_, (reported_eq_returned_iff 0 (numberContext 3) default 4096 1 1
    [tracedSearch 2] (defaultSettings true) (by decide) rfl oneElementShared _ rfl
    _ (Program.reaches_run _ _ _ rfl)).2 ⟨?_, ?_⟩⟩
  · rfl
  · exact ⟨rfl, trivial⟩
  · exact fun h => (by cases h)

/-- Two searches return a heap TID each; the line that is reported counts one. -/
theorem reported_ne_returned_restarted :
    ∃ (results : List ScanReturn) (t : Shared Nat),
      Program.Reaches (hnswHandler 0) (Undisturbed 0)
        (scanRun (numberContext 3) (defaultSettings true)
          ([tracedSearch 1, tracedSearch 1].flatMap ScanSearch.calls)
          (hnswbeginscan default 4096 1 1), oneElementShared)
        (.ret results, t) ∧
      returnedCount results = 2 ∧ reportedCount (t.log 0) = 1 :=
  ⟨_, _, Program.reaches_run _ _ _ rfl, rfl, rfl⟩

end PgVector.Hnsw
