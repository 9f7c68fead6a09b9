import Mathlib.Data.Nat.Dist
import PgVector.Foundation.Interference
import PgVector.Hnsw.SearchYields

/-!
# The trace of a scan

The log of a scan shows when the memory context was reset, when the trace was
initialised, each access to it, and the lines that were reported.  Two questions
are settled for every sequence of calls, among other backends: whether the trace
is initialised whenever it is accessed, and whether every heap TID that was
fetched is reported.
-/

namespace PgVector.Hnsw

open Foundation

/-! ## Logs -/

/-- Whether the arrays of the trace are allocated, after one more event. -/
def readyStep (ready : Bool) : Event → Bool
  | .contextReset => false
  | .traceInit => true
  | _ => ready

def Initialised : Bool → List Event → Prop
  | _, [] => True
  | ready, event :: log =>
    (event = .traceAccess → ready = true) ∧ Initialised (readyStep ready event) log

instance Initialised.decidable :
    ∀ (ready : Bool) (log : List Event), Decidable (Initialised ready log)
  | _, [] => inferInstanceAs (Decidable True)
  | ready, event :: log =>
    @instDecidableAnd _ _ _ (Initialised.decidable (readyStep ready event) log)

theorem initialised_append (ready : Bool) (log log' : List Event) :
    Initialised ready (log ++ log') ↔
      Initialised ready log ∧ Initialised (log.foldl readyStep ready) log' := by
  induction log generalizing ready with
  | nil => simp [Initialised]
  | cons event log ih =>
    simp only [List.cons_append, Initialised, ih, List.foldl_cons, and_assoc]

def reportedCount : List Event → Nat
  | [] => 0
  | .traceLine line :: log => line.heapFetchCount + reportedCount log
  | _ :: log => reportedCount log

theorem reportedCount_append (log log' : List Event) :
    reportedCount (log ++ log') = reportedCount log + reportedCount log' := by
  induction log with
  | nil => simp [reportedCount]
  | cons event log ih =>
    cases event <;> simp [reportedCount, ih, Nat.add_assoc]

/-! ## Instructions and the log -/

section Log

variable {V α : Type} (self : ThreadId) (I : List Event → Prop)

/-- A scan among other backends: these leave its log alone and may do anything else. -/
def Undisturbed (s t : Shared V) : Prop := t.log self = s.log self

def logDiscipline : Discipline (hnswSignature V) (Shared V) (Shared V) where
  handler := hnswHandler self
  shared := id
  inv s := I (s.log self)
  rely := Undisturbed self
  guar _ _ := True
  may _ _ := True
  allowed _ _ := True
  rely_refl _ := rfl
  rely_trans h h' := Eq.trans h' h

variable {self I}

variable {Q : α → Shared V → Prop} {s : Shared V}

theorem emit_safe {event : Event} {f : Unit → HnswProgram V α} (hI : I (s.log self ++ [event]))
    (hf : ∀ t, t.log self = s.log self ++ [event] → (f ()).Safe (logDiscipline self I) Q t) :
    (emit event >>= f).Safe (logDiscipline self I) Q s := by
  intro t hst _ _ r u hexec
  obtain ⟨rfl, rfl⟩ : () = r ∧
      { t with log := Function.update t.log self (t.log self ++ [event]) } = u := by
    cases hexec
    exact ⟨rfl, rfl⟩
  have hlog : Function.update t.log self (t.log self ++ [event]) self = s.log self ++ [event] := by
    rw [Function.update_self, hst]
  refine ⟨_, rfl, ?_, trivial, hf _ hlog⟩
  change I (Function.update t.log self (t.log self ++ [event]) self)
  rw [hlog]
  exact hI

theorem observe_safe {f : Observation → HnswProgram V α}
    (hf : ∀ now t, t.log self = s.log self → (f now).Safe (logDiscipline self I) Q t) :
    (observe >>= f).Safe (logDiscipline self I) Q s := by
  intro t hst hI _ r u hexec
  cases hexec
  exact ⟨_, rfl, hI, trivial, hf _ _ hst⟩

theorem nextQueryId_safe {f : Nat → HnswProgram V α}
    (hf : ∀ queryId t, t.log self = s.log self → (f queryId).Safe (logDiscipline self I) Q t) :
    (nextQueryId >>= f).Safe (logDiscipline self I) Q s := by
  intro t hst hI _ r u hexec
  cases hexec
  exact ⟨_, rfl, hI, trivial, hf _ _ hst⟩

theorem ret_safe {a : α} (hQ : ∀ t, t.log self = s.log self → Q a t) :
    (Program.ret a : HnswProgram V α).Safe (logDiscipline self I) Q s :=
  fun t hst _ => hQ t hst

theorem logDiscipline_reaches {p q : HnswProgram V α} {t : Shared V} (hs : I (s.log self))
    (hp : p.Safe (logDiscipline self I) Q s)
    (hreach : Program.Reaches (hnswHandler self) (Undisturbed self) (p, s) (q, t)) :
    I (t.log self) ∧ q.Safe (logDiscipline self I) Q t := by
  have henv : ∀ x u : Shared V, I (x.log self) → Undisturbed self x u →
      ∃ y, y = u ∧ I (y.log self) ∧ Undisturbed self x y := by
    intro x u hx hxu
    refine ⟨u, rfl, ?_, hxu⟩
    rw [hxu]
    exact hx
  obtain ⟨y, rfl, hinv, hsafe⟩ :=
    Program.Safe.reaches (fun _ _ => trivial) henv hreach hs hp
  exact ⟨hinv, hsafe⟩

def EventsKeep (traced : Bool) (I K : List Event → Prop) : Prop :=
  ∀ event, SearchEvent traced event → ∀ log, I log → K log → I (log ++ [event]) ∧ K (log ++ [event])

theorem search_safe {p : HnswProgram V α} {kept : Option HnswTraceStats} {Q : α → Prop}
    {K : List Event → Prop} (hK : EventsKeep kept.isSome I K) (hp : p.Yields (SearchUses kept) Q)
    (hs : K (s.log self)) :
    p.Safe (logDiscipline self I) (fun a t => Q a ∧ K (t.log self)) s := by
  refine .of_yields ?_ ?_ (fun _ _ _ _ => trivial) hp hs
  · intro t u htu ht
    have hlog : u.log self = t.log self := htu
    exact hlog ▸ ht
  · intro t o r u hI ht _ ho hexec
    have hexec' : hnswHandler self o t = some (r, u) := hexec
    by_cases hemit : ∃ event, o = .emit event
    · obtain ⟨event, rfl⟩ := hemit
      have hnext := hK event ho (t.log self) hI ht
      cases hexec'
      refine ⟨_, rfl, ?_, trivial, ?_⟩
      · simpa [logDiscipline] using hnext.1
      · simpa using hnext.2
    · have hlog : u.log = t.log :=
        log_hnswHandler (fun event he => hemit ⟨event, he⟩) hexec'
      refine ⟨u, rfl, ?_, trivial, ?_⟩
      · change I (u.log self)
        rw [hlog]
        exact hI
      · rw [hlog]
        exact ht

end Log

/-! ## The calls of a scan -/

section Calls

variable {V D : Type} [LinearOrder D] {self : ThreadId} {I : List Event → Prop}
  (ctx : ScanContext V D) (settings : ScanSettings)

theorem hnswgettuple_safe {K : List Event → Prop} (hK : EventsKeep settings.traceEnabled I K)
    (so : HnswScanOpaque V D) {s : Shared V} (hs : K (s.log self)) :
    (hnswgettuple ctx settings so).Safe (logDiscipline self I)
      (fun r t => K (t.log self) ∧ r.1.first = false ∧
        (settings.traceEnabled = true → r.1.trace.heapFetchCount =
          so.trace.heapFetchCount + if r.2.isSome then 1 else 0)) s := by
  have hcount : (so.passedTrace settings).isSome = settings.traceEnabled := by
    unfold HnswScanOpaque.passedTrace HnswScanOpaque.tracePointer passedRecord
    cases settings.traceEnabled <;> rfl
  have hsearch := searchAndFetch_yields ctx settings so
  have hkeep : EventsKeep (so.passedTrace settings).isSome I K := by
    rw [hcount]
    exact hK
  unfold hnswgettuple
  split
  · next htrace =>
    refine observe_safe fun entry s₁ h₁ => ?_
    refine (search_safe hkeep hsearch (h₁ ▸ hs)).seq ?_
    rintro ⟨so', heaptid⟩ s₂ hI₂ ⟨⟨hfirst, hrecord⟩, hs₂⟩
    have hfetch := congrArg HnswTraceStats.heapFetchCount hrecord
    change so'.trace.heapFetchCount = so.trace.heapFetchCount at hfetch
    have hnext := hK .traceAccess htrace (s₂.log self) hI₂ hs₂
    refine emit_safe hnext.1 fun s₃ h₃ => ?_
    refine observe_safe fun exit s₄ h₄ => ?_
    refine ret_safe fun t ht => ⟨?_, hfirst, fun _ => ?_⟩
    · rw [ht, h₄, h₃]
      exact hnext.2
    · cases heaptid with
      | none => simpa [HnswTraceStats.leaveIndex] using hfetch
      | some tid =>
        simpa [HnswTraceStats.leaveIndex, HnswTraceStats.recordTid] using hfetch
  · next htrace =>
    refine (search_safe hkeep hsearch hs).mono ?_
    rintro ⟨so', heaptid⟩ t - ⟨⟨hfirst, -⟩, ht⟩
    exact ⟨ht, hfirst, fun h => absurd h htrace⟩

omit [LinearOrder D] in
theorem hnswrescan_safe (so : HnswScanOpaque V D) (orderbys : Option (Option V))
    {s : Shared V}
    (hreset : I (s.log self ++ [.contextReset]))
    (hinit : settings.traceEnabled = true → I (s.log self ++ [.contextReset] ++ [.traceInit])) :
    (hnswrescan settings so orderbys).Safe (logDiscipline self I)
      (fun so' t =>
        t.log self = s.log self ++ [.contextReset] ++
          (if settings.traceEnabled then [.traceInit] else []) ∧
        so'.first = true ∧
        (settings.traceEnabled = true → so'.trace.heapFetchCount = 0)) s := by
  refine emit_safe hreset fun s₁ h₁ => ?_
  split
  · next htrace =>
    refine emit_safe (by rw [h₁]; exact hinit htrace) fun s₂ h₂ => ?_
    refine nextQueryId_safe fun queryId s₃ h₃ => ?_
    refine observe_safe fun now s₄ h₄ => ?_
    refine ret_safe fun t ht => ⟨?_, rfl, fun _ => rfl⟩
    rw [ht, h₄, h₃, h₂, h₁]
  · next htrace =>
    refine ret_safe fun t ht => ⟨?_, rfl, fun h => absurd h htrace⟩
    rw [ht, h₁, List.append_nil]

omit [LinearOrder D] in
theorem hnswendscan_safe (so : HnswScanOpaque V D) {s : Shared V}
    (haccess : settings.traceEnabled = true → so.first = false →
      I (s.log self ++ [.traceAccess]) ∧
        ∀ line, I (s.log self ++ [.traceAccess] ++ [.traceLine line])) :
    (hnswendscan settings so).Safe (logDiscipline self I)
      (fun _ t => reportedCount (t.log self) = reportedCount (s.log self) +
        if settings.traceEnabled && !so.first then so.trace.heapFetchCount
        else 0) s := by
  unfold hnswendscan
  split
  · next hemit =>
    simp only [Bool.and_eq_true, Bool.not_eq_true'] at hemit
    obtain ⟨hI, hline⟩ := haccess hemit.1 hemit.2
    refine emit_safe hI fun s₁ h₁ => ?_
    refine observe_safe fun now s₂ h₂ => ?_
    rw [← Program.bind_ret (emit _)]
    refine emit_safe (by rw [h₂, h₁]; exact hline _) fun s₃ h₃ => ?_
    refine ret_safe fun t ht => ?_
    rw [ht, h₃, h₂, h₁, reportedCount_append, reportedCount_append]
    rfl
  · exact ret_safe fun t ht => by rw [ht, Nat.add_zero]

end Calls

/-! ## Initialised before use -/

section Guarded

variable {V : Type}

/--
The last restart was made with tracing on if `traced`, and a tuple was asked for
since then if `fetched`.  A fetch with tracing on, and the end of the scan with
tracing on after a fetch, need a restart with tracing on.
-/
def TraceGuarded (last : ScanSettings) :
    Bool → Bool → List (ScanSettings × ScanCall V) → Prop
  | traced, fetched, [] =>
    last.traceEnabled = true → fetched = true → traced = true
  | _, _, (settings, .rescan _) :: calls =>
    TraceGuarded last settings.traceEnabled false calls
  | traced, _, (settings, .gettuple) :: calls =>
    (settings.traceEnabled = true → traced = true) ∧ TraceGuarded last traced true calls

instance TraceGuarded.decidable (last : ScanSettings) :
    ∀ (traced fetched : Bool) (calls : List (ScanSettings × ScanCall V)),
      Decidable (TraceGuarded last traced fetched calls)
  | _, _, [] => inferInstanceAs (Decidable (_ → _ → _))
  | _, _, (settings, .rescan _) :: calls =>
    TraceGuarded.decidable last settings.traceEnabled false calls
  | traced, _, (_, .gettuple) :: calls =>
    @instDecidableAnd _ _ _ (TraceGuarded.decidable last traced true calls)

end Guarded

theorem initialised_access {log : List Event} (hlog : Initialised false log)
    (hready : log.foldl readyStep false = true) :
    Initialised false (log ++ [.traceAccess]) := by
  rw [initialised_append, hready]
  exact ⟨hlog, fun _ => rfl, trivial⟩

section Initialised

variable {V D : Type} [LinearOrder D] {self : ThreadId}

def Shared.traceReady (s : Shared V) (self : ThreadId) : Bool :=
  (s.log self).foldl readyStep false

theorem traceReady_congr {s t : Shared V} (h : t.log self = s.log self) :
    t.traceReady self = s.traceReady self := by
  unfold Shared.traceReady
  rw [h]

theorem scanRun_safe (ctx : ScanContext V D) (last : ScanSettings)
    (calls : List (ScanSettings × ScanCall V)) (so : HnswScanOpaque V D)
    {s : Shared V} (hinv : Initialised false (s.log self))
    (hguard : TraceGuarded last (s.traceReady self) (!so.first) calls) :
    (scanRun ctx last calls so).Safe (logDiscipline self (Initialised false))
      (fun _ _ => True) s := by
  induction calls generalizing so s with
  | nil =>
    refine (hnswendscan_safe last so ?_).seq fun _ _ _ _ =>
      ret_safe fun _ _ => trivial
    intro htrace hfirst
    have hready : s.traceReady self = true := hguard htrace (by rw [hfirst]; rfl)
    have haccess := initialised_access hinv hready
    refine ⟨haccess, fun line => ?_⟩
    rw [initialised_append]
    exact ⟨haccess, fun h => (by cases h), trivial⟩
  | cons call calls ih =>
    obtain ⟨settings, call⟩ := call
    apply Program.Safe.bind
    cases call with
    | rescan orderbys =>
      have hreset : Initialised false (s.log self ++ [.contextReset]) := by
        rw [initialised_append]
        exact ⟨hinv, fun h => (by cases h), trivial⟩
      have hinit : Initialised false (s.log self ++ [.contextReset] ++ [.traceInit]) := by
        rw [initialised_append]
        exact ⟨hreset, fun h => (by cases h), trivial⟩
      refine (hnswrescan_safe settings so orderbys hreset fun _ => hinit).seq ?_
      rintro so' t ht ⟨hlog, hfirst, -⟩
      -- the restart decides whether the trace is ready from here on
      have hready : t.traceReady self = settings.traceEnabled := by
        unfold Shared.traceReady
        rw [hlog]
        cases settings.traceEnabled <;> simp [readyStep]
      refine ret_safe fun u hu => (ih so' (hu ▸ ht) ?_).seq fun _ _ _ _ =>
        ret_safe fun _ _ => trivial
      rw [traceReady_congr hu, hready, hfirst]
      exact hguard
    | gettuple =>
      obtain ⟨hnow, hrest⟩ := hguard
      refine (hnswgettuple_safe ctx settings
        (K := fun log => log.foldl readyStep false = s.traceReady self)
        ?_ so rfl).seq ?_
      · intro event hevent log hlog hready
        cases event with
        | traceAccess =>
          rw [hnow hevent] at hready ⊢
          refine ⟨initialised_access hlog hready, ?_⟩
          simp [hready, readyStep]
        | limitTest | distanceCall | neighborsPassed =>
          rw [initialised_append]
          refine ⟨⟨hlog, fun h => (by cases h), trivial⟩, ?_⟩
          simp [hready, readyStep]
        | _ => exact hevent.elim
      · rintro ⟨so', heaptid⟩ t ht ⟨hready, hfirst, -⟩
        refine ret_safe fun u hu => (ih so' (hu ▸ ht) ?_).seq fun _ _ _ _ =>
          ret_safe fun _ _ => trivial
        rw [traceReady_congr hu]
        have hready' : t.traceReady self = s.traceReady self := hready
        rw [hready', hfirst]
        exact hrest

end Initialised

/-! ## Scans of an empty index -/

section EmptyIndex

variable {V D : Type} [LinearOrder D] {self : ThreadId}

structure EmptyIndex (s : Shared V) : Prop where
  valid : s.index.metapage.magicNumber = hnswMagicNumber
  entryPoint : s.index.metapage.entryPoint = none
  unlocked : s.locks = []

structure FoundNothing (so : HnswScanOpaque V D) : Prop where
  ordered : so.orderByData.isSome = true
  w : so.first = false → so.w = []
  discarded : so.discarded = none

variable {s : Shared V} {so : HnswScanOpaque V D}

theorem hnswGetMetaPageInfo_returns (hvalid : s.index.metapage.magicNumber = hnswMagicNumber) :
    hnswGetMetaPageInfo.Returns (hnswHandler self) s fun r t =>
      t = s ∧ r = (s.index.metapage.m, s.index.metapage.entryPoint) := by
  refine .perform rfl ?_
  rw [if_neg (not_not_intro hvalid)]
  exact .ret ⟨rfl, rfl⟩

theorem getScanItems_returns (ctx : ScanContext V D) (settings : ScanSettings)
    (so : HnswScanOpaque V D) (value : Option V)
    (hvalid : s.index.metapage.magicNumber = hnswMagicNumber)
    (hentry : s.index.metapage.entryPoint = none) :
    (getScanItems ctx settings so value).Returns (hnswHandler self) s
      fun so' t => t = s ∧ so' = { so with q := value, m := s.index.metapage.m, w := [] } := by
  refine (hnswGetMetaPageInfo_returns hvalid).bind ?_
  rintro r t ⟨rfl, rfl⟩
  rw [hentry]
  exact .ret ⟨rfl, rfl⟩

theorem lockedScanItems_returns (ctx : ScanContext V D) (settings : ScanSettings)
    (hs : EmptyIndex s) (hso : FoundNothing so) (value : Option V × Nat) :
    (lockedScanItems ctx settings so value).Returns (hnswHandler self) s
      fun so' t => t = s ∧ so'.first = false ∧ FoundNothing so' := by
  have hfree : s.conflicts self .scan .share = false := by
    simp [Shared.conflicts, hs.unlocked]
  refine .perform (hnswHandler_lockPage hfree) ?_
  refine .bind (getScanItems_returns ctx settings
    { so with tmpCtx := so.tmpCtx + value.2 } _ hs.valid hs.entryPoint) ?_
  rintro so' t ⟨rfl, rfl⟩
  refine .perform (hnswHandler_unlockPage self _ _ s) (.ret ⟨rfl, rfl, ?_⟩)
  exact ⟨hso.ordered, fun _ => rfl, hso.discarded⟩

theorem firstScan_returns {ctx : ScanContext V D} (settings : ScanSettings)
    (hmvcc : ctx.mvccSnapshot = true) (hs : EmptyIndex s) (hso : FoundNothing so) :
    (firstScan ctx settings so).Returns (hnswHandler self) s fun so' t =>
      t = s ∧ so'.first = false ∧ FoundNothing so' := by
  obtain ⟨argument, hargument⟩ := Option.isSome_iff_exists.mp hso.ordered
  unfold firstScan
  rw [hargument, hmvcc]
  split
  · exact lockedScanItems_returns ctx settings hs hso _
  · next hfirst => exact .ret ⟨rfl, by simpa using hfirst, hso⟩

theorem searchAndFetch_returns {ctx : ScanContext V D} (settings : ScanSettings)
    (hmvcc : ctx.mvccSnapshot = true) (hfuel : ctx.fuel ≠ 0) (hs : EmptyIndex s)
    (hso : FoundNothing so) :
    (searchAndFetch ctx settings so).Returns (hnswHandler self) s fun r t =>
      t = s ∧ r.2 = none ∧ r.1.first = false ∧ FoundNothing r.1 := by
  refine (firstScan_returns settings hmvcc hs hso).bind ?_
  rintro so' t ⟨rfl, hfirst, hso'⟩
  obtain ⟨fuel, hfuel⟩ := Nat.exists_eq_succ_of_ne_zero hfuel
  have hw : so'.w = [] := hso'.w hfirst
  have hrefill : refill ctx settings so' = .ret so' := by
    simp [refill, hw, hso'.discarded]
  rw [hfuel, fetchLoop, hrefill]
  simp only [Program.ret_bind, hw, List.isEmpty_nil, if_true]
  exact .ret ⟨rfl, rfl, hfirst, hso'⟩

theorem hnswgettuple_returns {ctx : ScanContext V D} (settings : ScanSettings)
    (hmvcc : ctx.mvccSnapshot = true) (hfuel : ctx.fuel ≠ 0) (hs : EmptyIndex s)
    (hso : FoundNothing so) :
    (hnswgettuple ctx settings so).Returns (hnswHandler self) s fun r t =>
      EmptyIndex t ∧ r.1.first = false ∧ FoundNothing r.1 ∧
        t.log self = s.log self ++
          if settings.traceEnabled then [.traceAccess] else [] := by
  unfold hnswgettuple
  split
  · have hs' : EmptyIndex { s with observed := s.observed + 1 } :=
      ⟨hs.valid, hs.entryPoint, hs.unlocked⟩
    refine .perform rfl ?_
    refine .bind (searchAndFetch_returns settings hmvcc hfuel hs' hso) ?_
    rintro ⟨so', heaptid⟩ t ⟨rfl, hnone, hfirst, hso'⟩
    refine .perform rfl (.perform rfl (.ret ?_))
    refine ⟨⟨hs.valid, hs.entryPoint, hs.unlocked⟩, hfirst, ?_, ?_⟩
    · exact ⟨hso'.ordered, hso'.w, hso'.discarded⟩
    · simp
  · refine (searchAndFetch_returns settings hmvcc hfuel hs hso).mono ?_
    rintro ⟨so', heaptid⟩ t ⟨rfl, -, hfirst, hso'⟩
    exact ⟨hs, hfirst, hso', by simp⟩

omit [LinearOrder D] in
theorem hnswrescan_returns (settings : ScanSettings) (hs : EmptyIndex s)
    (hso : so.orderByData.isSome = true) (orderbys : Option (Option V)) :
    (hnswrescan settings so orderbys).Returns (hnswHandler self) s fun so' t =>
      EmptyIndex t ∧ so'.first = true ∧ FoundNothing so' ∧
        t.log self = s.log self ++ [.contextReset] ++
          if settings.traceEnabled then [.traceInit] else [] := by
  refine .perform rfl ?_
  split
  · refine .perform rfl (.perform rfl (.perform rfl (.ret ?_)))
    refine ⟨⟨hs.valid, hs.entryPoint, hs.unlocked⟩, rfl, ⟨?_, ?_, rfl⟩, ?_⟩
    · simpa using hso
    · exact fun h => (by cases h)
    · simp
  · refine .ret ⟨⟨hs.valid, hs.entryPoint, hs.unlocked⟩, rfl, ⟨?_, ?_, rfl⟩, ?_⟩
    · simpa using hso
    · exact fun h => (by cases h)
    · simp

theorem scanRun_returns {ctx : ScanContext V D} (hmvcc : ctx.mvccSnapshot = true)
    (hfuel : ctx.fuel ≠ 0) (last : ScanSettings) (calls : List (ScanSettings × ScanCall V))
    (hs : EmptyIndex s) (hso : FoundNothing so) :
    (scanRun ctx last calls so).Returns (hnswHandler self) s fun _ t =>
      ∃ events, t.log self = s.log self ++ events ∧
        (Initialised (s.traceReady self) events →
          TraceGuarded last (s.traceReady self) (!so.first) calls) := by
  induction calls generalizing so s with
  | nil =>
    change (hnswendscan last so >>= fun _ => Program.ret []).Returns _ _ _
    unfold hnswendscan
    split
    · refine .perform rfl (.perform rfl (.perform rfl (.ret ?_)))
      refine ⟨[.traceAccess, .traceLine _], by simp; rfl, ?_⟩
      exact fun hgood _ _ => hgood.1 rfl
    · next hemit =>
      refine .ret ⟨[], by simp, fun _ htrace hfetched => ?_⟩
      simp [htrace, hfetched] at hemit
  | cons call calls ih =>
    obtain ⟨settings, call⟩ := call
    cases call with
    | rescan orderbys =>
      rw [scanRun, scanCall, Program.bind_assoc]
      refine (hnswrescan_returns settings hs hso.ordered orderbys).bind ?_
      rintro so' t ⟨ht, hfirst, hso', hlog⟩
      have hready : t.traceReady self = settings.traceEnabled := by
        unfold Shared.traceReady
        rw [hlog]
        cases settings.traceEnabled <;> simp [readyStep]
      simp only [Program.pure_eq, Program.ret_bind]
      refine .bind (ih ht hso') ?_
      rintro results u ⟨events, hevents, hguard⟩
      refine .ret ⟨[.contextReset] ++
        (if settings.traceEnabled then [.traceInit] else []) ++ events, ?_, ?_⟩
      · rw [hevents, hlog]
        simp
      · intro hgood
        rw [hready, hfirst] at hguard
        apply hguard
        cases henabled : settings.traceEnabled <;>
          simpa [henabled, Initialised, readyStep] using hgood
    | gettuple =>
      rw [scanRun, scanCall, Program.bind_assoc]
      refine (hnswgettuple_returns settings hmvcc hfuel hs hso).bind ?_
      rintro ⟨so', heaptid⟩ t ⟨ht, hfirst, hso', hlog⟩
      have hready : t.traceReady self = s.traceReady self := by
        unfold Shared.traceReady
        rw [hlog]
        cases settings.traceEnabled <;> simp [readyStep]
      simp only [Program.pure_eq, Program.ret_bind]
      refine .bind (ih ht hso') ?_
      rintro results u ⟨events, hevents, hguard⟩
      refine .ret ⟨(if settings.traceEnabled then [.traceAccess] else []) ++
        events, ?_, ?_⟩
      · rw [hevents, hlog]
        simp
      · intro hgood
        rw [hready, hfirst] at hguard
        cases henabled : settings.traceEnabled with
        | false =>
          rw [henabled] at hgood
          exact ⟨fun h => absurd (henabled.symm.trans h) (by simp), hguard hgood⟩
        | true =>
          rw [henabled] at hgood
          exact ⟨fun _ => hgood.1 rfl, hguard hgood.2⟩

end EmptyIndex

section Initialised

variable {V D : Type} [LinearOrder D]

def emptyShared (m : Nat) : Shared V where
  index := ⟨⟨hnswMagicNumber, m, none, none⟩, []⟩
  locks := []
  env := fun _ => default
  observed := 0
  queryCounter := 0
  log := fun _ => []

/--
For every sequence of calls that starts with a restart: the trace is initialised
at every access, in every state reached among other backends, exactly if the
calls are guarded.
-/
theorem trace_initialised_iff_guarded [Inhabited D] (self : ThreadId)
    (first : ScanSettings) (orderbys : Option (Option V))
    (calls : List (ScanSettings × ScanCall V)) (last : ScanSettings) :
    (∀ (ctx : ScanContext V D) (memory : HnswScanOpaque V D) (workMem : Nat)
        (scanMemMultiplier : ℚ) (norderbys : Nat) (s t : Shared V)
        (p : HnswProgram V (List ScanReturn)),
      s.log self = [] →
      Program.Reaches (hnswHandler self) (Undisturbed self)
        (scanRun ctx last ((first, .rescan orderbys) :: calls)
          (hnswbeginscan memory workMem scanMemMultiplier norderbys), s) (p, t) →
      Initialised false (t.log self)) ↔
    TraceGuarded last first.traceEnabled false calls := by
  constructor
  · intro hgood
    let ctx : ScanContext V D :=
      { support := ⟨fun _ _ => default, default, none⟩, sizes := default
        normValueBytes := 0, memAllocated := id, memAllocated_mono := monotone_id
        mvccSnapshot := true, fuel := 1 }
    let so : HnswScanOpaque V D := hnswbeginscan default 0 0 1
    have hempty : EmptyIndex (emptyShared 16 : Shared V) := ⟨rfl, rfl, rfl⟩
    have hso : FoundNothing so := ⟨rfl, fun _ => rfl, rfl⟩
    have hreturns : (scanRun ctx last ((first, .rescan orderbys) :: calls)
        so).Returns (hnswHandler self) (emptyShared 16) _ :=
      scanRun_returns rfl one_ne_zero last _ hempty hso
    obtain ⟨results, t, hrun, events, hevents, hguard⟩ := hreturns
    have hlog := hgood ctx default 0 0 1 _ t _ rfl (Program.reaches_run _ (Undisturbed self) _ hrun)
    rw [hevents] at hlog
    exact hguard hlog
  · intro hguard ctx memory workMem scanMemMultiplier norderbys s t p hs hreach
    have hinv : Initialised false (s.log self) := by
      rw [hs]
      trivial
    have hsafe := scanRun_safe ctx last ((first, .rescan orderbys) :: calls)
      (hnswbeginscan memory workMem scanMemMultiplier norderbys) hinv hguard
    exact (logDiscipline_reaches hinv hsafe hreach).1

end Initialised

/-- Distances between numbers; every loop may take `fuel` turns. -/
def numberContext (fuel : Nat) : ScanContext Nat Nat where
  support := ⟨Nat.dist, 0, none⟩
  sizes := default
  normValueBytes := 0
  memAllocated := id
  memAllocated_mono := monotone_id
  mvccSnapshot := true
  fuel := fuel

def defaultSettings (traceEnabled : Bool) : ScanSettings where
  efSearch := 40
  iterativeScan := .off
  maxScanTuples := 20000
  traceEnabled := traceEnabled

/-- Tracing is turned on between the restart and the first fetch. -/
theorem trace_accessed_uninitialised :
    ∃ (p : HnswProgram Nat (List ScanReturn)) (t : Shared Nat),
      Program.Reaches (hnswHandler 0) (Undisturbed 0)
        (scanRun (numberContext 2) (defaultSettings true)
          [(defaultSettings false, .rescan (some (some 7))), (defaultSettings true, .gettuple)]
          (hnswbeginscan default 4096 1 1), emptyShared 16) (p, t) ∧
      ¬ Initialised false (t.log 0) :=
  ⟨_, _, Program.reaches_run _ _ _ rfl, by decide⟩

end PgVector.Hnsw
