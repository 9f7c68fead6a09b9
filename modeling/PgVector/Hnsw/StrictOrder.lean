import PgVector.Hnsw.ScanComplete

/-!
# Strict and relaxed order

An iterative scan can be asked for strict order: it then skips what is nearer
than the last heap TID that it has returned.  The scan in strict order takes the
same turns as the scan in relaxed order, and returns some of its heap TIDs.
-/

namespace PgVector.Hnsw

open Foundation

def ScanSettings.inOrder (settings : ScanSettings) (order : IterativeScan) : ScanSettings :=
  { settings with iterativeScan := order }

section Order

variable {V D : Type} [LinearOrder D]

/--
Calls until one finds nothing; each heap TID comes with the distance of the
element that the call leaves at the end of `w`.
-/
def fetchDistances (ctx : ScanContext V D) (settings : ScanSettings) :
    Nat → HnswScanOpaque V D → HnswProgram V (List (ItemPointer × D))
  | 0, _ => .fail .outOfFuel
  | calls + 1, so => do
    let (so, heaptid) ← hnswgettuple ctx settings so
    match heaptid, so.w.getLast? with
    | some heaptid, some sc => do
      let rest ← fetchDistances ctx settings calls so
      return (heaptid, sc.distance) :: rest
    | _, _ => return []

def rescanAndFetchAll (ctx : ScanContext V D) (settings : ScanSettings)
    (orderbys : Option (Option V)) (calls : Nat) (so : HnswScanOpaque V D) :
    HnswProgram V (List (ItemPointer × D)) := do
  let so ← hnswrescan settings so orderbys
  fetchDistances ctx settings calls so

def keepAscending : WithBot D → List (ItemPointer × D) → List (ItemPointer × D)
  | _, [] => []
  | last, p :: rest =>
    if (p.2 : WithBot D) < last then keepAscending last rest
    else p :: keepAscending p.2 rest

theorem keepAscending_sublist (last : WithBot D) (all : List (ItemPointer × D)) :
    (keepAscending last all).Sublist all := by
  induction all generalizing last with
  | nil => exact .slnil
  | cons p rest ih =>
    unfold keepAscending
    split
    · exact (ih last).cons p
    · exact (ih _).cons_cons p

theorem le_of_mem_keepAscending {last : WithBot D} {all : List (ItemPointer × D)} :
    ∀ p ∈ keepAscending last all, last ≤ p.2 := by
  induction all generalizing last with
  | nil => simp [keepAscending]
  | cons p rest ih =>
    intro p' hp'
    unfold keepAscending at hp'
    split at hp'
    · exact ih p' hp'
    · next hlast =>
      have hle : last ≤ (p.2 : WithBot D) := not_lt.mp hlast
      rcases List.mem_cons.mp hp' with rfl | hp'
      · exact hle
      · exact hle.trans (ih p' hp')

theorem keepAscending_pairwise (last : WithBot D) (all : List (ItemPointer × D)) :
    (keepAscending last all).Pairwise fun a b => a.2 ≤ b.2 := by
  induction all generalizing last with
  | nil => exact .nil
  | cons p rest ih =>
    unfold keepAscending
    split
    · exact ih last
    · refine .cons ?_ (ih _)
      intro p' hp'
      exact WithBot.coe_le_coe.mp (le_of_mem_keepAscending p' hp')

def keptInOrder (order : IterativeScan) (last : WithBot D) (all : List (ItemPointer × D)) :
    List (ItemPointer × D) :=
  if order = .strict then keepAscending last all else all

theorem keptInOrder_length_le (order : IterativeScan) (last : WithBot D)
    (all : List (ItemPointer × D)) : (keptInOrder order last all).length ≤ all.length := by
  unfold keptInOrder
  split
  · exact (keepAscending_sublist last all).length_le
  · exact le_rfl

/-! ## The turns of a scan -/

/--
The turns of the loop from `so` on, with what each of them takes off `w`, if no
heap TID is skipped; at most `n` turns are made.
-/
inductive Turns (self : ThreadId) (ctx : ScanContext V D) (settings : ScanSettings) :
    Nat → HnswScanOpaque V D → Shared V → List (ItemPointer × D) → Prop
  | exhausted {n so so' s s'} :
      (refill ctx settings so).run (hnswHandler self) s = (.done so', s') → so'.w = [] →
      Turns self ctx settings (n + 1) so s []
  | dropped {n so so' s s' ws sc all} :
      (refill ctx settings so).run (hnswHandler self) s = (.done so', s') →
      so'.w = ws ++ [sc] → sc.element.heaptids = [] →
      Turns self ctx settings n { so' with w := ws } s' all →
      Turns self ctx settings (n + 1) so s all
  | taken {n so so' s s' ws sc heaptids heaptid all} :
      (refill ctx settings so).run (hnswHandler self) s = (.done so', s') →
      so'.first = false → so'.w = ws ++ [sc] →
      sc.element.heaptids = heaptids ++ [heaptid] →
      Turns self ctx settings n
        { so' with
          w := ws ++ [{ sc with element := { sc.element with heaptids := heaptids } }] }
        s' all →
      Turns self ctx settings (n + 1) so s ((heaptid, sc.distance) :: all)

variable {self : ThreadId} {ctx : ScanContext V D} {settings : ScanSettings}
  {index : HnswIndex V} {value : Option V} {maxMemory : Nat}
  {entry : ItemPointer} {tests : List (Nat × Nat)} {yielded : Multiset ItemPointer}
  {d : CandidateHeap V D} {so : HnswScanOpaque V D} {s : Shared V}

theorem ScanProgress.turns (hscan : ScansGraph ctx settings index) (n : Nat)
    (hso : ScanProgress ctx index value settings.maxScanTuples maxMemory entry tests
      yielded d so) (hs : Calm self index tests s)
    (hn : so.w.length + d.elems.card + index.elements.length +
        hnswHeaptids * index.elements.length < n + so.v.length + yielded.card) :
    ∃ (all : List (ItemPointer × D)) (v : List ItemPointer),
      Turns self ctx settings n so s all ∧ v.Nodup ∧ v.length ≤ index.elements.length ∧
      (all.map Prod.fst : Multiset ItemPointer) + yielded = storedTids index v := by
  induction n generalizing so s tests yielded d with
  | zero =>
    have hvisited : so.v.length ≤ index.elements.length :=
      ground_bound so.v hso.nodup hso.known
    have hstored := card_storedTids_le index so.v
    have hcard := congrArg Multiset.card hso.conserved
    rw [Multiset.card_add, Multiset.card_add] at hcard
    have hmul : hnswHeaptids * so.v.length ≤ hnswHeaptids * index.elements.length :=
      Nat.mul_le_mul_left _ hvisited
    omega
  | succ n ih =>
    obtain ⟨so', s', hrun, tests', d', hs', hso', hmeasure, hend⟩ :=
      refill_returns hscan hso hs
    rcases List.eq_nil_or_concat so'.w with hw | ⟨ws, sc, hw⟩
    · refine ⟨[], so'.v, .exhausted hrun hw, hso'.nodup,
        ground_bound so'.v hso'.nodup hso'.known, ?_⟩
      have hconserved := hso'.conserved
      rw [hw, hend hw] at hconserved
      simpa [heaptidsLeft] using hconserved
    · rw [List.concat_eq_append] at hw
      have hlength : so'.w.length = ws.length + 1 := by simp [hw]
      rcases List.eq_nil_or_concat sc.element.heaptids with hnil | ⟨heaptids, heaptid, hlast⟩
      · obtain ⟨all, v, hturns, hv⟩ := ih (hso'.dropCandidate hw hnil) hs' (by simp only; omega)
        exact ⟨all, v, .dropped hrun hw hnil hturns, hv⟩
      · rw [List.concat_eq_append] at hlast
        obtain ⟨all, v, hturns, hv, hbound, hall⟩ := ih (hso'.takeLast hw hlast) hs' (by
          simp only [List.length_append, List.length_singleton, Multiset.card_cons]
          omega)
        refine ⟨(heaptid, sc.distance) :: all, v, .taken hrun hso'.first hw hlast hturns, hv,
          hbound, ?_⟩
        rw [← hall, List.map_cons, ← Multiset.cons_coe, Multiset.cons_add, Multiset.add_cons]

/-! ## Running the turns -/

/-- The scan `so₁` is where `so` is; the last distance it has returned is `last`. -/
def Tracks (maxMemory : Nat) (last : WithBot D) (so so₁ : HnswScanOpaque V D) : Prop :=
  OpaqueAlike 0 maxMemory (fun _ previous => previous = last) so so₁

variable {order : IterativeScan} {last : WithBot D} {so₁ : HnswScanOpaque V D}
  {s₁ : Shared V} {n : Nat} {all : List (ItemPointer × D)}

omit [LinearOrder D] in
theorem Tracks.w (h : Tracks maxMemory last so so₁) : so₁.w = so.w := by
  obtain ⟨_, _, _, _, _, rfl⟩ := h
  rfl

omit [LinearOrder D] in
theorem Tracks.previousDistance (h : Tracks maxMemory last so so₁) :
    so₁.previousDistance = last := by
  obtain ⟨_, _, _, _, hlast, rfl⟩ := h
  exact hlast

omit [LinearOrder D] in
theorem Tracks.withW (h : Tracks maxMemory last so so₁) (w : Candidates V D) :
    Tracks maxMemory last { so with w := w } { so₁ with w := w } := by
  obtain ⟨hmax, trace, queryId, previous, hlast, rfl⟩ := h
  exact ⟨hmax, trace, queryId, previous, hlast, rfl⟩

omit [LinearOrder D] in
theorem Tracks.withDistance (h : Tracks maxMemory last so so₁) (last' : WithBot D) :
    Tracks maxMemory last' so { so₁ with previousDistance := last' } := by
  obtain ⟨hmax, trace, queryId, previous, -, rfl⟩ := h
  exact ⟨hmax, trace, queryId, previous, rfl, rfl⟩

omit [LinearOrder D] in
theorem Tracks.withTrace (h : Tracks maxMemory last so so₁) (trace' : HnswTraceStats) :
    Tracks maxMemory last so { so₁ with trace := trace' } := by
  obtain ⟨hmax, trace, queryId, previous, hlast, rfl⟩ := h
  exact ⟨hmax, trace, queryId, previous, hlast, rfl⟩

omit [LinearOrder D] in
theorem returns_of_alike {α β : Type} {p : HnswProgram V α} {p' : HnswProgram V β}
    {Q : α → β → Shared V → Shared V → Prop} {maxScanTuples : Nat}
    (halike : p.Alike (scanComparison self ctx 0 maxScanTuples maxMemory) Q p' s s₁)
    {r : α} {t : Shared V} (hrun : p.run (hnswHandler self) s = (.done r, t)) :
    p'.Returns (hnswHandler self) s₁ fun r' t' => Q r r' t t' := by
  refine (halike.returns ?_ (P := fun a u => a = r ∧ u = t) ⟨r, t, hrun, rfl, rfl⟩).mono ?_
  · rintro _ ⟨event, -, hgap⟩
    exact hgap (limitUnaffected_zero ctx _ _ event)
  · rintro r' t' ⟨_, _, ⟨rfl, rfl⟩, hQ⟩
    exact hQ

theorem matching_inOrder (settings : ScanSettings) (horder : order ≠ .off) :
    (settings.inOrder .relaxed).Matching (settings.inOrder order) :=
  ⟨rfl, by simp [ScanSettings.inOrder, horder], rfl⟩

def FetchedInOrder (self : ThreadId) (ctx : ScanContext V D) (settings : ScanSettings)
    (order : IterativeScan) (maxMemory n : Nat) (last : WithBot D)
    (all : List (ItemPointer × D)) (r : HnswScanOpaque V D × Option ItemPointer)
    (t : Shared V) : Prop :=
  (r.2 = none ∧ keptInOrder order last all = []) ∨
    ∃ heaptid sc last' so s rest, ∃ n' ≤ n, r.2 = some heaptid ∧
      r.1.w.getLast? = some sc ∧
      keptInOrder order last all = (heaptid, sc.distance) :: keptInOrder order last' rest ∧
      so.first = false ∧ Turns self ctx (settings.inOrder .relaxed) n' so s rest ∧
      Tracks maxMemory last' so r.1 ∧ SameIndex self s t

theorem fetchLoop_exhausted (horder : order ≠ .off) {so' : HnswScanOpaque V D}
    {s' : Shared V} (hrun : (refill ctx (settings.inOrder .relaxed) so).run
      (hnswHandler self) s = (.done so', s')) (hw : so'.w = [])
    (hso : Tracks maxMemory last so so₁) (hs : SameIndex self s s₁) (fuel : Nat) :
    (fetchLoop ctx (settings.inOrder order) (fuel + 1) so₁).Returns (hnswHandler self) s₁
      fun r _ => r.2 = none := by
  refine .bind (returns_of_alike (refill_alike (matching_inOrder settings horder) hso hs) hrun) ?_
  rintro so₁' t ⟨hso', -⟩
  have hempty : so₁'.w = [] := Tracks.w hso' |>.trans hw
  simp only [hempty, List.isEmpty_nil, if_true]
  exact .ret rfl

theorem fetchLoop_turn (horder : order ≠ .off) {so' : HnswScanOpaque V D}
    {s' : Shared V} (hrun : (refill ctx (settings.inOrder .relaxed) so).run
      (hnswHandler self) s = (.done so', s')) {ws : Candidates V D}
    {sc : DiskCandidate V D} (hw : so'.w = ws ++ [sc])
    (hso : Tracks maxMemory last so so₁) (hs : SameIndex self s s₁) (fuel : Nat)
    {Q : HnswScanOpaque V D × Option ItemPointer → Shared V → Prop}
    (hnone : ∀ so₁' so₂ t, Tracks maxMemory last so' so₁' → SameIndex self s' t →
      takeHeaptid (settings.inOrder order) so₁' = (so₂, none) →
      (fetchLoop ctx (settings.inOrder order) fuel so₂).Returns (hnswHandler self) t Q)
    (hsome : ∀ so₁' so₂ t heaptid, Tracks maxMemory last so' so₁' → SameIndex self s' t →
      takeHeaptid (settings.inOrder order) so₁' = (so₂, some heaptid) →
      Q (so₂, some heaptid) t) :
    (fetchLoop ctx (settings.inOrder order) (fuel + 1) so₁).Returns (hnswHandler self) s₁ Q := by
  refine .bind (returns_of_alike (refill_alike (matching_inOrder settings horder) hso hs) hrun) ?_
  rintro so₁' t ⟨hso', ht⟩
  have hfull : so₁'.w = ws ++ [sc] := Tracks.w hso' |>.trans hw
  have hempty : so₁'.w.isEmpty = false := by simp [hfull]
  rw [hempty]
  rcases htake : takeHeaptid (settings.inOrder order) so₁' with ⟨so₂, _ | heaptid⟩
  · exact hnone so₁' so₂ t hso' ht htake
  · exact .ret (hsome so₁' so₂ t heaptid hso' ht htake)

theorem FetchedInOrder.mono {n' : Nat} (hn : n ≤ n') {all' : List (ItemPointer × D)}
    (hall : keptInOrder order last all' = keptInOrder order last all)
    {r : HnswScanOpaque V D × Option ItemPointer} {t : Shared V}
    (h : FetchedInOrder self ctx settings order maxMemory n last all r t) :
    FetchedInOrder self ctx settings order maxMemory n' last all' r t := by
  unfold FetchedInOrder at h ⊢
  rw [hall]
  refine h.imp_right ?_
  rintro ⟨heaptid, sc, last', so, s, rest, m, hm, hfetched⟩
  exact ⟨heaptid, sc, last', so, s, rest, m, hm.trans hn, hfetched⟩

theorem fetchLoop_turns (horder : order ≠ .off)
    (h : Turns self ctx (settings.inOrder .relaxed) n so s all) {fuel : Nat}
    (hfuel : n ≤ fuel) (hso : Tracks maxMemory last so so₁) (hs : SameIndex self s s₁) :
    (fetchLoop ctx (settings.inOrder order) fuel so₁).Returns (hnswHandler self) s₁
      (FetchedInOrder self ctx settings order maxMemory n last all) := by
  induction h generalizing fuel so₁ s₁ with
  | exhausted hrun hw =>
    obtain ⟨fuel, rfl⟩ := Nat.exists_eq_add_of_lt hfuel
    refine (fetchLoop_exhausted horder hrun hw hso hs _).mono ?_
    intro r t hr
    exact .inl ⟨hr, by simp [keptInOrder, keepAscending]⟩
  | @dropped n so so' s s' ws sc all hrun hw hnil _ ih =>
    obtain ⟨fuel, rfl⟩ := Nat.exists_eq_add_of_lt hfuel
    refine fetchLoop_turn horder hrun hw hso hs _ ?_ ?_
    · intro so₁' so₂ t hso' ht htake
      rw [takeHeaptid_dropped (hso'.w.trans hw) hnil] at htake
      obtain ⟨rfl, -⟩ := Prod.mk.inj htake
      refine (ih (by omega) (hso'.withW ws) ht).mono ?_
      intro r t hr
      exact hr.mono (Nat.le_succ n) rfl
    · intro so₁' so₂ t heaptid hso' _ htake
      rw [takeHeaptid_dropped (hso'.w.trans hw) hnil] at htake
      cases htake
  | @taken n so so' s s' ws sc heaptids heaptid all hrun hfirst hw hlast hrest ih =>
    obtain ⟨fuel, rfl⟩ := Nat.exists_eq_add_of_lt hfuel
    by_cases hskip : order = .strict ∧ (sc.distance : WithBot D) < last
    · -- the heap TID is taken off and the loop goes on
      have htaken : ∀ so₁', Tracks maxMemory last so' so₁' →
          takeHeaptid (settings.inOrder order) so₁' =
            ({ so₁' with
              w := ws ++ [{ sc with
                element := { sc.element with heaptids := heaptids } }] }, none) := by
        intro so₁' hso'
        rw [← hso'.previousDistance] at hskip
        simp [takeHeaptid, hso'.w, hw, hlast, ScanSettings.inOrder, hskip]
      refine fetchLoop_turn horder hrun hw hso hs _ ?_ ?_
      · intro so₁' so₂ t hso' ht htake
        rw [htaken so₁' hso'] at htake
        obtain ⟨rfl, -⟩ := Prod.mk.inj htake
        refine (ih (by omega) (hso'.withW _) ht).mono ?_
        intro r t hr
        refine hr.mono (Nat.le_succ n) ?_
        simp [keptInOrder, keepAscending, hskip]
      · intro so₁' so₂ t heaptid hso' _ htake
        rw [htaken so₁' hso'] at htake
        cases htake
    · have hkeeps : order = .strict → last ≤ (sc.distance : WithBot D) :=
        fun hstrict => not_lt.mp fun hless => hskip ⟨hstrict, hless⟩
      have htaken : ∀ so₁', Tracks maxMemory last so' so₁' →
          takeHeaptid (settings.inOrder order) so₁' = _ := fun so₁' hso' =>
        takeHeaptid_taken (hso'.w.trans hw) hlast (by rw [hso'.previousDistance]; exact hkeeps)
      refine fetchLoop_turn horder hrun hw hso hs _ ?_ ?_
      · intro so₁' so₂ t hso' _ htake
        rw [htaken so₁' hso'] at htake
        cases htake
      · intro so₁' so₂ t heaptid' hso' ht htake
        rw [htaken so₁' hso'] at htake
        obtain ⟨rfl, hsame⟩ := Prod.mk.inj htake
        cases hsame
        refine .inr ⟨heaptid, _, _, _, s', all, n, Nat.le_succ n, rfl, List.getLast?_concat, ?_,
          ?_, hrest, (hso'.withW _).withDistance _, ht⟩
        · rw [hso'.previousDistance]
          by_cases hstrict : order = .strict
          · simp [keptInOrder, keepAscending, ScanSettings.inOrder, hstrict,
              not_lt.mpr (hkeeps hstrict)]
          · simp [keptInOrder, hstrict]
        · exact hfirst

/-! ## The calls -/

/-- The turns that follow once the next call has made its first search, if any. -/
def Starts (self : ThreadId) (ctx : ScanContext V D) (settings : ScanSettings) (n : Nat)
    (so : HnswScanOpaque V D) (s : Shared V) (all : List (ItemPointer × D)) : Prop :=
  ∃ so' s', (firstScan ctx settings so).run (hnswHandler self) s = (.done so', s') ∧
    Turns self ctx settings n so' s' all

theorem Turns.starts (hfirst : so.first = false) (h : Turns self ctx settings n so s all) :
    Starts self ctx settings n so s all := by
  refine ⟨so, s, ?_, h⟩
  simp [firstScan, hfirst]

theorem searchAndFetch_starts (horder : order ≠ .off)
    (h : Starts self ctx (settings.inOrder .relaxed) n so s all) (hfuel : n ≤ ctx.fuel)
    (hso : Tracks maxMemory last so so₁) (hs : SameIndex self s s₁) :
    (searchAndFetch ctx (settings.inOrder order) so₁).Returns (hnswHandler self) s₁
      (FetchedInOrder self ctx settings order maxMemory n last all) := by
  obtain ⟨so', s', hrun, hturns⟩ := h
  have hfirst : (firstScan ctx (settings.inOrder .relaxed) so).Alike
      (scanComparison self ctx 0 0 maxMemory) _ (firstScan ctx (settings.inOrder order) so₁)
      s s₁ := firstScan_alike (matching_inOrder settings horder) hso hs
  refine .bind (returns_of_alike hfirst hrun) ?_
  rintro so₁' t ⟨hso', ht⟩
  exact fetchLoop_turns horder hturns hfuel hso' ht

theorem FetchedInOrder.traced {heaptid : Option ItemPointer} {t t' : Shared V}
    (h : FetchedInOrder self ctx settings order maxMemory n last all (so, heaptid) t)
    (hindex : t'.index = t.index) (hlocks : t'.locks = t.locks) (trace : HnswTraceStats) :
    FetchedInOrder self ctx settings order maxMemory n last all
      ({ so with trace := trace }, heaptid) t' := by
  refine h.imp_right ?_
  rintro ⟨heaptid, sc, last', so', s', rest, n', hn, hr, hsc, hkept, hfirst, hturns, hso, hs⟩
  refine ⟨heaptid, sc, last', so', s', rest, n', hn, hr, hsc, hkept, hfirst, hturns,
    hso.withTrace trace, hs.1.trans hindex.symm, hs.2.1, ?_⟩
  unfold Alone
  rw [hlocks]
  exact hs.2.2

theorem hnswgettuple_starts (horder : order ≠ .off)
    (h : Starts self ctx (settings.inOrder .relaxed) n so s all) (hfuel : n ≤ ctx.fuel)
    (hso : Tracks maxMemory last so so₁) (hs : SameIndex self s s₁) :
    (hnswgettuple ctx (settings.inOrder order) so₁).Returns (hnswHandler self) s₁
      (FetchedInOrder self ctx settings order maxMemory n last all) := by
  unfold hnswgettuple
  split
  · refine .perform rfl ?_
    refine .bind (searchAndFetch_starts horder h hfuel hso ⟨hs.1, hs.2.1, hs.2.2⟩) ?_
    rintro ⟨so', heaptid⟩ t ht
    exact .perform rfl (.perform rfl (.ret (ht.traced rfl rfl _)))
  · exact searchAndFetch_starts horder h hfuel hso hs

theorem fetchDistances_starts (horder : order ≠ .off) {calls : Nat}
    (h : Starts self ctx (settings.inOrder .relaxed) n so s all) (hfuel : n ≤ ctx.fuel)
    (hso : Tracks maxMemory last so so₁) (hs : SameIndex self s s₁)
    (hcalls : (keptInOrder order last all).length < calls) :
    (fetchDistances ctx (settings.inOrder order) calls so₁).Returns (hnswHandler self) s₁
      fun r _ => r = keptInOrder order last all := by
  induction calls generalizing n so s all last so₁ s₁ with
  | zero => cases hcalls
  | succ calls ih =>
    refine .bind (hnswgettuple_starts horder h hfuel hso hs) ?_
    rintro ⟨so₁, heaptid⟩ t (⟨hnone, hkept⟩ | hsome)
    · simp only at hnone
      subst hnone
      rw [hkept]
      exact .ret rfl
    · obtain ⟨heaptid, sc, last', so', s', rest, n', hn, hr, hsc, hkept, hfirst, hturns, hso,
        ht⟩ := hsome
      simp only at hr hsc hso
      subst hr
      dsimp only
      rw [hsc]
      rw [hkept, List.length_cons, Nat.succ_lt_succ_iff] at hcalls
      refine .bind (ih (hturns.starts hfirst) (hn.trans hfuel) hso ht hcalls) ?_
      rintro _ u rfl
      rw [hkept]
      exact .ret rfl

structure HnswIndex.StoredOnce (index : HnswIndex V) : Prop where
  nodup : ∀ tid, (index.liveTids tid).Nodup
  single : ∀ a b heaptid, heaptid ∈ index.liveTids a → heaptid ∈ index.liveTids b → a = b

omit [LinearOrder D] in
theorem nodup_storedTids (h : index.StoredOnce) {v : List ItemPointer} (hv : v.Nodup) :
    (storedTids index v).Nodup := by
  refine Multiset.nodup_bind.mpr ⟨fun tid _ => Multiset.coe_nodup.mpr (h.nodup tid), ?_⟩
  refine ⟨v, rfl, hv.imp ?_⟩
  intro a b hab
  change Disjoint (index.liveTids a : Multiset ItemPointer) (index.liveTids b)
  rw [Multiset.disjoint_left]
  intro heaptid ha hb
  exact hab (h.single a b heaptid ha hb)

variable {argument : Option V}

theorem Restarted.starts (hscan : ScansGraph ctx (settings.inOrder .relaxed) index)
    (hmvcc : ctx.mvccSnapshot = true) (hso : Restarted argument maxMemory so)
    (hs : Calm self index tests s) :
    ∃ (all : List (ItemPointer × D)) (v : List ItemPointer),
      Starts self ctx (settings.inOrder .relaxed)
        ((hnswHeaptids + 1) * index.elements.length + 1) so s all ∧
      v.Nodup ∧ v.length ≤ index.elements.length ∧
      (all.map Prod.fst : Multiset ItemPointer) = storedTids index v := by
  cases he : index.metapage.entryPoint with
  | none =>
    have hfirst : (firstScan ctx (settings.inOrder .relaxed) so).Returns (hnswHandler self) s
        fun so' t => Calm self index tests t ∧ so'.w = [] ∧ so'.discarded = none := by
      refine firstScan_locked hmvcc hso (fun so s hso hs => ?_) hs
      refine .bind (hnswGetMetaPageInfo_calm hscan.graph hs) ?_
      rintro ⟨m, entryPoint⟩ t ⟨hmeta, ht⟩
      cases hmeta
      rw [he]
      exact .ret ⟨ht, rfl, hso.discarded⟩
    obtain ⟨so', s', hrun, -, hw, hdiscarded⟩ := hfirst
    have hrefill : (refill ctx (settings.inOrder .relaxed) so').run (hnswHandler self) s' =
        (.done so', s') := by
      simp [refill, hw, hdiscarded]
    exact ⟨[], [], ⟨so', s', hrun, .exhausted hrefill hw⟩, List.nodup_nil, Nat.zero_le _, rfl⟩
  | some e =>
    have hfirst : (firstScan ctx (settings.inOrder .relaxed) so).Returns (hnswHandler self) s
        fun so' t => Calm self index tests t ∧ ∃ entry d, ScanProgress ctx index
          (getScanValue ctx argument).1 settings.maxScanTuples maxMemory entry tests 0 d
          so' := by
      refine firstScan_locked hmvcc hso (fun so s hso hs => ?_) hs
      refine (getScanItems_progress settings.maxScanTuples hscan he hso.memory hs).mono ?_
      rintro so' t ⟨ht, entry, d, -, hprogress⟩
      exact ⟨ht, entry, d, hprogress⟩
    obtain ⟨so', s', hrun, hs', entry, d, hprogress⟩ := hfirst
    obtain ⟨gone, hgone⟩ := hprogress.accounted
    have hcard := congrArg Multiset.card hgone
    simp only [Multiset.coe_card, Multiset.card_add, candidateTids, Multiset.card_map] at hcard
    obtain ⟨all, v, hturns, hv, hbound, hall⟩ := hprogress.turns hscan
      ((hnswHeaptids + 1) * index.elements.length + 1) hs' (by
        rw [Nat.add_mul, Nat.one_mul, Multiset.card_zero]
        omega)
    rw [add_zero] at hall
    exact ⟨all, v, ⟨so', s', hrun, hturns⟩, hv, hbound, hall⟩

/--
The scan in strict order, run until it finds nothing, returns those heap TIDs of
the scan in relaxed order that are not nearer than the last one kept.
-/
theorem strict_scan_filters_relaxed (self : ThreadId) (ctx : ScanContext V D)
    (settings : ScanSettings) (memory : HnswScanOpaque V D) (workMem : Nat)
    (scanMemMultiplier : ℚ) (norderbys : Nat) (argument : Option V) (calls : Nat)
    (s : Shared V) (hgraph : s.index.IsGraph) (halone : Alone self s)
    (hmvcc : ctx.mvccSnapshot = true) (horder : norderbys ≠ 0)
    (hef : 1 ≤ settings.efSearch)
    (hfuel : (hnswHeaptids + 1) * s.index.elements.length < ctx.fuel)
    (hcalls : hnswHeaptids * s.index.elements.length < calls) :
    ∃ relaxed : List (ItemPointer × D),
      (rescanAndFetchAll ctx (settings.inOrder .relaxed) (some argument) calls
        (hnswbeginscan memory workMem scanMemMultiplier norderbys)).Returns
        (hnswHandler self) s (fun r _ => r = relaxed) ∧
      (rescanAndFetchAll ctx (settings.inOrder .strict) (some argument) calls
        (hnswbeginscan memory workMem scanMemMultiplier norderbys)).Returns
        (hnswHandler self) s (fun r _ => r = keepAscending ⊥ relaxed) ∧
      (keepAscending ⊥ relaxed).Pairwise (fun a b => a.2 ≤ b.2) ∧
      (s.index.StoredOnce → ((keepAscending ⊥ relaxed).map Prod.fst).Nodup) := by
  have hs : Calm self s.index (limitTests (s.log self)) s := ⟨rfl, halone, rfl⟩
  have hless : s.index.elements.length < ctx.fuel := by
    rw [Nat.add_mul, Nat.one_mul] at hfuel
    omega
  have hrescan : (hnswrescan settings
      (hnswbeginscan memory workMem scanMemMultiplier norderbys) (some argument)).Returns
      (hnswHandler self) s _ :=
    hnswrescan_restarted horder memory workMem scanMemMultiplier argument hs
  obtain ⟨so, t, hrun, ht, hso⟩ := hrescan
  obtain ⟨all, v, hstarts, hv, hbound, hall⟩ := hso.starts ⟨hgraph, hless, hef, rfl⟩ hmvcc ht
  have hlength : all.length ≤ hnswHeaptids * s.index.elements.length := by
    have hcard := congrArg Multiset.card hall
    rw [Multiset.coe_card, List.length_map] at hcard
    rw [hcard]
    exact (card_storedTids_le s.index v).trans (Nat.mul_le_mul_left _ hbound)
  have htracks : Tracks (scanMaxMemory workMem scanMemMultiplier) ⊥ so so :=
    ⟨hso.memory, so.trace, so.queryId, so.previousDistance, hso.previousDistance, rfl⟩
  have hreturns : ∀ order ≠ IterativeScan.off,
      (rescanAndFetchAll ctx (settings.inOrder order) (some argument) calls
        (hnswbeginscan memory workMem scanMemMultiplier norderbys)).Returns
        (hnswHandler self) s (fun r _ => r = keptInOrder order ⊥ all) := by
    intro order hiterative
    refine .bind (P := fun a u => a = so ∧ u = t) ⟨so, t, hrun, rfl, rfl⟩ ?_
    rintro _ _ ⟨rfl, rfl⟩
    exact fetchDistances_starts hiterative hstarts hfuel htracks ⟨rfl, ht.alone, ht.alone⟩
      ((keptInOrder_length_le order ⊥ all).trans_lt (hlength.trans_lt hcalls))
  refine ⟨all, hreturns .relaxed (by decide), hreturns .strict (by decide),
    keepAscending_pairwise ⊥ all, fun honce => ?_⟩
  have hnodup := nodup_storedTids honce hv
  rw [← hall, Multiset.coe_nodup] at hnodup
  exact hnodup.sublist ((keepAscending_sublist ⊥ all).map _)

end Order

def fetchRow (order : IterativeScan) : HnswProgram Nat (List (ItemPointer × Nat)) :=
  rescanAndFetchAll (serverContext 34) ((relaxedSettings 1).inOrder order) (some (some 0)) 31
    (hnswbeginscan default 64 1 1)

/-- The way to 0 leads over 9: in strict order it is not returned after 1. -/
theorem strict_scan_filters_relaxed_three :
    (fetchRow .relaxed).Returns (hnswHandler 0) (rowShared 1 9 0)
      (fun r _ => r = [(⟨3, 1⟩, 1), (⟨3, 3⟩, 0), (⟨3, 2⟩, 9)]) ∧
    (fetchRow .strict).Returns (hnswHandler 0) (rowShared 1 9 0)
      (fun r _ => r = [(⟨3, 1⟩, 1), (⟨3, 2⟩, 9)]) := by
  obtain ⟨relaxed, ⟨r, t, hrun, rfl⟩, hstrict, -⟩ :=
    strict_scan_filters_relaxed 0 (serverContext 34) (relaxedSettings 1) default 64 1 1 (some 0)
      31 (rowShared 1 9 0) (HnswIndex.isGraph_of_elements rfl (by decide) (by decide))
      (rowShared_alone 1 9 0) rfl one_ne_zero le_rfl (by decide) (by decide)
  have hrelaxed : ((fetchRow .relaxed).run (hnswHandler 0) (rowShared 1 9 0)).1.value? =
      some [(⟨3, 1⟩, 1), (⟨3, 3⟩, 0), (⟨3, 2⟩, 9)] := by decide +kernel
  change (fetchRow .relaxed).run _ _ = _ at hrun
  rw [hrun] at hrelaxed
  obtain rfl := Option.some.inj hrelaxed
  exact ⟨⟨_, t, hrun, rfl⟩, hstrict⟩

end PgVector.Hnsw
