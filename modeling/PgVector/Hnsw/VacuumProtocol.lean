import PgVector.Hnsw.Concurrent

/-!
# What backends can rely on

The invariant of an index in use, what each backend can rely on while others are
at work, and one rule for each instruction.  A state is tracked together with
what the vacuum has found out by waiting for inserts; what it has found out by
waiting for scans is in the history.
-/

namespace PgVector.Hnsw

open Foundation

variable {V D F : Type}

structure Tracked (V : Type) where
  state : Monitored V
  doomed : Set ItemPointer
  settled : Prop

namespace Tracked

def index (x : Tracked V) : HnswIndex V := x.state.shared.index

def recorded (x : Tracked V) : List ItemPointer := x.state.history.recorded

def locksOf (x : Tracked V) (self : ThreadId) : List HeldLock :=
  x.state.shared.locksOf self

def reclaim (x : Tracked V) : Reclaim ItemPointer where
  net := x.index.net
  condemned := {tid | tid ∈ x.state.history.condemned}
  doomed := x.doomed
  settled := x.settled

def Holds (x : Tracked V) (self : ThreadId) (lock : PageLock) : Prop :=
  ∃ held ∈ x.locksOf self, held.lock = lock

def barred (x : Tracked V) : PageLock → Set ItemPointer
  | .update => x.reclaim.doomed
  | .scan => x.reclaim.condemned

structure Invariant (strict : Prop) (x : Tracked V) : Prop where
  wellFormed : x.index.WellFormed
  valid : x.reclaim.Valid
  recorded : strict → ∀ tid ∈ x.recorded, tid ∈ x.index.net.emptied

/-- What others may have done meanwhile, apart from what a lock prevents. -/
structure Drift (t : Task V D F) (x y : Tracked V) : Prop where
  evolves : Evolves x.index y.index
  benign : t.isVacuum = true → x.reclaim.Benign y.reclaim
  recorded : t.isVacuum = true → y.recorded = x.recorded

structure Rely (me : ThreadId) (t : Task V D F) (x y : Tracked V) : Prop
    extends Drift t x y where
  locks : y.locksOf me = x.locksOf me
  stays : x.reclaim.Stays (x.Holds me .update) (x.Holds me .scan) y.reclaim

variable {x y z : Tracked V} {t : Task V D F} {self : ThreadId} {strict : Prop}

theorem Drift.refl (t : Task V D F) (x : Tracked V) : Drift t x x :=
  ⟨.refl _, fun _ => .refl _, fun _ => rfl⟩

theorem Drift.trans (hxy : Drift t x y) (hyz : Drift t y z) : Drift t x z :=
  ⟨hxy.evolves.trans hyz.evolves,
    fun ht => (hxy.benign ht).trans (hyz.benign ht),
    fun ht => (hyz.recorded ht).trans (hxy.recorded ht)⟩

theorem Rely.holds (h : Rely self t x y) (lock : PageLock) :
    y.Holds self lock ↔ x.Holds self lock := by
  rw [Holds, Holds, h.locks]

theorem Rely.refl (self : ThreadId) (t : Task V D F) (x : Tracked V) : Rely self t x x :=
  ⟨.refl t x, rfl, .refl _⟩

theorem Rely.trans (hxy : Rely self t x y) (hyz : Rely self t y z) : Rely self t x z := by
  refine ⟨hxy.toDrift.trans hyz.toDrift, hyz.locks.trans hxy.locks, hxy.stays.trans ?_⟩
  rw [← hxy.holds, ← hxy.holds]
  exact hyz.stays

end Tracked

open Tracked

section Argument

variable [LinearOrder D] [LinearOrder F] [DecidableEq V]

/--
Nothing is loaded that is marked as deleted, and every tuple that is read is
there.  In the strict case the vacuum finds no link to what it has recorded.
-/
def vacuumArgument (strict : Prop) (scans : ScanSettings → Prop)
    (may : Monitored V → Task V D F → HnswOp V → Prop) :
    (hnswSystem scans may).Argument (Tracked V) where
  shared := Tracked.state
  inv := Invariant strict
  rely := Rely
  allowed e := e ≠ .cannotLoadDeletedElement ∧ e ≠ .corrupted ∧
    (strict → e ≠ .graphNotRepaired)
  resting i x := x.locksOf i = []
  during _ _ _ := True
  post i _ x := x.locksOf i = []
  rely_refl := Rely.refl
  rely_trans _ _ := Rely.trans
  during_rely _ _ _ _ _ _ := trivial

end Argument

/-! ## Steps that nobody minds -/

structure Quiet (x y : Tracked V) : Prop where
  evolves : Evolves x.index y.index
  locks : y.state.shared.locks = x.state.shared.locks
  benign : x.reclaim.Benign y.reclaim
  recorded : y.recorded = x.recorded

section Quiet

variable {x y : Tracked V} {self other : ThreadId} {t : Task V D F} {strict : Prop}

theorem Quiet.rely (h : Quiet x y) (self : ThreadId) (t : Task V D F) :
    Rely self t x y where
  evolves := h.evolves
  benign := fun _ => h.benign
  recorded := fun _ => h.recorded
  locks := by simp [Tracked.locksOf, Shared.locksOf, h.locks]
  stays := h.benign.stays _ _

theorem exists_quiet (hx : Invariant strict x) (s : Monitored V)
    (hevolves : Evolves x.index s.shared.index)
    (hlocks : s.shared.locks = x.state.shared.locks)
    (hcondemned : ∀ tid, tid ∈ s.history.condemned ↔
      tid ∈ x.state.history.condemned ∧ tid ∈ s.shared.index.net.emptied)
    (hrecorded : s.history.recorded = x.recorded)
    (hstrict : strict → ∀ tid ∈ x.recorded, tid ∈ s.shared.index.net.emptied)
    (hvalid : (x.reclaim.put s.shared.index.net).Valid ∧
      x.reclaim.Benign (x.reclaim.put s.shared.index.net)) :
    ∃ y, y.state = s ∧ Invariant strict y ∧ Quiet x y ∧
      y.reclaim = x.reclaim.put s.shared.index.net := by
  have hreclaim : Tracked.reclaim ⟨s, x.doomed ∩ s.shared.index.net.emptied, x.settled⟩ =
      x.reclaim.put s.shared.index.net := by
    unfold Tracked.reclaim Reclaim.put
    congr 1
    ext tid
    exact hcondemned tid
  refine ⟨⟨s, x.doomed ∩ s.shared.index.net.emptied, x.settled⟩, rfl, ?_, ?_, hreclaim⟩
  · refine ⟨hevolves.wellFormed hx.wellFormed, hreclaim ▸ hvalid.1, ?_⟩
    intro hs tid htid
    rw [Tracked.recorded, hrecorded] at htid
    exact hstrict hs tid htid
  · exact ⟨hevolves, hlocks, hreclaim ▸ hvalid.2, hrecorded⟩

theorem exists_quiet_same (hx : Invariant strict x) (s : Monitored V)
    (hevolves : Evolves x.index s.shared.index)
    (hlocks : s.shared.locks = x.state.shared.locks)
    (hhistory : s.history = x.state.history)
    (hemptied : s.shared.index.net.emptied = x.index.net.emptied)
    (hvalid : (x.reclaim.put s.shared.index.net).Valid ∧
      x.reclaim.Benign (x.reclaim.put s.shared.index.net)) :
    ∃ y, y.state = s ∧ Invariant strict y ∧ Quiet x y ∧
      y.reclaim = x.reclaim.put s.shared.index.net := by
  have hcondemned : ∀ tid ∈ x.state.history.condemned, tid ∈ x.index.net.emptied :=
    fun tid h => hx.valid.doomed_emptied (hx.valid.condemned_doomed h)
  refine exists_quiet hx s hevolves hlocks ?_ (by rw [hhistory]; rfl) ?_ hvalid
  · intro tid
    rw [hhistory, hemptied]
    exact ⟨fun h => ⟨h, hcondemned tid h⟩, And.left⟩
  · rw [hemptied]
    exact hx.recorded

theorem exists_quiet_net (hx : Invariant strict x) (s : Monitored V)
    (hevolves : Evolves x.index s.shared.index)
    (hlocks : s.shared.locks = x.state.shared.locks)
    (hhistory : s.history = x.state.history)
    (hnet : s.shared.index.net = x.index.net) :
    ∃ y, y.state = s ∧ Invariant strict y ∧ Quiet x y ∧ y.reclaim = x.reclaim := by
  have hput : x.reclaim.put s.shared.index.net = x.reclaim := by
    rw [hnet]
    exact Reclaim.put_eq hx.valid _ rfl
  obtain ⟨y, hy, hinv, hquiet, hreclaim⟩ := exists_quiet_same hx s hevolves hlocks hhistory
    (by rw [hnet]) (by rw [hput]; exact ⟨hx.valid, .refl _⟩)
  exact ⟨y, hy, hinv, hquiet, hreclaim.trans hput⟩

theorem exists_quiet_relink (hx : Invariant strict x) {index' : HnswIndex V}
    {tid : ItemPointer} {names : Set ItemPointer} (hevolves : Evolves x.index index')
    (hnet : index'.net = x.index.net.relink tid names) (htid : tid ∉ x.index.net.deleted)
    (hnames : ∀ b ∈ names, b ∈ x.index.net.names tid ∨ x.reclaim.Linkable b) :
    ∃ y, y.state = ⟨x.state.shared.withIndex index', x.state.history⟩ ∧
      Invariant strict y ∧ Quiet x y ∧
      y.reclaim = x.reclaim.put (x.index.net.relink tid names) := by
  have hvalid := hx.valid.relink htid hnames
  rw [← hnet]
  refine exists_quiet_same hx ⟨x.state.shared.withIndex index', x.state.history⟩
    hevolves rfl rfl ?_ ?_
  · rw [Shared.withIndex_index, hnet]
    rfl
  · rw [Shared.withIndex_index, hnet]
    exact hvalid

end Quiet

/-! ## Rules for the instructions -/

section Rules

variable [LinearOrder D] [LinearOrder F] [DecidableEq V] {strict : Prop}
  {scans : ScanSettings → Prop} {may : Monitored V → Task V D F → HnswOp V → Prop}
  {self : ThreadId} {t : Task V D F} {x : Tracked V}

abbrev backend (strict : Prop) (scans : ScanSettings → Prop)
    (may : Monitored V → Task V D F → HnswOp V → Prop) (self : ThreadId)
    (t : Task V D F) : Discipline (hnswSignature V) (Monitored V) (Tracked V) :=
  (vacuumArgument strict scans may).discipline self t

theorem guar_of_stays {y z : Tracked V} (hevolves : Evolves y.index z.index)
    (hlocks : ∀ j, j ≠ self → z.locksOf j = y.locksOf j)
    (hstays : ∀ j, j ≠ self → y.reclaim.Stays (y.Holds j .update) (y.Holds j .scan) z.reclaim)
    (hvacuum : t.isVacuum = true ∨ (y.reclaim.Benign z.reclaim ∧ z.recorded = y.recorded)) :
    (vacuumArgument strict scans may).guar self t y z := by
  refine ⟨⟨?_, ?_⟩, fun _ => trivial⟩
  · intro j t' hj hbeside
    refine ⟨⟨hevolves, ?_, ?_⟩, hlocks j hj, hstays j hj⟩
    · intro ht'
      exact (hvacuum.resolve_left fun ht => hbeside ⟨ht, ht'⟩).1
    · intro ht'
      exact (hvacuum.resolve_left fun ht => hbeside ⟨ht, ht'⟩).2
  · intro j hj hrest
    exact (hlocks j hj).trans hrest

theorem guar_of_quiet {y z : Tracked V} (h : Quiet y z) :
    (vacuumArgument strict scans may).guar self t y z :=
  guar_of_stays h.evolves (fun j _ => (h.rely j t).locks)
    (fun _ _ => h.benign.stays _ _) (.inr ⟨h.benign, h.recorded⟩)

omit [DecidableEq V] in
theorem handler_eq_some {o : HnswOp V} {y : Tracked V} {r : o.Res} {s : Monitored V}
    (h : monitoredHandler self o y.state = some (r, s)) :
    ∃ s', hnswHandler self o y.state.shared = some (r, s') ∧
      s = ⟨s', y.state.history.note y.state.shared o r⟩ := by
  obtain ⟨⟨r', s'⟩, hexec, heq⟩ := Option.map_eq_some_iff.mp h
  cases heq
  exact ⟨s', hexec, rfl⟩

theorem exec_keeps {o : HnswOp V} {Q : o.Res → Tracked V → Prop}
    (h : ∀ y, Rely self t x y → Invariant strict y → may y.state t o → ∀ r s,
      hnswHandler self o y.state.shared = some (r, s) →
      ∃ z, z.state = ⟨s, y.state.history.note y.state.shared o r⟩ ∧ Invariant strict z ∧
        Quiet y z ∧ ∀ w, Rely self t z w → Invariant strict w → Q r w) :
    (HnswOp.exec o).Keeps (backend strict scans may self t) Q x := by
  apply Program.Keeps.exec
  intro y hxy hy hmay r s hexec
  obtain ⟨s', hexec', rfl⟩ := handler_eq_some hexec
  obtain ⟨z, hz, hinv, hquiet, hQ⟩ := h y hxy hy hmay r s' hexec'
  exact ⟨z, hz, hinv, guar_of_quiet hquiet, hquiet.rely self t, hQ⟩

theorem exec_keeps_read {o : HnswOp V} {Q : o.Res → Tracked V → Prop}
    (hindex : ∀ s r s', hnswHandler self o s = some (r, s') →
      s'.index = s.index ∧ s'.locks = s.locks)
    (hnote : ∀ (h : History) s r, h.note s o r = h)
    (h : ∀ y w r s, Rely self t x y → Invariant strict y → may y.state t o →
      hnswHandler self o y.state.shared = some (r, s) → Rely self t y w →
      Invariant strict w → Q r w) :
    (HnswOp.exec o).Keeps (backend strict scans may self t) Q x := by
  apply exec_keeps
  intro y hxy hy hmay r s hexec
  obtain ⟨hsame, hlocks⟩ := hindex _ _ _ hexec
  rw [hnote]
  obtain ⟨z, hz, hinv, hquiet, -⟩ := exists_quiet_net hy ⟨s, y.state.history⟩
    (by rw [hsame]; exact .refl _) hlocks rfl (by rw [hsame]; rfl)
  exact ⟨z, hz, hinv, hquiet, fun w hzw hw =>
    h y w r s hxy hy hmay hexec ((hquiet.rely self t).trans hzw) hw⟩

variable {tid : ItemPointer} {e : HnswElement V}

theorem answer_keeps {o : HnswOp V} {answer : Shared V → o.Res} {Q : o.Res → Tracked V → Prop}
    (hread : ∀ s, hnswHandler self o s = some (answer s, s))
    (hnote : ∀ (h : History) s r, h.note s o r = h)
    (h : ∀ y w, Rely self t x y → Invariant strict y → may y.state t o → Rely self t y w →
      Invariant strict w → Q (answer y.state.shared) w) :
    (HnswOp.exec o).Keeps (backend strict scans may self t) Q x := by
  refine exec_keeps_read ?_ hnote ?_
  · intro s r s' hexec
    cases (hread s).symm.trans hexec
    exact ⟨rfl, rfl⟩
  · intro y w r s hxy hy hmay hexec hyw hw
    cases (hread _).symm.trans hexec
    exact h y w hxy hy hmay hyw hw

theorem emit_keeps (event : Event) (hevent : event ≠ .repairConfirmed) :
    (emit event).Keeps (backend strict scans may self t) (fun _ _ => True) x := by
  apply exec_keeps_read (o := .emit event)
  · rintro s r s' hexec
    cases hexec
    exact ⟨rfl, rfl⟩
  · intro h s r
    cases event with
    | repairConfirmed => exact absurd rfl hevent
    | _ => rfl
  · exact fun _ _ _ _ _ _ _ _ _ _ => trivial

theorem observe_keeps :
    (observe : HnswProgram V Observation).Keeps (backend strict scans may self t)
      (fun _ _ => True) x := by
  apply exec_keeps_read (o := .observe)
  · rintro s r s' hexec
    cases hexec
    exact ⟨rfl, rfl⟩
  · exact fun _ _ _ => rfl
  · exact fun _ _ _ _ _ _ _ _ _ _ => trivial

theorem nextQueryId_keeps :
    (nextQueryId : HnswProgram V Nat).Keeps (backend strict scans may self t)
      (fun _ _ => True) x := by
  apply exec_keeps_read (o := .nextQueryId)
  · rintro s r s' hexec
    cases hexec
    exact ⟨rfl, rfl⟩
  · exact fun _ _ _ => rfl
  · exact fun _ _ _ _ _ _ _ _ _ _ => trivial

/-! ### Writing to the index -/

def Paired (index : HnswIndex V) (e : HnswElement V) : Prop :=
  ∃ etup, index.element? e.tid = some etup ∧ etup.neighbortid = e.neighbortid

omit [DecidableEq V] in
theorem Paired.evolves {index index' : HnswIndex V} (h : Paired index e)
    (hevolves : Evolves index index') : Paired index' e := by
  obtain ⟨etup, hetup, hntid⟩ := h
  obtain ⟨etup', hetup', hntid'⟩ := hevolves.element hetup
  exact ⟨etup', hetup', hntid'.trans hntid⟩

omit [DecidableEq V] in
theorem Paired.present {index : HnswIndex V} (h : Paired index e) : e.tid ∈ index.net.present := by
  obtain ⟨etup, hetup, -⟩ := h
  exact ⟨etup, hetup⟩

omit [LinearOrder D] [LinearOrder F] [DecidableEq V] in
/-- An element that is not doomed is not deleted, as long as inserts are waited for. -/
theorem Tracked.Rely.not_deleted {y : Tracked V} (h : Rely self t x y)
    (hupdate : x.Holds self .update) (hy : Invariant strict y) (htid : tid ∉ x.doomed) :
    tid ∉ y.index.net.deleted :=
  fun hdeleted => htid (h.stays.doomed hupdate
    (hy.valid.condemned_doomed (hy.valid.deleted_condemned hdeleted)))

theorem updateNeighbor_keeps (idx : UpdateIdx) (startIdx lm : Nat) (checkExisting : Bool)
    (hupdate : x.Holds self .update) (he : Paired x.index e) (hfree : e.tid ∉ x.doomed)
    (hlink : x.reclaim.Linkable tid) :
    (HnswOp.exec
      (.updateNeighbor e.neighbortid tid idx startIdx lm checkExisting)).Keeps
      (backend strict scans may self t) (fun there _ => there = true) x := by
  apply exec_keeps
  rintro y hxy hy - r s hexec
  cases hexec
  obtain ⟨etup, hetup, hntid⟩ := he.evolves hxy.evolves
  rw [← hntid]
  obtain ⟨names, hnet, hnames, hevolves⟩ := updateNeighborOnPage_net tid idx startIdx lm
    checkExisting hy.wellFormed hetup
  obtain ⟨z, hz, hinv, hquiet, -⟩ := exists_quiet_relink hy hevolves hnet
    (hxy.not_deleted hupdate hy hfree) (by
      intro b hb
      rcases hnames b hb with hb | rfl
      · exact .inl hb
      · exact .inr (hxy.stays.linkable hupdate hlink))
  obtain ⟨ntup, hntup⟩ := hy.wellFormed.neighbortid hetup
  exact ⟨z, hz, hinv, hquiet, fun _ _ _ => Option.isSome_of_eq_some hntup⟩

theorem overwriteNeighbor_keeps (ntup : HnswNeighborTuple) (ntupSize : Nat)
    (hupdate : x.Holds self .update) (he : Paired x.index e) (hfree : e.tid ∉ x.doomed)
    (hlink : ∀ b ∈ ntup.named, x.reclaim.Linkable b) :
    (HnswOp.exec
      (.overwriteNeighbor e.neighbortid ntup ntupSize)).Keeps
      (backend strict scans may self t)
      (fun reply w => reply ≠ .missing ∧
        (reply = .written → w.settled → e.tid ∉ w.index.net.dirty)) x := by
  apply exec_keeps
  rintro y hxy hy - r s hexec
  obtain ⟨etup, hetup, hntid⟩ := he.evolves hxy.evolves
  obtain ⟨old, hold⟩ := hy.wellFormed.neighbortid hetup
  have hthere : r ≠ .missing := by
    rintro rfl
    rw [hntid] at hold
    change y.state.shared.index.neighbor? e.neighbortid = some old at hold
    simp only [hnswHandler, hold, Option.isNone_some, Bool.false_eq_true, if_false] at hexec
    split at hexec <;> cases hexec
  rcases hnswHandler_overwriteNeighbor hexec with ⟨rfl, hreply⟩ | ⟨index', hover, rfl⟩
  · obtain ⟨z, hz, hinv, hquiet, -⟩ := exists_quiet_net hy y.state (.refl _) rfl rfl rfl
    exact ⟨z, hz, hinv, hquiet, fun _ _ _ => ⟨hthere, fun h => absurd h hreply⟩⟩
  · rw [← hntid] at hover
    obtain ⟨hnet, hevolves⟩ := overwriteNeighborOnPage_net hy.wellFormed hetup hover
    have hlink' : ∀ b ∈ ntup.named, y.reclaim.Linkable b := fun b hb =>
      hxy.stays.linkable hupdate (hlink b hb)
    obtain ⟨z, hz, hinv, hquiet, hreclaim⟩ := exists_quiet_relink hy hevolves hnet
      (hxy.not_deleted hupdate hy hfree) (fun b hb => .inr (hlink' b hb))
    refine ⟨z, hz, hinv, hquiet, fun w hzw _ => ⟨hthere, fun _ hsettled hdirty => ?_⟩⟩
    have hupdate' : z.Holds self .update := by
      rwa [(hquiet.rely self t).holds, hxy.holds]
    have hz' := hzw.stays.dirty hupdate' hsettled hdirty
    have hsettled' := hquiet.benign.settled.mp (hzw.stays.settled hupdate' hsettled)
    rw [hreclaim] at hz'
    exact Reclaim.not_dirty_relink hlink' hsettled' hz'

theorem addDuplicate_keeps {heaptid : ItemPointer} (htid : tid ∈ x.index.net.present) :
    (HnswOp.exec (.addDuplicate tid heaptid)).Keeps
      (backend strict scans may self t) (fun added _ => added ≠ none) x := by
  apply exec_keeps
  rintro y hxy hy - r s hexec
  obtain ⟨etup, hetup⟩ := hxy.stays.present htid
  simp only [hnswHandler] at hexec
  split at hexec
  · next hnone =>
    have hnone' : y.index.element? tid = none := Option.map_eq_none_iff.mp hnone
    rw [hnone'] at hetup
    cases hetup
  · next added index' hadd =>
    cases hexec
    obtain ⟨hnet, hevolves⟩ := addDuplicateOnPage_net hadd
    obtain ⟨z, hz, hinv, hquiet, -⟩ := exists_quiet_net hy
      ⟨y.state.shared.withIndex index', y.state.history⟩ hevolves rfl rfl hnet
    exact ⟨z, hz, hinv, hquiet, fun _ _ _ => Option.some_ne_none _⟩

structure Fit (x : Tracked V) (tid neighbortid : ItemPointer) : Prop where
  paired : ∃ etup, x.index.element? tid = some etup ∧ etup.neighbortid = neighbortid
  linkable : x.reclaim.Linkable tid
  clean : x.settled → tid ∉ x.index.net.dirty

omit [LinearOrder D] [LinearOrder F] [DecidableEq V] in
theorem Tracked.Rely.fit {y : Tracked V} {neighbortid : ItemPointer} (h : Rely self t x y)
    (hupdate : x.Holds self .update) (hfit : Fit x tid neighbortid) : Fit y tid neighbortid where
  paired := by
    obtain ⟨etup, hetup, hntid⟩ := hfit.paired
    obtain ⟨etup', hetup', hntid'⟩ := h.evolves.element hetup
    exact ⟨etup', hetup', hntid'.trans hntid⟩
  linkable := h.stays.linkable hupdate hfit.linkable
  clean := fun hsettled hdirty =>
    hfit.clean (h.stays.settled hupdate hsettled) (h.stays.dirty hupdate hsettled hdirty)

theorem addElement_keeps (hreuse : strict → ∀ s o, may s t o → ReusesUnrecorded s t o)
    {request : AddElementRequest V} (blkno : BlockNumber)
    (newInsertPage : Option BlockNumber) (hnonempty : request.etup.isEmptied = false)
    (hlive : request.etup.deleted = false) (hupdate : x.Holds self .update)
    (hlink : ∀ b ∈ request.ntup.named, x.reclaim.Linkable b) :
    (HnswOp.exec (.addElement request blkno newInsertPage)).Keeps (backend strict scans may self t)
      (fun reply w => (∀ tid neighbortid insertPage,
        reply = .placed tid neighbortid insertPage → Fit w tid neighbortid) ∧
        ∀ e, reply = .failed e → e = .failedToAddIndexItem) x := by
  apply exec_keeps
  intro y hxy hy hmay r s hexec
  cases hexec
  have hfailed (e : HnswError) (h : (addElementOnPage y.state.shared.index request blkno
      newInsertPage).1 = .failed e) : e = .failedToAddIndexItem :=
    addElementOnPage_failed hy.wellFormed h
  obtain ⟨hevolves, ⟨hnot, hnet⟩ | ⟨tid, ip, etup, hreply, hnet, hetup⟩⟩ :=
    addElementOnPage_net request blkno newInsertPage hy.wellFormed hnonempty hlive
  · have hnote : y.state.history.note y.state.shared (.addElement request blkno newInsertPage)
        (addElementOnPage y.index request blkno newInsertPage).1 = y.state.history := by
      cases hr : (addElementOnPage y.index request blkno newInsertPage).1 with
      | placed tid nt p => exact absurd hr (hnot tid nt p)
      | next => rfl
      | failed => rfl
    obtain ⟨z, hz, hinv, hquiet, -⟩ := exists_quiet_net hy
      ⟨y.state.shared.withIndex (addElementOnPage y.index request blkno newInsertPage).2,
        y.state.history⟩ hevolves rfl rfl hnet
    refine ⟨z, hz.trans (congrArg (Monitored.mk _) hnote.symm), hinv, hquiet, ?_⟩
    exact fun w _ _ => ⟨fun tid nt p hreply => absurd hreply (hnot tid nt p), hfailed⟩
  · have hlink' : ∀ b ∈ request.ntup.named, y.reclaim.Linkable b := fun b hb =>
      hxy.stays.linkable hupdate (hlink b hb)
    have hvalid := hy.valid.place (a := tid) hlink'
    have hnote : y.state.history.note y.state.shared (.addElement request blkno newInsertPage)
        (addElementOnPage y.index request blkno newInsertPage).1 =
        { y.state.history with
          condemned := y.state.history.condemned.filter fun t => decide (t ≠ tid) } := by
      rw [hreply]
      rfl
    obtain ⟨z, hz, hinv, hquiet, hreclaim⟩ := exists_quiet hy
      ⟨y.state.shared.withIndex (addElementOnPage y.index request blkno newInsertPage).2,
        { y.state.history with
          condemned := y.state.history.condemned.filter fun t => decide (t ≠ tid) }⟩
      hevolves rfl (by
        intro t
        have hemptied : t ∈ y.state.history.condemned → t ∈ y.index.net.emptied :=
          fun h => hy.valid.doomed_emptied (hy.valid.condemned_doomed h)
        rw [Shared.withIndex_index, hnet]
        simp only [List.mem_filter, decide_eq_true_eq]
        exact ⟨fun h => ⟨h.1, hemptied h.1, h.2⟩, fun h => ⟨h.1, h.2.2⟩⟩) rfl (by
        intro hs t ht
        rw [Shared.withIndex_index, hnet]
        refine ⟨hy.recorded hs t ht, ?_⟩
        rintro rfl
        exact hreuse hs y.state _ hmay t _ _ hreply ht) (by
        rw [Shared.withIndex_index, hnet]
        exact hvalid)
    refine ⟨z, hz.trans (congrArg (Monitored.mk _) hnote.symm), hinv, hquiet, ?_⟩
    refine fun w hzw hw => ⟨fun tid' nt' p' hreply' => ?_, hfailed⟩
    obtain ⟨rfl, rfl, -⟩ := AddElementReply.placed.inj (hreply.symm.trans hreply')
    have hupdate' : z.Holds self .update := by
      rwa [(hquiet.rely self t).holds, hxy.holds]
    rw [Shared.withIndex_index, hnet] at hreclaim
    obtain ⟨hlinkable, hclean⟩ := Reclaim.linkable_place (a := tid) hlink'
    refine hzw.fit hupdate' ⟨⟨etup, ?_, rfl⟩, hreclaim ▸ hlinkable, ?_⟩
    · simp only [Tracked.index, hz]
      exact hetup
    · intro hsettled
      have hznet : z.index.net = y.index.net.place tid request.ntup.named :=
        congrArg Reclaim.net hreclaim
      rw [hznet]
      exact hclean (hquiet.benign.settled.mp hsettled)

theorem updateMetaPage_keeps (updateEntry : UpdateEntry) (entryPoint : Option EntryPoint)
    (insertPage : Option BlockNumber) (hupdate : x.Holds self .update ∨ updateEntry = .no)
    (hentry : updateEntry ≠ .no → ∀ e ∈ entryPoint,
      x.reclaim.Linkable e.tid ∧ (x.settled → e.tid ∉ x.index.net.dirty)) :
    (HnswOp.exec
      (.updateMetaPage updateEntry entryPoint insertPage)).Keeps
      (backend strict scans may self t)
      (fun _ w => updateEntry = .always → t.isVacuum = true → w.settled →
        w.index.net.EntryClean) x := by
  apply exec_keeps
  rintro y hxy hy - r s hexec
  cases hexec
  obtain ⟨hevolves, ⟨hne, hnet⟩ | ⟨hne, hnet⟩⟩ :=
    updateMetaPage_net y.index updateEntry entryPoint insertPage
  · obtain ⟨z, hz, hinv, hquiet, -⟩ := exists_quiet_net hy
      ⟨y.state.shared.withIndex _, y.state.history⟩ hevolves rfl rfl hnet
    exact ⟨z, hz, hinv, hquiet, fun _ _ _ h => absurd h hne⟩
  · have hupdate' : x.Holds self .update := hupdate.resolve_right hne
    have hentry' : ∀ tid, entryPoint.map EntryPoint.tid = some tid →
        y.reclaim.Linkable tid ∧ (y.reclaim.settled → tid ∉ y.reclaim.net.dirty) := by
      intro tid htid
      obtain ⟨e, he, rfl⟩ := Option.map_eq_some_iff.mp htid
      obtain ⟨hlinkable, hclean⟩ := hentry hne e he
      exact ⟨hxy.stays.linkable hupdate' hlinkable, fun hsettled hdirty =>
        hclean (hxy.stays.settled hupdate' hsettled) (hxy.stays.dirty hupdate' hsettled hdirty)⟩
    have hvalid := hy.valid.setEntry hentry'
    obtain ⟨z, hz, hinv, hquiet, hreclaim⟩ := exists_quiet_same hy
      ⟨y.state.shared.withIndex _, y.state.history⟩ hevolves rfl rfl
      (by rw [Shared.withIndex_index, hnet]; rfl)
      (by rw [Shared.withIndex_index, hnet]; exact hvalid)
    refine ⟨z, hz, hinv, hquiet, ?_⟩
    intro w hzw _ _ ht hsettled
    have hznet : z.index.net = y.index.net.setEntry (entryPoint.map EntryPoint.tid) := by
      rw [Shared.withIndex_index, hnet] at hreclaim
      exact congrArg Reclaim.net hreclaim
    have hsettled' : z.settled := (hzw.benign ht).settled.mp hsettled
    refine (hzw.benign ht).entryClean hsettled' ?_
    intro tid htid
    have hys : y.settled := hquiet.benign.settled.mp hsettled'
    change z.index.net.entry = some tid at htid
    change tid ∉ z.index.net.emptied ∧ tid ∉ z.index.net.dirty
    rw [hznet] at htid ⊢
    exact ⟨(hentry' tid htid).1.emptied hys, (hentry' tid htid).2 hys⟩

theorem markDeleted_keeps (tid : ItemPointer) (ht : t.isVacuum = true)
    (hempty : x.index.net.emptied ⊆ x.reclaim.condemned) :
    (HnswOp.exec (.markDeleted tid)).Keeps
      (backend strict scans may self t) (fun reply _ => reply ≠ .missing) x := by
  apply exec_keeps
  rintro y hxy hy - r s hexec
  cases hexec
  have hthere := markDeletedAt_there hy.wellFormed tid
  have hbenign := hxy.benign ht
  rcases markDeletedAt_net hy.wellFormed tid with hsame | ⟨htid, hnet, hevolves⟩
  · obtain ⟨z, hz, hinv, hquiet, -⟩ := exists_quiet_net hy
      ⟨y.state.shared.withIndex (markDeletedAt y.index tid).2, y.state.history⟩
      (by rw [Shared.withIndex_index, hsame]; exact .refl _) rfl rfl
      (by rw [Shared.withIndex_index, hsame])
    exact ⟨z, hz, hinv, hquiet, fun _ _ _ => hthere⟩
  · have hcondemned : tid ∈ y.reclaim.condemned :=
      hbenign.condemned_kept tid (hempty (hbenign.emptied htid)) htid
    obtain ⟨z, hz, hinv, hquiet, -⟩ := exists_quiet_same hy
      ⟨y.state.shared.withIndex (markDeletedAt y.index tid).2, y.state.history⟩
      hevolves rfl rfl (by rw [Shared.withIndex_index, hnet]; rfl)
      (by rw [Shared.withIndex_index, hnet]; exact hy.valid.delete hcondemned)
    exact ⟨z, hz, hinv, hquiet, fun _ _ _ => hthere⟩

end Rules

/-! ## Locks and waiting -/

section Waiting

variable [LinearOrder D] [LinearOrder F] [DecidableEq V] {strict : Prop}
  {scans : ScanSettings → Prop} {may : Monitored V → Task V D F → HnswOp V → Prop}
  {self : ThreadId} {t : Task V D F} {x : Tracked V} {α : Type}
  {k : Unit → HnswProgram V α} {Q : α → Tracked V → Prop}

/-- An instruction that the vacuum's bookkeeping follows, and what comes after it. -/
theorem step_safe {o : HnswOp V} {f : o.Res → HnswProgram V α}
    (h : ∀ y, Rely self t x y → Invariant strict y → ∀ r s,
      hnswHandler self o y.state.shared = some (r, s) →
      ∃ z, z.state = ⟨s, y.state.history.note y.state.shared o r⟩ ∧ Invariant strict z ∧
        (vacuumArgument strict scans may).guar self t y z ∧
        (f r).Safe (backend strict scans may self t) Q z) :
    (HnswOp.exec o >>= f).Safe (backend strict scans may self t) Q x := by
  intro y hxy hy _ r s hexec
  obtain ⟨s', hexec', rfl⟩ := handler_eq_some (o := o) (y := y) hexec
  exact h y hxy hy r s' hexec'

variable {lock : PageLock}

theorem lock_safe {mode : LockMode}
    (h : ∀ y, Rely self t x y → Invariant strict y →
      ¬ y.state.shared.conflicts self lock mode = true →
      ∃ z, z.state = ⟨y.state.shared.withLock ⟨self, lock, mode⟩,
          y.state.history.note y.state.shared (.lockPage lock mode) ()⟩ ∧
        Invariant strict z ∧
        (∀ j, j ≠ self → y.reclaim.Stays (y.Holds j .update) (y.Holds j .scan) z.reclaim) ∧
        (t.isVacuum = true ∨ (y.reclaim.Benign z.reclaim ∧ z.recorded = y.recorded)) ∧
        (z.locksOf self = ⟨self, lock, mode⟩ :: x.locksOf self →
          (k ()).Safe (backend strict scans may self t) Q z)) :
    (lockPage lock mode >>= k).Safe (backend strict scans may self t) Q x := by
  apply step_safe (o := .lockPage lock mode)
  intro y hxy hy r s hexec
  obtain ⟨hfree, rfl⟩ := hnswHandler_lockPage_eq_some hexec
  obtain ⟨⟨_, doomed, settled⟩, rfl, hinv, hstays, hvacuum, hk⟩ := h y hxy hy hfree
  refine ⟨_, rfl, hinv, guar_of_stays (.refl _) ?_ hstays hvacuum, hk ?_⟩
  · intro j hj
    exact (locksOf_withLock _).trans (if_neg (Ne.symm hj))
  · refine (locksOf_withLock _).trans ?_
    rw [if_pos rfl]
    exact congrArg _ hxy.locks

theorem lockPage_safe {mode : LockMode} (hlock : lock = .update ∨ mode = .share)
    (h : ∀ z, Drift t x z → Invariant strict z →
      z.locksOf self = ⟨self, lock, mode⟩ :: x.locksOf self →
      (k ()).Safe (backend strict scans may self t) Q z) :
    (lockPage lock mode >>= k).Safe (backend strict scans may self t) Q x := by
  refine lock_safe fun y hxy hy _ => ?_
  have hnote : y.state.history.note y.state.shared (.lockPage lock mode) () = y.state.history := by
    cases lock <;> cases mode <;> simp_all [History.note]
  refine ⟨⟨⟨y.state.shared.withLock ⟨self, lock, mode⟩, y.state.history⟩, y.doomed,
    y.settled⟩, congrArg (Monitored.mk _) hnote.symm, ⟨hy.wellFormed, hy.valid, hy.recorded⟩,
    fun _ _ => .refl _, .inr ⟨.refl _, rfl⟩, h _ ?_ ?_⟩
  · exact hxy.toDrift.trans ⟨.refl _, fun _ => .refl _, fun _ => rfl⟩
  · exact ⟨hy.wellFormed, hy.valid, hy.recorded⟩

theorem unlockPage_safe {mode : LockMode}
    (h : ∀ z, Drift t x z → Invariant strict z →
      z.locksOf self = (x.locksOf self).erase ⟨self, lock, mode⟩ →
      (k ()).Safe (backend strict scans may self t) Q z) :
    (unlockPage lock mode >>= k).Safe (backend strict scans may self t) Q x := by
  apply step_safe (o := .unlockPage lock mode)
  intro y hxy hy r s hexec
  cases hexec
  refine ⟨⟨⟨{ y.state.shared with
      locks := y.state.shared.locks.erase ⟨self, lock, mode⟩ }, y.state.history⟩, y.doomed,
    y.settled⟩, rfl, ⟨hy.wellFormed, hy.valid, hy.recorded⟩,
    guar_of_stays (.refl _) ?_ (fun _ _ => .refl _) (.inr ⟨.refl _, rfl⟩), h _ ?_ ?_ ?_⟩
  · intro j hj
    refine (locksOf_erase _).trans (List.erase_of_not_mem ?_)
    intro hmem
    simp only [Shared.locksOf, List.mem_filter, beq_iff_eq] at hmem
    exact hj hmem.2.symm
  · exact hxy.toDrift.trans ⟨.refl _, fun _ => .refl _, fun _ => rfl⟩
  · exact ⟨hy.wellFormed, hy.valid, hy.recorded⟩
  · refine (locksOf_erase _).trans ?_
    exact congrArg (List.erase · _) hxy.locks

omit [LinearOrder D] [LinearOrder F] [DecidableEq V] in
theorem not_holds_of_exclusive {y : Tracked V} {other : ThreadId}
    (h : y.state.shared.conflicts self lock .exclusive = false) (hne : other ≠ self) :
    ¬y.Holds other lock := by
  rintro ⟨held, hheld, hlock⟩
  exact locksOf_of_exclusive hne h held hheld hlock

/-- The vacuum waits for the inserts that may have met elements it has emptied. -/
theorem settle_safe (ht : t.isVacuum = true)
    (h : ∀ z, z.settled → Evolves x.index z.index →
      z.index.net.emptied ⊆ x.index.net.emptied → z.recorded = x.recorded →
      Invariant strict z →
      z.locksOf self = ⟨self, .update, .exclusive⟩ :: x.locksOf self →
      (k ()).Safe (backend strict scans may self t) Q z) :
    (lockPage .update .exclusive >>= k).Safe (backend strict scans may self t) Q x := by
  refine lock_safe fun y hxy hy hfree => ?_
  have hinv : Invariant strict (⟨⟨y.state.shared.withLock ⟨self, .update, .exclusive⟩,
      y.state.history⟩, y.doomed, True⟩ : Tracked V) :=
    ⟨hy.wellFormed, (hy.valid.settle False).1, hy.recorded⟩
  refine ⟨_, rfl, hinv, ?_, .inl ht,
    h _ trivial hxy.evolves (hxy.benign ht).emptied (hxy.recorded ht) hinv⟩
  intro j hj
  exact (hy.valid.settle (y.Holds j .scan)).2.weaken
    (not_holds_of_exclusive (by simpa using hfree) hj) id

theorem doom_safe (ht : t.isVacuum = true) (hsettled : x.settled)
    (hdirty : x.index.net.dirty = ∅) (hentry : x.index.net.EntryClean)
    (h : ∀ z, z.settled → z.index.net.dirty = ∅ →
      z.index.net.emptied ⊆ z.reclaim.doomed → Evolves x.index z.index →
      z.recorded = x.recorded → Invariant strict z →
      z.locksOf self = ⟨self, .update, .exclusive⟩ :: x.locksOf self →
      (k ()).Safe (backend strict scans may self t) Q z) :
    (lockPage .update .exclusive >>= k).Safe (backend strict scans may self t) Q x := by
  refine lock_safe fun y hxy hy hfree => ?_
  have hbenign := hxy.benign ht
  have hdirty' : y.reclaim.net.dirty = ∅ :=
    Set.subset_eq_empty (hbenign.dirty hsettled) hdirty
  have hdoom := hy.valid.doom hdirty' (hbenign.entryClean hsettled hentry)
  have hinv : Invariant strict (⟨⟨y.state.shared.withLock ⟨self, .update, .exclusive⟩,
      y.state.history⟩, y.index.net.emptied, y.settled⟩ : Tracked V) :=
    ⟨hy.wellFormed, (hdoom False).1, hy.recorded⟩
  refine ⟨_, rfl, hinv, ?_, .inl ht,
    h _ (hbenign.settled.mpr hsettled) hdirty' subset_rfl hxy.evolves (hxy.recorded ht) hinv⟩
  intro j hj
  exact (hdoom (y.Holds j .scan)).2.weaken (not_holds_of_exclusive (by simpa using hfree) hj) id

omit [LinearOrder D] [LinearOrder F] [DecidableEq V] in
theorem mem_emptiedTids {index : HnswIndex V} {tid : ItemPointer} :
    tid ∈ index.emptiedTids ↔ tid ∈ index.net.emptied := by
  simp only [HnswIndex.emptiedTids, List.mem_map, List.mem_filter, Prod.exists,
    exists_and_right, exists_eq_right, HnswIndex.mem_elements]
  rfl

/-- Once the repair is confirmed, what was recorded is of no use any more. -/
theorem repairConfirmed_safe (ht : t.isVacuum = true)
    (hdoomed : x.index.net.emptied ⊆ x.reclaim.doomed)
    (h : ∀ z, z.index.net.emptied ⊆ z.reclaim.doomed → Invariant strict z →
      z.locksOf self = x.locksOf self → (k ()).Safe (backend strict scans may self t) Q z) :
    (emit .repairConfirmed >>= k).Safe (backend strict scans may self t) Q x := by
  apply step_safe (o := .emit .repairConfirmed)
  intro y hxy hy r s hexec
  cases hexec
  have hbenign := hxy.benign ht
  have hinv : Invariant strict (⟨⟨{ y.state.shared with
      log := Function.update y.state.shared.log self (y.state.shared.log self ++
        [.repairConfirmed]) }, { y.state.history with recorded := [] }⟩, y.doomed,
      y.settled⟩ : Tracked V) :=
    ⟨hy.wellFormed, hy.valid, by simp [Tracked.recorded]⟩
  exact ⟨_, rfl, hinv, guar_of_stays (.refl _) (fun _ _ => rfl) (fun _ _ => .refl _) (.inl ht),
    h _ (fun tid htid => hbenign.doomed_kept tid (hdoomed (hbenign.emptied htid)) htid) hinv
      hxy.locks⟩

theorem condemn_safe (ht : t.isVacuum = true) (hdoomed : x.index.net.emptied ⊆ x.reclaim.doomed)
    (h : ∀ z, z.index.net.emptied ⊆ z.reclaim.condemned → Evolves x.index z.index →
      Invariant strict z →
      z.locksOf self = ⟨self, .scan, .exclusive⟩ :: x.locksOf self →
      (k ()).Safe (backend strict scans may self t) Q z) :
    (lockPage .scan .exclusive >>= k).Safe (backend strict scans may self t) Q x := by
  refine lock_safe fun y hxy hy hfree => ?_
  have hbenign := hxy.benign ht
  have hcondemn := hy.valid.condemn (fun tid htid =>
    hbenign.doomed_kept tid (hdoomed (hbenign.emptied htid)) htid)
  have hreclaim : Tracked.reclaim
      ⟨⟨y.state.shared.withLock ⟨self, .scan, .exclusive⟩,
        { y.state.history with condemned := y.index.emptiedTids }⟩, y.doomed,
        y.settled⟩ = { y.reclaim with condemned := y.reclaim.net.emptied } := by
    unfold Tracked.reclaim
    congr 1
    ext tid
    exact mem_emptiedTids
  have hinv : Invariant strict
      (⟨⟨y.state.shared.withLock ⟨self, .scan, .exclusive⟩,
        { y.state.history with condemned := y.index.emptiedTids }⟩, y.doomed,
        y.settled⟩ : Tracked V) :=
    ⟨hy.wellFormed, hreclaim ▸ (hcondemn False).1, hy.recorded⟩
  refine ⟨_, rfl, hinv, ?_, .inl ht,
    h _ (fun tid htid => mem_emptiedTids.mpr htid) hxy.evolves hinv⟩
  intro j hj
  rw [hreclaim]
  exact (hcondemn (y.Holds j .update)).2.weaken id
    (not_holds_of_exclusive (by simpa using hfree) hj)

structure Removed (x z : Tracked V) (blkno : BlockNumber) (reply : RemoveHeapTidsReply) :
    Prop where
  evolves : Evolves x.index z.index
  emptied : ∀ tid ∈ z.index.net.emptied, tid.blkno ≠ blkno → tid ∈ x.index.net.emptied
  visited : ∀ e, e ∈ reply.visited ↔ ∃ etup,
    z.index.element? ⟨blkno, e.offno⟩ = some etup ∧ e = ⟨e.offno, etup.level, etup.isEmptied⟩
  ordered : reply.visited.Pairwise fun a b => a.offno < b.offno
  recorded : z.recorded = x.recorded ++
    (reply.visited.filter VisitedElement.emptied).map fun e => ⟨blkno, e.offno⟩
  next : reply.nextblkno = if blkno < z.index.pages.length then some (blkno + 1) else none

theorem removeHeapTids_safe {blkno : BlockNumber} {callback : ItemPointer → Bool}
    {f : Option RemoveHeapTidsReply → HnswProgram V α} (ht : t.isVacuum = true)
    (hpage : 1 ≤ blkno ∧ blkno ≤ x.index.pages.length)
    (h : ∀ z reply, Removed x z blkno reply → Invariant strict z →
      z.locksOf self = x.locksOf self →
      (f (some reply)).Safe (backend strict scans may self t) Q z) :
    (HnswOp.exec (.removeHeapTids blkno callback) >>= f).Safe
      (backend strict scans may self t) Q x := by
  apply step_safe
  intro y hxy hy r s hexec
  have hbenign := hxy.benign ht
  simp only [hnswHandler] at hexec
  split at hexec
  · next hnone =>
    -- the page is there, and stays there
    have hsome : (y.index.page? blkno).isSome := HnswIndex.page?_isSome.mpr
      ⟨hpage.1, hpage.2.trans hxy.evolves.length⟩
    obtain ⟨page, hpage'⟩ := Option.isSome_iff_exists.mp hsome
    change removeHeapTidsOnPage y.index blkno callback = none at hnone
    simp [removeHeapTidsOnPage, hpage'] at hnone
  · next reply index' hremove =>
    cases hexec
    obtain ⟨hnet, hgrow, hpresent, hother, hevolves⟩ := removeHeapTidsOnPage_net hremove
    obtain ⟨-, hpages, page, hpage', hnext, -, hvisited⟩ :=
      removeHeapTidsOnPage_eq_some hremove
    have hempty := hy.valid.empty hgrow hpresent
    have hreclaim : Tracked.reclaim ⟨⟨y.state.shared.withIndex index',
        y.state.history.note y.state.shared (.removeHeapTids blkno callback)
          (some reply)⟩, y.doomed, False⟩ =
        { y.reclaim with
          net := { y.reclaim.net with emptied := index'.net.emptied }
          settled := False } := by
      change (⟨index'.net, _, _, _⟩ : Reclaim ItemPointer) = _
      rw [hnet]
      rfl
    have hinv : Invariant strict (⟨⟨y.state.shared.withIndex index',
        y.state.history.note y.state.shared (.removeHeapTids blkno callback)
          (some reply)⟩, y.doomed, False⟩ : Tracked V) := by
      refine ⟨hevolves.wellFormed hy.wellFormed, hreclaim ▸ (hempty False False).1, ?_⟩
      intro hs tid htid
      rcases List.mem_append.mp htid with hold | hnew
      · exact hgrow (hy.recorded hs tid hold)
      · obtain ⟨e, he, rfl⟩ := List.mem_map.mp hnew
        obtain ⟨hmem, hflag⟩ := List.mem_filter.mp he
        obtain ⟨etup, hetup, heq⟩ := (hvisited e).mp hmem
        refine ⟨etup, hetup, ?_⟩
        rw [heq] at hflag
        exact hflag
    refine ⟨_, rfl, hinv, guar_of_stays hevolves (fun _ _ => rfl) ?_ (.inl ht),
      h _ reply ⟨hxy.evolves.trans hevolves, ?_, hvisited, ?_, ?_, ?_⟩ hinv hxy.locks⟩
    · intro j hj
      rw [hreclaim]
      exact (hempty _ _).2
    · exact fun tid htid hne => hbenign.emptied (hother tid htid hne)
    · exact (removeHeapTidsOnPage_ordered hremove).1
    · exact congrArg (· ++ _) (hxy.recorded ht)
    · have hlength : index'.pages.length = y.index.pages.length :=
        (removeHeapTidsOnPage_ordered hremove).2
      rw [hnext, hy.wellFormed.chained blkno page hpage', ← hlength]
      rfl

end Waiting

end PgVector.Hnsw
