import PgVector.Foundation.Log
import PgVector.Hnsw.Layout
import PgVector.Hnsw.PairingInvariant
import PgVector.Hnsw.Slots

/-!
# Versions and generations of a slot

`MarkDeleted` raises the version of both tuples of an element, and a new element takes
the slot over with the version it finds.  An element that was loaded before carries the
version of its time, so the number of times its slot has been marked since then can be
read off the version, up to the period of the count.
-/

namespace PgVector.Hnsw

open Foundation

/-! ## The count of a version -/

def nextVersion (version : Nat) : Nat := if version + 1 > 15 then 1 else version + 1

theorem nextVersion_range (version : Nat) : 1 ≤ nextVersion version ∧ nextVersion version ≤ 15 := by
  unfold nextVersion
  split <;> omega

theorem iterate_nextVersion {version : Nat} (h : 1 ≤ version ∧ version ≤ 15) (n : Nat) :
    nextVersion^[n] version = (version - 1 + n) % 15 + 1 := by
  induction n with
  | zero =>
    rw [Function.iterate_zero_apply]
    omega
  | succ n ih =>
    rw [Function.iterate_succ_apply', ih, nextVersion]
    split <;> omega

theorem dvd_of_iterate_nextVersion {version n : Nat} (h : nextVersion^[n] version = version) :
    15 ∣ n := by
  cases n with
  | zero => exact Nat.dvd_zero 15
  | succ n =>
    have hrange : 1 ≤ version ∧ version ≤ 15 := by
      rw [← h, Function.iterate_succ_apply']
      exact nextVersion_range _
    rw [iterate_nextVersion hrange] at h
    omega

/-! ## The history of a slot -/

section History

variable {V D F : Type}

def marks (tid : ItemPointer) (log : List (LogEntry (hnswSignature V) (Monitored V))) : Nat :=
  (log.filter fun e => HnswOp.isMark tid e.op e.reply).length

theorem marks_next (tid : ItemPointer) (x : Logged (hnswSignature V) (Monitored V)) (i : Nat)
    (o : HnswOp V) (r : o.Res) (s : Monitored V) :
    marks tid (x.next i o r s).log = marks tid x.log + if HnswOp.isMark tid o r then 1 else 0 := by
  simp only [marks, Logged.next, List.filter_append, List.length_append]
  cases hmark : HnswOp.isMark tid o r <;> simp [hmark]

/-- An element tuple, and the tuple in its place after it has been marked `n` times. -/
structure Aged (n : Nat) (etup etup' : HnswElementTuple V) : Prop where
  version : etup'.version = nextVersion^[n] etup.version
  neighbortid : etup'.neighbortid = etup.neighbortid
  live : n = 0 → etup'.deleted = false ∧ etup'.level = etup.level

variable {etup : HnswElementTuple V} {tid : ItemPointer}

theorem Aged.step {n : Nat} {etup₁ etup₂ : HnswElementTuple V} {o : HnswOp V} {r : o.Res}
    (h : Aged n etup etup₁) (hntid : etup₂.neighbortid = etup₁.neighbortid)
    (hstep : SlotStep tid o r (some etup₁) (some etup₂)) :
    Aged (n + if HnswOp.isMark tid o r then 1 else 0) etup etup₂ := by
  generalize hbefore : some etup₁ = before at hstep
  generalize hafter : some etup₂ = after at hstep
  cases hstep with
  | kept hmark hkept =>
    obtain ⟨_, heq, hsame⟩ := hkept etup₂ hafter.symm
    obtain rfl := Option.some.inj (hbefore.trans heq)
    rw [hmark, if_neg Bool.false_ne_true, Nat.add_zero]
    refine ⟨hsame.version.trans h.version, hntid.trans h.neighbortid, fun hn => ?_⟩
    obtain ⟨hlive, hlevel⟩ := h.live hn
    exact ⟨hsame.deleted.trans hlive, hsame.level.trans hlevel⟩
  | marked =>
    cases hbefore
    cases hafter
    have hmark : HnswOp.isMark tid (.markDeleted tid : HnswOp V) .marked = true :=
      decide_eq_true rfl
    rw [if_pos hmark]
    refine ⟨?_, hntid.trans h.neighbortid, by simp⟩
    rw [Function.iterate_succ_apply', ← h.version]
    rfl
  | placed hold =>
    obtain ⟨hdeleted, hversion⟩ := hold etup₁ hbefore.symm
    cases hafter
    refine ⟨hversion.trans h.version, hntid.trans h.neighbortid, fun hn => ?_⟩
    -- a slot that has not been marked is not taken over
    rw [(h.live hn).1] at hdeleted
    cases hdeleted

variable [LinearOrder D] [LinearOrder F] [DecidableEq V]

theorem evolves_of_guar {m : Nat} {i : Nat} {t : Task V D F} {x y : Monitored V}
    (h : (pairingArgument m (fun _ => True) fun _ _ _ => True).guar i t x y) :
    Evolves x.shared.index y.shared.index := by
  obtain ⟨t', ht'⟩ : ∃ t' : Task V D F, t'.isVacuum = false := by
    cases t with
    | insert ctx value heaptid drawnLevel => exact ⟨.insert ctx value heaptid drawnLevel, rfl⟩
    | vacuum ctx callback => exact ⟨.insert ctx none .invalid 0, rfl⟩
    | scan ctx last calls so => exact ⟨.scan ctx last calls so, rfl⟩
  have hsteady : Steady (t'.isVacuum = true) x.shared.index y.shared.index :=
    h.1.rely (i + 1) t' (by omega) (by simp [hnswSystem, ht'])
  exact hsteady.evolves

def SlotSince (tid : ItemPointer) (etup : HnswElementTuple V)
    (x : Logged (hnswSignature V) (Monitored V)) : Prop :=
  ∃ etup', x.state.shared.index.element? tid = some etup' ∧ Aged (marks tid x.log) etup etup'

theorem SlotSince.step {m : Nat} {i : Nat} {t : Task V D F} {x y : Monitored V} {o : HnswOp V}
    {r : o.Res} {log : List (LogEntry (hnswSignature V) (Monitored V))}
    (hx : x.shared.index.Matched)
    (hguar : (pairingArgument m (fun _ => True) fun _ _ _ => True).guar i t x y)
    (hexec : monitoredHandler i o x = some (r, y)) (h : SlotSince tid etup ⟨x, log⟩) :
    SlotSince tid etup (Logged.next ⟨x, log⟩ i o r y) := by
  obtain ⟨etup₁, hetup₁, haged⟩ := h
  obtain ⟨⟨r', s⟩, hexec', heq⟩ := Option.map_eq_some_iff.mp hexec
  cases heq
  obtain ⟨etup₂, hetup₂, hntid⟩ := (evolves_of_guar hguar).element hetup₁
  have hslot := hnswHandler_slot hx.toWellFormed hexec' tid
  rw [hetup₁, hetup₂] at hslot
  refine ⟨etup₂, hetup₂, ?_⟩
  rw [marks_next]
  exact haged.step hntid hslot

theorem slotSince_reaches {m : Nat} {pool : Pool (hnswSignature V) (Monitored V) (Task V D F)}
    (hpool : (pairingArgument m (fun _ => True) fun _ _ _ => True).Holds pool pool.shared)
    (hetup : pool.shared.shared.index.element? tid = some etup) (hlive : etup.deleted = false)
    {later : Pool (hnswSignature V) (Logged (hnswSignature V) (Monitored V)) (Task V D F)}
    (hlater : (hnswSystem (fun _ => True) (fun _ _ _ => True)).logged.Reaches pool.startLog later) :
    (later.shared.state.shared.index.Matched ∧
      later.shared.state.shared.index.metapage.m = m) ∧ SlotSince tid etup later.shared := by
  have hstart : SlotSince tid etup pool.startLog.shared :=
    ⟨etup, hetup, rfl, rfl, fun _ => ⟨hlive, rfl⟩⟩
  have hrun := (pairingArgument_sound m (fun _ => True) fun _ _ _ => True).logged
    (I := SlotSince tid etup) (fun log hx hguar hexec h => h.step hx.1 hguar hexec)
    (fun h => h) (fun h => h) hpool hstart hlater
  obtain ⟨⟨y, hy⟩, hslot⟩ := hrun
  have hshared : y = later.shared.state := hy.shared
  exact ⟨hshared ▸ hy.inv, hslot⟩

/--
An element is loaded from an index that inserts, vacuums and scans have been working on,
and its neighbors are read after they have gone on for any time.
-/
theorem stale_neighbors_detected (ctx : InsertContext V D F) (m : Nat) (hm : 2 ≤ m ∧ m ≤ 100)
    (valueSize : V → Nat)
    (built : Pool (memorySignature V F) (MemoryState V F) (MemoryInsert V))
    (hbuilt : (memorySystem ctx m True).Reaches (Pool.idle .init) built)
    (s : Monitored V) (hflush : flushPages valueSize m built.shared.graph = .ok s.shared.index)
    (pool : Pool (hnswSignature V) (Monitored V) (Task V D F))
    (hreach : (hnswSystem (fun _ => True) (fun _ _ _ => True)).Reaches (Pool.idle s) pool)
    (tid : ItemPointer) (etup : HnswElementTuple V)
    (hetup : pool.shared.shared.index.element? tid = some etup) (hlive : etup.deleted = false)
    (later : Pool (hnswSignature V) (Logged (hnswSignature V) (Monitored V)) (Task V D F))
    (hlater : (hnswSystem (fun _ => True) (fun _ _ _ => True)).logged.Reaches pool.startLog later)
    (self : ThreadId) (loadVec : Bool) (lc : Nat) (trace : Option HnswTraceStats) :
    (hnswLoadNeighborTids (hnswLoadElementFromTuple tid etup loadVec) m lc trace).Returns
      (hnswHandler self) later.shared.state.shared fun r _ =>
        (marks tid later.shared.log = 0 → r.1.isSome = true) ∧
        (r.1.isSome = true → marks tid later.shared.log ≠ 0 → 15 ∣ marks tid later.shared.log) := by
  obtain ⟨⟨hmatched, hmeta⟩, etup', hetup', haged⟩ :=
    slotSince_reaches (pairing_holds hm hbuilt hflush hreach) hetup hlive hlater
  obtain ⟨ntup, hntup⟩ := hmatched.neighbortid hetup'
  have hagree := hmatched.agree hetup' hntup
  rw [haged.neighbortid] at hntup
  refine (hnswLoadNeighborTids_reads self (hnswLoadElementFromTuple tid etup loadVec) hntup m lc
    trace).mono ?_
  rintro r _ ⟨hr, -⟩
  rw [hr]
  have hversion : ntup.version = nextVersion^[marks tid later.shared.log] etup.version :=
    hagree.version.trans haged.version
  constructor
  · intro hn
    have hcount := hagree.count
    rw [hn] at hversion
    rw [hmeta, (haged.live hn).2] at hcount
    have hcurrent : ¬ (ntup.version ≠ etup.version ∨ ntup.count ≠ (etup.level + 2) * m) := by
      simp [hversion, hcount]
    exact congrArg Option.isSome (if_neg hcurrent)
  · intro hsome _
    have hsame : ntup.version = etup.version := by
      by_contra hne
      have hnone : ntup.tids? (hnswLoadElementFromTuple tid etup loadVec) m lc = none :=
        if_pos (.inl hne)
      rw [hnone] at hsome
      cases hsome
    exact dvd_of_iterate_nextVersion (hversion.symm.trans hsame)

end History

/-- The element is marked once, and its neighbors are not read any more. -/
theorem stale_neighbors_detected_once :
    ∃ later, (hnswSystem (V := Nat) (D := Nat) (F := Nat) (fun _ => True)
        (fun _ _ _ => True)).logged.Reaches (Pool.idle flushedElementShared).startLog later ∧
      marks ⟨1, 1⟩ later.shared.log = 1 ∧
      (hnswLoadNeighborTids (hnswLoadElementFromTuple ⟨1, 1⟩
        (hnswSetElementTuple 0 1 [⟨0, 1⟩] 5 ⟨1, 2⟩) true) 2 0 none).Returns
        (hnswHandler 0) later.shared.state.shared fun r _ => r.1 = none := by
  obtain ⟨built, hbuilt, hflush⟩ := oneElementIndex_built
  obtain ⟨later, hlater, hmarks⟩ :
      ∃ later, (hnswSystem (V := Nat) (D := Nat) (F := Nat) (fun _ => True)
          (fun _ _ _ => True)).logged.Reaches (Pool.idle flushedElementShared).startLog later ∧
        marks ⟨1, 1⟩ later.shared.log = 1 :=
    ⟨_, System.reaches_alone (fun _ _ _ => trivial) 0
      (.vacuum (numberInserts 4) fun _ => true) _ (by exact trivial) rfl rfl, rfl⟩
  refine ⟨later, hlater, hmarks, ?_⟩
  refine (stale_neighbors_detected (numberInserts 4) 2 (by decide) (fun _ => 8) built hbuilt
    flushedElementShared hflush _ .refl ⟨1, 1⟩ _ rfl rfl later hlater 0 true 0 none).mono ?_
  rintro r _ ⟨-, hstale⟩
  rw [hmarks] at hstale
  simpa using hstale

end PgVector.Hnsw
