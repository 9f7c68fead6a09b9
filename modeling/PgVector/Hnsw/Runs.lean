import PgVector.Hnsw.VacuumInvariant
import PgVector.Hnsw.Versions

/-!
# What holds in every run

Consequences for the users of an index: what inserts, vacuums and scans find where they
look for it, whom they wait for, and what becomes of an element while they are at work.
-/

namespace PgVector.Hnsw

open Foundation

open Tracked

variable {V D F : Type} [LinearOrder D] [LinearOrder F] [DecidableEq V]

/-- An index that any number of participants have built in memory, flushed to pages. -/
structure FreshlyBuilt (ctx : InsertContext V D F) (m : Nat) (s : Shared V) : Prop where
  m_range : 2 ≤ m ∧ m ≤ 100
  locks : s.locks = []
  flushed : ∃ (valueSize : V → Nat)
    (built : Pool (memorySignature V F) (MemoryState V F) (MemoryInsert V)),
    (memorySystem ctx m True).Reaches (Pool.idle .init) built ∧
      flushPages valueSize m built.shared.graph = .ok s.index

/-- Inserts, vacuums and scans that search once, in any order and aborted at any point. -/
abbrev onceSystem (V D F : Type) [LinearOrder D] [LinearOrder F] [DecidableEq V] :
    System (hnswSignature V) (Monitored V) (Task V D F) :=
  hnswSystem (fun settings => settings.iterativeScan = .off) fun _ _ _ => True

abbrev scansSystem (V D F : Type) [LinearOrder D] [LinearOrder F] [DecidableEq V] :
    System (hnswSignature V) (Monitored V) (Task V D F) :=
  hnswSystem (fun _ => True) fun _ _ _ => True

abbrev onceArgument (V D F : Type) [LinearOrder D] [LinearOrder F] [DecidableEq V] :
    (onceSystem V D F).Argument (Tracked V) :=
  vacuumArgument False _ _

section Reached

variable {ctx : InsertContext V D F} {m : Nat} {s : Shared V}
  {pool : Pool (hnswSignature V) (Monitored V) (Task V D F)}

theorem FreshlyBuilt.holds (hs : FreshlyBuilt ctx m s)
    (hreach : (onceSystem V D F).Reaches (Pool.idle ⟨s, .start⟩) pool) :
    ∃ x, (onceArgument V D F).Holds pool x := by
  obtain ⟨valueSize, built, hbuilt, hflush⟩ := hs.flushed
  exact vacuum_holds False.elim
    (fun self ctx last calls so => ⟨_, False, scanKeeps_once fun _ h => h⟩)
    hs.m_range hbuilt hs.locks hflush hreach

/-! ## Tuples that are there -/

/-- No backend has met a tuple that is not there, or one of the other kind. -/
theorem no_tuple_missing (hs : FreshlyBuilt ctx m s)
    (hreach : (onceSystem V D F).Reaches (Pool.idle ⟨s, .start⟩) pool) (i : Nat)
    (t : Task V D F) : pool.threads i ≠ some (t, .fail .corrupted) := by
  obtain ⟨x, hx⟩ := hs.holds hreach
  exact fun hi => (hx.allowed hi).2.1 rfl

omit [DecidableEq V] in
theorem mem_names_of_mem_links {index : HnswIndex V} {lc : Nat} {a b : ItemPointer}
    (h : b ∈ index.links lc a) : b ∈ index.net.names a := by
  unfold HnswIndex.links at h
  cases hlive : index.live? a with
  | none => simp [hlive] at h
  | some etup =>
    rw [hlive] at h
    change b ∈ index.neighborTids lc etup at h
    unfold HnswIndex.neighborTids at h
    split at h
    · simp at h
    · next ntup hntup =>
      dsimp only at h
      split at h
      · simp at h
      · have hlayer := List.takeWhile_subset _ h
        refine ⟨etup, ntup, (HnswIndex.live?_eq_some.mp hlive).1, hntup, ?_, ?_⟩
        · exact List.mem_of_mem_drop (List.mem_of_mem_take hlayer)
        · exact List.mem_takeWhile_imp h

/--
At any moment, also in the middle of a vacuum, whatever links lead to from the entry
point is an element in use with its neighbor tuple.
-/
theorem linked_elements_live (hs : FreshlyBuilt ctx m s)
    (hreach : (onceSystem V D F).Reaches (Pool.idle ⟨s, .start⟩) pool) {entry : EntryPoint}
    (hentry : pool.shared.shared.index.metapage.entryPoint = some entry) {tid : ItemPointer}
    (hpath : Relation.ReflTransGen
      (fun a b => ∃ lc, b ∈ pool.shared.shared.index.links lc a) entry.tid tid) :
    ∃ etup, pool.shared.shared.index.live? tid = some etup ∧
      (pool.shared.shared.index.neighbor? etup.neighbortid).isSome := by
  obtain ⟨x, hx⟩ := hs.holds hreach
  have hstate : x.state = pool.shared := hx.shared
  rw [← hstate] at hentry hpath ⊢
  have hinv : Invariant False x := hx.inv
  -- no link leads from elements that are not being marked to one that is
  have hload : Loadable x .scan tid := by
    induction hpath with
    | refl => exact loadable_of_entry hinv .scan hentry
    | @tail a b _ hlink ih =>
      obtain ⟨lc, hb⟩ := hlink
      have hnames : b ∈ x.reclaim.net.names a := mem_names_of_mem_links hb
      exact ⟨hinv.valid.names_present a b hnames, hinv.valid.names_condemned a ih.free b hnames⟩
  obtain ⟨etup, hetup⟩ := hload.present
  obtain ⟨ntup, hntup⟩ := hinv.wellFormed.neighbortid hetup
  refine ⟨etup, HnswIndex.live?_eq_some.mpr ⟨hetup, deleted_eq_false hinv hload hetup⟩, ?_⟩
  exact Option.isSome_of_eq_some hntup

/-! ## Locks -/

omit [DecidableEq V] in
theorem exists_conflict {i : ThreadId} {o : HnswOp V} {x : Monitored V}
    (h : monitoredHandler i o x = none) :
    ∃ held ∈ x.shared.locks, held.thread ≠ i ∧
      ∃ mode, o = .lockPage held.lock mode ∧ (mode = .exclusive ∨ held.mode = .exclusive) := by
  have hwait := Option.map_eq_none_iff.mp h
  cases o
  case lockPage lock mode =>
    simp only [hnswHandler] at hwait
    split at hwait
    · next hconflicts =>
      obtain ⟨held, hheld, hmodes⟩ := List.any_eq_true.mp hconflicts
      simp only [Bool.and_eq_true, bne_iff_ne, beq_iff_eq, Bool.or_eq_true] at hmodes
      obtain ⟨⟨hthread, rfl⟩, hmodes⟩ := hmodes
      exact ⟨held, hheld, hthread, mode, rfl, hmodes⟩
    · cases hwait
  -- no other instruction ever waits
  all_goals try simp only [hnswHandler, reduceCtorEq] at hwait
  all_goals repeat' split at hwait
  all_goals cases hwait

/-- Every page lock is held by a backend that has been started and not finished or aborted. -/
theorem running_of_lock (hs : FreshlyBuilt ctx m s)
    (hreach : (onceSystem V D F).Reaches (Pool.idle ⟨s, .start⟩) pool) {held : HeldLock}
    (hheld : held ∈ pool.shared.shared.locks) :
    ∃ t p, pool.threads held.thread = some (t, p) ∧ p ≠ .ret () := by
  obtain ⟨x, hx⟩ := hs.holds hreach
  have hlocked : x.locksOf held.thread ≠ [] := by
    have hstate : x.state = pool.shared := hx.shared
    apply List.ne_nil_of_mem (a := held)
    simpa [Tracked.locksOf, Shared.locksOf, hstate] using hheld
  cases hrun : pool.threads held.thread with
  | none => exact absurd (hx.resting _ hrun) hlocked
  | some entry =>
    refine ⟨entry.1, entry.2, rfl, fun hret => hlocked ?_⟩
    exact (hret ▸ hx.safe _ entry.1 entry.2 hrun) x (Rely.refl _ _ x) hx.inv

/--
A backend that has run its program or was aborted holds no page lock, and whoever waits
for one waits for a backend at work.
-/
theorem waits_for_running (hs : FreshlyBuilt ctx m s)
    (hreach : (onceSystem V D F).Reaches (Pool.idle ⟨s, .start⟩) pool) :
    (∀ i, (∀ t p, pool.threads i = some (t, p) → p = .ret ()) → pool.shared.shared.locksOf i = []) ∧
    ∀ i o, monitoredHandler i o pool.shared = none →
      ∃ held ∈ pool.shared.shared.locks, held.thread ≠ i ∧
        (∃ mode, o = .lockPage held.lock mode ∧ (mode = .exclusive ∨ held.mode = .exclusive)) ∧
        ∃ t p, pool.threads held.thread = some (t, p) ∧ p ≠ .ret () := by
  constructor
  · intro i hdone
    refine List.filter_eq_nil_iff.mpr fun held hheld hthread => ?_
    obtain rfl := eq_of_beq hthread
    obtain ⟨t, p, hrun, hp⟩ := running_of_lock hs hreach hheld
    exact hp (hdone t p hrun)
  · intro i o hwait
    obtain ⟨held, hheld, hthread, hmodes⟩ := exists_conflict hwait
    exact ⟨held, hheld, hthread, hmodes, running_of_lock hs hreach hheld⟩

/-! ## Slots -/

/--
From a moment when an element is in use, let inserts, vacuums and scans of all kinds go on
for any time.  Its TID and that of its neighbors still hold an element and its neighbors,
of one version, which has been raised once for each time the slot was marked; if it never
was, the element is still in use and on its level.
-/
theorem slots_stay (hs : FreshlyBuilt ctx m s)
    (hreach : (scansSystem V D F).Reaches (Pool.idle ⟨s, .start⟩) pool) (tid : ItemPointer)
    (etup : HnswElementTuple V) (hlive : pool.shared.shared.index.live? tid = some etup)
    {later : Pool (hnswSignature V) (Logged (hnswSignature V) (Monitored V)) (Task V D F)}
    (hlater : (scansSystem V D F).logged.Reaches pool.startLog later) :
    ∃ etup' ntup, later.shared.state.shared.index.element? tid = some etup' ∧
      later.shared.state.shared.index.neighbor? etup.neighbortid = some ntup ∧
      Aged (marks tid later.shared.log) etup etup' ∧ ntup.version = etup'.version ∧
      ntup.count = (etup'.level + 2) * m := by
  obtain ⟨valueSize, built, hbuilt, hflush⟩ := hs.flushed
  obtain ⟨hetup, hdeleted⟩ := HnswIndex.live?_eq_some.mp hlive
  obtain ⟨⟨hmatched, hmeta⟩, etup', hetup', haged⟩ :=
    slotSince_reaches (pairing_holds hs.m_range hbuilt hflush hreach) hetup hdeleted hlater
  obtain ⟨ntup, hntup⟩ := hmatched.neighbortid hetup'
  have hagree := hmatched.agree hetup' hntup
  exact ⟨etup', ntup, hetup', haged.neighbortid ▸ hntup, haged, hagree.version,
    hmeta ▸ hagree.count⟩

end Reached

/-! ## Runs -/

section Runs

theorem flushedElement_built : FreshlyBuilt (numberInserts 4) 2 flushedElementShared.shared := by
  obtain ⟨built, hbuilt, hflush⟩ := oneElementIndex_built
  exact ⟨by decide, rfl, fun _ => 8, built, hbuilt, hflush⟩

theorem insertBeside_observed (turns : List (System.Turn (Task Nat Nat Nat))) {β : Type}
    (observe : Pool (hnswSignature Nat) (Monitored Nat) (Task Nat Nat Nat) → β) (b : β)
    (hturns : System.Turn.tasks turns =
      [.insert (numberInserts 4) (some 7) ⟨0, 2⟩ 0, .vacuum (numberInserts 4) fun _ => false])
    (h : ((onceSystem Nat Nat Nat).perform turns (Pool.idle flushedElementShared)).map observe =
      some b) :
    ∃ pool, (onceSystem Nat Nat Nat).Reaches (Pool.idle flushedElementShared) pool ∧
      observe pool = b := by
  refine System.reaches_observed _ turns _ observe b ?_ ?_ h
  · simp [hturns, hnswSystem, ItemPointer.isValid, invalidOffsetNumber]
  · simp [hturns, hnswSystem, Task.isVacuum]

theorem linked_elements_live_two :
    ∃ pool, (onceSystem Nat Nat Nat).Reaches (Pool.idle flushedElementShared) pool ∧
      ∃ etup, pool.shared.shared.index.live? ⟨1, 3⟩ = some etup ∧
        (pool.shared.shared.index.neighbor? etup.neighbortid).isSome := by
  obtain ⟨pool, hreach, hlinked⟩ := insertBeside_observed
    [.start 0 (.insert (numberInserts 4) (some 7) ⟨0, 2⟩ 0), .run 0 40,
      .start 1 (.vacuum (numberInserts 4) fun _ => false), .run 1 40]
    (fun pool => (pool.shared.shared.index.metapage.entryPoint,
      pool.shared.shared.index.links 0 ⟨1, 1⟩))
    (some ⟨⟨1, 1⟩, 0⟩, [⟨1, 3⟩]) rfl (by decide +kernel)
  obtain ⟨hentry, hlinks⟩ := Prod.mk.inj hlinked
  refine ⟨pool, hreach, linked_elements_live flushedElement_built hreach hentry (.single ⟨0, ?_⟩)⟩
  simp [hlinks]

/-- A vacuum has read the pages while an insert was at work. -/
theorem no_tuple_missing_two :
    ∃ pool, (onceSystem Nat Nat Nat).Reaches (Pool.idle flushedElementShared) pool ∧
      pool.shared.shared.index.elements.length = 2 ∧
      ∀ i t, pool.threads i ≠ some (t, .fail .corrupted) := by
  obtain ⟨pool, hreach, hlength⟩ := insertBeside_observed
    [.start 0 (.insert (numberInserts 4) (some 7) ⟨0, 2⟩ 0), .run 0 1,
      .start 1 (.vacuum (numberInserts 4) fun _ => false), .run 1 2, .run 0 40, .run 1 40]
    (fun pool => pool.shared.shared.index.elements.length) 2 rfl (by decide +kernel)
  exact ⟨pool, hreach, hlength, no_tuple_missing flushedElement_built hreach⟩

/-- A second insert would now wait for the vacuum; the first one has returned. -/
theorem waits_for_running_vacuum :
    ∃ pool, (onceSystem Nat Nat Nat).Reaches (Pool.idle flushedElementShared) pool ∧
      System.returned 0 pool = true ∧ pool.shared.shared.locksOf 0 = [] ∧
      monitoredHandler 2 (.lockPage .update .share) pool.shared = none ∧
      ∃ t p, pool.threads 1 = some (t, p) ∧ p ≠ .ret () := by
  obtain ⟨pool, hreach, hobserve⟩ := insertBeside_observed
    [.start 0 (.insert (numberInserts 4) (some 7) ⟨0, 2⟩ 0), .run 0 40,
      .start 1 (.vacuum (numberInserts 4) fun _ => false), .run 1 3]
    (fun pool => (System.returned 0 pool, pool.shared.shared.locks))
    (true, [⟨1, .update, .exclusive⟩]) rfl (by decide +kernel)
  obtain ⟨hreturned, hlocks⟩ := Prod.mk.inj hobserve
  have hwait : monitoredHandler 2 (.lockPage .update .share) pool.shared = none := by
    simp [monitoredHandler, hnswHandler, Shared.conflicts, hlocks]
  obtain ⟨hresting, hwaiting⟩ := waits_for_running flushedElement_built hreach
  obtain ⟨held, hheld, -, -, hrunning⟩ := hwaiting _ _ hwait
  rw [hlocks] at hheld
  obtain rfl := List.mem_singleton.mp hheld
  exact ⟨pool, hreach, hreturned, hresting 0 fun _ _ hi => System.ret_of_returned hreturned hi,
    hwait, hrunning⟩

/-- A vacuum marks the element. -/
theorem slots_stay_marked :
    ∃ later, (scansSystem Nat Nat Nat).logged.Reaches (Pool.idle flushedElementShared).startLog
        later ∧
      ∃ etup, later.shared.state.shared.index.element? ⟨1, 1⟩ = some etup ∧ etup.version = 2 := by
  obtain ⟨later, hlater, hmarks⟩ : ∃ later, (scansSystem Nat Nat Nat).logged.Reaches
      (Pool.idle flushedElementShared).startLog later ∧ marks ⟨1, 1⟩ later.shared.log = 1 :=
    ⟨_, System.reaches_alone (fun _ _ _ => trivial) 0
      (.vacuum (numberInserts 4) fun _ => true) _ (by exact trivial) rfl rfl, rfl⟩
  obtain ⟨etup, ntup, hetup, -, haged, -⟩ :=
    slots_stay flushedElement_built .refl ⟨1, 1⟩ _ rfl hlater
  refine ⟨later, hlater, etup, hetup, ?_⟩
  rw [haged.version, hmarks]
  rfl

end Runs

end PgVector.Hnsw
