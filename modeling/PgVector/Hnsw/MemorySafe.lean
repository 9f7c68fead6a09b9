import PgVector.Hnsw.FindNeighbors
import PgVector.Hnsw.Flush
import PgVector.Hnsw.MemoryBuild

/-!
# The graph that participants build

Whatever the interleaving of the inserts, every element has its layers, its
neighbors are elements, and the entry point is at least as high as every element
as soon as nobody holds the entry lock exclusively.
-/

namespace PgVector.Hnsw

open Foundation

variable {V D F : Type}

/-! ## Elements -/

structure GraphElement.Formed (m count : Nat) (e : GraphElement V F) : Prop where
  level : e.level ≤ hnswGetMaxLevel m
  layers : e.layers.length = e.level + 1
  within : ∀ a ∈ e.layers.zipIdx, a.1.items.length ≤ hnswGetLayerM m (e.level - a.2)
  refers : ∀ a ∈ e.layers, ∀ hc ∈ a.items, hc.element < count
  heaptids : e.heaptids.length ≤ hnswHeaptids
  nonempty : e.heaptids ≠ []
  valid : ∀ heaptid ∈ e.heaptids, heaptid.isValid = true

theorem GraphElement.Formed.mono {m count count' : Nat} {e : GraphElement V F}
    (h : e.Formed m count) (hle : count ≤ count') : e.Formed m count' :=
  { h with refers := fun a ha hc hmem => (h.refers a ha hc hmem).trans_le hle }

/-- The entry point is at least as high as every element above `level`. -/
def HnswGraph.ToppedAbove (graph : HnswGraph V F) (level : Nat) : Prop :=
  ∀ e ∈ graph.elements, e.level ≤ level ∨
    ∃ p, graph.entryPoint.bind graph.pointer? = some p ∧ e.level ≤ p.level

def HnswGraph.Topped (graph : HnswGraph V F) : Prop :=
  ∀ e ∈ graph.elements, ∃ p, graph.entryPoint.bind graph.pointer? = some p ∧ e.level ≤ p.level

structure HnswGraph.Formed (m : Nat) (graph : HnswGraph V F) : Prop where
  elements : ∀ e ∈ graph.elements, e.Formed m graph.elements.length
  entryPoint : ∀ ptr ∈ graph.entryPoint, ptr < graph.elements.length

theorem HnswGraph.pointer?_isSome {graph : HnswGraph V F} {ptr : Nat} :
    (graph.pointer? ptr).isSome ↔ ptr < graph.elements.length := by
  simp [HnswGraph.pointer?]

theorem HnswGraph.ptr_pointer? {graph : HnswGraph V F} {ptr : Nat} {p : GraphPointer V}
    (h : graph.pointer? ptr = some p) : p.ptr = ptr := by
  obtain ⟨e, -, rfl⟩ := Option.map_eq_some_iff.mp h
  rfl

theorem HnswGraph.Formed.entryPoint_eq {m : Nat} {graph : HnswGraph V F}
    (h : graph.Formed m) :
    graph.entryPoint = (graph.entryPoint.bind graph.pointer?).map GraphPointer.ptr := by
  cases hentry : graph.entryPoint with
  | none => rfl
  | some ptr =>
    have hlt := h.entryPoint ptr hentry
    obtain ⟨p, hp⟩ := Option.isSome_iff_exists.mp (HnswGraph.pointer?_isSome.mpr hlt)
    rw [Option.bind_some, hp, Option.map_some, HnswGraph.ptr_pointer? hp]

/-! ## What a change of the graph keeps -/

def HnswGraph.Grows (graph graph' : HnswGraph V F) : Prop :=
  ∀ ptr p, graph.pointer? ptr = some p → graph'.pointer? ptr = some p

namespace HnswGraph.Grows

variable {graph graph₁ graph₂ : HnswGraph V F}

theorem refl (graph : HnswGraph V F) : graph.Grows graph := fun _ _ => id

theorem trans (h : graph.Grows graph₁) (h' : graph₁.Grows graph₂) : graph.Grows graph₂ :=
  fun ptr p hp => h' ptr p (h ptr p hp)

theorem lt (h : graph.Grows graph₁) {ptr : Nat} (hptr : ptr < graph.elements.length) :
    ptr < graph₁.elements.length := by
  obtain ⟨p, hp⟩ := Option.isSome_iff_exists.mp (pointer?_isSome.mpr hptr)
  exact pointer?_isSome.mp (by rw [h ptr p hp]; rfl)

theorem of_map_eq (h : graph₁.elements.map (fun e => (e.level, e.value)) =
    graph.elements.map fun e => (e.level, e.value)) (ptr : Nat) :
    graph₁.pointer? ptr = graph.pointer? ptr := by
  have hget : (graph₁.elements.map fun e => (e.level, e.value))[ptr]? =
      (graph.elements.map fun e => (e.level, e.value))[ptr]? := by rw [h]
  rw [List.getElem?_map, List.getElem?_map] at hget
  unfold HnswGraph.pointer?
  cases h₁ : graph₁.elements[ptr]? <;> cases h₀ : graph.elements[ptr]? <;> simp [h₁, h₀] at hget ⊢
  exact hget

end HnswGraph.Grows

structure HnswGraph.Adjusts (m : Nat) (graph graph' : HnswGraph V F) : Prop where
  same : graph'.elements.map (fun e => (e.level, e.value)) =
    graph.elements.map fun e => (e.level, e.value)
  entryPoint : graph'.entryPoint = graph.entryPoint
  formed : graph.Formed m → graph'.Formed m

namespace HnswGraph.Adjusts

variable {m : Nat} {graph graph' : HnswGraph V F} (h : graph.Adjusts m graph')
include h

theorem pointer? (ptr : Nat) : graph'.pointer? ptr = graph.pointer? ptr :=
  Grows.of_map_eq h.same ptr

theorem grows : graph.Grows graph' := fun ptr _ hp => (h.pointer? ptr).trans hp

theorem entry : graph'.entryPoint.bind graph'.pointer? = graph.entryPoint.bind graph.pointer? := by
  rw [h.entryPoint]
  exact congrArg _ (funext h.pointer?)

theorem level_mem {e : GraphElement V F} (he : e ∈ graph'.elements) :
    ∃ e₀ ∈ graph.elements, e₀.level = e.level := by
  have hmem : (e.level, e.value) ∈ graph'.elements.map fun e => (e.level, e.value) :=
    List.mem_map_of_mem he
  rw [h.same] at hmem
  obtain ⟨e₀, he₀, heq⟩ := List.mem_map.mp hmem
  exact ⟨e₀, he₀, (Prod.mk.inj heq).1⟩

theorem toppedAbove {level : Nat} (htop : graph.ToppedAbove level) : graph'.ToppedAbove level := by
  intro e he
  obtain ⟨e₀, he₀, hlevel⟩ := h.level_mem he
  rw [h.entry, ← hlevel]
  exact htop e₀ he₀

theorem topped (htop : graph.Topped) : graph'.Topped := by
  intro e he
  obtain ⟨e₀, he₀, hlevel⟩ := h.level_mem he
  rw [h.entry, ← hlevel]
  exact htop e₀ he₀

end HnswGraph.Adjusts

theorem HnswGraph.Adjusts.refl (m : Nat) (graph : HnswGraph V F) : graph.Adjusts m graph :=
  ⟨rfl, rfl, id⟩

theorem HnswGraph.adjusts_set {m ptr : Nat} {graph : HnswGraph V F}
    {e e' : GraphElement V F} (he : graph.elements[ptr]? = some e)
    (hlevel : e'.level = e.level) (hvalue : e'.value = e.value)
    (hformed : e.Formed m graph.elements.length → e'.Formed m graph.elements.length) :
    graph.Adjusts m { graph with elements := graph.elements.set ptr e' } where
  same := by
    apply List.ext_getElem?
    intro i
    simp only [List.map_set, List.getElem?_set, List.length_map, List.getElem?_map]
    split
    · next hi =>
      subst hi
      obtain ⟨hlt, hget⟩ := List.getElem?_eq_some_iff.mp he
      simp [hlt, hget, hlevel, hvalue]
    · rfl
  entryPoint := rfl
  formed := by
    intro h
    constructor
    · intro e₁ he₁
      rw [List.length_set]
      rcases List.mem_or_eq_of_mem_set he₁ with hmem | rfl
      · exact h.elements e₁ hmem
      · exact hformed (h.elements e (List.mem_of_getElem? he))
    · intro entry hentry
      rw [List.length_set]
      exact h.entryPoint entry hentry

/-! ## The instructions -/

theorem HnswGraph.addDuplicate_adjusts {m : Nat} (graph : HnswGraph V F) (ptr : Nat)
    {heaptid : ItemPointer} (hvalid : heaptid.isValid = true) :
    graph.Adjusts m (graph.addDuplicate ptr heaptid).2 := by
  unfold HnswGraph.addDuplicate
  split
  · exact .refl m graph
  · next e' hbind =>
    obtain ⟨e, he, hadd⟩ := Option.bind_eq_some_iff.mp hbind
    unfold GraphElement.addDuplicate? at hadd
    split at hadd
    · cases hadd
    · next hfull =>
      cases hadd
      refine HnswGraph.adjusts_set he rfl rfl ?_
      intro h
      have hlength := h.heaptids
      refine { h with heaptids := ?_, nonempty := by simp, valid := ?_ }
      · rw [List.length_append, List.length_singleton]
        omega
      · intro tid htid
        rcases List.mem_append.mp htid with hmem | hmem
        · exact h.valid tid hmem
        · rw [List.mem_singleton.mp hmem]
          exact hvalid

section Connection

variable [LinearOrder F]

theorem GraphElement.Formed.connect {m count lc : Nat} {e : GraphElement V F}
    (h : e.Formed m count) (hlc : lc ≤ e.level) (sel : Selection Nat F) {newElement : Nat}
    (hnew : newElement < count) (distance : F) :
    GraphElement.Formed m count
      { e with
        layers := e.layers.modify (e.level - lc) fun a =>
          (hnswUpdateConnection sel a newElement distance (hnswGetLayerM m lc)).1 } := by
  refine { h with layers := ?_, within := ?_, refers := ?_ }
  · rw [List.length_modify]
    exact h.layers
  · rintro ⟨a, j⟩ ha
    rw [List.mem_zipIdx_iff_getElem?, List.getElem?_modify] at ha
    dsimp only at ha
    obtain ⟨a₀, ha₀, heq⟩ := Option.map_eq_some_iff.mp ha
    have hroom := h.within (a₀, j) (List.mem_zipIdx_iff_getElem?.mpr ha₀)
    rw [← heq]
    split
    · next hj =>
      subst hj
      rw [Nat.sub_sub_self hlc] at hroom ⊢
      have hspec := hnswUpdateConnection_spec sel a₀ newElement distance (hnswGetLayerM m lc)
      simpa using hspec.length_le (by simpa using hroom)
    · exact hroom
  · intro a ha hc hmem
    obtain ⟨j, hj⟩ := List.mem_iff_getElem?.mp ha
    rw [List.getElem?_modify] at hj
    obtain ⟨a₀, ha₀, rfl⟩ := Option.map_eq_some_iff.mp hj
    have hrefers := h.refers a₀ (List.mem_of_getElem? ha₀)
    split at hmem
    · have hspec := hnswUpdateConnection_spec sel a₀ newElement distance (hnswGetLayerM m lc)
      rcases hspec.mem (List.mem_map_of_mem hmem) with hold | hnew'
      · obtain ⟨hc₀, hc₀mem, heq⟩ := List.mem_map.mp hold
        have helement : hc₀.element = hc.element := congrArg (fun c => c.element) heq
        rw [← helement]
        exact hrefers hc₀ hc₀mem
      · have helement : hc.element = newElement := congrArg (fun c => c.element) hnew'
        rw [helement]
        exact hnew
    · exact hrefers hc hmem

theorem HnswGraph.updateConnection_adjusts {m : Nat} (ctx : InsertContext V D F)
    (graph : HnswGraph V F) (ptr lc : Nat) {newElement : Nat} (distance : F)
    (hnew : newElement < graph.elements.length) :
    graph.Adjusts m
      (graph.updateConnection ctx ptr lc newElement distance (hnswGetLayerM m lc)) := by
  unfold HnswGraph.updateConnection
  rw [List.modify_eq_set_getElem?]
  cases he : graph.elements[ptr]? with
  | none => exact .refl m graph
  | some e =>
    refine HnswGraph.adjusts_set he ?_ ?_ ?_
    · split <;> rfl
    · split <;> rfl
    · intro h
      split
      · exact h
      · next hlc => exact h.connect (Nat.le_of_not_lt hlc) _ hnew distance

end Connection

theorem HnswGraph.append_grows (graph : HnswGraph V F) (element : GraphElement V F) :
    graph.Grows { graph with elements := graph.elements ++ [element] } := by
  intro ptr p hp
  unfold HnswGraph.pointer? at hp ⊢
  obtain ⟨e, he, rfl⟩ := Option.map_eq_some_iff.mp hp
  rw [List.getElem?_append_left (List.getElem?_eq_some_iff.mp he).1, he]
  rfl

theorem HnswGraph.Formed.append {m : Nat} {graph : HnswGraph V F} (h : graph.Formed m)
    {element : GraphElement V F} (he : element.Formed m graph.elements.length) :
    HnswGraph.Formed m { graph with elements := graph.elements ++ [element] } := by
  constructor
  · intro e hmem
    rw [List.length_append, List.length_singleton]
    rcases List.mem_append.mp hmem with hold | hnew
    · exact (h.elements e hold).mono (Nat.le_succ _)
    · rw [List.mem_singleton.mp hnew]
      exact he.mono (Nat.le_succ _)
  · intro ptr hptr
    rw [List.length_append, List.length_singleton]
    exact Nat.lt_succ_of_lt (h.entryPoint ptr hptr)

/-! ## The state that participants share -/

namespace MemoryState

variable {m : Nat} {x y z : MemoryState V F} {self other : ThreadId}

structure Invariant (m : Nat) (x : MemoryState V F) : Prop where
  locks : x.locks.Valid
  formed : x.graph.Formed m
  topped : (∀ held ∈ x.locks, held.lock = .entryLock → held.mode = .shared) → x.graph.Topped

structure Rely (me : ThreadId) (x y : MemoryState V F) : Prop where
  locks : y.locks.of me = x.locks.of me
  grows : x.graph.Grows y.graph
  entryPoint : ∀ {mode}, ⟨me, .entryLock, mode⟩ ∈ x.locks → y.graph.entryPoint = x.graph.entryPoint
  alone : ⟨me, .entryLock, .exclusive⟩ ∈ x.locks → y.graph = x.graph

theorem Rely.held (h : Rely self x y) {lock : EntryLock} {mode : AccessMode}
    (hheld : ⟨self, lock, mode⟩ ∈ x.locks) : ⟨self, lock, mode⟩ ∈ y.locks := by
  have hmem : ⟨self, lock, mode⟩ ∈ x.locks.of self := LockTable.mem_of.mpr ⟨hheld, rfl⟩
  rw [← h.locks] at hmem
  exact (LockTable.mem_of.mp hmem).1

theorem Rely.refl (self : ThreadId) (x : MemoryState V F) : Rely self x x :=
  ⟨rfl, HnswGraph.Grows.refl _, fun _ => rfl, fun _ => rfl⟩

theorem Rely.trans (h : Rely self x y) (h' : Rely self y z) : Rely self x z where
  locks := h'.locks.trans h.locks
  grows := h.grows.trans h'.grows
  entryPoint := fun hheld => (h'.entryPoint (h.held hheld)).trans (h.entryPoint hheld)
  alone := fun hheld => (h'.alone (h.held hheld)).trans (h.alone hheld)

theorem rely_locks {locks : LockTable EntryLock} (h : locks.of other = x.locks.of other) :
    Rely other x { x with locks := locks } :=
  ⟨h, HnswGraph.Grows.refl _, fun _ => rfl, fun _ => rfl⟩

theorem rely_graph (hx : Invariant m x) (hne : other ≠ self) {mode : AccessMode}
    (hheld : ⟨self, .entryLock, mode⟩ ∈ x.locks) {graph : HnswGraph V F}
    (hgrows : x.graph.Grows graph)
    (hentry : graph.entryPoint = x.graph.entryPoint ∨ mode = .exclusive) :
    Rely other x { x with graph := graph } := by
  have hfree : ∀ {mode'}, ⟨other, .entryLock, mode'⟩ ∈ x.locks →
      mode = .shared ∧ mode' = .shared := by
    intro mode' hother
    cases mode with
    | exclusive =>
      have heq := hx.locks.eq_of_exclusive hheld hother rfl
      exact absurd (congrArg Holding.thread heq) hne
    | shared =>
      cases mode' with
      | shared => exact ⟨rfl, rfl⟩
      | exclusive =>
        have heq := hx.locks.eq_of_exclusive hother hheld rfl
        exact absurd (congrArg Holding.thread heq).symm hne
  refine ⟨rfl, hgrows, ?_, ?_⟩
  · intro mode' hother
    rcases hentry with hsame | rfl
    · exact hsame
    · exact absurd (hfree hother).1 (by simp)
  · intro hother
    exact absurd (hfree hother).2 (by simp)

end MemoryState

section Argument

variable [LinearOrder D] [LinearOrder F] [DecidableEq V] (ctx : InsertContext V D F)
  (m : Nat) (overlap : Prop)

open MemoryState

def memoryArgument : (memorySystem ctx m overlap).Argument (MemoryState V F) where
  shared := id
  inv := Invariant m
  rely i _ := Rely i
  allowed _ := True
  resting i x := x.locks.of i = []
  during _ _ _ := True
  post i _ x := x.locks.of i = []
  rely_refl i _ := Rely.refl i
  rely_trans _ _ _ _ _ h h' := h.trans h'
  during_rely _ _ _ _ _ h := h

abbrev participant (self : ThreadId) (t : MemoryInsert V) :
    Discipline (memorySignature V F) (MemoryState V F) (MemoryState V F) :=
  (memoryArgument ctx m overlap).discipline self t

variable {ctx m overlap} {self : ThreadId} {t : MemoryInsert V} {x y : MemoryState V F}

theorem guar_of_rely (h : ∀ other, other ≠ self → Rely other x y) :
    (participant ctx m overlap self t).guar x y := by
  refine ⟨⟨fun j _ hne _ => h j hne, ?_⟩, id⟩
  intro j hne hrest
  exact (h j hne).locks.trans hrest

/-! ## Locks -/

theorem acquire_safe {α : Type} {lock : EntryLock} {mode : AccessMode}
    {k : Unit → MemoryProgram V F α} {Q : α → MemoryState V F → Prop}
    (h : ∀ y, Rely self x y → Invariant m y → y.locks.conflicts lock mode = false →
      (k ()).Safe (participant ctx m overlap self t) Q
        { y with locks := ⟨self, lock, mode⟩ :: y.locks }) :
    (Program.step (MemoryOp.acquire lock mode) k : MemoryProgram V F α).Safe
      (participant ctx m overlap self t) Q x := by
  intro y hxy hy _ r s hexec
  have hexec' : (y.locks.acquire self lock mode).map
      (fun locks => ((), { y with locks := locks })) = some (r, s) := hexec
  obtain ⟨locks, hacquire, heq⟩ := Option.map_eq_some_iff.mp hexec'
  obtain ⟨hfree, rfl⟩ := LockTable.acquire_eq_some.mp hacquire
  obtain ⟨-, rfl⟩ := Prod.mk.inj heq
  refine ⟨_, rfl, ?_, ?_, h y hxy hy hfree⟩
  · refine ⟨hy.locks.acquire hfree, hy.formed, ?_⟩
    intro hshared
    exact hy.topped fun held hheld => hshared held (.tail _ hheld)
  · apply guar_of_rely
    intro other hne
    apply rely_locks
    rw [LockTable.of_cons, if_neg (Ne.symm hne)]

/-- The entry lock is given up only when the entry point is where it has to be. -/
theorem release_safe {α : Type} {lock : EntryLock} {mode : AccessMode}
    {k : Unit → MemoryProgram V F α} {Q : α → MemoryState V F → Prop}
    (htop : ∀ y, Rely self x y → Invariant m y → lock = .entryLock → mode = .exclusive →
      y.graph.Topped)
    (hheld : ⟨self, lock, mode⟩ ∈ x.locks)
    (h : ∀ y, Rely self x y → Invariant m y →
      (k ()).Safe (participant ctx m overlap self t) Q
        { y with locks := y.locks.release self lock mode }) :
    (Program.step (MemoryOp.release lock mode) k : MemoryProgram V F α).Safe
      (participant ctx m overlap self t) Q x := by
  intro y hxy hy _ r s hexec
  cases hexec
  refine ⟨_, rfl, ⟨hy.locks.release, hy.formed, ?_⟩, ?_, h y hxy hy⟩
  · intro hshared
    by_cases hentry : lock = .entryLock ∧ mode = .exclusive
    · exact htop y hxy hy hentry.1 hentry.2
    · apply hy.topped
      intro held hmem hlock
      by_cases heq : held = ⟨self, lock, mode⟩
      · subst heq
        cases mode with
        | shared => rfl
        | exclusive => exact absurd ⟨hlock, rfl⟩ hentry
      · exact hshared held ((List.mem_erase_of_ne heq).mpr hmem) hlock
  · apply guar_of_rely
    intro other hne
    exact rely_locks (LockTable.of_release hne)

/-! ## The graph, under the entry lock -/

variable (ctx m overlap self t) in
abbrev builder : Discipline (graphSignature V F) (MemoryState V F) (MemoryState V F) :=
  (participant ctx m overlap self t).comap graphEmbedding

theorem builder_handler (o : GraphOp V F) (s : MemoryState V F) :
    (builder ctx m overlap self t).handler o s =
      (graphHandler ctx o s.graph).map fun reply =>
        (reply.1, { s with graph := reply.2 }) := by
  change ((graphHandler ctx o s.graph).map _).map _ = _
  cases graphHandler ctx o s.graph <;> rfl

theorem builder_exec {o : GraphOp V F} {r : o.Res} {s : MemoryState V F}
    (h : (builder ctx m overlap self t).handler o ((builder ctx m overlap self t).shared y) =
      some (r, s)) :
    ∃ graph, graphHandler ctx o y.graph = some (r, graph) ∧ s = { y with graph := graph } := by
  have hmap := (builder_handler o y).symm.trans h
  obtain ⟨⟨reply, graph⟩, hreply, heq⟩ := Option.map_eq_some_iff.mp hmap
  cases heq
  exact ⟨graph, hreply, rfl⟩

theorem change_ok {mode : AccessMode} (hy : Invariant m y)
    (hheld : ⟨self, .entryLock, mode⟩ ∈ y.locks) {graph : HnswGraph V F}
    (hgrows : y.graph.Grows graph) (hformed : graph.Formed m)
    (hentry : graph.entryPoint = y.graph.entryPoint ∨ mode = .exclusive)
    (htop : mode = .shared → y.graph.Topped → graph.Topped) :
    Invariant m { y with graph := graph } ∧
      (builder ctx m overlap self t).guar y { y with graph := graph } := by
  refine ⟨⟨hy.locks, hformed, ?_⟩, ?_⟩
  · intro hshared
    exact htop (hshared _ hheld rfl) (hy.topped hshared)
  · apply guar_of_rely
    intro other hne
    exact rely_graph hy hne hheld hgrows hentry

theorem adjusts_ok {mode : AccessMode} (hy : Invariant m y)
    (hheld : ⟨self, .entryLock, mode⟩ ∈ y.locks) {graph : HnswGraph V F}
    (h : y.graph.Adjusts m graph) :
    Invariant m { y with graph := graph } ∧
      (builder ctx m overlap self t).guar y { y with graph := graph } :=
  change_ok hy hheld h.grows (h.formed hy.formed) (.inl h.entryPoint) fun _ htop => h.topped htop

theorem read_keeps {o : GraphOp V F} {Q : o.Res → MemoryState V F → Prop}
    (hread : ∀ graph : HnswGraph V F, ∃ r, graphHandler ctx o graph = some (r, graph))
    (h : ∀ y, Invariant m y → ∀ r, graphHandler ctx o y.graph = some (r, y.graph) →
      ∀ w, Rely self y w → Q r w) :
    (GraphOp.exec o).Keeps (builder ctx m overlap self t) Q x := by
  apply Program.Keeps.exec
  intro y _ hy _ r s hexec
  obtain ⟨graph, hgraph, rfl⟩ := builder_exec hexec
  obtain ⟨reply, hreply⟩ := hread y.graph
  rw [hreply] at hgraph
  cases hgraph
  exact ⟨y, rfl, hy, guar_of_rely fun other _ => Rely.refl other y, Rely.refl self y,
    fun w hyw _ => h y hy _ hreply w hyw⟩

omit [LinearOrder D] [LinearOrder F] [DecidableEq V] in
theorem HnswGraph.Formed.lt_of_mem_neighbors {graph : HnswGraph V F} (h : graph.Formed m)
    {ptr lc : Nat} {hc : HnswCandidate Nat F} (hmem : hc ∈ graph.neighbors ptr lc) :
    hc.element < graph.elements.length := by
  unfold HnswGraph.neighbors at hmem
  split at hmem
  · cases hmem
  · next e he =>
    split at hmem
    · cases hmem
    · cases hlayer : e.layers[e.level - lc]? with
      | none => simp [hlayer] at hmem
      | some a =>
        rw [hlayer] at hmem
        exact (h.elements e (List.mem_of_getElem? he)).refers a
          (List.mem_of_getElem? hlayer) hc hmem

def GraphPointer.GoodIn (p : GraphPointer V) (x : MemoryState V F) : Prop :=
  x.graph.pointer? p.ptr = some p

theorem readPointer_keeps (n : Nat) :
    (readPointer n : GraphProgram V F (GraphPointer V)).Keeps (builder ctx m overlap self t)
      (fun p y => p.GoodIn y) x := by
  have hread : (GraphOp.exec (.readElement n)).Keeps
      (builder ctx m overlap self t) (fun r y => ∀ p ∈ r, p.GoodIn y) x := by
    apply read_keeps
    · exact fun graph => ⟨_, rfl⟩
    · intro y _ r hr w hyw p hp
      obtain ⟨rfl, -⟩ := Prod.mk.inj (Option.some.inj hr)
      rw [Option.mem_def] at hp
      have hptr := HnswGraph.ptr_pointer? hp
      exact hyw.grows _ _ (hptr.symm ▸ hp)
  refine hread.bind ?_
  intro r y _ _ hr
  cases r with
  | none => exact .fail fun _ => trivial
  | some p =>
    apply Program.Keeps.ret
    intro z hyz _
    exact Rely.grows hyz _ _ (hr p rfl)

theorem memoryAccess_keeps (q : V) (lc : Nat) :
    AccessKeeps (builder ctx m overlap self t) (memoryAccess ctx.support q lc)
      (fun _ => True) (fun p x => p.GoodIn x)
      (fun n x => n < x.graph.elements.length) where
  stable := fun _ _ => trivial
  good_stable := fun h _ hp => Rely.grows h _ _ hp
  ref_stable := fun h _ hn => (Rely.grows h).lt hn
  loadNeighbors := by
    intro x e trace _ _
    refine .bind (read_keeps (fun graph => ⟨_, rfl⟩) ?_)
      (P := fun items y => ∀ hc ∈ items, hc.element < y.graph.elements.length) ?_
    · intro y hy r hr w hyw hc hmem
      obtain ⟨rfl, -⟩ := Prod.mk.inj (Option.some.inj hr)
      exact hyw.grows.lt (hy.formed.lt_of_mem_neighbors hmem)
    · intro items y _ _ hitems
      apply Program.Keeps.ret
      intro z hyz _ n hn
      obtain ⟨hc, hmem, rfl⟩ := List.mem_map.mp hn
      exact (Rely.grows hyz).lt (hitems hc hmem)
  loadElement := by
    intro x n limit trace _ _
    refine (readPointer_keeps n).bind ?_
    intro p y _ _ hp
    apply Program.Keeps.ret
    rintro z hyz _ e ⟨⟩
    exact Rely.grows hyz _ _ hp
  touchTrace := fun _ _ _ => Program.Keeps.ret fun _ _ _ => trivial
  outOfFuel := fun _ => trivial

theorem memorySearch_keeps (q : V) :
    NeighborSearchKeeps (builder ctx m overlap self t) (ctx.memorySearch q m)
      (fun _ => True) (fun _ p x => p.GoodIn x)
      (fun _ n x => n < x.graph.elements.length) (fun _ => True) where
  access := fun lc => memoryAccess_keeps q lc
  down := id
  removeElements := fun h => ⟨h, trivial⟩

/-! ## Adding the element -/

/--
What an insert knows under the entry lock: the entry point, and with the lock in
exclusive mode what `T` says of the graph.
-/
structure Stage (me : ThreadId) (mode : AccessMode) (entryPoint : Option (GraphPointer V))
    (T : HnswGraph V F → Prop) (x : MemoryState V F) : Prop where
  locks : x.locks.of me = [⟨me, .entryLock, mode⟩]
  entryPoint_eq : x.graph.entryPoint = entryPoint.map GraphPointer.ptr
  good : ∀ p ∈ entryPoint, p.GoodIn x
  topped : mode = .exclusive → T x.graph

namespace Stage

variable {mode : AccessMode} {entryPoint : Option (GraphPointer V)}
  {T T' : HnswGraph V F → Prop}

omit [LinearOrder F] [DecidableEq V]

theorem held (h : Stage self mode entryPoint T x) : ⟨self, .entryLock, mode⟩ ∈ x.locks :=
  LockTable.mem_of_singleton h.locks

theorem rely (h : Stage self mode entryPoint T x) (hxy : Rely self x y) :
    Stage self mode entryPoint T y where
  locks := hxy.locks.trans h.locks
  entryPoint_eq := (hxy.entryPoint h.held).trans h.entryPoint_eq
  good := fun p hp => hxy.grows _ _ (h.good p hp)
  topped := by
    rintro rfl
    rw [hxy.alone h.held]
    exact h.topped rfl

theorem change (h : Stage self mode entryPoint T x) {graph : HnswGraph V F}
    (hgrows : x.graph.Grows graph) (hentry : graph.entryPoint = x.graph.entryPoint)
    (htop : T x.graph → T' graph) :
    Stage self mode entryPoint T' { x with graph := graph } where
  locks := h.locks
  entryPoint_eq := hentry.trans h.entryPoint_eq
  good := fun p hp => hgrows _ _ (h.good p hp)
  topped := fun hmode => htop (h.topped hmode)

theorem entry (h : Stage self mode entryPoint T x) :
    x.graph.entryPoint.bind x.graph.pointer? = entryPoint := by
  rw [h.entryPoint_eq]
  cases entryPoint with
  | none => rfl
  | some p => exact h.good p rfl

end Stage

omit [LinearOrder F] [DecidableEq V] in
theorem newGraphElement_formed {value : V} {heaptid : ItemPointer} {level count : Nat}
    (hvalid : heaptid.isValid = true) (hlevel : level ≤ hnswGetMaxLevel m)
    {layers : List (List (HnswCandidate (GraphPointer V) F))}
    (hlength : layers.length = level + 1)
    (hlayers : LayersOf (fun _ p => p.ptr < count) m layers) :
    (newGraphElement value heaptid level layers).Formed m count where
  level := hlevel
  layers := by simp [newGraphElement, hlength]
  within := by
    rintro ⟨a, i⟩ ha
    rw [List.mem_zipIdx_iff_getElem?] at ha
    simp only [newGraphElement, List.getElem?_map] at ha ⊢
    obtain ⟨layer, hlayer, rfl⟩ := Option.map_eq_some_iff.mp ha
    have hroom := (hlayers.get hlayer).1
    rw [hlength, Nat.add_sub_cancel] at hroom
    rw [List.length_map]
    exact hroom
  refers := by
    intro a ha hc hmem
    obtain ⟨layer, hlayer, rfl⟩ := List.mem_map.mp ha
    obtain ⟨hc₀, hc₀mem, rfl⟩ := List.mem_map.mp hmem
    obtain ⟨i, hi⟩ := List.mem_iff_getElem?.mp hlayer
    exact (hlayers.get hi).2 hc₀ hc₀mem
  heaptids := by simp [newGraphElement, hnswHeaptids]
  nonempty := by simp [newGraphElement]
  valid := by
    intro tid htid
    rw [List.mem_singleton.mp htid]
    exact hvalid

omit [LinearOrder D] [LinearOrder F] in
theorem findDuplicateInMemory_yields (value : V) (heaptid : ItemPointer)
    (neighbors : List (HnswCandidate (GraphPointer V) F)) :
    (findDuplicateInMemory value heaptid neighbors).Yields
      (fun o : GraphOp V F => ∃ ptr, o = .addDuplicate ptr heaptid) fun _ => True := by
  induction neighbors with
  | nil => trivial
  | cons neighbor rest ih =>
    unfold findDuplicateInMemory
    split
    · trivial
    · refine ⟨⟨_, rfl⟩, ?_⟩
      intro added
      cases added with
      | true => trivial
      | false => exact ih

omit [LinearOrder D] [LinearOrder F] [DecidableEq V] in
theorem updateLayerInMemory_yields (ptr m lc : Nat) (neighbors : List (HnswCandidate Nat F)) :
    (updateLayerInMemory ptr m lc neighbors : GraphProgram V F Unit).Yields
      (fun o : GraphOp V F =>
        ∃ n distance, o = .updateConnection n lc ptr distance (hnswGetLayerM m lc))
      fun _ => True := by
  induction neighbors with
  | nil => trivial
  | cons hc rest ih => exact ⟨⟨_, _, rfl⟩, fun _ => ih⟩

/-- The instructions that link the neighbors of the element `ptr` back to it. -/
def LinksBack (m ptr : Nat) (o : GraphOp V F) : Prop :=
  (∃ lc, o = .copyNeighbors ptr lc) ∨
    ∃ n lc distance, o = .updateConnection n lc ptr distance (hnswGetLayerM m lc)

omit [LinearOrder D] [LinearOrder F] [DecidableEq V] in
theorem updateNeighborsInMemory_yields (ptr m layers : Nat) :
    (updateNeighborsInMemory ptr m layers : GraphProgram V F Unit).Yields (LinksBack m ptr)
      fun _ => True := by
  induction layers with
  | zero => trivial
  | succ lc ih =>
    refine ⟨.inl ⟨lc, rfl⟩, ?_⟩
    intro neighbors
    refine ((updateLayerInMemory_yields ptr m lc neighbors).uses_mono ?_).bind fun _ _ => ih
    rintro o ⟨n, distance, rfl⟩
    exact .inr ⟨n, lc, distance, rfl⟩

section Insert

variable {mode : AccessMode} {entryPoint : Option (GraphPointer V)} {value : V}
  {heaptid : ItemPointer} {level ptr : Nat}
  {layers : List (List (HnswCandidate (GraphPointer V) F))}

theorem findDuplicateInMemory_safe (hvalid : heaptid.isValid = true)
    (neighbors : List (HnswCandidate (GraphPointer V) F))
    (hx : Stage self mode entryPoint HnswGraph.Topped x)
    (hlayers : LayersOf (fun _ p => p.GoodIn x) m layers) :
    (findDuplicateInMemory value heaptid neighbors).Safe (builder ctx m overlap self t)
      (fun _ y => Stage self mode entryPoint HnswGraph.Topped y ∧
        LayersOf (fun _ p => p.GoodIn y) m layers) x := by
  refine .mono (Program.Safe.of_yields (J := fun y =>
    Stage self mode entryPoint HnswGraph.Topped y ∧
      LayersOf (fun _ p => p.GoodIn y) m layers) ?_ ?_ (fun _ _ _ _ => trivial)
    (findDuplicateInMemory_yields value heaptid neighbors) ⟨hx, hlayers⟩) fun _ _ _ h => h.2
  · rintro y z hyz ⟨hy, hgood⟩
    exact ⟨hy.rely hyz, hgood.mono fun _ _ hp => Rely.grows hyz _ _ hp⟩
  · rintro y o r s hinv ⟨hy, hgood⟩ - ⟨n, rfl⟩ hexec
    obtain ⟨graph, hgraph, rfl⟩ := builder_exec hexec
    have hadjusts : y.graph.Adjusts m graph := by
      have hadd := HnswGraph.addDuplicate_adjusts (m := m) y.graph n hvalid
      have heq : y.graph.addDuplicate n heaptid = (r, graph) := Option.some.inj hgraph
      rwa [heq] at hadd
    have hok : Invariant m { y with graph := graph } ∧
        (builder ctx m overlap self t).guar y { y with graph := graph } :=
      adjusts_ok hinv hy.held hadjusts
    obtain ⟨hinv', hguar⟩ := hok
    exact ⟨_, rfl, hinv', hguar, hy.change hadjusts.grows hadjusts.entryPoint hadjusts.topped,
      hgood.mono fun _ _ hp => hadjusts.grows _ _ hp⟩

def AddedAt (self : ThreadId) (mode : AccessMode) (entryPoint : Option (GraphPointer V))
    (ptr level : Nat) (x : MemoryState V F) : Prop :=
  Stage self mode entryPoint (fun graph => graph.ToppedAbove level) x ∧
    ∃ p, x.graph.pointer? ptr = some p ∧ p.level = level

theorem updateNeighborsInMemory_safe (layerCount : Nat)
    (hx : AddedAt self mode entryPoint ptr level x) :
    (updateNeighborsInMemory ptr m layerCount).Safe (builder ctx m overlap self t)
      (fun _ y => AddedAt self mode entryPoint ptr level y) x := by
  refine .mono (Program.Safe.of_yields
    (J := AddedAt self mode entryPoint ptr level) ?_ ?_ (fun _ _ _ _ => trivial)
    (updateNeighborsInMemory_yields ptr m layerCount) hx) fun _ _ _ h => h.2
  · rintro y z hyz ⟨hy, p, hp, hlevel⟩
    exact ⟨hy.rely hyz, p, Rely.grows hyz _ _ hp, hlevel⟩
  · rintro y o r s hinv ⟨hy, p, hp, hlevel⟩ - huses hexec
    obtain ⟨graph, hgraph, rfl⟩ := builder_exec hexec
    have hadjusts : y.graph.Adjusts m graph := by
      rcases huses with ⟨lc, rfl⟩ | ⟨n, lc, distance, rfl⟩
      · obtain ⟨-, rfl⟩ := Prod.mk.inj (Option.some.inj hgraph)
        exact .refl m _
      · obtain ⟨-, rfl⟩ := Prod.mk.inj (Option.some.inj hgraph)
        have hlt : ptr < y.graph.elements.length :=
          HnswGraph.pointer?_isSome.mp (by rw [hp]; rfl)
        exact y.graph.updateConnection_adjusts ctx n lc distance hlt
    have hok : Invariant m { y with graph := graph } ∧
        (builder ctx m overlap self t).guar y { y with graph := graph } :=
      adjusts_ok hinv hy.held hadjusts
    obtain ⟨hinv', hguar⟩ := hok
    exact ⟨_, rfl, hinv', hguar,
      hy.change hadjusts.grows hadjusts.entryPoint hadjusts.toppedAbove,
      p, hadjusts.grows _ _ hp, hlevel⟩

theorem addElement_safe {β : Type} {element : GraphElement V F}
    {k : Nat → GraphProgram V F β} {Q : β → MemoryState V F → Prop}
    (hx : Stage self mode entryPoint HnswGraph.Topped x)
    (hlow : mode = .shared → ∃ p, entryPoint = some p ∧ element.level ≤ p.level)
    (hformed : ∀ y, Rely self x y → element.Formed m y.graph.elements.length)
    (hk : ∀ ptr y, AddedAt self mode entryPoint ptr element.level y →
      (k ptr).Safe (builder ctx m overlap self t) Q y) :
    (Program.step (GraphOp.addElement element) k : GraphProgram V F β).Safe
      (builder ctx m overlap self t) Q x := by
  intro y hxy hinv _ r s hexec
  have hy := hx.rely hxy
  obtain ⟨graph, hgraph, rfl⟩ := builder_exec hexec
  cases hgraph
  have hgrows := y.graph.append_grows element
  have hentry : ∀ p ∈ entryPoint,
      Option.bind y.graph.entryPoint (HnswGraph.pointer?
        { y.graph with elements := y.graph.elements ++ [element] }) = some p := by
    intro p hp
    rw [hy.entryPoint_eq, hp]
    exact hgrows _ _ (hy.good p hp)
  have htop : y.graph.Topped → HnswGraph.ToppedAbove
      { y.graph with elements := y.graph.elements ++ [element] } element.level := by
    intro htopped e he
    rcases List.mem_append.mp he with hold | hnew
    · obtain ⟨p, hp, hle⟩ := htopped e hold
      rw [hy.entry] at hp
      exact .inr ⟨p, hentry p hp, hle⟩
    · rw [List.mem_singleton.mp hnew]
      exact .inl (Nat.le_refl _)
  have hok : Invariant m { y with
        graph := { y.graph with elements := y.graph.elements ++ [element] } } ∧
      (builder ctx m overlap self t).guar y { y with
        graph := { y.graph with elements := y.graph.elements ++ [element] } } := by
    refine change_ok hinv hy.held hgrows (hinv.formed.append (hformed y hxy)) (.inl rfl) ?_
    intro hshared htopped e he
    obtain ⟨p, hp, hle⟩ := hlow hshared
    rcases htop htopped e he with hlevel | hcovered
    · exact ⟨p, hentry p hp, hlevel.trans hle⟩
    · exact hcovered
  refine ⟨_, rfl, hok.1, hok.2, hk _ _ ⟨hy.change hgrows rfl htop, ?_⟩⟩
  exact ⟨⟨y.graph.elements.length, element.level, element.value⟩,
    by simp [HnswGraph.pointer?], rfl⟩

theorem setEntryPoint_safe (hx : AddedAt self mode entryPoint ptr level x)
    (hlow : mode = .shared → ∃ p, entryPoint = some p ∧ level ≤ p.level) :
    (setEntryPoint ptr level entryPoint).Safe (builder ctx m overlap self t)
      (fun _ y => y.locks.of self = [⟨self, .entryLock, mode⟩] ∧
        (mode = .exclusive → y.graph.Topped)) x := by
  obtain ⟨hstage, p, hp, hlevel⟩ := hx
  unfold setEntryPoint
  split
  · next hreplaces =>
    intro y hxy hinv _ r s hexec
    obtain ⟨graph, hgraph, rfl⟩ := builder_exec hexec
    cases hgraph
    have hy := hstage.rely hxy
    have hpy := Rely.grows hxy _ _ hp
    have hmode : mode = .exclusive := by
      cases mode with
      | exclusive => rfl
      | shared =>
        obtain ⟨q, rfl, hle⟩ := hlow rfl
        simp only [replacesEntry, Option.map_some, decide_eq_true_eq] at hreplaces
        omega
    subst hmode
    have htopped : HnswGraph.Topped { y.graph with entryPoint := some ptr } := by
      intro e he
      refine ⟨p, hpy, ?_⟩
      rw [hlevel]
      rcases hy.topped rfl e he with hle | ⟨q, hq, hle⟩
      · exact hle
      · rw [hy.entry] at hq
        rw [hq] at hreplaces
        simp only [replacesEntry, Option.map_some, decide_eq_true_eq] at hreplaces
        omega
    have hformed : HnswGraph.Formed m { y.graph with entryPoint := some ptr } := by
      refine ⟨hinv.formed.elements, ?_⟩
      rintro _ ⟨⟩
      have hlt : ptr < y.graph.elements.length :=
        HnswGraph.pointer?_isSome.mp (by rw [hpy]; rfl)
      exact hlt
    have hok : Invariant m { y with graph := { y.graph with entryPoint := some ptr } } ∧
        (builder ctx m overlap self t).guar y
          { y with graph := { y.graph with entryPoint := some ptr } } :=
      change_ok hinv hy.held (fun _ _ h => h) hformed (.inr rfl) fun _ _ => htopped
    refine ⟨_, rfl, hok.1, hok.2, ?_⟩
    intro z hyz _
    refine ⟨(Rely.locks hyz).trans hy.locks, fun _ => ?_⟩
    rw [Rely.alone hyz hy.held]
    exact htopped
  · next hreplaces =>
    intro y hxy _
    have hy := hstage.rely hxy
    refine ⟨hy.locks, fun hmode e he => ?_⟩
    cases hentry : entryPoint with
    | none => simp [hentry, replacesEntry] at hreplaces
    | some q =>
      rw [hentry] at hreplaces
      simp only [replacesEntry, Option.map_some, decide_eq_true_eq, not_lt] at hreplaces
      refine ⟨q, by rw [hy.entry, hentry], ?_⟩
      rcases hy.topped hmode e he with hle | ⟨q', hq', hle⟩
      · exact hle.trans hreplaces
      · rw [hy.entry, hentry] at hq'
        obtain rfl := Option.some.inj hq'
        exact hle

theorem insertFromEntry_safe (hvalid : heaptid.isValid = true) (hlevel : level ≤ hnswGetMaxLevel m)
    (hx : Stage self mode entryPoint HnswGraph.Topped x)
    (hlow : mode = .shared → ∃ p, entryPoint = some p ∧ level ≤ p.level) :
    (insertFromEntry ctx m value heaptid level entryPoint).Safe (builder ctx m overlap self t)
      (fun _ y => y.locks.of self = [⟨self, .entryLock, mode⟩] ∧
        (mode = .exclusive → y.graph.Topped)) x := by
  have hentry : ∀ p ∈ entryPoint.map (memoryEntryCandidate ctx value),
      p.Keeps (builder ctx m overlap self t) (fun r y => r.1.element.GoodIn y) x := by
    intro p hp
    obtain ⟨q, hq, rfl⟩ := Option.map_eq_some_iff.mp hp
    apply Program.Keeps.ret
    intro y hxy _
    exact Rely.grows hxy _ _ (hx.good q hq)
  refine (hnswFindElementNeighbors_keeps (memorySearch_keeps value) level trivial hentry).seq ?_
  intro found y hxy _ hfound
  have hlayers : LayersOf (fun _ p => p.GoodIn y) m found.layers :=
    hfound.layers.mono fun _ _ h => h.1
  refine (findDuplicateInMemory_safe hvalid _ (hx.rely hxy) hlayers).seq ?_
  rintro duplicate z _ ⟨hz, hgood⟩
  cases duplicate with
  | true => exact fun w hzw _ => ⟨(hz.rely hzw).locks, fun hmode => (hz.rely hzw).topped hmode⟩
  | false =>
    refine addElement_safe hz hlow ?_ ?_
    · intro w hzw
      refine newGraphElement_formed hvalid hlevel hfound.length ?_
      refine hgood.mono fun _ p hp => ?_
      have hlt : p.ptr < z.graph.elements.length :=
        HnswGraph.pointer?_isSome.mp (by rw [hp]; rfl)
      exact hzw.grows.lt hlt
    · intro ptr w hw
      refine (updateNeighborsInMemory_safe _ hw).seq ?_
      intro _ u _ hu
      exact setEntryPoint_safe hu hlow

theorem insertLockedInMemory_safe (hvalid : heaptid.isValid = true)
    (hlevel : level ≤ hnswGetMaxLevel m)
    (hx : Stage self mode entryPoint HnswGraph.Topped x)
    (hlow : mode = .shared → ∃ p, entryPoint = some p ∧ level ≤ p.level) :
    (insertLockedInMemory ctx m value heaptid level entryPoint mode).Safe
      (participant ctx m overlap self t) (fun _ y => y.locks.of self = []) x := by
  refine (insertFromEntry_safe hvalid hlevel hx hlow).embed.seq ?_
  rintro _ y _ ⟨hlocks, htop⟩
  have hheld := LockTable.mem_of_singleton hlocks
  refine release_safe ?_ hheld ?_
  · rintro z hyz _ - rfl
    rw [hyz.alone hheld]
    exact htop rfl
  · intro z hyz _ w hzw _
    rw [Rely.locks hzw, LockTable.of_release_self, hyz.locks, hlocks]
    simp [LockTable.release]

theorem getEntryPoint_safe {β : Type} {k : Option (GraphPointer V) → MemoryProgram V F β}
    {Q : β → MemoryState V F → Prop}
    (hlocks : x.locks.of self = [⟨self, .entryLock, mode⟩])
    (htop : mode = .exclusive → x.graph.Topped)
    (hk : ∀ entryPoint y, Stage self mode entryPoint HnswGraph.Topped y →
      (k entryPoint).Safe (participant ctx m overlap self t) Q y) :
    (Program.step (MemoryOp.graph .getEntryPoint) k : MemoryProgram V F β).Safe
      (participant ctx m overlap self t) Q x := by
  intro y hxy hy _ r s hexec
  cases hexec
  have hheld := LockTable.mem_of_singleton hlocks
  refine ⟨y, rfl, hy, guar_of_rely fun other _ => Rely.refl other y, hk _ y ?_⟩
  refine ⟨(Rely.locks hxy).trans hlocks, ?_, ?_, ?_⟩
  · exact hy.formed.entryPoint_eq
  · intro p hp
    obtain ⟨ptr, -, hp⟩ := Option.bind_eq_some_iff.mp hp
    have hgood : y.graph.pointer? p.ptr = some p := by
      rw [HnswGraph.ptr_pointer? hp]
      exact hp
    exact hgood
  · rintro rfl
    rw [Rely.alone hxy hheld]
    exact htop rfl

theorem insertTupleInMemoryAmong_safe (hvalid : heaptid.isValid = true)
    (hlevel : level ≤ hnswGetMaxLevel m) (hx : x.locks.of self = []) :
    (insertTupleInMemoryAmong ctx m value heaptid level).Safe
      (participant ctx m overlap self t) (fun _ y => y.locks.of self = []) x := by
  refine acquire_safe ?_
  intro y hxy _ _
  refine release_safe (by simp) (List.mem_cons_self ..) ?_
  intro z hyz _
  refine acquire_safe ?_
  intro w hzw _ _
  have hw : w.locks.of self = [] := by
    rw [Rely.locks hzw, LockTable.of_release_self, hyz.locks, LockTable.of_cons, hxy.locks, hx]
    simp [LockTable.release]
  have hshared : LockTable.of (⟨self, .entryLock, .shared⟩ :: w.locks) self =
      [⟨self, .entryLock, .shared⟩] := by
    rw [LockTable.of_cons, hw]
    simp
  refine getEntryPoint_safe hshared (by simp) ?_
  intro entryPoint u hu
  change Program.Safe _ (if _ then _ else _) _ _
  split
  · refine release_safe (by simp) hu.held ?_
    intro y₁ hy₁ _
    refine acquire_safe ?_
    intro y₂ hy₂ _ _
    refine acquire_safe ?_
    intro y₃ hy₃ hinv₃ hfree
    refine release_safe (by simp) ?_ ?_
    · refine List.mem_cons_of_mem _ (hy₃.held (List.mem_cons_self ..))
    · intro y₄ hy₄ _
      have hexclusive : LockTable.of (y₄.locks.release self .entryWaitLock .exclusive) self =
          [⟨self, .entryLock, .exclusive⟩] := by
        rw [LockTable.of_release_self, hy₄.locks, LockTable.of_cons, hy₃.locks,
          LockTable.of_cons, hy₂.locks, LockTable.of_release_self, hy₁.locks, hu.locks]
        simp [LockTable.release]
      refine getEntryPoint_safe hexclusive ?_ ?_
      · -- nobody held the entry lock when it was granted
        intro _
        have htop : y₃.graph.Topped := by
          apply hinv₃.topped
          intro held hheld hlock
          exact (LockTable.conflicts_eq_false.mp hfree held hheld hlock).2
        have hsame : y₄.graph = y₃.graph := hy₄.alone (List.mem_cons_self ..)
        rw [hsame]
        exact htop
      · intro entryPoint' y₅ hy₅
        exact insertLockedInMemory_safe hvalid hlevel hy₅ (by simp)
  · next hreplaces =>
    refine insertLockedInMemory_safe hvalid hlevel hu ?_
    intro _
    cases entryPoint with
    | none => simp [replacesEntry] at hreplaces
    | some p =>
      simp only [replacesEntry, Option.map_some, decide_eq_true_eq, not_lt] at hreplaces
      exact ⟨p, rfl, hreplaces⟩

end Insert

variable (ctx m overlap) in
theorem memoryArgument_sound : (memoryArgument ctx m overlap).Sound where
  start := fun _ _ _ _ _ _ => trivial
  program := by
    intro i t x hvalid _ hrest
    exact insertTupleInMemoryAmong_safe hvalid (Nat.min_le_right ..) hrest
  finish := by
    intro i t x hx hpost
    exact ⟨_, rfl, ⟨hx.locks, hx.formed, hx.topped⟩, hpost,
      fun j _ _ _ => ⟨rfl, HnswGraph.Grows.refl _, fun _ => rfl, fun _ => rfl⟩,
      fun _ _ hrest => hrest⟩
  abort := fun _ _ _ h => h.elim

theorem memory_reaches {pool : Pool (memorySignature V F) (MemoryState V F) (MemoryInsert V)}
    (hreach : (memorySystem ctx m overlap).Reaches (Pool.idle .init) pool) :
    Invariant m pool.shared ∧ ∀ i, pool.threads i = none → pool.shared.locks.of i = [] := by
  have hinit : (memoryArgument ctx m overlap).Holds (Pool.idle (.init : MemoryState V F))
      .init := by
    apply System.Argument.holds_idle
    · refine ⟨List.Pairwise.nil, ⟨?_, ?_⟩, fun _ => ?_⟩ <;> simp [HnswGraph.init, HnswGraph.Topped]
    · exact fun _ => rfl
  obtain ⟨y, hy⟩ := (memoryArgument_sound ctx m overlap).reaches hinit hreach
  have hshared : y = pool.shared := hy.shared
  subst hshared
  exact ⟨hy.inv, hy.resting⟩

end Argument

end PgVector.Hnsw
