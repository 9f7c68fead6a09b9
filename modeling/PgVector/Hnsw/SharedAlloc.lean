import PgVector.Hnsw.Page
import PgVector.Types.Half

/-!
# The shared area of a parallel build

`InsertTuple` tests once, with a margin of 1 MB, whether the graph still fits into the
shared area, and then allocates the element, its neighbour list, one array per layer and
the value.  The allocator lock is held from the test on, so that the inserts of all
participants happen one after the other.  Sizes are unsigned numbers of 64 bits.
-/

namespace PgVector.Hnsw

open PgVector.Types (PgError errorIf)

/-! ## The allocator -/

structure SharedArea where
  base : Nat
  size : Nat
  size_lt : size < 2 ^ 64
  base_mod : base % 8 = 0

/-- The part of the graph that concerns memory. -/
structure SharedGraph where
  memoryUsed : Nat
  memoryTotal : Nat
  flushed : Bool
  deriving DecidableEq

def hnswMaxGraphMemory : Nat := (2 ^ 64 - 1) / 2

def initGraph (area : SharedArea) : SharedGraph :=
  ⟨0, min area.size hnswMaxGraphMemory, false⟩

abbrev SharedAlloc := StateT SharedGraph (Except PgError)

def allocationTooLarge : PgError where
  errcode := .internalError
  errmsg := "hnsw allocation too large"

def allocatorOutOfMemory : PgError where
  errcode := .internalError
  errmsg := "hnsw allocator out of memory"

def sizeAdd (a b : Nat) : Nat := (a + b) % 2 ^ 64

variable (area : SharedArea)

def hnswSharedMemoryAlloc (size : Nat) : SharedAlloc Nat := do
  let graph ← get
  let alignedSize := maxAlign size
  errorIf (alignedSize > 1024 * 1024) allocationTooLarge
  errorIf (sizeAdd graph.memoryUsed alignedSize > graph.memoryTotal) allocatorOutOfMemory
  let chunk := area.base + graph.memoryUsed
  set { graph with memoryUsed := sizeAdd graph.memoryUsed alignedSize }
  return chunk

/-- `sizeof(HnswElementData)`. -/
def sizeOfElementData : Nat := 128

/-- `sizeof(HnswNeighborArrayPtr)`. -/
def sizeOfNeighborArrayPtr : Nat := 8

/-- `offsetof(HnswNeighborArray, items)` and `sizeof(HnswCandidate)`. -/
def hnswNeighborArraySize (lm : Nat) : Nat := 8 + 16 * lm

def hnswInitNeighborArray (lm : Nat) : SharedAlloc Nat :=
  hnswSharedMemoryAlloc area (hnswNeighborArraySize lm)

/-- An element in the area: where it is, and what it points to. -/
structure SharedElement where
  address : Nat
  level : Nat
  neighborList : Nat
  neighbors : List Nat
  value : Option Nat
  deriving DecidableEq

/-- The list, and the array of each layer that is stored in it. -/
def hnswInitNeighbors (level m : Nat) : SharedAlloc (Nat × List Nat) := do
  let neighborList ← hnswSharedMemoryAlloc area (sizeOfNeighborArrayPtr * (level + 1))
  let neighbors ← (List.range (level + 1)).mapM fun lc =>
    hnswInitNeighborArray area (hnswGetLayerM m lc)
  return (neighborList, neighbors)

def hnswInitElement (m maxLevel drawn : Nat) : SharedAlloc SharedElement := do
  let address ← hnswSharedMemoryAlloc area sizeOfElementData
  let level := min drawn maxLevel % 256
  let (neighborList, neighbors) ← hnswInitNeighbors area level m
  return ⟨address, level, neighborList, neighbors, none⟩

/-! ## Inserts -/

inductive IndexedValue where
  | vector (dim : Nat)
  | halfvec (dim : Nat)
  | bit (bitlen : Nat)
  | sparsevec (nnz : Nat)

namespace IndexedValue

def size : IndexedValue → Nat
  | vector dim => 8 + 4 * dim
  | halfvec dim => 8 + 2 * dim
  | bit bitlen => (bitlen + 7) / 8 + 8
  | sparsevec nnz => 16 + nnz * 4 + nnz * 4

def hnswMaxDim : Nat := 2000

def hnswMaxNnz : Nat := 1000

def Indexable : IndexedValue → Prop
  | vector dim => dim ≤ hnswMaxDim
  | halfvec dim => dim ≤ hnswMaxDim * 2
  | bit bitlen => bitlen ≤ hnswMaxDim * 32
  | sparsevec nnz => nnz ≤ hnswMaxNnz

theorem size_le {value : IndexedValue} (h : value.Indexable) : value.size ≤ 8016 := by
  cases value <;> simp only [Indexable, hnswMaxDim, hnswMaxNnz] at h <;> simp only [size] <;> omega

end IndexedValue

/-- A call: the random level and the value. -/
structure InsertCall where
  drawn : Nat
  value : IndexedValue
  indexable : value.Indexable

/-- The element, or none if the tuple goes to the index on disk. -/
def insertTuple (m : Nat) (call : InsertCall) : SharedAlloc (Option SharedElement) := do
  let graph ← get
  let memoryMargin := 1024 * 1024
  if graph.flushed then return none
  else if sizeAdd graph.memoryUsed memoryMargin ≥ graph.memoryTotal then
    set { graph with flushed := true }
    return none
  else do
    let element ← hnswInitElement area m (hnswGetMaxLevel m) call.drawn
    let valuePtr ← hnswSharedMemoryAlloc area call.value.size
    return some { element with value := some valuePtr }

def insertTuples (m : Nat) (calls : List InsertCall) :
    Except PgError (List (Option SharedElement) × SharedGraph) :=
  (calls.mapM (insertTuple area m)).run (initGraph area)

/-! ## Chunks -/

/-- What an element points to, with the sizes that were asked for. -/
def SharedElement.chunks (m : Nat) (value : IndexedValue) (element : SharedElement) :
    List (Nat × Nat) :=
  (element.address, sizeOfElementData) ::
    (element.neighborList, sizeOfNeighborArrayPtr * (element.level + 1)) ::
    (List.zipWith (fun a lc => (a, hnswNeighborArraySize (hnswGetLayerM m lc)))
        element.neighbors (List.range (element.level + 1)) ++
      (element.value.map fun v => (v, value.size)).toList)

def insertedChunks (m : Nat) (call : InsertCall) (inserted : Option SharedElement) :
    List (Nat × Nat) :=
  inserted.elim [] (SharedElement.chunks m call.value)

/-- Chunks from `first` to `last` in the area, one after the other. -/
structure Laid (first last : Nat) (chunks : List (Nat × Nat)) : Prop where
  le : first ≤ last
  aligned : ∀ chunk ∈ chunks, chunk.1 % 8 = 0
  inside : ∀ chunk ∈ chunks, area.base + first ≤ chunk.1 ∧ chunk.1 + chunk.2 ≤ area.base + last
  disjoint : chunks.Pairwise fun earlier later => earlier.1 + earlier.2 ≤ later.1

theorem Laid.nil (used : Nat) : Laid area used used [] := ⟨le_rfl, by simp, by simp, .nil⟩

variable {area} in
theorem Laid.append {first middle last : Nat} {chunks chunks' : List (Nat × Nat)}
    (h : Laid area first middle chunks) (h' : Laid area middle last chunks') :
    Laid area first last (chunks ++ chunks') := by
  have hle := h.le
  have hle' := h'.le
  refine ⟨hle.trans hle', List.forall_mem_append.mpr ⟨h.aligned, h'.aligned⟩,
    List.forall_mem_append.mpr ⟨fun c hc => ?_, fun c hc => ?_⟩,
    List.pairwise_append.mpr ⟨h.disjoint, h'.disjoint, fun c hc c' hc' => ?_⟩⟩
  · have := h.inside c hc
    omega
  · have := h'.inside c hc
    omega
  · have := h.inside c hc
    have := h'.inside c' hc'
    omega

/-! ## Room -/

structure SharedGraph.Sound (graph : SharedGraph) : Prop where
  used_mod : graph.memoryUsed % 8 = 0
  total_le : graph.memoryTotal ≤ min area.size hnswMaxGraphMemory
  used_le : graph.memoryUsed ≤ graph.memoryTotal

/-- With room for `need` bytes the action succeeds, and `Q` says which chunks it has laid. -/
def Needs {α : Type} (need : Nat) (action : SharedAlloc α)
    (Q : α → List (Nat × Nat) → Prop) : Prop :=
  ∀ graph : SharedGraph, graph.Sound area → graph.memoryUsed + need ≤ graph.memoryTotal →
    ∃ a next chunks, action.run graph = .ok (a, next) ∧ next.Sound area ∧
      next.memoryTotal = graph.memoryTotal ∧ next.memoryUsed ≤ graph.memoryUsed + need ∧
      Laid area graph.memoryUsed next.memoryUsed chunks ∧ Q a chunks

section Needs

variable {area} {α β : Type} {need need' : Nat} {P : α → List (Nat × Nat) → Prop}
  {Q : β → List (Nat × Nat) → Prop}

theorem Needs.pure {a : α} (h : P a []) : Needs area 0 (pure a) P :=
  fun graph hgraph _ => ⟨a, graph, [], rfl, hgraph, rfl, le_rfl, .nil area _, h⟩

theorem Needs.bind {action : SharedAlloc α} {next : α → SharedAlloc β}
    (h : Needs area need action P)
    (hnext : ∀ a chunks, P a chunks →
      Needs area need' (next a) fun b chunks' => Q b (chunks ++ chunks')) :
    Needs area (need + need') (action >>= next) Q := by
  intro graph hgraph hroom
  obtain ⟨a, middle, chunks, hrun, hmiddle, htotal, hused, hlaid, ha⟩ :=
    h graph hgraph (by omega)
  obtain ⟨b, last, chunks', hrun', hlast, htotal', hused', hlaid', hb⟩ :=
    hnext a chunks ha middle hmiddle (by omega)
  refine ⟨b, last, chunks ++ chunks', ?_, hlast, htotal'.trans htotal, by omega,
    hlaid.append hlaid', hb⟩
  rw [StateT.run_bind, hrun]
  exact hrun'

theorem Needs.mapM {xs : List β} {action : β → SharedAlloc Nat} {needs size : β → Nat}
    (h : ∀ x, Needs area (needs x) (action x) fun a chunks => chunks = [(a, size x)]) :
    Needs area (xs.map needs).sum (xs.mapM action) fun as chunks =>
      as.length = xs.length ∧ chunks = List.zipWith (fun a x => (a, size x)) as xs := by
  induction xs with
  | nil => exact .pure ⟨rfl, rfl⟩
  | cons x xs ih =>
    rw [List.mapM_cons]
    refine (h x).bind fun a chunks ha => ?_
    refine Needs.bind ih fun as chunks' has => .pure ?_
    simp [ha, has.1, has.2]

theorem Needs.mono {action : SharedAlloc α} (hle : need ≤ need') (h : Needs area need action P) :
    Needs area need' action P := by
  intro graph hgraph hroom
  obtain ⟨a, next, chunks, hrun, hnext, htotal, hused, hrest⟩ := h graph hgraph (by omega)
  exact ⟨a, next, chunks, hrun, hnext, htotal, by omega, hrest⟩

theorem hnswSharedMemoryAlloc_needs {size : Nat} (h : maxAlign size ≤ 1024 * 1024) :
    Needs area (maxAlign size) (hnswSharedMemoryAlloc area size)
      fun a chunks => chunks = [(a, size)] := by
  intro graph hgraph hroom
  have hle := le_maxAlign size
  have hlimit : graph.memoryTotal ≤ hnswMaxGraphMemory := (le_min_iff.mp hgraph.total_le).2
  have hmax : hnswMaxGraphMemory = 2 ^ 63 - 1 := rfl
  have hadd : sizeAdd graph.memoryUsed (maxAlign size) = graph.memoryUsed + maxAlign size :=
    Nat.mod_eq_of_lt (by omega)
  have hused := hgraph.used_mod
  have hbase := area.base_mod
  have hmod := maxAlign_mod size
  refine ⟨area.base + graph.memoryUsed,
    { graph with memoryUsed := graph.memoryUsed + maxAlign size }, _, ?_,
    ⟨by dsimp only; omega, hgraph.total_le, hroom⟩, rfl, le_rfl, ?_, rfl⟩
  · have hsmall : errorIf (maxAlign size > 1024 * 1024) allocationTooLarge = .ok () :=
      if_neg (not_lt.mpr h)
    have hfits : errorIf (graph.memoryTotal < graph.memoryUsed + maxAlign size)
        allocatorOutOfMemory = .ok () := if_neg (not_lt.mpr hroom)
    simp [hnswSharedMemoryAlloc, hsmall, hfits, hadd]
    rfl
  · refine ⟨Nat.le_add_right .., ?_, ?_, List.pairwise_singleton ..⟩
    · exact List.forall_mem_singleton.mpr (by dsimp only; omega)
    · exact List.forall_mem_singleton.mpr (by dsimp only; omega)

theorem hnswInitNeighborArray_needs {lm : Nat} (h : lm ≤ 2716) :
    Needs area (8 + 16 * lm) (hnswInitNeighborArray area lm)
      fun a chunks => chunks = [(a, hnswNeighborArraySize lm)] := by
  have hsize : maxAlign (hnswNeighborArraySize lm) = 8 + 16 * lm :=
    maxAlign_of_mod (by rw [hnswNeighborArraySize]; omega)
  rw [← hsize]
  exact hnswSharedMemoryAlloc_needs (by omega)

theorem sum_neighborArrays (level m : Nat) :
    ((List.range (level + 1)).map fun lc => 8 + 16 * hnswGetLayerM m lc).sum =
      8 * (level + 1) + 16 * ((level + 2) * m) := by
  induction level with
  | zero =>
    simp [hnswGetLayerM]
    omega
  | succ level ih =>
    rw [List.range_succ, List.map_append, List.sum_append, ih]
    simp only [hnswGetLayerM, List.map_cons, List.map_nil, List.sum_cons, List.sum_nil,
      Nat.add_eq_zero_iff, one_ne_zero, and_false, if_false]
    ring

theorem hnswInitNeighbors_needs {level m : Nat} (hlevel : level ≤ 255)
    (hm : (level + 2) * m ≤ 1358) :
    Needs area (8 * (level + 1) + (8 * (level + 1) + 16 * ((level + 2) * m)))
      (hnswInitNeighbors area level m) fun r chunks => r.2.length = level + 1 ∧
        chunks = (r.1, sizeOfNeighborArrayPtr * (level + 1)) ::
          List.zipWith (fun a lc => (a, hnswNeighborArraySize (hnswGetLayerM m lc))) r.2
            (List.range (level + 1)) := by
  have hlist : maxAlign (sizeOfNeighborArrayPtr * (level + 1)) = 8 * (level + 1) :=
    maxAlign_of_mod (Nat.mul_mod_right 8 _)
  have hlayer : ∀ lc, hnswGetLayerM m lc ≤ 2716 := by
    have hm' : m * 2 ≤ (level + 2) * m := by
      rw [Nat.mul_comm]
      exact Nat.mul_le_mul_right m (Nat.le_add_left 2 level)
    intro lc
    unfold hnswGetLayerM
    split <;> omega
  rw [← sum_neighborArrays, ← hlist]
  refine (hnswSharedMemoryAlloc_needs (by omega)).bind fun list chunks hchunks => ?_
  refine (Needs.mapM fun lc => hnswInitNeighborArray_needs (hlayer lc)).bind
    fun as chunks' has => .pure ?_
  simp [hchunks, has.1, has.2]

theorem hnswInitElement_needs {m drawn : Nat} (hmax : 2 ≤ 1358 / m) :
    Needs area 25952 (hnswInitElement area m (hnswGetMaxLevel m) drawn) fun element chunks =>
      element.level = min drawn (hnswGetMaxLevel m) ∧
        element.neighbors.length = element.level + 1 ∧ element.value = none ∧
        ∀ value, chunks = element.chunks m value := by
  have hlevel : min drawn (hnswGetMaxLevel m) ≤ hnswGetMaxLevel m := min_le_right _ _
  have hbyte : hnswGetMaxLevel m ≤ 255 := min_le_right _ _
  have hslots := layers_mul_le hmax hlevel
  rw [hnswInitElement, Nat.mod_eq_of_lt (by omega)]
  refine Needs.mono ?_ ((hnswSharedMemoryAlloc_needs (by decide)).bind fun a chunks ha =>
    (hnswInitNeighbors_needs (by omega) hslots).bind fun r chunks' hr => .pure
      ⟨rfl, hr.1, rfl, fun value => by simp [ha, hr.2, SharedElement.chunks]⟩)
  change 128 + _ ≤ _
  omega

end Needs

/-! ## Builds -/

variable {area} {m : Nat}

/-- An insert in memory has a chunk for each layer and four more. -/
def Inserted (m : Nat) (call : InsertCall) (inserted : Option SharedElement) : Prop :=
  ∀ element ∈ inserted, element.level = min call.drawn (hnswGetMaxLevel m) ∧
    (element.chunks m call.value).length = element.level + 4

theorem insertTuple_sound (hmax : 2 ≤ 1358 / m) (call : InsertCall) {graph : SharedGraph}
    (h : graph.Sound area) :
    ∃ inserted next, (insertTuple area m call).run graph = .ok (inserted, next) ∧
      next.Sound area ∧ Inserted m call inserted ∧
      Laid area graph.memoryUsed next.memoryUsed (insertedChunks m call inserted) := by
  have hlimit : graph.memoryTotal ≤ hnswMaxGraphMemory := (le_min_iff.mp h.total_le).2
  have hdef : hnswMaxGraphMemory = 2 ^ 63 - 1 := rfl
  have hused := h.used_le
  have hadd : sizeAdd graph.memoryUsed (1024 * 1024) = graph.memoryUsed + 1024 * 1024 :=
    Nat.mod_eq_of_lt (by omega)
  have hdisk : Inserted m call none := by simp [Inserted]
  by_cases hflushed : graph.flushed = true
  · refine ⟨none, graph, ?_, h, hdisk, .nil area _⟩
    simp [insertTuple, hflushed]
    rfl
  by_cases hfull : graph.memoryTotal ≤ graph.memoryUsed + 1024 * 1024
  · refine ⟨none, { graph with flushed := true }, ?_, ⟨h.used_mod, h.total_le, h.used_le⟩, hdisk,
      .nil area _⟩
    simp [insertTuple, hflushed, hadd, hfull]
    rfl
  · have hsize := IndexedValue.size_le call.indexable
    have hvalue : maxAlign call.value.size ≤ 8016 := by
      unfold maxAlign
      omega
    have hneeds : Needs area (25952 + (maxAlign call.value.size + 0)) (do
        let element ← hnswInitElement area m (hnswGetMaxLevel m) call.drawn
        let valuePtr ← hnswSharedMemoryAlloc area call.value.size
        return some { element with value := some valuePtr })
        fun inserted chunks => Inserted m call inserted ∧
          chunks = insertedChunks m call inserted := by
      refine (hnswInitElement_needs hmax).bind fun element chunks helement => ?_
      refine (hnswSharedMemoryAlloc_needs (by omega)).bind fun v chunks' hv => .pure ?_
      obtain ⟨hlevel, hlength, hnone, hchunks⟩ := helement
      refine ⟨?_, by simp [hv, hchunks call.value, insertedChunks, SharedElement.chunks, hnone]⟩
      rintro _ ⟨⟩
      exact ⟨hlevel, by simp [SharedElement.chunks, hlength]⟩
    obtain ⟨inserted, next, _, hrun, hnext, -, -, hlaid, hinserted, rfl⟩ :=
      hneeds graph h (by omega)
    refine ⟨inserted, next, ?_, hnext, hinserted, hlaid⟩
    rw [← hrun]
    simp [insertTuple, hflushed, hadd, hfull]

theorem insertTuples_sound (hmax : 2 ≤ 1358 / m) (calls : List InsertCall)
    {graph : SharedGraph} (h : graph.Sound area) :
    ∃ inserted next, (calls.mapM (insertTuple area m)).run graph = .ok (inserted, next) ∧
      next.Sound area ∧ List.Forall₂ (Inserted m) calls inserted ∧
      Laid area graph.memoryUsed next.memoryUsed
        (List.zipWith (insertedChunks m) calls inserted).flatten := by
  induction calls generalizing graph with
  | nil => exact ⟨[], graph, rfl, h, .nil, .nil area _⟩
  | cons call calls ih =>
    obtain ⟨first, middle, hrun, hmiddle, hfirst, hlaid⟩ := insertTuple_sound hmax call h
    obtain ⟨rest, next, hrun', hnext, hrest, hlaid'⟩ := ih hmiddle
    refine ⟨first :: rest, next, ?_, hnext, .cons hfirst hrest, hlaid.append hlaid'⟩
    rw [List.mapM_cons, StateT.run_bind, hrun]
    change (calls.mapM (insertTuple area m)).run middle >>= _ = _
    rw [hrun']
    rfl

theorem initGraph_sound (area : SharedArea) : (initGraph area).Sound area :=
  ⟨rfl, le_rfl, Nat.zero_le _⟩

/--
For every build: the run ends without an error.  An insert in memory has got its element,
its neighbor list, an array for each layer and its value, and all these chunks of all
inserts are aligned, inside the area and one behind the other.
-/
theorem shared_allocator_never_fails (area : SharedArea) {m : Nat} (hmin : 2 ≤ m)
    (hmax : m ≤ 100) (calls : List InsertCall) :
    ∃ inserted graph, insertTuples area m calls = .ok (inserted, graph) ∧
      List.Forall₂ (Inserted m) calls inserted ∧
      (∀ chunk ∈ (List.zipWith (insertedChunks m) calls inserted).flatten,
        chunk.1 % 8 = 0 ∧ area.base ≤ chunk.1 ∧ chunk.1 + chunk.2 ≤ area.base + area.size) ∧
      (List.zipWith (insertedChunks m) calls inserted).flatten.Pairwise
        fun earlier later => earlier.1 + earlier.2 ≤ later.1 := by
  have hdiv : 2 ≤ 1358 / m := (Nat.le_div_iff_mul_le (by omega)).mpr (by omega)
  obtain ⟨inserted, graph, hrun, hgraph, hinserted, hlaid⟩ :=
    insertTuples_sound hdiv calls (initGraph_sound area)
  refine ⟨inserted, graph, hrun, hinserted, fun chunk hchunk => ?_, hlaid.disjoint⟩
  have hinside := hlaid.inside chunk hchunk
  have hused := hgraph.used_le
  have htotal := hgraph.total_le
  exact ⟨hlaid.aligned chunk hchunk, by omega, by omega⟩

def smallArea : SharedArea := ⟨4096, 1049000, by decide, by decide⟩

def twoCalls : List InsertCall :=
  [⟨1, .vector 3, (by decide : 3 ≤ 2000)⟩, ⟨0, .sparsevec 1000, (by decide : 1000 ≤ 1000)⟩]

/-- With room for one element besides the margin, the second insert goes to disk. -/
theorem shared_allocator_never_fails_small :
    insertTuples smallArea 16 twoCalls =
        .ok ([some ⟨4096, 1, 4224, [4240, 4760], some 5024⟩, none], ⟨952, 1049000, true⟩) ∧
      ([(4096, 128), (4224, 16), (4240, 520), (4760, 264), (5024, 20)] :
        List (Nat × Nat)).Pairwise fun earlier later => earlier.1 + earlier.2 ≤ later.1 := by
  obtain ⟨inserted, graph, hrun, -, -, hdisjoint⟩ := shared_allocator_never_fails smallArea
    (m := 16) (by decide) (by decide) twoCalls
  have hsmall : insertTuples smallArea 16 twoCalls =
      .ok ([some ⟨4096, 1, 4224, [4240, 4760], some 5024⟩, none], ⟨952, 1049000, true⟩) := rfl
  obtain ⟨rfl, -⟩ := Prod.mk.inj (Except.ok.inj (hrun.symm.trans hsmall))
  exact ⟨hsmall, hdisjoint⟩

end PgVector.Hnsw
