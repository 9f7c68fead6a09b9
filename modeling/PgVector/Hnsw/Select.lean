import PgVector.Hnsw.Search

/-!
# Choosing neighbors

The heuristic that picks the neighbors of an element among candidates, and the
search of the graph that collects the candidates.  Both are shared by the build
in memory and by inserts on disk.  Distances that are kept with a neighbor are
`float`s of a type `F`; distances of a search are `double`s of a type `D`.
-/

namespace PgVector.Hnsw

open Foundation

structure HnswCandidate (E F : Type) where
  element : E
  distance : F
  closer : Bool
  deriving DecidableEq, Repr

structure HnswNeighborArray (E F : Type) where
  items : List (HnswCandidate E F)
  closerSet : Bool
  deriving DecidableEq, Repr

/-- A candidate with its position in the list given to `SelectNeighbors`. -/
structure ListedCandidate (E F : Type) extends HnswCandidate E F where
  pos : Nat
  deriving DecidableEq, Repr

structure Selection (E F : Type) where
  distance : E → E → F
  /-- The address of an element breaks ties and decides `HnswPtrEqual`. -/
  pointer : E → Nat

structure SelectState (E F : Type) where
  r : List (ListedCandidate E F)
  wd : List (ListedCandidate E F)
  added : List (ListedCandidate E F)
  removedAny : Bool

structure SelectResult (E F : Type) where
  neighbors : List (ListedCandidate E F)
  pruned : Option (ListedCandidate E F)
  /-- Every candidate, with the flag that was left in it. -/
  candidates : List (ListedCandidate E F)
  closerSet : Bool

section Select

variable {E F : Type} [LinearOrder F] (sel : Selection E F)

/-- `CompareCandidateDistances`: furthest first, then by address. -/
def compareCandidateDistances (a b : ListedCandidate E F) : Bool :=
  decide (b.distance < a.distance) ||
    (decide (a.distance = b.distance) && decide (sel.pointer b.element ≤ sel.pointer a.element))

def checkElementCloser (e : ListedCandidate E F) (r : List (ListedCandidate E F)) : Bool :=
  r.all fun ri => decide (e.distance < sel.distance e.element ri.element)

def nextCloser (mustCalculate : Bool) (newCandidate : Option Nat) (st : SelectState E F)
    (e : ListedCandidate E F) : Bool :=
  if mustCalculate then checkElementCloser sel e st.r
  else if !st.added.isEmpty then
    -- a closer candidate is compared only with what was added
    if e.closer then checkElementCloser sel e st.added
    -- another one may be closer now that something was removed
    else if st.removedAny then checkElementCloser sel e st.r
    else false
  else if newCandidate = some e.pos then checkElementCloser sel e st.r
  else e.closer

def isAddedCloser (mustCalculate : Bool) (newCandidate : Option Nat)
    (st : SelectState E F) (e : ListedCandidate E F) : Bool :=
  if mustCalculate then false
  else if !st.added.isEmpty then !e.closer && st.removedAny
  else decide (newCandidate = some e.pos)

def selectTurn (mustCalculate : Bool) (newCandidate : Option Nat) (st : SelectState E F)
    (e : ListedCandidate E F) : SelectState E F :=
  let closer := nextCloser sel mustCalculate newCandidate st e
  let e' := { e with closer := closer }
  let st' : SelectState E F :=
    { st with
      added :=
        if closer && isAddedCloser mustCalculate newCandidate st e then
          st.added ++ [e']
        else st.added
      removedAny := st.removedAny ||
        (!mustCalculate && !st.added.isEmpty && e.closer && !closer) }
  if closer then { st' with r := st.r ++ [e'] } else { st' with wd := st.wd ++ [e'] }

/-- The loop; `w` is given nearest first, and what is left of it is returned. -/
def selectLoop (lm : Nat) (mustCalculate : Bool) (newCandidate : Option Nat) :
    List (ListedCandidate E F) → SelectState E F → List (ListedCandidate E F) × SelectState E F
  | [], st => ([], st)
  | e :: w, st =>
    if st.r.length < lm then
      selectLoop lm mustCalculate newCandidate w
        (selectTurn sel mustCalculate newCandidate st e)
    else (e :: w, st)

def listCandidates (c : List (HnswCandidate E F)) : List (ListedCandidate E F) :=
  c.zipIdx.map fun (candidate, pos) => { candidate with pos := pos }

def shrinkNeighbors (w : List (ListedCandidate E F))
    (lm : Nat) (closerSet : Bool) (newCandidate : Option Nat)
    (sortCandidates : Bool) : SelectResult E F :=
  let w := if sortCandidates then w.mergeSort (compareCandidateDistances sel) else w
  let loop := selectLoop sel lm (!closerSet) newCandidate w.reverse
    { r := [], wd := [], added := [], removedAny := false }
  let rest := loop.1
  let st := loop.2
  -- keep pruned connections
  let wdoff := min st.wd.length (lm - st.r.length)
  { neighbors := st.r ++ st.wd.take wdoff
    pruned := (st.wd[wdoff]?).or rest.getLast?
    candidates := st.r ++ st.wd ++ rest
    closerSet := sortCandidates }

def selectNeighbors (c : List (HnswCandidate E F)) (lm : Nat)
    (closerSet : Bool) (newCandidate : Option Nat) (sortCandidates : Bool) :
    SelectResult E F :=
  let w := listCandidates c
  if w.length ≤ lm then
    { neighbors := w, pruned := none, candidates := w, closerSet := closerSet }
  else shrinkNeighbors sel w lm closerSet newCandidate sortCandidates

def SelectResult.flagged (result : SelectResult E F) (pos : Nat)
    (candidate : HnswCandidate E F) : HnswCandidate E F :=
  match result.candidates.find? fun e => e.pos == pos with
  | none => candidate
  | some e => e.toHnswCandidate

def SelectResult.flagItems (result : SelectResult E F)
    (neighbors : HnswNeighborArray E F) : HnswNeighborArray E F where
  items := neighbors.items.mapIdx fun pos item => result.flagged pos item
  closerSet := result.closerSet

def hnswUpdateConnection (neighbors : HnswNeighborArray E F)
    (newElement : E) (distance : F) (lm : Nat) :
    HnswNeighborArray E F × UpdateIdx :=
  let newHc : HnswCandidate E F := ⟨newElement, distance, false⟩
  let length := neighbors.items.length
  if length < lm then
    ({ neighbors with items := neighbors.items ++ [newHc] }, .free)
  else
    let result := selectNeighbors sel (neighbors.items ++ [newHc]) lm
      neighbors.closerSet (some length) true
    let neighbors := result.flagItems neighbors
    match result.pruned with
    | none => (neighbors, .unchanged)
    | some pruned =>
      -- find and replace the pruned element
      match neighbors.items.findIdx? fun item =>
          sel.pointer item.element == sel.pointer pruned.element with
      | none => (neighbors, .unchanged)
      | some i =>
        ({ neighbors with
            items := neighbors.items.set i (result.flagged length newHc) },
          .slot i)

end Select

/-! ## Collecting candidates -/

def freshSearch {E K D : Type} : SearchState E K D where
  candidates := .nil
  results := .nil
  wlen := 0
  visited := []
  discarded := none
  tuples := 0
  trace := none
  allocated := 0

structure NeighborSearch (L : Signature) (E N K D F : Type) where
  access : Nat → SearchAccess L E N K D
  selection : Selection E F
  toFloat : D → F
  /-- `RemoveElements` on disk, nothing in memory. -/
  removeElements : List (HnswCandidate E F) → List (HnswCandidate E F)
  sizes : AllocSizes
  fuel : Nat
  m : Nat
  efConstruction : Nat
  /-- The element is in the graph already and is being repaired. -/
  existing : Bool

section FindNeighbors

variable {L : Signature} {E N K D F : Type} [LinearOrder D] [LinearOrder F]
  [DecidableEq K]

def NeighborSearch.searchLayer (S : NeighborSearch L E N K D F)
    (ep : List (HnswSearchCandidate E D)) (ef lc : Nat) :
    Program L (List (HnswSearchCandidate E D)) := do
  let (w, _) ← hnswSearchLayer (S.access lc) S.sizes S.fuel ep ef lc S.m S.existing
    true freshSearch
  return w

/-- The first phase: greedy search, from `turns` layers above `level` down to it. -/
def NeighborSearch.descend (S : NeighborSearch L E N K D F) (level : Nat) :
    Nat → List (HnswSearchCandidate E D) → Program L (List (HnswSearchCandidate E D))
  | 0, ep => .ret ep
  | turns + 1, ep => do
    let w ← S.searchLayer ep 1 (level + turns + 1)
    S.descend level turns w

def NeighborSearch.choose (S : NeighborSearch L E N K D F)
    (w : List (HnswSearchCandidate E D)) (lc : Nat) : List (HnswCandidate E F) :=
  let lw := w.map fun sc => ⟨sc.element, S.toFloat sc.distance, false⟩
  let result := selectNeighbors S.selection (S.removeElements lw)
    (hnswGetLayerM S.m lc) false none false
  result.neighbors.map ListedCandidate.toHnswCandidate

/-- The second phase, below layer `layers`: the neighbors at each, highest first. -/
def NeighborSearch.connect (S : NeighborSearch L E N K D F) :
    Nat → List (HnswSearchCandidate E D) → Program L (List (List (HnswCandidate E F)))
  | 0, _ => .ret []
  | lc + 1, ep => do
    let ef := if S.existing then S.efConstruction + 1 else S.efConstruction
    let w ← S.searchLayer ep ef lc
    let lower ← S.connect lc w
    return S.choose w lc :: lower

structure FoundNeighbors (E F : Type) where
  layers : List (List (HnswCandidate E F))
  /-- `entryPoint->level`, as `HnswEntryCandidate` leaves it. -/
  entryLevel : Option Nat

/-- Both phases, from the candidate for the entry point at `entryLevel`. -/
def NeighborSearch.fromEntry (S : NeighborSearch L E N K D F) (level entryLevel : Nat)
    (entry : HnswSearchCandidate E D) : Program L (FoundNeighbors E F) := do
  let ep ← S.descend level (entryLevel - level) [entry]
  let found ← S.connect (min level entryLevel + 1) ep
  return ⟨List.replicate (level - entryLevel) [] ++ found, some entryLevel⟩

/--
`HnswFindElementNeighbors`.  The candidate for the entry point comes with the
level of the entry point.
-/
def hnswFindElementNeighbors (S : NeighborSearch L E N K D F) (level : Nat)
    (entryPoint : Option (Program L (HnswSearchCandidate E D × Nat))) :
    Program L (FoundNeighbors E F) :=
  match entryPoint with
  | none => .ret ⟨List.replicate (level + 1) [], none⟩
  | some entryCandidate => do
    let (entry, entryLevel) ← entryCandidate
    S.fromEntry level entryLevel entry

end FindNeighbors

end PgVector.Hnsw
