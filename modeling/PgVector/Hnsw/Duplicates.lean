import PgVector.Hnsw.MemoryBuild
import PgVector.Hnsw.SearchOrder
import PgVector.Hnsw.TraceInterference

/-!
# Finding a duplicate

Before an element is added, its neighbors at layer 0 are gone through for one
with the same value that can take the heap TID.  The loop exits at the first
neighbor with another value, as the neighbors are said to be ordered by
distance.  They are in that order only if `SelectNeighbors` has had to choose: a
short list comes back as the search left it, furthest first.
-/

namespace PgVector.Hnsw

open Foundation

variable {V D F : Type}

/-- A value is nearer to itself than any other one, as with the L2 distance. -/
structure HnswSupport.Separates [LT D] (support : HnswSupport V D) : Prop where
  symm : ∀ a b, support.distance a b = support.distance b a
  self_lt : ∀ {a b}, a ≠ b → support.distance a a < support.distance a b

/-! ## On disk -/

section Disk

variable [DecidableEq V]

variable (self : ThreadId) (s : Shared V) (value : V) (heaptid : ItemPointer)

variable {hc : HnswCandidate (HnswElement V) F}

variable [LinearOrder D] [LinearOrder F] {ctx : InsertContext V D F}

end Disk

/-! ## In memory -/

section Memory

variable [LinearOrder F] [DecidableEq V]

variable (ctx : InsertContext V D F) (graph : HnswGraph V F) (value : V)
  (heaptid : ItemPointer)

variable {hc : HnswCandidate (GraphPointer V) F}

variable [LinearOrder D] {ctx : InsertContext V D F}

end Memory

/-! ## The early exit -/

end PgVector.Hnsw
