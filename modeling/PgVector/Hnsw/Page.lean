import Mathlib.Algebra.GroupWithZero.Nat
import Mathlib.Tactic.Common

/-!
# Index pages

Tuples are stored on slotted pages of `BLCKSZ` bytes: line pointers grow up from
the page header, tuples grow down from the special space.  HNSW never removes a
line pointer, so the space in use is determined by the sizes of the tuples that
are on the page.
-/

namespace PgVector.Hnsw

abbrev BlockNumber := Nat

abbrev OffsetNumber := Nat

def invalidBlockNumber : BlockNumber := 0xFFFFFFFF

def invalidOffsetNumber : OffsetNumber := 0

def firstOffsetNumber : OffsetNumber := 1

/-- `ItemPointerData`: the address of a heap tuple or of an index tuple. -/
structure ItemPointer where
  blkno : BlockNumber
  offno : OffsetNumber
  deriving DecidableEq, Inhabited, Repr

namespace ItemPointer

def invalid : ItemPointer := ⟨invalidBlockNumber, invalidOffsetNumber⟩

def isValid (tid : ItemPointer) : Bool := tid.offno != invalidOffsetNumber

@[simp] theorem isValid_invalid : invalid.isValid = false := rfl

end ItemPointer

/-! ## Sizes -/

def blcksz : Nat := 8192

def maxAlign (size : Nat) : Nat := (size + 7) / 8 * 8

def sizeOfPageHeaderData : Nat := 24

def sizeOfItemIdData : Nat := 4

def sizeOfItemPointerData : Nat := 6

/-- `sizeof(HnswPageOpaqueData)`. -/
def sizeOfPageOpaqueData : Nat := 8

def elementTupleHeader : Nat := 72

def neighborTupleHeader : Nat := 4

def hnswMaxSize : Nat :=
  blcksz - maxAlign sizeOfPageHeaderData - maxAlign sizeOfPageOpaqueData - sizeOfItemIdData

def hnswTupleAllocSize : Nat := blcksz

def hnswElementTupleSize (size : Nat) : Nat :=
  maxAlign (elementTupleHeader + size)

def hnswNeighborTupleSize (level m : Nat) : Nat :=
  maxAlign (neighborTupleHeader + (level + 2) * m * sizeOfItemPointerData)

def hnswGetLayerM (m layer : Nat) : Nat := if layer = 0 then m * 2 else m

def hnswGetMaxLevel (m : Nat) : Nat :=
  min ((blcksz - maxAlign sizeOfPageHeaderData - maxAlign sizeOfPageOpaqueData -
      neighborTupleHeader - sizeOfItemIdData) / sizeOfItemPointerData / m - 2) 255

variable (size : Nat)

theorem maxAlign_mod : maxAlign size % 8 = 0 := by
  simp [maxAlign]

theorem le_maxAlign : size ≤ maxAlign size := by
  unfold maxAlign
  omega

theorem maxAlign_of_mod {size : Nat} (h : size % 8 = 0) : maxAlign size = size := by
  unfold maxAlign
  omega

@[simp] theorem maxAlign_maxAlign : maxAlign (maxAlign size) = maxAlign size :=
  maxAlign_of_mod (maxAlign_mod size)

theorem hnswMaxSize_eq : hnswMaxSize = 8156 := rfl

@[simp] theorem maxAlign_hnswElementTupleSize :
    maxAlign (hnswElementTupleSize size) = hnswElementTupleSize size :=
  maxAlign_maxAlign _

@[simp] theorem maxAlign_hnswNeighborTupleSize (level m : Nat) :
    maxAlign (hnswNeighborTupleSize level m) = hnswNeighborTupleSize level m :=
  maxAlign_maxAlign _

theorem layers_mul_le {level m : Nat} (hmax : 2 ≤ 1358 / m)
    (hlevel : level ≤ hnswGetMaxLevel m) : (level + 2) * m ≤ 1358 := by
  have hbound : level + 2 ≤ 1358 / m := by
    have hdef : hnswGetMaxLevel m = min (1358 / m - 2) 255 := rfl
    omega
  have hmul := Nat.mul_le_mul_right m hbound
  have hdiv := Nat.div_mul_le_self 1358 m
  omega

theorem hnswNeighborTupleSize_le {level m : Nat} (hmax : 2 ≤ 1358 / m)
    (hlevel : level ≤ hnswGetMaxLevel m) :
    hnswNeighborTupleSize level m ≤ hnswMaxSize := by
  have hbytes := Nat.mul_le_mul_right 6 (layers_mul_le hmax hlevel)
  simp only [hnswNeighborTupleSize, maxAlign, neighborTupleHeader,
    sizeOfItemPointerData, hnswMaxSize_eq]
  omega

/-! ## Pages -/

/-- A line pointer together with the tuple it points to; `size` is `lp_len`. -/
structure Item (T : Type) where
  size : Nat
  tuple : T
  deriving DecidableEq, Repr

structure Page (T : Type) where
  items : List (Item T)
  nextblkno : Option BlockNumber
  deriving DecidableEq, Repr

namespace Page

variable {T : Type}

def init : Page T := ⟨[], none⟩

def lower (page : Page T) : Nat :=
  sizeOfPageHeaderData + sizeOfItemIdData * page.items.length

def tupleBytes (page : Page T) : Nat :=
  (page.items.map fun item => maxAlign item.size).sum

def upper (page : Page T) : Nat :=
  blcksz - maxAlign sizeOfPageOpaqueData - page.tupleBytes

/-- The line pointers and the tuples do not overlap. -/
def WithinBlock (page : Page T) : Prop :=
  page.lower + page.tupleBytes ≤ blcksz - maxAlign sizeOfPageOpaqueData

def maxOffsetNumber (page : Page T) : OffsetNumber := page.items.length

def exactFreeSpace (page : Page T) : Nat := page.upper - page.lower

/-- `PageGetFreeSpace`: room for one more line pointer is set aside. -/
def freeSpace (page : Page T) : Nat :=
  if page.upper - page.lower < sizeOfItemIdData then 0
  else page.upper - page.lower - sizeOfItemIdData

/-- `PageGetItem`; offset numbers start at one. -/
def item? (page : Page T) (offno : OffsetNumber) : Option (Item T) :=
  if offno = 0 then none else page.items[offno - 1]?

def tuple? (page : Page T) (offno : OffsetNumber) : Option T :=
  (page.item? offno).map Item.tuple

/--
`PageAddItem` with no offset given: the tuple goes to the end of the line
pointer array.  `none` is `InvalidOffsetNumber`.
-/
def addItem (page : Page T) (tuple : T) (size : Nat) : Option (Page T × OffsetNumber) :=
  if page.lower + sizeOfItemIdData + maxAlign size ≤ page.upper then
    some ({ page with items := page.items ++ [⟨size, tuple⟩] },
      page.maxOffsetNumber + 1)
  else none

/-- `PageIndexTupleOverwrite`; `none` when there is no room or no such tuple. -/
def overwrite (page : Page T) (offno : OffsetNumber) (tuple : T) (size : Nat) : Option (Page T) :=
  match page.item? offno with
  | none => none
  | some old =>
    if maxAlign size ≤ maxAlign old.size + page.exactFreeSpace then
      some { page with items := page.items.set (offno - 1) ⟨size, tuple⟩ }
    else none

def modify (page : Page T) (offno : OffsetNumber) (f : T → T) : Page T :=
  if offno = 0 then page
  else
    { page with
      items := page.items.modify (offno - 1) fun item =>
        { item with tuple := f item.tuple } }

end Page

end PgVector.Hnsw
