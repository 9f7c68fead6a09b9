import Mathlib.Algebra.Order.Group.Multiset
import Mathlib.Tactic.Abel

/-!
# Pairing heaps

A node points to its first child and to its next sibling, so a forest of
subheaps is a chain of siblings and a heap is a chain with one root.  The order
is given by `lower a b`, "the comparator puts `a` below `b`"; equal elements are
kept in the order in which merging leaves them.
-/

namespace PgVector.Foundation

inductive PairingHeap (α : Type) where
  | nil
  | node (value : α) (firstChild nextSibling : PairingHeap α)
  deriving DecidableEq, Repr

namespace PairingHeap

variable {α β : Type}

def withSibling : PairingHeap α → PairingHeap α → PairingHeap α
  | .nil, rest => rest
  | .node a child _, rest => .node a child rest

/--
Merge two subheaps; the siblings of the arguments are ignored.  The second root
becomes a child of the first unless the first is strictly lower.
-/
def merge (lower : α → α → Bool) : PairingHeap α → PairingHeap α → PairingHeap α
  | .nil, b => b
  | .node a ca sa, .nil => .node a ca sa
  | .node a ca _, .node b cb _ =>
    if lower a b then .node b (.node a ca cb) .nil
    else .node a (.node b cb ca) .nil

def add (lower : α → α → Bool) (heap : PairingHeap α) (a : α) : PairingHeap α :=
  merge lower heap (.node a .nil .nil)

def first? : PairingHeap α → Option α
  | .nil => none
  | .node a _ _ => some a

def isEmpty : PairingHeap α → Bool
  | .nil => true
  | .node .. => false

/-- Merge the subheaps in pairs from left to right; the pairs pile up in front. -/
def pairUp (lower : α → α → Bool) : PairingHeap α → PairingHeap α → PairingHeap α
  | .nil, pairs => pairs
  | .node a ca .nil, pairs => .node a ca pairs
  | .node a ca (.node b cb rest), pairs =>
    pairUp lower rest ((merge lower (.node a ca .nil) (.node b cb .nil)).withSibling pairs)

/-- Merge a chain of pairs into `root`. -/
def mergePairs (lower : α → α → Bool) : PairingHeap α → PairingHeap α → PairingHeap α
  | root, .nil => root
  | root, .node a ca rest =>
    mergePairs lower (merge lower root (.node a ca .nil)) rest

def mergeChildren (lower : α → α → Bool) : PairingHeap α → PairingHeap α
  | .nil => .nil
  | .node a ca .nil => .node a ca .nil
  | children =>
    match pairUp lower children .nil with
    | .nil => .nil
    | .node a ca rest => mergePairs lower (.node a ca .nil) rest

def removeFirst? (lower : α → α → Bool) :
    PairingHeap α → Option (α × PairingHeap α)
  | .nil => none
  | .node a child _ => some (a, mergeChildren lower child)

def size : PairingHeap α → Nat
  | .nil => 0
  | .node _ child sibling => child.size + sibling.size + 1

def take (lower : α → α → Bool) : Nat → PairingHeap α → List α × PairingHeap α
  | 0, heap => ([], heap)
  | n + 1, heap =>
    match heap.removeFirst? lower with
    | none => ([], heap)
    | some (a, rest) =>
      let (taken, rest) := take lower n rest
      (a :: taken, rest)

/-- The elements in the order in which they are removed. -/
def drain (lower : α → α → Bool) (heap : PairingHeap α) : List α :=
  (heap.take lower heap.size).1

/-! ## Contents -/

def elems : PairingHeap α → Multiset α
  | .nil => 0
  | .node a child sibling => a ::ₘ (child.elems + sibling.elems)

/-- A single heap: the root has no sibling. -/
def IsRoot : PairingHeap α → Prop
  | .nil => True
  | .node _ _ sibling => sibling = .nil

theorem isRoot_node (a : α) (child : PairingHeap α) : (node a child .nil).IsRoot := rfl

@[simp] theorem elems_nil : (nil : PairingHeap α).elems = 0 := rfl

@[simp] theorem elems_node (a : α) (child sibling : PairingHeap α) :
    (node a child sibling).elems = a ::ₘ (child.elems + sibling.elems) := rfl

variable {heap : PairingHeap α}

theorem elems_eq_zero : heap.elems = 0 ↔ heap = .nil := by
  cases heap <;> simp

theorem isRoot_merge (lower : α → α → Bool) {a b : PairingHeap α}
    (ha : a.IsRoot) (hb : b.IsRoot) : (merge lower a b).IsRoot := by
  cases a with
  | nil => exact hb
  | node x cx sx =>
    cases b with
    | nil => exact ha
    | node y cy sy =>
      simp only [merge]
      split <;> rfl

theorem elems_merge (lower : α → α → Bool) {a b : PairingHeap α}
    (ha : a.IsRoot) (hb : b.IsRoot) :
    (merge lower a b).elems = a.elems + b.elems := by
  cases a with
  | nil => simp [merge]
  | node x cx sx =>
    cases b with
    | nil => simp [merge]
    | node y cy sy =>
      simp only [IsRoot] at ha hb
      subst ha hb
      simp only [merge]
      split <;>
        · simp only [elems_node, elems_nil, ← Multiset.singleton_add]
          abel

theorem elems_withSibling {rest : PairingHeap α} (h : heap.IsRoot) :
    (heap.withSibling rest).elems = heap.elems + rest.elems := by
  cases heap with
  | nil => simp [withSibling]
  | node a child sibling =>
    simp only [IsRoot] at h
    subst h
    simp [withSibling]

theorem elems_pairUp (lower : α → α → Bool) (chain pairs : PairingHeap α) :
    (pairUp lower chain pairs).elems = chain.elems + pairs.elems := by
  induction chain, pairs using pairUp.induct lower with
  | case1 pairs => simp [pairUp]
  | case2 a ca pairs => simp [pairUp]
  | case3 a ca b cb rest pairs ih =>
    have hmerge : (merge lower (.node a ca .nil) (.node b cb .nil)).IsRoot :=
      isRoot_merge lower rfl rfl
    rw [pairUp, ih, elems_withSibling hmerge,
      elems_merge lower (isRoot_node a ca) (isRoot_node b cb)]
    simp only [elems_node, elems_nil, ← Multiset.singleton_add]
    abel

theorem isRoot_mergePairs (lower : α → α → Bool) {root : PairingHeap α}
    (chain : PairingHeap α) (h : root.IsRoot) :
    (mergePairs lower root chain).IsRoot := by
  induction chain generalizing root with
  | nil => exact h
  | node a ca rest _ ih => exact ih (isRoot_merge lower h rfl)

theorem elems_mergePairs (lower : α → α → Bool) {root : PairingHeap α}
    (chain : PairingHeap α) (h : root.IsRoot) :
    (mergePairs lower root chain).elems = root.elems + chain.elems := by
  induction chain generalizing root with
  | nil => simp [mergePairs]
  | node a ca rest _ ih =>
    rw [mergePairs, ih (isRoot_merge lower h (isRoot_node a ca)),
      elems_merge lower h (isRoot_node a ca)]
    simp only [elems_node, elems_nil, ← Multiset.singleton_add]
    abel

theorem isRoot_mergeChildren (lower : α → α → Bool) (chain : PairingHeap α) :
    (mergeChildren lower chain).IsRoot := by
  unfold mergeChildren
  split
  · trivial
  · rfl
  · split
    · trivial
    · exact isRoot_mergePairs lower _ rfl

theorem elems_mergeChildren (lower : α → α → Bool) (chain : PairingHeap α) :
    (mergeChildren lower chain).elems = chain.elems := by
  unfold mergeChildren
  split
  · rfl
  · rfl
  · have hpairs := elems_pairUp lower chain .nil
    split
    · rename_i heq
      rw [heq] at hpairs
      simpa using hpairs
    · rename_i a ca rest heq
      rw [elems_mergePairs lower rest (isRoot_node a ca)]
      rw [heq] at hpairs
      simpa using hpairs

theorem isRoot_add (lower : α → α → Bool) (a : α) (h : heap.IsRoot) : (heap.add lower a).IsRoot :=
  isRoot_merge lower h rfl

theorem elems_add (lower : α → α → Bool) (a : α) (h : heap.IsRoot) :
    (heap.add lower a).elems = a ::ₘ heap.elems := by
  rw [add, elems_merge lower h (isRoot_node a .nil)]
  simp only [elems_node, elems_nil, ← Multiset.singleton_add]
  abel

theorem elems_removeFirst? (lower : α → α → Bool) {rest : PairingHeap α} {a : α} (h : heap.IsRoot)
    (hr : heap.removeFirst? lower = some (a, rest)) :
    heap.elems = a ::ₘ rest.elems ∧ rest.IsRoot := by
  cases heap with
  | nil => simp [removeFirst?] at hr
  | node x child sibling =>
    simp only [IsRoot] at h
    subst h
    simp only [removeFirst?, Option.some.injEq, Prod.mk.injEq] at hr
    obtain ⟨rfl, rfl⟩ := hr
    exact ⟨by simp [elems_mergeChildren], isRoot_mergeChildren lower child⟩

theorem size_eq_card (heap : PairingHeap α) : heap.size = heap.elems.card := by
  induction heap with
  | nil => rfl
  | node a child sibling ihc ihs => simp [size, ihc, ihs]

theorem removeFirst?_eq_none (lower : α → α → Bool) :
    heap.removeFirst? lower = none ↔ heap = .nil := by
  cases heap <;> simp [removeFirst?]

theorem isEmpty_iff : heap.isEmpty = true ↔ heap = .nil := by
  cases heap <;> simp [isEmpty]

theorem take_length_pos (lower : α → α → Bool) {n : Nat} (hn : 0 < n) (h : heap.isEmpty = false) :
    0 < (heap.take lower n).1.length := by
  cases n with
  | zero => exact absurd hn (Nat.lt_irrefl 0)
  | succ n =>
    cases heap with
    | nil => cases h
    | node a child sibling => exact Nat.zero_lt_succ _

theorem elems_take (lower : α → α → Bool) (n : Nat) (h : heap.IsRoot) :
    heap.elems = ↑(heap.take lower n).1 + (heap.take lower n).2.elems ∧
      (heap.take lower n).2.IsRoot := by
  induction n generalizing heap with
  | zero => simpa [take] using h
  | succ n ih =>
    unfold take
    cases hr : heap.removeFirst? lower with
    | none => simpa using h
    | some p =>
      obtain ⟨a, rest⟩ := p
      obtain ⟨helems, hrest⟩ := elems_removeFirst? lower h hr
      obtain ⟨hsplit, hroot⟩ := ih hrest
      refine ⟨?_, hroot⟩
      rw [helems, hsplit]
      simp [← Multiset.cons_coe]

theorem take_length_le (lower : α → α → Bool) (n : Nat) (heap : PairingHeap α) :
    (heap.take lower n).1.length ≤ n := by
  induction n generalizing heap with
  | zero => simp [take]
  | succ n ih =>
    unfold take
    cases heap.removeFirst? lower with
    | none => simp
    | some p => simpa using ih p.2

theorem take_rest_eq_nil (lower : α → α → Bool) {n : Nat} (h : (heap.take lower n).1.length < n) :
    (heap.take lower n).2 = .nil := by
  induction n generalizing heap with
  | zero => simp at h
  | succ n ih =>
    unfold take at h ⊢
    cases hr : heap.removeFirst? lower with
    | none => simpa using (removeFirst?_eq_none lower).1 hr
    | some p =>
      rw [hr] at h
      exact ih (by simpa using h)

theorem elems_drain (lower : α → α → Bool) (h : heap.IsRoot) :
    (↑(heap.drain lower) : Multiset α) = heap.elems := by
  obtain ⟨hsplit, -⟩ := elems_take lower heap.size h
  have hcard := congrArg Multiset.card hsplit
  have hsize := size_eq_card heap
  have hnil : (heap.take lower heap.size).2.elems = 0 := by
    by_cases hlt : (heap.take lower heap.size).1.length < heap.size
    · rw [take_rest_eq_nil lower hlt]
      rfl
    · rw [← Multiset.card_eq_zero]
      simp only [Multiset.card_add, Multiset.coe_card] at hcard
      omega
  rw [hsplit, hnil, add_zero]
  rfl

theorem first?_eq_none : heap.first? = none ↔ heap = .nil := by
  cases heap <;> simp [first?]

theorem mem_of_first? {a : α} (h : heap.first? = some a) : a ∈ heap.elems := by
  cases heap with
  | nil => cases h
  | node x child sibling =>
    obtain rfl : x = a := Option.some.inj h
    exact Multiset.mem_cons_self _ _

/-! ## Heap order -/

section Order

variable (lower : α → α → Bool)

/-- No node of the chain has `a` strictly below it. -/
def Below (a : α) (heap : PairingHeap α) : Prop :=
  ∀ b ∈ heap.elems, lower a b = false

/-- Every node is at least as high as all nodes below it. -/
def Ordered : PairingHeap α → Prop
  | .nil => True
  | .node a child sibling =>
    Below lower a child ∧ Ordered child ∧ Ordered sibling

/-- The comparator is a strict weak order: "not lower than" is transitive. -/
def IsComparator : Prop :=
  (∀ a b, lower a b = true → lower b a = false) ∧
    ∀ a b c, lower a b = false → lower b c = false → lower a c = false

variable {lower}

theorem ordered_merge (hc : IsComparator lower) {a b : PairingHeap α}
    (ha : a.IsRoot) (hb : b.IsRoot) (hoa : Ordered lower a)
    (hob : Ordered lower b) : Ordered lower (merge lower a b) := by
  cases a with
  | nil => exact hob
  | node x cx sx =>
    cases b with
    | nil => exact hoa
    | node y cy sy =>
      simp only [IsRoot] at ha hb
      subst ha hb
      obtain ⟨hx, hcx, -⟩ := hoa
      obtain ⟨hy, hcy, -⟩ := hob
      simp only [merge]
      split
      · rename_i hlower
        have hyx : lower y x = false := hc.1 x y hlower
        refine ⟨?_, ⟨hx, hcx, hcy⟩, trivial⟩
        intro b hb
        simp only [elems_node, Multiset.mem_cons, Multiset.mem_add] at hb
        rcases hb with rfl | hb | hb
        · exact hyx
        · exact hc.2 y x b hyx (hx b hb)
        · exact hy b hb
      · rename_i hlower
        have hxy : lower x y = false := by simpa using hlower
        refine ⟨?_, ⟨hy, hcy, hcx⟩, trivial⟩
        intro b hb
        simp only [elems_node, Multiset.mem_cons, Multiset.mem_add] at hb
        rcases hb with rfl | hb | hb
        · exact hxy
        · exact hc.2 x y b hxy (hy b hb)
        · exact hx b hb

variable {heap rest chain : PairingHeap α}

theorem ordered_withSibling (hh : Ordered lower heap) (hr : Ordered lower rest) :
    Ordered lower (heap.withSibling rest) := by
  cases heap with
  | nil => exact hr
  | node a child sibling => exact ⟨hh.1, hh.2.1, hr⟩

theorem ordered_pairUp (hc : IsComparator lower) {pairs : PairingHeap α}
    (hchain : Ordered lower chain) (hpairs : Ordered lower pairs) :
    Ordered lower (pairUp lower chain pairs) := by
  induction chain, pairs using pairUp.induct lower with
  | case1 pairs => simpa [pairUp] using hpairs
  | case2 a ca pairs => exact ⟨hchain.1, hchain.2.1, hpairs⟩
  | case3 a ca b cb rest pairs ih =>
    obtain ⟨ha, hca, hb, hcb, hrest⟩ := hchain
    have hmerge : Ordered lower (merge lower (.node a ca .nil) (.node b cb .nil)) :=
      ordered_merge hc rfl rfl ⟨ha, hca, trivial⟩ ⟨hb, hcb, trivial⟩
    rw [pairUp]
    exact ih hrest (ordered_withSibling hmerge hpairs)

theorem ordered_mergePairs (hc : IsComparator lower) {root : PairingHeap α} (hr : root.IsRoot)
    (hroot : Ordered lower root) (hchain : Ordered lower chain) :
    Ordered lower (mergePairs lower root chain) := by
  induction chain generalizing root with
  | nil => exact hroot
  | node a ca rest _ ih =>
    obtain ⟨ha, hca, hrest⟩ := hchain
    exact ih (isRoot_merge lower hr rfl) (ordered_merge hc hr rfl hroot ⟨ha, hca, trivial⟩) hrest

theorem ordered_mergeChildren (hc : IsComparator lower) (h : Ordered lower chain) :
    Ordered lower (mergeChildren lower chain) := by
  unfold mergeChildren
  split
  · trivial
  · exact ⟨h.1, h.2.1, trivial⟩
  · have hpairs : Ordered lower (pairUp lower chain .nil) :=
      ordered_pairUp hc h trivial
    split
    · trivial
    · rename_i a ca rest heq
      rw [heq] at hpairs
      exact ordered_mergePairs hc rfl ⟨hpairs.1, hpairs.2.1, trivial⟩ hpairs.2.2

theorem ordered_add (hc : IsComparator lower) (a : α) (hr : heap.IsRoot) (h : Ordered lower heap) :
    Ordered lower (heap.add lower a) :=
  ordered_merge hc hr rfl h ⟨fun b hb => by simp at hb, trivial, trivial⟩

theorem ordered_removeFirst? (hc : IsComparator lower) {a : α} (h : Ordered lower heap)
    (hr : heap.removeFirst? lower = some (a, rest)) :
    Ordered lower rest ∧ ∀ b ∈ rest.elems, lower a b = false := by
  cases heap with
  | nil => simp [removeFirst?] at hr
  | node x child sibling =>
    simp only [removeFirst?, Option.some.injEq, Prod.mk.injEq] at hr
    obtain ⟨rfl, rfl⟩ := hr
    refine ⟨ordered_mergeChildren hc h.2.1, fun b hb => ?_⟩
    rw [elems_mergeChildren] at hb
    exact h.1 b hb

theorem first?_above (hc : IsComparator lower) {a : α} (hr : heap.IsRoot) (h : Ordered lower heap)
    (hf : heap.first? = some a) : ∀ b ∈ heap.elems, lower a b = false := by
  cases heap with
  | nil => simp [first?] at hf
  | node x child sibling =>
    simp only [IsRoot] at hr
    subst hr
    simp only [first?, Option.some.injEq] at hf
    subst hf
    intro b hb
    simp only [elems_node, elems_nil, add_zero, Multiset.mem_cons] at hb
    rcases hb with rfl | hb
    · by_contra hbb
      have htrue : lower b b = true := by simpa using hbb
      exact hbb (hc.1 b b htrue)
    · exact h.1 b hb

variable (lower) in
structure IsHeap (heap : PairingHeap α) : Prop where
  root : heap.IsRoot
  ordered : Ordered lower heap

theorem isHeap_nil : IsHeap lower (.nil : PairingHeap α) :=
  ⟨trivial, trivial⟩

theorem IsHeap.add (hc : IsComparator lower) (h : IsHeap lower heap) (a : α) :
    IsHeap lower (heap.add lower a) :=
  ⟨isRoot_add lower a h.root, ordered_add hc a h.root h.ordered⟩

theorem IsHeap.removeFirst? (hc : IsComparator lower) {a : α} (h : IsHeap lower heap)
    (hr : heap.removeFirst? lower = some (a, rest)) : IsHeap lower rest :=
  ⟨(elems_removeFirst? lower h.root hr).2, (ordered_removeFirst? hc h.ordered hr).1⟩

theorem IsHeap.take (hc : IsComparator lower) (n : Nat) (h : IsHeap lower heap) :
    IsHeap lower (heap.take lower n).2 := by
  induction n generalizing heap with
  | zero => exact h
  | succ n ih =>
    unfold PairingHeap.take
    cases hr : heap.removeFirst? lower with
    | none => exact h
    | some removed => exact ih (h.removeFirst? hc hr)

theorem IsHeap.pairwise_take (hc : IsComparator lower) (n : Nat) (h : IsHeap lower heap) :
    (heap.take lower n).1.Pairwise fun a b => lower a b = false := by
  induction n generalizing heap with
  | zero => exact .nil
  | succ n ih =>
    unfold PairingHeap.take
    cases hr : heap.removeFirst? lower with
    | none => exact .nil
    | some removed =>
      obtain ⟨a, rest⟩ := removed
      have hrest := h.removeFirst? hc hr
      refine List.Pairwise.cons ?_ (ih hrest)
      intro b hb
      apply (ordered_removeFirst? hc h.ordered hr).2
      rw [(elems_take lower n hrest.root).1]
      exact Multiset.mem_add.mpr (.inl (Multiset.mem_coe.mpr hb))

end Order

/-! ## Heaps of the same shape -/

/-- The heaps have the same shape and related contents. -/
inductive Rel (r : α → β → Prop) : PairingHeap α → PairingHeap β → Prop
  | nil : Rel r .nil .nil
  | node {a b ca cb sa sb} : r a b → Rel r ca cb → Rel r sa sb →
      Rel r (.node a ca sa) (.node b cb sb)

section Rel

variable {r : α → β → Prop} {lowerA : α → α → Bool} {lowerB : β → β → Bool}

theorem rel_refl {r : α → α → Prop} (h : ∀ a, r a a) (heap : PairingHeap α) : Rel r heap heap := by
  induction heap with
  | nil => exact .nil
  | node a _ _ ihc ihs => exact .node (h a) ihc ihs

variable {heap : PairingHeap α} {heap' : PairingHeap β} {chain : PairingHeap α}
  {chain' : PairingHeap β}

theorem eq_of_rel {r : α → α → Prop} (h : ∀ a b, r a b → a = b) {heap' : PairingHeap α}
    (hheap : Rel r heap heap') : heap = heap' := by
  induction hheap with
  | nil => rfl
  | node hab _ _ ihc ihs => rw [h _ _ hab, ihc, ihs]

/-- The comparators agree on related contents. -/
def Agree (r : α → β → Prop) (lowerA : α → α → Bool) (lowerB : β → β → Bool) : Prop :=
  ∀ a a' b b', r a b → r a' b' → lowerA a a' = lowerB b b'

theorem rel_merge (h : Agree r lowerA lowerB) {a a' : PairingHeap α}
    {b b' : PairingHeap β} (hab : Rel r a b) (hab' : Rel r a' b') :
    Rel r (merge lowerA a a') (merge lowerB b b') := by
  cases hab with
  | nil => exact hab'
  | node hv hc hs =>
    cases hab' with
    | nil => exact .node hv hc hs
    | node hv' hc' hs' =>
      simp only [merge, h _ _ _ _ hv hv']
      split
      · exact .node hv' (.node hv hc hc') .nil
      · exact .node hv (.node hv' hc' hc) .nil

theorem rel_add (h : Agree r lowerA lowerB) (hheap : Rel r heap heap') {a : α} {b : β}
    (hab : r a b) : Rel r (heap.add lowerA a) (heap'.add lowerB b) :=
  rel_merge h hheap (.node hab .nil .nil)

theorem rel_withSibling {a a' : PairingHeap α} {b b' : PairingHeap β}
    (hab : Rel r a b) (hab' : Rel r a' b') :
    Rel r (a.withSibling a') (b.withSibling b') := by
  cases hab with
  | nil => exact hab'
  | node hv hc hs => exact .node hv hc hab'

theorem rel_pairUp (h : Agree r lowerA lowerB) {pairs : PairingHeap α} {pairs' : PairingHeap β}
    (hchain : Rel r chain chain') (hpairs : Rel r pairs pairs') :
    Rel r (pairUp lowerA chain pairs) (pairUp lowerB chain' pairs') := by
  induction chain, pairs using pairUp.induct lowerA generalizing chain' pairs' with
  | case1 pairs =>
    cases hchain
    exact hpairs
  | case2 a ca pairs =>
    cases hchain with
    | node hv hc hs =>
      cases hs
      exact .node hv hc hpairs
  | case3 a ca b cb rest pairs ih =>
    cases hchain with
    | node hv hc hs =>
      cases hs with
      | node hv' hc' hs' =>
        have hmerge := rel_merge h (.node hv hc .nil) (.node hv' hc' .nil)
        have hrest := ih hs' (rel_withSibling hmerge hpairs)
        exact hrest

theorem rel_mergePairs (h : Agree r lowerA lowerB) {root : PairingHeap α} {root' : PairingHeap β}
    (hroot : Rel r root root') (hchain : Rel r chain chain') :
    Rel r (mergePairs lowerA root chain) (mergePairs lowerB root' chain') := by
  induction hchain generalizing root root' with
  | nil => exact hroot
  | node hv hc _ _ ih => exact ih (rel_merge h hroot (.node hv hc .nil))

theorem rel_mergeChildren (h : Agree r lowerA lowerB) (hchain : Rel r chain chain') :
    Rel r (mergeChildren lowerA chain) (mergeChildren lowerB chain') := by
  cases hchain with
  | nil => exact .nil
  | node hv hc hs =>
    cases hs with
    | nil => exact .node hv hc .nil
    | node hv' hc' hs' =>
      have hpairs := rel_pairUp h (.node hv hc (.node hv' hc' hs')) .nil
      simp only [mergeChildren]
      revert hpairs
      generalize pairUp lowerA _ _ = pairs
      generalize pairUp lowerB _ _ = pairs'
      intro hpairs
      cases hpairs with
      | nil => exact .nil
      | node hv hc hs => exact rel_mergePairs h (.node hv hc .nil) hs

/-- What a heap and a related heap give out first, and what is left. -/
inductive RelFirst (r : α → β → Prop) :
    Option (α × PairingHeap α) → Option (β × PairingHeap β) → Prop
  | none : RelFirst r none none
  | some {a b rest rest'} : r a b → Rel r rest rest' →
      RelFirst r (some (a, rest)) (some (b, rest'))

theorem rel_removeFirst? (h : Agree r lowerA lowerB) (hheap : Rel r heap heap') :
    RelFirst r (heap.removeFirst? lowerA) (heap'.removeFirst? lowerB) := by
  cases hheap with
  | nil => exact .none
  | node hv hc hs => exact .some hv (rel_mergeChildren h hc)

theorem rel_first? (hheap : Rel r heap heap') : Option.Rel r heap.first? heap'.first? := by
  cases hheap with
  | nil => exact .none
  | node hv hc hs => exact .some hv

theorem rel_size (hheap : Rel r heap heap') : heap.size = heap'.size := by
  induction hheap with
  | nil => rfl
  | node _ _ _ ihc ihs => simp only [size, ihc, ihs]

theorem rel_take (h : Agree r lowerA lowerB) (n : Nat) (hheap : Rel r heap heap') :
    List.Forall₂ r (heap.take lowerA n).1 (heap'.take lowerB n).1 ∧
      Rel r (heap.take lowerA n).2 (heap'.take lowerB n).2 := by
  induction n generalizing heap heap' with
  | zero => exact ⟨.nil, hheap⟩
  | succ n ih =>
    have hfirst := rel_removeFirst? h hheap
    simp only [take]
    generalize heap.removeFirst? lowerA = first at hfirst
    generalize heap'.removeFirst? lowerB = first' at hfirst
    cases hfirst with
    | none => exact ⟨.nil, hheap⟩
    | some hv hrest => exact ⟨.cons hv (ih hrest).1, (ih hrest).2⟩

theorem rel_drain (h : Agree r lowerA lowerB) (hheap : Rel r heap heap') :
    List.Forall₂ r (heap.drain lowerA) (heap'.drain lowerB) := by
  unfold drain
  rw [rel_size hheap]
  exact (rel_take h _ hheap).1

end Rel

end PairingHeap

end PgVector.Foundation
