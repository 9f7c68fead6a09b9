import Mathlib.Data.List.Basic
import PgVector.Foundation.Interference

/-!
# Locks with a shared and an exclusive mode

A table of who holds which lock.  Locks are not counted for their owner: a thread
that asks again for a lock it holds waits like any other.
-/

namespace PgVector.Foundation

inductive AccessMode where
  | shared
  | exclusive
  deriving DecidableEq, Repr

structure Holding (K : Type) where
  thread : Nat
  lock : K
  mode : AccessMode
  deriving DecidableEq, Repr

/-- Two holdings that may exist side by side. -/
def Holding.Compatible {K : Type} (a b : Holding K) : Prop :=
  a.lock = b.lock → a.mode = .shared ∧ b.mode = .shared

theorem Holding.Compatible.symm {K : Type} {a b : Holding K} (h : a.Compatible b) :
    b.Compatible a :=
  fun hlock => (h hlock.symm).symm

abbrev LockTable (K : Type) := List (Holding K)

namespace LockTable

variable {K : Type} [DecidableEq K] {table : LockTable K} {i j : Nat} {lock : K}
  {mode : AccessMode}

def conflicts (table : LockTable K) (lock : K) (mode : AccessMode) : Bool :=
  table.any fun held =>
    held.lock == lock && (mode == .exclusive || held.mode == .exclusive)

/-- `none` if the lock is not free in this mode. -/
def acquire (table : LockTable K) (i : Nat) (lock : K) (mode : AccessMode) : Option (LockTable K) :=
  if table.conflicts lock mode then none else some (⟨i, lock, mode⟩ :: table)

def release (table : LockTable K) (i : Nat) (lock : K) (mode : AccessMode) : LockTable K :=
  table.erase ⟨i, lock, mode⟩

def of (table : LockTable K) (i : Nat) : LockTable K :=
  table.filter fun held => held.thread == i

def Valid (table : LockTable K) : Prop := table.Pairwise Holding.Compatible

variable {held : Holding K}

omit [DecidableEq K] in
theorem mem_of : held ∈ table.of i ↔ held ∈ table ∧ held.thread = i := by
  simp [of]

omit [DecidableEq K] in
theorem mem_of_singleton (h : table.of i = [held]) : held ∈ table := by
  have hmem : held ∈ table.of i := by
    rw [h]
    exact List.mem_singleton.mpr rfl
  exact (mem_of.mp hmem).1

theorem conflicts_eq_false :
    table.conflicts lock mode = false ↔
      ∀ held ∈ table, held.lock = lock → mode = .shared ∧ held.mode = .shared := by
  simp only [conflicts, List.any_eq_false, Bool.and_eq_true, beq_iff_eq, Bool.or_eq_true,
    not_and, not_or]
  constructor
  · intro h held hheld hlock
    obtain ⟨hmode, hheldMode⟩ := h held hheld hlock
    cases mode <;> cases hm : held.mode <;> simp_all
  · intro h held hheld hlock
    obtain ⟨rfl, hmode⟩ := h held hheld hlock
    simp [hmode]

theorem acquire_eq_some {table' : LockTable K} :
    table.acquire i lock mode = some table' ↔
      table.conflicts lock mode = false ∧ table' = ⟨i, lock, mode⟩ :: table := by
  unfold acquire
  split
  · next h => simp [h]
  · next h => simp [h, eq_comm]

/-! ## What the holder of a lock knows -/

theorem Valid.acquire (h : table.Valid)
    (hfree : table.conflicts lock mode = false) :
    Valid (⟨i, lock, mode⟩ :: table) := by
  refine List.pairwise_cons.mpr ⟨?_, h⟩
  intro held hheld hlock
  exact conflicts_eq_false.mp hfree held hheld hlock.symm

theorem Valid.release (h : table.Valid) : (table.release i lock mode).Valid :=
  h.sublist List.erase_sublist

theorem Valid.lock_ne_of_mem_release (h : table.Valid) (hheld : ⟨i, lock, .exclusive⟩ ∈ table)
    (hother : held ∈ table.release i lock .exclusive) : held.lock ≠ lock := by
  intro hlock
  have hperm := List.perm_cons_erase hheld
  have hvalid := (hperm.pairwise_iff Holding.Compatible.symm).mp h
  have hmode := (List.pairwise_cons.mp hvalid).1 held hother hlock.symm
  exact absurd hmode.1 (by simp)

theorem Valid.eq_of_exclusive (h : table.Valid) (hheld : ⟨i, lock, .exclusive⟩ ∈ table)
    (hother : held ∈ table) (hlock : held.lock = lock) : held = ⟨i, lock, .exclusive⟩ := by
  by_contra hne
  have hrest : held ∈ table.release i lock .exclusive :=
    (List.mem_erase_of_ne hne).mpr hother
  exact h.lock_ne_of_mem_release hheld hrest hlock

omit [DecidableEq K] in
theorem of_cons (held : Holding K) :
    LockTable.of (held :: table) i =
      if held.thread = i then held :: table.of i else table.of i := by
  by_cases h : held.thread = i <;> simp [of, h]

theorem of_release (hne : j ≠ i) : (table.release i lock mode).of j = table.of j := by
  unfold of release
  rw [← List.erase_filter]
  exact List.erase_of_not_mem (by simp [Ne.symm hne])

theorem of_release_self : (table.release i lock mode).of i = (table.of i).release i lock mode := by
  exact List.erase_filter.symm

end LockTable

end PgVector.Foundation
