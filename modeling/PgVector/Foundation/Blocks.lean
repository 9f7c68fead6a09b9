import Mathlib.Algebra.BigOperators.Group.List.Basic
import Mathlib.Data.List.Nodup
import Mathlib.Data.List.Range
import Mathlib.Logic.Function.Basic

/-!
# Numbered blocks

The blocks of a relation without its first one: block `b + 1` is the item of the
list at `b`, and block 0 is kept elsewhere.
-/

namespace PgVector.Foundation

section Blocks

variable {α : Type} {l : List α} {b : Nat} {a old : α}

def block? (l : List α) (b : Nat) : Option α := if b = 0 then none else l[b - 1]?

def setBlock (l : List α) (b : Nat) (a : α) : List α :=
  if b = 0 then l else l.set (b - 1) a

theorem block?_isSome : (block? l b).isSome ↔ 1 ≤ b ∧ b ≤ l.length := by
  unfold block?
  split
  · next hzero => simp [hzero]
  · next hzero =>
    rw [isSome_getElem?]
    omega

theorem block?_length_succ (l : List α) : block? l (l.length + 1) = none := by
  simp [block?]

theorem bounds_of_block? (h : block? l b = some a) : 1 ≤ b ∧ b ≤ l.length :=
  block?_isSome.mp (Option.isSome_of_eq_some h)

@[simp] theorem length_setBlock (l : List α) (b : Nat) (a : α) :
    (setBlock l b a).length = l.length := by
  unfold setBlock
  split <;> simp

theorem block?_setBlock (h : block? l b = some old) (a : α) :
    block? (setBlock l b a) = Function.update (block? l) b (some a) := by
  obtain ⟨hpos, hle⟩ := bounds_of_block? h
  have hb : b ≠ 0 := by omega
  funext c
  by_cases hc : c = b
  · subst hc
    simp [block?, setBlock, hb, show c - 1 < l.length by omega]
  · rw [Function.update_of_ne hc]
    by_cases hzero : c = 0
    · simp [block?, hzero]
    · have hne : b - 1 ≠ c - 1 := by omega
      simp [block?, setBlock, hb, hzero, List.getElem?_set_ne hne]

theorem block?_append (l : List α) (a : α) :
    block? (l ++ [a]) = Function.update (block? l) (l.length + 1) (some a) := by
  funext c
  by_cases hc : c = l.length + 1
  · subst hc
    simp [block?]
  · rw [Function.update_of_ne hc]
    by_cases hzero : c = 0
    · simp [block?, hzero]
    · simp only [block?, if_neg hzero]
      rcases Nat.lt_or_gt_of_ne (show c - 1 ≠ l.length by omega) with hlt | hgt
      · rw [List.getElem?_append_left hlt]
      · rw [List.getElem?_eq_none (by simp; omega), List.getElem?_eq_none (by omega)]

end Blocks

/-! ## Sums over blocks -/

theorem sum_map_update {ι M : Type} [DecidableEq ι] [AddCommMonoid M] {l : List ι}
    (hnodup : l.Nodup) {i : ι} (hi : i ∈ l) (f : ι → M) (m : M) :
    (l.map (Function.update f i m)).sum + f i = (l.map f).sum + m := by
  induction l with
  | nil => simp at hi
  | cons j l ih =>
    obtain ⟨hj, hnodup⟩ := List.nodup_cons.mp hnodup
    by_cases hij : i = j
    · subst hij
      have hrest : l.map (Function.update f i m) = l.map f := by
        refine List.map_congr_left fun k hk => Function.update_of_ne ?_ _ _
        rintro rfl
        exact hj hk
      rw [List.map_cons, List.sum_cons, hrest, Function.update_self, List.map_cons,
        List.sum_cons, add_comm m, add_assoc, add_comm m, ← add_assoc,
        add_comm _ (f i)]
    · have hi' : i ∈ l := (List.mem_cons.mp hi).resolve_left hij
      rw [List.map_cons, List.sum_cons, List.map_cons, List.sum_cons,
        Function.update_of_ne (Ne.symm hij), add_assoc, ih hnodup hi', add_assoc]

/-- The sum of `f` over the blocks of a list of `n` items. -/
def sumBlocks {M : Type} [AddCommMonoid M] (n : Nat) (f : Nat → M) : M :=
  ((List.range' 1 n).map f).sum

section Sums

variable {M : Type} [AddCommMonoid M] {n : Nat} {f : Nat → M}

theorem sumBlocks_update {b : Nat} (hb : 1 ≤ b ∧ b ≤ n) (m : M) :
    sumBlocks n (Function.update f b m) + f b = sumBlocks n f + m :=
  sum_map_update List.nodup_range' (List.mem_range'_1.mpr (by omega)) f m

theorem sumBlocks_succ : sumBlocks (n + 1) f = sumBlocks n f + f (n + 1) := by
  simp [sumBlocks, List.range'_1_concat, add_comm 1 n]

theorem sumBlocks_congr {g : Nat → M} (h : ∀ b, 1 ≤ b → b ≤ n → f b = g b) :
    sumBlocks n f = sumBlocks n g := by
  unfold sumBlocks
  congr 1
  refine List.map_congr_left fun b hb => ?_
  rw [List.mem_range'_1] at hb
  exact h b hb.1 (by omega)

theorem sumBlocks_eq_of_nodup [DecidableEq M] {blocks : List Nat} (hnodup : blocks.Nodup)
    (hmem : ∀ b ∈ blocks, 1 ≤ b ∧ b ≤ n)
    (hzero : ∀ b, 1 ≤ b → b ≤ n → b ∉ blocks → f b = 0) :
    (blocks.map f).sum = sumBlocks n f := by
  have hperm : blocks.Perm ((List.range' 1 n).filter fun b => decide (b ∈ blocks)) := by
    refine (List.perm_ext_iff_of_nodup hnodup
      (List.Nodup.filter _ List.nodup_range')).mpr fun b => ?_
    simp only [List.mem_filter, List.mem_range'_1, decide_eq_true_eq]
    exact ⟨fun h => ⟨by have := hmem b h; omega, h⟩, And.right⟩
  have hsplit : ∀ l : List Nat, (∀ b ∈ l, b ∉ blocks → f b = 0) →
      ((l.filter fun b => decide (b ∈ blocks)).map f).sum = (l.map f).sum := by
    intro l hl
    induction l with
    | nil => rfl
    | cons b l ih =>
      have ih' := ih fun c hc => hl c (.tail _ hc)
      by_cases hb : b ∈ blocks
      · simp [hb, ih']
      · simp [hb, ih', hl b (by simp) hb]
  rw [(hperm.map f).sum_eq, hsplit]
  · rfl
  · intro b hb hnot
    rw [List.mem_range'_1] at hb
    exact hzero b hb.1 (by omega) hnot

end Sums

end PgVector.Foundation
