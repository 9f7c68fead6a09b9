import Mathlib.Data.List.Basic
import Mathlib.Logic.Function.Basic
import Mathlib.Order.Basic

/-!
# Chains of linked cells

Cells are linked by what `next` says of them: `next a` is `none` if there is no
cell `a`, and otherwise the link that the cell holds.  A chain lists the cells
met from a link until a cell without a successor.
-/

namespace PgVector.Foundation

inductive Chain {α : Type} (next : α → Option (Option α)) : Option α → List α → Prop
  | nil : Chain next none []
  | cons {a : α} {link : Option α} {l : List α} :
      next a = some link → Chain next link l → Chain next (some a) (a :: l)

namespace Chain

variable {α : Type} {next next' : α → Option (Option α)} {start : Option α}
  {l l' : List α} {a b : α}

theorem unique (h : Chain next start l) (h' : Chain next start l') : l = l' := by
  induction h generalizing l' with
  | nil =>
    cases h'
    rfl
  | cons hnext _ ih =>
    cases h' with
    | cons hnext' h' =>
      obtain rfl := Option.some.inj (hnext.symm.trans hnext')
      rw [ih h']

theorem head_mem (h : Chain next (some a) l) : a ∈ l := by
  cases h
  simp

theorem exists_next (h : Chain next start l) (ha : a ∈ l) : ∃ link, next a = some link := by
  induction h with
  | nil => simp at ha
  | cons hnext _ ih =>
    rcases List.mem_cons.mp ha with rfl | ha
    · exact ⟨_, hnext⟩
    · exact ih ha

theorem next_mem (h : Chain next start l) (ha : a ∈ l) (hnext : next a = some (some b)) :
    b ∈ l := by
  induction h with
  | nil => simp at ha
  | cons hlink htail ih =>
    rcases List.mem_cons.mp ha with rfl | ha
    · obtain rfl := Option.some.inj (hlink.symm.trans hnext)
      exact .tail _ htail.head_mem
    · exact .tail _ (ih ha)

theorem suffix (h : Chain next start l) (ha : a ∈ l) :
    ∃ before after, l = before ++ a :: after ∧ Chain next (some a) (a :: after) := by
  induction h with
  | nil => simp at ha
  | @cons c link l hnext htail ih =>
    rcases List.mem_cons.mp ha with rfl | ha
    · exact ⟨[], l, rfl, .cons hnext htail⟩
    · obtain ⟨before, after, rfl, hafter⟩ := ih ha
      exact ⟨c :: before, after, rfl, hafter⟩

theorem nodup (h : Chain next start l) : l.Nodup := by
  induction h with
  | nil => exact List.nodup_nil
  | @cons a link l hnext htail ih =>
    refine List.nodup_cons.mpr ⟨?_, ih⟩
    intro ha
    obtain ⟨before, after, heq, hafter⟩ := htail.suffix ha
    have hsame : a :: l = a :: after := (Chain.cons hnext htail).unique hafter
    have hlength : l.length = (before ++ a :: after).length := congrArg List.length heq
    rw [List.cons.inj hsame |>.2] at hlength
    simp at hlength
    omega

theorem congr (h : Chain next start l) (hsame : ∀ a ∈ l, next' a = next a) :
    Chain next' start l := by
  induction h with
  | nil => exact .nil
  | cons hnext _ ih =>
    exact .cons ((hsame _ (by simp)).trans hnext) (ih fun a ha => hsame a (.tail _ ha))

theorem append (h : Chain next start l) (hnodup : l.Nodup) (ha : a ∈ l)
    (hlast : next a = some none) (hlink : next' a = some (some b))
    (hb : next' b = some none) (hsame : ∀ c ∈ l, c ≠ a → next' c = next c) :
    Chain next' start (l ++ [b]) := by
  induction h with
  | nil => simp at ha
  | @cons c link l hnext htail ih =>
    obtain ⟨hc, hnodup⟩ := List.nodup_cons.mp hnodup
    by_cases hca : c = a
    · subst hca
      obtain rfl := Option.some.inj (hnext.symm.trans hlast)
      cases htail
      exact .cons hlink (.cons hb .nil)
    · have ha' : a ∈ l := (List.mem_cons.mp ha).resolve_left (Ne.symm hca)
      have hlink' : next' c = some link := (hsame c (by simp) hca).trans hnext
      exact .cons hlink' (ih hnodup ha' fun d hd hda =>
        hsame d (.tail _ hd) hda)

theorem lt_of_next [Preorder α] (h : Chain next start l)
    (hsorted : l.Pairwise (· < ·)) (ha : a ∈ l) (hnext : next a = some (some b)) :
    a < b := by
  obtain ⟨before, after, rfl, hafter⟩ := h.suffix ha
  cases hafter with
  | cons hlink htail =>
    obtain rfl := Option.some.inj (hlink.symm.trans hnext)
    exact (List.pairwise_cons.mp (List.pairwise_append.mp hsorted).2.1).1 b htail.head_mem

end Chain

/-! ## Several chains -/

/--
Chains that share no cell, one for each `i` that has a root.  The cells of each
increase along the links.
-/
structure Chains {ι α : Type} [Preorder α] (next : α → Option (Option α))
    (root : ι → Option (Option α)) (chains : ι → List α) : Prop where
  chain : ∀ i start, root i = some start → Chain next start (chains i)
  sorted : ∀ i, (chains i).Pairwise (· < ·)
  disjoint : ∀ i j, i ≠ j → List.Disjoint (chains i) (chains j)
  absent : ∀ i, root i = none → chains i = []

namespace Chains

variable {ι α : Type} [Preorder α] {next next' : α → Option (Option α)}
  {root : ι → Option (Option α)} {chains : ι → List α} {i : ι} {a b : α}

theorem exists_root (h : Chains next root chains) (ha : a ∈ chains i) :
    ∃ start, root i = some start := by
  rcases hroot : root i with _ | start
  · rw [h.absent i hroot] at ha
    simp at ha
  · exact ⟨start, rfl⟩

theorem exists_next (h : Chains next root chains) (ha : a ∈ chains i) :
    ∃ link, next a = some link := by
  obtain ⟨start, hroot⟩ := h.exists_root ha
  exact (h.chain i start hroot).exists_next ha

theorem next_mem (h : Chains next root chains) (ha : a ∈ chains i)
    (hnext : next a = some (some b)) : b ∈ chains i := by
  obtain ⟨start, hroot⟩ := h.exists_root ha
  exact (h.chain i start hroot).next_mem ha hnext

theorem root_mem (h : Chains next root chains) (hroot : root i = some (some a)) : a ∈ chains i :=
  (h.chain i (some a) hroot).head_mem

theorem lt_of_next (h : Chains next root chains) (ha : a ∈ chains i)
    (hnext : next a = some (some b)) : a < b := by
  obtain ⟨start, hroot⟩ := h.exists_root ha
  exact (h.chain i start hroot).lt_of_next (h.sorted i) ha hnext

theorem append [DecidableEq ι] [DecidableEq α] (h : Chains next root chains)
    (ha : a ∈ chains i) (hlast : next a = some none)
    (hfresh : ∀ c link, next c = some link → c < b)
    (hnext : next' = Function.update (Function.update next a (some (some b))) b (some none)) :
    Chains next' root (Function.update chains i (chains i ++ [b])) := by
  have hlt : ∀ j, ∀ c ∈ chains j, c < b := by
    intro j c hc
    obtain ⟨link, hlink⟩ := h.exists_next hc
    exact hfresh c link hlink
  have hne : a ≠ b := (hlt i a ha).ne
  have hsame : ∀ c, c ≠ a → c ≠ b → next' c = next c := by
    intro c hca hcb
    rw [hnext, Function.update_of_ne hcb, Function.update_of_ne hca]
  constructor
  · intro j start hroot
    have hchain := h.chain j start hroot
    by_cases hj : j = i
    · subst hj
      rw [Function.update_self]
      apply hchain.append ((h.sorted j).imp LT.lt.ne) ha hlast
      · rw [hnext, Function.update_of_ne hne, Function.update_self]
      · rw [hnext, Function.update_self]
      · intro c hc hca
        exact hsame c hca (hlt j c hc).ne
    · rw [Function.update_of_ne hj]
      apply hchain.congr
      intro c hc
      refine hsame c ?_ (hlt j c hc).ne
      rintro rfl
      exact h.disjoint j i hj hc ha
  · intro j
    by_cases hj : j = i
    · subst hj
      rw [Function.update_self]
      refine List.pairwise_append.mpr ⟨h.sorted j, by simp, ?_⟩
      intro c hc d hd
      obtain rfl := List.mem_singleton.mp hd
      exact hlt j c hc
    · rw [Function.update_of_ne hj]
      exact h.sorted j
  · -- the fresh cell is on no other chain
    have hgrown : ∀ j, ∀ c ∈ Function.update chains i (chains i ++ [b]) j,
        c ∈ chains j ∨ (j = i ∧ c = b) := by
      intro j c hc
      by_cases hj : j = i
      · subst hj
        rw [Function.update_self] at hc
        simpa using hc
      · rw [Function.update_of_ne hj] at hc
        exact .inl hc
    intro j k hjk c hcj hck
    rcases hgrown j c hcj with hj | ⟨rfl, rfl⟩
    · rcases hgrown k c hck with hk | ⟨rfl, rfl⟩
      · exact h.disjoint j k hjk hj hk
      · exact absurd (hlt j c hj) (lt_irrefl c)
    · rcases hgrown k c hck with hk | ⟨rfl, -⟩
      · exact absurd (hlt k c hk) (lt_irrefl c)
      · exact hjk rfl
  · intro j hj
    have hji : j ≠ i := by
      rintro rfl
      rw [h.absent j hj] at ha
      simp at ha
    rw [Function.update_of_ne hji]
    exact h.absent j hj

theorem start [DecidableEq α] (h : Chains next root chains) (hfresh : next b = none)
    (hnext : next' = Function.update next b (some none)) :
    Chains next' (fun o : Option ι => o.elim (some (some b)) root)
      (fun o => o.elim [b] chains) := by
  have hne : ∀ j, ∀ c ∈ chains j, c ≠ b := by
    rintro j c hc rfl
    obtain ⟨link, hlink⟩ := h.exists_next hc
    rw [hfresh] at hlink
    cases hlink
  constructor
  · rintro (_ | j) start hroot
    · cases hroot
      exact .cons (by rw [hnext, Function.update_self]) .nil
    · apply (h.chain j start hroot).congr
      intro c hc
      rw [hnext, Function.update_of_ne (hne j c hc)]
  · rintro (_ | j)
    · simp
    · exact h.sorted j
  · rintro (_ | j) (_ | k) hjk c hcj hck
    · exact hjk rfl
    · exact hne k c hck (List.mem_singleton.mp hcj)
    · exact hne j c hcj (List.mem_singleton.mp hck)
    · exact h.disjoint j k (fun heq => hjk (congrArg some heq)) hcj hck
  · rintro (_ | j) hroot
    · cases hroot
    · exact h.absent j hroot

theorem adopt [DecidableEq ι] {chains : Option ι → List α}
    (h : Chains next (fun o : Option ι => o.elim (some (some b)) root) chains)
    (hroot : root i = some none) :
    Chains next (Function.update root i (some (some b)))
      (Function.update (fun j => chains (some j)) i (chains none)) := by
  constructor
  · intro j start hj
    by_cases hji : j = i
    · subst hji
      rw [Function.update_self] at hj ⊢
      exact h.chain none start hj
    · rw [Function.update_of_ne hji] at hj ⊢
      exact h.chain (some j) start hj
  · intro j
    by_cases hji : j = i
    · subst hji
      rw [Function.update_self]
      exact h.sorted none
    · rw [Function.update_of_ne hji]
      exact h.sorted (some j)
  · intro j k hjk
    by_cases hji : j = i
    · subst hji
      rw [Function.update_self, Function.update_of_ne (Ne.symm hjk)]
      exact h.disjoint none (some k) (by simp)
    · rw [Function.update_of_ne hji]
      by_cases hki : k = i
      · subst hki
        rw [Function.update_self]
        exact h.disjoint (some j) none (by simp)
      · rw [Function.update_of_ne hki]
        exact h.disjoint (some j) (some k) (by simpa using hjk)
  · intro j hj
    have hji : j ≠ i := by
      rintro rfl
      simp at hj
    rw [Function.update_of_ne hji] at hj ⊢
    exact h.absent (some j) hj

end Chains

end PgVector.Foundation
