import Mathlib.Data.List.Basic
import Mathlib.Order.Basic

/-!
# Sieves

A list is gone through once; an element is marked if it goes with all the marked
elements before it.  The marks of a list can also be read off its elements alone
if an order on them says which come before which.
-/

namespace PgVector.Foundation

variable {α : Type} {ok : α → α → Bool} {mark : α → Bool} {kept l l' : List α} {a : α}

/-- The marks of a list, where the elements of `kept` have been marked before. -/
def Sieved (ok : α → α → Bool) (mark : α → Bool) : List α → List α → Prop
  | _, [] => True
  | kept, a :: l =>
    mark a = kept.all (ok a) ∧ Sieved ok mark (if mark a then kept ++ [a] else kept) l

theorem Sieved.pairwise (h : Sieved ok mark kept l) :
    (l.filter mark).Pairwise (fun a b => ok b a = true) ∧
      ∀ a ∈ l.filter mark, ∀ b ∈ kept, ok a b = true := by
  induction l generalizing kept with
  | nil => simp
  | cons a l ih =>
    obtain ⟨ha, hl⟩ := h
    cases hmark : mark a with
    | false =>
      rw [hmark, if_neg Bool.false_ne_true] at hl
      rw [List.filter_cons, hmark, if_neg Bool.false_ne_true]
      exact ih hl
    | true =>
      rw [hmark, if_pos rfl] at hl
      obtain ⟨hpairwise, hkept⟩ := ih hl
      rw [List.filter_cons, hmark, if_pos rfl]
      refine ⟨List.pairwise_cons.mpr ⟨?_, hpairwise⟩, ?_⟩
      · intro b hb
        exact hkept b hb a (by simp)
      · intro b hb c hc
        rcases List.mem_cons.mp hb with rfl | hb
        · rw [hmark] at ha
          exact List.all_eq_true.mp ha.symm c hc
        · exact hkept b hb c (by simp [hc])

theorem Sieved.unique {β : Type} {f : α → β} (hok : ∀ {a b}, f a = f b → ok a = ok b)
    (hmark : ∀ {a b}, f a = f b → mark a = mark b → a = b) (h : Sieved ok mark kept l)
    (h' : Sieved ok mark kept l') (heq : l.map f = l'.map f) : l = l' := by
  induction l generalizing kept l' with
  | nil =>
    rw [List.map_nil] at heq
    exact (List.map_eq_nil_iff.mp heq.symm).symm
  | cons a l ih =>
    cases l' with
    | nil => cases heq
    | cons b l' =>
      obtain ⟨hhead, htail⟩ := List.cons.inj heq
      obtain rfl : a = b := hmark hhead (by rw [h.1, h'.1, hok hhead])
      rw [ih h.2 h'.2 htail]

section Order

variable {before : α → α → Prop}

/--
The marks of a list in strict order: an element is marked if it goes with the
marked ones before it.
-/
theorem sieved_iff (hasymm : ∀ {a b}, before a b → ¬ before b a)
    (hordered : l.Pairwise before) :
    Sieved ok mark kept l ↔
      ∀ a ∈ l, mark a = true ↔
        (∀ b ∈ kept, ok a b = true) ∧ ∀ b ∈ l, before b a → mark b = true → ok a b = true := by
  induction l generalizing kept with
  | nil => simp [Sieved]
  | cons a l ih =>
    obtain ⟨hfirst, hordered⟩ := List.pairwise_cons.mp hordered
    have hirrefl : ¬ before a a := fun h => hasymm h h
    -- nothing is before the first element, and it is before all the others
    have hhead : (∀ b ∈ a :: l, before b a → mark b = true → ok a b = true) ↔ True := by
      refine iff_true_intro ?_
      intro b hb hba
      rcases List.mem_cons.mp hb with rfl | hb
      · exact absurd hba hirrefl
      · exact absurd hba (hasymm (hfirst b hb))
    rw [Sieved, ih hordered, List.forall_mem_cons, hhead, and_true]
    refine and_congr ?_ (forall₂_congr fun b hb => iff_congr Iff.rfl ?_)
    · rw [Bool.eq_iff_iff, List.all_eq_true]
    · rw [List.forall_mem_cons]
      cases hmark : mark a with
      | false => simp
      | true =>
        have hba := hfirst b hb
        simp only [if_true, List.mem_append, List.mem_singleton]
        constructor
        · rintro ⟨hkept, hlater⟩
          exact ⟨fun c hc => hkept c (.inl hc), fun _ _ => hkept a (.inr rfl), hlater⟩
        · rintro ⟨hkept, hfirst, hlater⟩
          refine ⟨?_, hlater⟩
          rintro c (hc | rfl)
          · exact hkept c hc
          · exact hfirst hba trivial

end Order

end PgVector.Foundation
