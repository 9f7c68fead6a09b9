import Mathlib.Algebra.Order.BigOperators.Group.List
import PgVector.Ivfflat.KmeansExact

/-!
# The initial centers of k-means

`InitCenters` draws each center among the samples with the squared distance to the centers
before it as weight.  It draws no sample that coincides with one of them.
-/

namespace PgVector.Ivfflat

open Foundation

section Init

variable {V K : Type} [Field K] [LinearOrder K] [IsStrictOrderedRing K] {ctx : KmeansContext V K}
  {lastSample numCenters i randomInt : Nat} {samples : Fin (lastSample + 1) → V}
  {randomDouble : Nat → K} {st : InitState V K lastSample}

theorem chooseSample_pos {weight : Fin (lastSample + 1) → K} {js : List (Fin (lastSample + 1))}
    {choice : K} (hpos : 0 < choice)
    (hlt : choice < (js.map weight).sum + weight (Fin.last lastSample)) :
    0 < weight (chooseSample weight js choice) := by
  induction js generalizing choice with
  | nil =>
    simp only [List.map_nil, List.sum_nil, zero_add] at hlt
    exact hpos.trans hlt
  | cons j js ih =>
    rw [chooseSample]
    split
    · next hle => exact hpos.trans_le (sub_nonpos.mp hle)
    · next hle =>
      rw [List.map_cons, List.sum_cons, add_assoc] at hlt
      exact ih (not_le.mp hle) (sub_lt_iff_lt_add'.mpr hlt)

/-- A sample of weight zero is never drawn. -/
theorem drawn_pos {weight : Fin (lastSample + 1) → K} {r : K} {j : Fin (lastSample + 1)}
    (hnonneg : ∀ j, 0 ≤ weight j) (hj : 0 < weight j) (hr : 0 < r ∧ r < 1) :
    0 < weight (chooseSample weight (List.finRange (lastSample + 1)).dropLast
      (((List.finRange (lastSample + 1)).map weight).sum * r)) := by
  have hsum : 0 < ((List.finRange (lastSample + 1)).map weight).sum := by
    refine hj.trans_le (List.single_le_sum ?_ _ (List.mem_map_of_mem (by simp)))
    simpa using hnonneg
  refine chooseSample_pos (mul_pos hsum hr.1) ?_
  refine (mul_lt_of_lt_one_right hsum hr.2).trans_eq ?_
  simp [List.finRange_succ_last]

/--
After `i` turns of `InitCenters` the centers are samples apart from one another, and the
weights are positive for the samples that are apart from the first `i` of them.
-/
structure InitState.Apart (ctx : KmeansContext V K) (samples : Fin (lastSample + 1) → V)
    (i : Nat) (st : InitState V K lastSample) : Prop where
  sampled : ∀ k ≤ i, ∃ j, st.centers k = samples j
  apart : ∀ k ≤ i, ∀ k' < k, 0 < ctx.distance (st.centers k) (st.centers k')
  weight_nonneg : ∀ j, 0 ≤ st.weight j
  weight_pos : ∀ j, 0 < st.weight j ↔ ∀ k < i, 0 < ctx.distance (samples j) (st.centers k)

theorem InitState.Apart.turn (hd : IsDistance ctx.distance) (h : st.Apart ctx samples i)
    (hnext : i + 1 ≠ numCenters) (hrandom : 0 < randomDouble i ∧ randomDouble i < 1)
    (hmany : ∃ j, ∀ k < i + 1, 0 < ctx.distance (samples j) (st.centers k)) :
    (initCenter ctx samples numCenters randomDouble i st).Apart ctx samples (i + 1) := by
  simp only [initCenter, if_neg hnext, ← min_def_lt]
  set weight := fun j => min (ctx.distance (samples j) (st.centers i) *
    ctx.distance (samples j) (st.centers i)) (st.weight j) with hweight
  set chosen := chooseSample weight (List.finRange (lastSample + 1)).dropLast _
  have hnonneg (j) : 0 ≤ weight j := le_min (mul_self_nonneg _) (h.weight_nonneg j)
  have hpos (j) : 0 < weight j ↔ ∀ k < i + 1, 0 < ctx.distance (samples j) (st.centers k) := by
    have hsquare : 0 < ctx.distance (samples j) (st.centers i) *
        ctx.distance (samples j) (st.centers i) ↔ 0 < ctx.distance (samples j) (st.centers i) :=
      mul_self_pos.trans (hd.nonneg _ _).lt_iff_ne'.symm
    rw [hweight, lt_min_iff, hsquare, h.weight_pos, Nat.forall_lt_succ_right, and_comm]
  have hchosen : 0 < weight chosen := by
    obtain ⟨j, hj⟩ := hmany
    exact drawn_pos hnonneg ((hpos j).mpr hj) hrandom
  have hkept (k) (hk : k < i + 1) : Function.update st.centers (i + 1) (samples chosen) k =
      st.centers k := Function.update_of_ne hk.ne _ _
  refine ⟨fun k hk => ?_, fun k hk k' hk' => ?_, hnonneg, fun j => ?_⟩ <;> dsimp only
  · obtain hlt | rfl := hk.lt_or_eq
    · rw [hkept k hlt]
      exact h.sampled k (Nat.le_of_lt_succ hlt)
    · exact ⟨chosen, Function.update_self ..⟩
  · rw [hkept k' (hk'.trans_le hk)]
    obtain hlt | rfl := hk.lt_or_eq
    · rw [hkept k hlt]
      exact h.apart k (Nat.le_of_lt_succ hlt) k' hk'
    · rw [Function.update_self]
      exact (hpos chosen).mp hchosen k' hk'
  · exact (hpos j).trans (forall₂_congr fun k hk => by rw [hkept k hk])

/--
If fewer points than centers do not cover the samples, the initial centers are samples at a
positive distance from one another.  A draw of 0 would take the first sample, whatever its
weight is.
-/
theorem initial_centers_apart (last : Nat) (hd : IsDistance ctx.distance)
    (hfltMax : 0 < ctx.fltMax) (hrandom : ∀ i, 0 < randomDouble i ∧ randomDouble i < 1)
    (hmany : ∀ points : Fin last → V, ∃ j, ∀ k, 0 < ctx.distance (samples j) (points k)) :
    let init := initCenters ctx samples (last + 1) randomInt randomDouble (last + 1)
    ∀ k ≤ last, (∃ j, init.centers k = samples j) ∧
      ∀ k' < k, 0 < ctx.distance (init.centers k) (init.centers k') := by
  set run := initCenters ctx samples (last + 1) randomInt randomDouble
  have hturns (i) (hi : i ≤ last) : (run i).Apart ctx samples i := by
    induction i with
    | zero =>
      refine ⟨fun _ _ => ⟨_, rfl⟩, by omega, fun _ => hfltMax.le, fun _ => ?_⟩
      simp [run, initCenters, hfltMax]
    | succ i ih =>
      refine (ih (by omega)).turn hd (by omega) (hrandom i) ?_
      obtain ⟨j, hj⟩ := hmany fun k => (run i).centers k
      exact ⟨j, fun k hk => hj ⟨k, by omega⟩⟩
  -- the last turn sets no center
  have hcenters : (run (last + 1)).centers = (run last).centers := by
    simp [run, initCenters, initCenter]
  have hlast := hturns last le_rfl
  intro init k hk
  simp only [init, hcenters]
  exact ⟨hlast.sampled k hk, hlast.apart k hk⟩

end Init

theorem initial_centers_apart_two :
    let init := initCenters lineContext ![0, 3] 2 0 (fun _ => 1 / 2) 2
    0 < lineContext.distance (init.centers 1) (init.centers 0) := by
  refine ((initial_centers_apart 1 lineContext_isDistance (by norm_num [lineContext])
    (fun _ => by norm_num) fun points => ?_) 1 le_rfl).2 0 one_pos
  by_cases hzero : points 0 = 0
  · exact ⟨1, by simp [Fin.forall_fin_one, hzero, lineContext]⟩
  · exact ⟨0, by simp [Fin.forall_fin_one, hzero, lineContext]⟩

end PgVector.Ivfflat
