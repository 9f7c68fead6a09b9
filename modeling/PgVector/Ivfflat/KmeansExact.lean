import Mathlib.Data.Fin.VecNotation
import Mathlib.Tactic.NormNum
import PgVector.Ivfflat.Kmeans

/-!
# The assignment of Elkan's k-means is exact

The bounds of a sample hold before every iteration, whatever centers the iteration before
has moved to, and an iteration ends with every sample at a nearest center.  All of it
rests on the bounds of the first assignment, whose search starts from `FLT_MAX`.
-/

namespace PgVector.Ivfflat

open Foundation

variable {V K : Type} [LinearOrder K] {last : Nat}

/-! ## Bounds -/

structure Assignment.Bounds (ctx : KmeansContext V K) (centers : Fin (last + 1) → V) (x : V)
    (a : Assignment K last) : Prop where
  lower : ∀ k, a.lowerBound k ≤ ctx.distance x (centers k)
  upper : ctx.distance x (centers a.closestCenter) ≤ a.upperBound

def Assignment.Nearest (ctx : KmeansContext V K) (centers : Fin (last + 1) → V) (x : V)
    (a : Assignment K last) : Prop :=
  ∀ k, ctx.distance x (centers a.closestCenter) ≤ ctx.distance x (centers k)

variable {ctx : KmeansContext V K} {centers : Fin (last + 1) → V} {x : V}

/-! ## The first assignment -/

variable {lowerBound : Fin (last + 1) → K} {a : Assignment K last}

theorem closestInitial_le (ks : List (Fin (last + 1))) (best : K × Fin (last + 1)) :
    (closestInitial lowerBound ks best).1 ≤ best.1 ∧
      ∀ k ∈ ks, (closestInitial lowerBound ks best).1 ≤ lowerBound k := by
  induction ks generalizing best with
  | nil => simp [closestInitial]
  | cons k ks ih =>
    rw [closestInitial]
    obtain ⟨hbest, hks⟩ := ih (if lowerBound k < best.1 then (lowerBound k, k) else best)
    split at hbest <;> rename_i hk <;> simp only [hk, if_true, if_false] at hks ⊢
    · exact ⟨hbest.trans hk.le, by simpa using ⟨hbest, hks⟩⟩
    · exact ⟨hbest, by simpa using ⟨hbest.trans (not_lt.mp hk), hks⟩⟩

theorem closestInitial_eq (lowerBound : Fin (last + 1) → K) (ks : List (Fin (last + 1)))
    (best : K × Fin (last + 1)) :
    closestInitial lowerBound ks best = best ∨
      (closestInitial lowerBound ks best).1 =
          lowerBound (closestInitial lowerBound ks best).2 ∧
        (closestInitial lowerBound ks best).1 < best.1 := by
  induction ks generalizing best with
  | nil => exact .inl rfl
  | cons k ks ih =>
    rw [closestInitial]
    split
    case isTrue hk =>
      -- the tail either keeps the entry of `k` or ends below it
      obtain hkeep | ⟨heq, hlt⟩ := ih (lowerBound k, k)
      · rw [hkeep]
        exact .inr ⟨rfl, hk⟩
      · exact .inr ⟨heq, hlt.trans hk⟩
    case isFalse => exact ih best

theorem assignInitial_upperBound_le (k : Fin (last + 1)) :
    (assignInitial ctx fun k => ctx.distance x (centers k)).upperBound ≤
      ctx.distance x (centers k) :=
  (closestInitial_le (List.finRange (last + 1)) (ctx.fltMax, 0)).2 k (List.mem_finRange k)

theorem assignInitial_bounds_iff :
    (assignInitial ctx fun k => ctx.distance x (centers k)).Bounds ctx centers x ↔
      Reached ctx centers x := by
  have hleast (k) : (assignInitial ctx fun k => ctx.distance x (centers k)).upperBound ≤
      ctx.distance x (centers k) := assignInitial_upperBound_le k
  have hbounds : (assignInitial ctx fun k => ctx.distance x (centers k)).Bounds ctx centers x ↔
      ctx.distance x
        (centers (assignInitial ctx fun k => ctx.distance x (centers k)).closestCenter) ≤
        (assignInitial ctx fun k => ctx.distance x (centers k)).upperBound :=
    ⟨Assignment.Bounds.upper, fun hupper => ⟨fun _ => le_rfl, hupper⟩⟩
  rw [hbounds]
  obtain hkeep | ⟨heq, hlt⟩ := closestInitial_eq (fun k => ctx.distance x (centers k))
    (List.finRange (last + 1)) (ctx.fltMax, 0)
  · simp only [assignInitial, hkeep, Reached] at hleast ⊢
    exact ⟨.inr, fun hreached => hreached.elim
      (fun ⟨k, hk⟩ => absurd (hleast k) (not_le.mpr hk)) id⟩
  · simp only [assignInitial, Reached]
    exact ⟨fun _ => .inl ⟨_, heq ▸ hlt⟩, fun _ => heq.ge⟩

/-! ## A sample in Step 3 -/

/-- What holds of a sample in Step 3 after the centers of `seen`. -/
structure Examined.Valid (ctx : KmeansContext V K) (centers : Fin (last + 1) → V) (x : V)
    (seen : List (Fin (last + 1))) (e : Examined K last) : Prop where
  bounds : e.toAssignment.Bounds ctx centers x
  exact : e.rj = false → e.upperBound = ctx.distance x (centers e.closestCenter)
  nearest : ∀ k ∈ seen, ctx.distance x (centers e.closestCenter) ≤ ctx.distance x (centers k)

variable {seen : List (Fin (last + 1))} {e : Examined K last}

theorem Examined.Valid.snoc (h : e.Valid ctx centers x seen) {k : Fin (last + 1)}
    (hk : ctx.distance x (centers e.closestCenter) ≤ ctx.distance x (centers k)) :
    e.Valid ctx centers x (seen ++ [k]) := by
  refine ⟨h.bounds, h.exact, ?_⟩
  simpa [or_imp, forall_and] using ⟨h.nearest, hk⟩

theorem update_le (h : ∀ k, lowerBound k ≤ ctx.distance x (centers k)) (i k : Fin (last + 1)) :
    Function.update lowerBound i (ctx.distance x (centers i)) k ≤ ctx.distance x (centers k) := by
  rcases eq_or_ne k i with rfl | hki
  · simp
  · simpa [hki] using h k

theorem Examined.Valid.tighten (h : e.Valid ctx centers x seen) :
    (e.tighten ctx centers x).Valid ctx centers x seen ∧ (e.tighten ctx centers x).rj = false := by
  rw [Examined.tighten]
  split
  case isTrue hrj =>
    exact ⟨⟨⟨update_le h.bounds.lower e.closestCenter, le_rfl⟩, fun _ => rfl, h.nearest⟩, rfl⟩
  case isFalse hrj => exact ⟨h, by simpa using hrj⟩

variable [Field K]

theorem Examined.Valid.compare (h : e.Valid ctx centers x seen) (hrj : e.rj = false)
    (k : Fin (last + 1)) : (e.compare ctx centers x k).Valid ctx centers x (seen ++ [k]) := by
  have hexact := h.exact hrj
  have hlower := update_le h.bounds.lower k
  rw [Examined.compare]
  split
  case isTrue =>
    dsimp only
    split
    case isTrue hnearer =>
      -- every center seen so far is at least as far as the one left behind
      rw [hexact] at hnearer
      refine Examined.Valid.snoc ⟨⟨hlower, le_rfl⟩, fun _ => rfl, ?_⟩ le_rfl
      exact fun i hi => hnearer.le.trans (h.nearest i hi)
    case isFalse hfarther =>
      rw [hexact, not_lt] at hfarther
      have hkept : Examined.Valid ctx centers x seen
          { e with lowerBound := Function.update e.lowerBound k (ctx.distance x (centers k)) } :=
        ⟨⟨hlower, h.bounds.upper⟩, h.exact, h.nearest⟩
      exact hkept.snoc hfarther
  case isFalse hskip =>
    have hle : e.upperBound ≤ e.lowerBound k := not_lt.mp fun hlt => hskip (.inl hlt)
    exact h.snoc (h.bounds.upper.trans (hle.trans (h.bounds.lower k)))

/-! ## Steps 2 and 3 -/

theorem halfcdist_eq (hd : IsDistance ctx.distance) (j k : Fin (last + 1)) :
    halfcdist ctx centers j k = ctx.distance (centers j) (centers k) / 2 := by
  rw [halfcdist, hd.symm (centers k), ite_self]

theorem separationFrom_le (j : Fin (last + 1)) (ks : List (Fin (last + 1))) (minDistance : K) :
    separationFrom ctx centers j ks minDistance ≤ minDistance ∧
      ∀ k ∈ ks, j ≠ k →
        separationFrom ctx centers j ks minDistance ≤ halfcdist ctx centers j k := by
  induction ks generalizing minDistance with
  | nil => simp [separationFrom]
  | cons k ks ih =>
    rw [separationFrom]
    grind

theorem separation_le {j k : Fin (last + 1)} (h : j ≠ k) :
    separation ctx centers j ≤ halfcdist ctx centers j k :=
  (separationFrom_le j _ _).2 k (List.mem_finRange k) h

variable [IsStrictOrderedRing K]

theorem le_of_le_halfcdist (hd : IsDistance ctx.distance) (ha : a.Bounds ctx centers x)
    {k : Fin (last + 1)} (h : a.upperBound ≤ halfcdist ctx centers a.closestCenter k) :
    ctx.distance x (centers a.closestCenter) ≤ ctx.distance x (centers k) := by
  rw [halfcdist_eq hd] at h
  exact hd.le_of_le_half ha.upper h

theorem Examined.Valid.examine (hd : IsDistance ctx.distance) (h : e.Valid ctx centers x seen)
    (k : Fin (last + 1)) : (e.examine ctx centers x k).Valid ctx centers x (seen ++ [k]) := by
  rw [Examined.examine]
  split_ifs with hsame hlower hhalf
  · exact h.snoc (hsame ▸ le_rfl)
  · exact h.snoc (h.bounds.upper.trans (hlower.trans (h.bounds.lower k)))
  · exact h.snoc (le_of_le_halfcdist hd h.bounds hhalf)
  · obtain ⟨htight, hrj⟩ := h.tighten
    exact htight.compare hrj k

theorem Examined.Valid.foldl (hd : IsDistance ctx.distance) (ks : List (Fin (last + 1)))
    (h : e.Valid ctx centers x seen) :
    (ks.foldl (Examined.examine ctx centers x) e).Valid ctx centers x (seen ++ ks) := by
  induction ks generalizing e seen with
  | nil => simpa using h
  | cons k ks ih =>
    rw [List.append_cons]
    exact ih (h.examine hd k)

/-- Steps 2 and 3 keep the bounds of a sample and end at a nearest center.  Without the
reset of `rj` they rely on an exact upper bound. -/
theorem reassign_nearest (hd : IsDistance ctx.distance) (ha : a.Bounds ctx centers x)
    (rjreset : Bool)
    (hexact : rjreset = false → a.upperBound = ctx.distance x (centers a.closestCenter)) :
    (reassign ctx centers rjreset x a).toAssignment.Bounds ctx centers x ∧
      (reassign ctx centers rjreset x a).toAssignment.Nearest ctx centers x := by
  rw [reassign]
  split
  case isTrue hs =>
    refine ⟨ha, fun k => ?_⟩
    rcases eq_or_ne a.closestCenter k with hk | hk
    · exact hk ▸ le_rfl
    · exact le_of_le_halfcdist hd ha (hs.trans (separation_le hk))
  case isFalse =>
    have hvalid : Examined.Valid ctx centers x []
        { a with rj := rjreset, changes := 0 } := ⟨ha, hexact, by simp⟩
    have hall := hvalid.foldl hd (List.finRange (last + 1))
    exact ⟨hall.bounds, fun k => hall.nearest k (by simp)⟩

/-! ## Steps 5 and 6 -/

theorem Assignment.Bounds.move (hd : IsDistance ctx.distance) (ha : a.Bounds ctx centers x)
    (newCenters : Fin (last + 1) → V) :
    (a.move ctx centers newCenters).Bounds ctx newCenters x where
  lower k := by
    simp only [Assignment.move]
    split
    · exact hd.nonneg x (newCenters k)
    · exact hd.sub_le_of_move (ha.lower k)
  upper := hd.le_add_of_move ha.upper

/-! ## The run -/

section Run

variable {numSamples : Nat} {samples : Fin numSamples → V}
  {newCenters : Nat → (Fin numSamples → Fin (last + 1)) → Fin (last + 1) → V}

def Iteration.Exact (ctx : KmeansContext V K) (samples : Fin numSamples → V)
    (i : Iteration V K numSamples last) : Prop :=
  ∀ j, (i.before j).Bounds ctx i.centers (samples j) ∧ (i.after j).Nearest ctx i.centers (samples j)

theorem elkanLoop_exact (hd : IsDistance ctx.distance) (turns iteration : Nat)
    {assignments : Fin numSamples → Assignment K last}
    (hbounds : ∀ j, (assignments j).Bounds ctx centers (samples j))
    (hexact : iteration = 0 → ∀ j, (assignments j).upperBound =
      ctx.distance (samples j) (centers (assignments j).closestCenter)) :
    ∀ i ∈ (elkanLoop ctx samples newCenters turns iteration centers assignments).1,
      i.Exact ctx samples := by
  induction turns generalizing iteration centers assignments with
  | zero => simp [elkanLoop]
  | succ turns ih =>
    have hstep (j) := reassign_nearest hd (hbounds j) (iteration != 0)
      fun hreset => hexact (by simpa using hreset) j
    have hcurrent : Iteration.Exact ctx samples ⟨centers, assignments, fun j =>
        (reassign ctx centers (iteration != 0) (samples j) (assignments j)).toAssignment⟩ :=
      fun j => ⟨hbounds j, (hstep j).2⟩
    rw [elkanLoop]
    split
    · simpa using hcurrent
    · simp only [List.forall_mem_cons]
      exact ⟨hcurrent, ih (iteration + 1) (fun j => (hstep j).1.move hd _) (by simp)⟩

omit [IsStrictOrderedRing K] in
theorem reached_of_exact
    (h : ∀ i ∈ (elkanFrom ctx samples newCenters centers).1, i.Exact ctx samples) :
    ∀ j, Reached ctx centers (samples j) := by
  intro j
  -- the first iteration begins with the initial assignments
  obtain ⟨i, hi, hcenters, hbefore⟩ := exists_first_iteration ctx samples newCenters 499 0 centers
    fun j => assignInitial ctx fun k => ctx.distance (samples j) (centers k)
  have hfirst := (h i hi j).1
  rw [hcenters, hbefore] at hfirst
  exact assignInitial_bounds_iff.mp hfirst

theorem elkan_exact_iff (ctx : KmeansContext V K) (hd : IsDistance ctx.distance)
    (samples : Fin numSamples → V) (centers : Fin (last + 1) → V)
    (newCenters : Nat → (Fin numSamples → Fin (last + 1)) → Fin (last + 1) → V) :
    (∀ i ∈ (elkanFrom ctx samples newCenters centers).1, i.Exact ctx samples) ↔
      ∀ j, Reached ctx centers (samples j) := by
  constructor
  · exact reached_of_exact
  · intro h
    have hbounds (j) := assignInitial_bounds_iff.mpr (h j)
    refine elkanLoop_exact hd 500 0 hbounds fun _ j => ?_
    exact le_antisymm (assignInitial_upperBound_le _) (hbounds j).upper

def lineContext : KmeansContext ℚ ℚ := ⟨fun x y => |x - y|, (2 ^ 24 - 1) * 2 ^ 104⟩

theorem lineContext_isDistance : IsDistance lineContext.distance :=
  ⟨fun x => by simp [lineContext], abs_sub_comm, abs_sub_le⟩

theorem elkan_exact_two :
    IsDistance lineContext.distance ∧
      ∀ i ∈ (elkanFrom lineContext ![0, 3] (fun _ _ => ![1, 7]) ![0, 3]).1,
        i.Exact lineContext ![0, 3] := by
  refine ⟨lineContext_isDistance, ?_⟩
  refine (elkan_exact_iff lineContext lineContext_isDistance ![0, 3] ![0, 3]
    fun _ _ => ![1, 7]).mpr fun j => ?_
  exact .inl ⟨j, by norm_num [lineContext]⟩

/-- Two samples of `float`s that are farther apart than the largest `float`, with the first
one as the only center. -/
theorem elkan_inexact_far :
    ¬ ∀ i ∈ (elkanFrom lineContext ![-(3 * 2 ^ 126), 3 * 2 ^ 126] (fun _ _ => ![0])
        ![-(3 * 2 ^ 126)]).1, i.Exact lineContext ![-(3 * 2 ^ 126), 3 * 2 ^ 126] := by
  intro h
  have hreached := reached_of_exact h 1
  norm_num [Reached, lineContext] at hreached

end Run

end PgVector.Ivfflat
