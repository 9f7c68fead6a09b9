import Mathlib.Algebra.Order.Field.Basic
import Mathlib.Data.List.FinRange
import PgVector.Foundation.MetricBounds

/-!
# Elkan's k-means

`ElkanKmeans` groups the samples of a build around its centers.  For each sample it
keeps the center the sample is assigned to, an upper bound on the distance to that
center and a lower bound on the distance to every center, and computes a distance only
when the bounds leave the nearest center open.

Distances are values of an ordered field, computed without rounding; the arrays of the
source are functions of their indices.  There are `last + 1` centers.
-/

namespace PgVector.Ivfflat

open Foundation

/-- The distance `IVFFLAT_KMEANS_DISTANCE_PROC` and the distance the searches start from. -/
structure KmeansContext (V K : Type) where
  distance : V → V → K
  fltMax : K

/-- The entries of `closestCenters`, `upperBound` and `lowerBound` of one sample. -/
structure Assignment (K : Type) (last : Nat) where
  closestCenter : Fin (last + 1)
  upperBound : K
  lowerBound : Fin (last + 1) → K

def Reached {V K : Type} [LinearOrder K] {last : Nat} (ctx : KmeansContext V K)
    (centers : Fin (last + 1) → V) (x : V) : Prop :=
  (∃ k, ctx.distance x (centers k) < ctx.fltMax) ∨ ctx.distance x (centers 0) ≤ ctx.fltMax

variable {V K : Type} [Field K] [LinearOrder K] (ctx : KmeansContext V K)

/-! ## Initial centers -/

section Init

variable {lastSample : Nat} (samples : Fin (lastSample + 1) → V)

structure InitState (V K : Type) (lastSample : Nat) where
  centers : Nat → V
  weight : Fin (lastSample + 1) → K
  lowerBound : Fin (lastSample + 1) → Nat → K

/-- The loop that takes weights off `choice`; it never looks at the last sample. -/
def chooseSample (weight : Fin (lastSample + 1) → K) :
    List (Fin (lastSample + 1)) → K → Fin (lastSample + 1)
  | [], _ => Fin.last lastSample
  | j :: js, choice =>
    if choice - weight j ≤ 0 then j else chooseSample weight js (choice - weight j)

/-- One turn of the loop of `InitCenters`; `numCenters` is the number of centers asked for. -/
def initCenter (numCenters : Nat) (randomDouble : Nat → K) (i : Nat)
    (state : InitState V K lastSample) : InitState V K lastSample :=
  let distance := fun j => ctx.distance (samples j) (state.centers i)
  let weight := fun j =>
    if distance j * distance j < state.weight j then distance j * distance j
    else state.weight j
  let lowerBound := fun j => Function.update (state.lowerBound j) i (distance j)
  if i + 1 = numCenters then { state with weight, lowerBound }
  else
    let sum := ((List.finRange (lastSample + 1)).map weight).sum
    let chosen := chooseSample weight (List.finRange (lastSample + 1)).dropLast
      (sum * randomDouble i)
    { weight, lowerBound, centers := Function.update state.centers (i + 1) (samples chosen) }

/-- The first `i` turns of `InitCenters`.  Only the first center is set before the loop;
the other entries are overwritten before they are read. -/
def initCenters (numCenters randomInt : Nat) (randomDouble : Nat → K) :
    Nat → InitState V K lastSample
  | 0 => ⟨fun _ => samples (Fin.ofNat (lastSample + 1) randomInt), fun _ => ctx.fltMax,
      fun _ _ => 0⟩
  | i + 1 => initCenter ctx samples numCenters randomDouble i
      (initCenters numCenters randomInt randomDouble i)

end Init

/-! ## Assignment -/

section Assign

variable {last : Nat}

def closestInitial (lowerBound : Fin (last + 1) → K) :
    List (Fin (last + 1)) → K × Fin (last + 1) → K × Fin (last + 1)
  | [], best => best
  | k :: ks, best =>
    closestInitial lowerBound ks (if lowerBound k < best.1 then (lowerBound k, k) else best)

def assignInitial (lowerBound : Fin (last + 1) → K) : Assignment K last :=
  let best := closestInitial lowerBound (List.finRange (last + 1)) (ctx.fltMax, 0)
  ⟨best.2, best.1, lowerBound⟩

variable (centers : Fin (last + 1) → V)

/-- Computed for `j < k` and stored on both sides of the diagonal.  The diagonal itself is
never written or read. -/
def halfcdist (j k : Fin (last + 1)) : K :=
  if j < k then ctx.distance (centers j) (centers k) / 2
  else ctx.distance (centers k) (centers j) / 2

def separationFrom (j : Fin (last + 1)) : List (Fin (last + 1)) → K → K
  | [], minDistance => minDistance
  | k :: ks, minDistance =>
    separationFrom j ks
      (if j = k then minDistance
      else if halfcdist ctx centers j k < minDistance then halfcdist ctx centers j k
      else minDistance)

/-- The array `s`: half the distance from a center to the center nearest to it. -/
def separation (j : Fin (last + 1)) : K :=
  separationFrom ctx centers j (List.finRange (last + 1)) ctx.fltMax

/-- A sample in Step 3, with its flag `rj` and its share of `changes`. -/
structure Examined (K : Type) (last : Nat) extends Assignment K last where
  rj : Bool
  changes : Nat

/-- Step 3a: after it `upperBound` is the `dxcx` of the source. -/
def Examined.tighten (x : V) (e : Examined K last) : Examined K last :=
  if e.rj then
    let dxcx := ctx.distance x (centers e.closestCenter)
    { e with
      lowerBound := Function.update e.lowerBound e.closestCenter dxcx
      upperBound := dxcx
      rj := false }
  else e

/-- Step 3b. -/
def Examined.compare (x : V) (k : Fin (last + 1)) (e : Examined K last) : Examined K last :=
  if e.lowerBound k < e.upperBound ∨ halfcdist ctx centers e.closestCenter k < e.upperBound then
    let dxc := ctx.distance x (centers k)
    let lowerBound := Function.update e.lowerBound k dxc
    if dxc < e.upperBound then
      { e with closestCenter := k, upperBound := dxc, lowerBound, changes := e.changes + 1 }
    else { e with lowerBound }
  else e

/-- Step 3 for one center. -/
def Examined.examine (x : V) (e : Examined K last) (k : Fin (last + 1)) : Examined K last :=
  if k = e.closestCenter then e
  else if e.upperBound ≤ e.lowerBound k then e
  else if e.upperBound ≤ halfcdist ctx centers e.closestCenter k then e
  else (e.tighten ctx centers x).compare ctx centers x k

/-- Steps 2 and 3 for one sample. -/
def reassign (rjreset : Bool) (x : V) (a : Assignment K last) : Examined K last :=
  let e : Examined K last := { a with rj := rjreset, changes := 0 }
  if a.upperBound ≤ separation ctx centers a.closestCenter then e
  else (List.finRange (last + 1)).foldl (Examined.examine ctx centers x) e

/-- Steps 5 and 6 for one sample. -/
def Assignment.move (newCenters : Fin (last + 1) → V) (a : Assignment K last) : Assignment K last :=
  let newcdist := fun k => ctx.distance (centers k) (newCenters k)
  { a with
    lowerBound := fun k =>
      if a.lowerBound k - newcdist k < 0 then 0 else a.lowerBound k - newcdist k
    upperBound := a.upperBound + newcdist a.closestCenter }

end Assign

/-! ## Iterations -/

section Iterate

variable {numSamples last : Nat}

/-- An iteration of `ElkanKmeans`: the centers it works with and the assignments before
Step 2 and after Step 3. -/
structure Iteration (V K : Type) (numSamples last : Nat) where
  centers : Fin (last + 1) → V
  before : Fin numSamples → Assignment K last
  after : Fin numSamples → Assignment K last

variable (samples : Fin numSamples → V)
  (newCenters : Nat → (Fin numSamples → Fin (last + 1)) → Fin (last + 1) → V)

/-- The loop of `ElkanKmeans` with `turns` turns left.  `newCenters` stands for
`ComputeNewCenters`: it may give any centers in any iteration. -/
def elkanLoop : Nat → Nat → (Fin (last + 1) → V) → (Fin numSamples → Assignment K last) →
    List (Iteration V K numSamples last) × (Fin (last + 1) → V)
  | 0, _, centers, _ => ([], centers)
  | turns + 1, iteration, centers, assignments =>
    let examined := fun j =>
      reassign ctx centers (iteration != 0) (samples j) (assignments j)
    let changes := ((List.finRange numSamples).map fun j => (examined j).changes).sum
    let after := fun j => (examined j).toAssignment
    let moved := newCenters iteration fun j => (after j).closestCenter
    let current : Iteration V K numSamples last := ⟨centers, assignments, after⟩
    if changes = 0 ∧ iteration ≠ 0 then ([current], moved)
    else
      let rest := elkanLoop turns (iteration + 1) moved
        fun j => (after j).move ctx centers moved
      (current :: rest.1, rest.2)

theorem exists_first_iteration (turns iteration : Nat) (centers : Fin (last + 1) → V)
    (assignments : Fin numSamples → Assignment K last) :
    ∃ i ∈ (elkanLoop ctx samples newCenters (turns + 1) iteration centers assignments).1,
      i.centers = centers ∧ i.before = assignments := by
  rw [elkanLoop]
  split
  · exact ⟨_, List.mem_singleton_self _, rfl, rfl⟩
  · exact ⟨_, List.mem_cons_self, rfl, rfl⟩

def elkanRun (centers : Fin (last + 1) → V) (lowerBound : Fin numSamples → Fin (last + 1) → K) :
    List (Iteration V K numSamples last) × (Fin (last + 1) → V) :=
  elkanLoop ctx samples newCenters 500 0 centers fun j => assignInitial ctx (lowerBound j)

def elkanFrom (centers : Fin (last + 1) → V) :
    List (Iteration V K numSamples last) × (Fin (last + 1) → V) :=
  elkanRun ctx samples newCenters centers fun j k => ctx.distance (samples j) (centers k)

end Iterate

section Elkan

variable {lastSample last : Nat} (samples : Fin (lastSample + 1) → V)
  (newCenters : Nat → (Fin (lastSample + 1) → Fin (last + 1)) → Fin (last + 1) → V)
  (randomInt : Nat) (randomDouble : Nat → K)

def elkanKmeans : List (Iteration V K (lastSample + 1) last) × (Fin (last + 1) → V) :=
  let init := initCenters ctx samples (last + 1) randomInt randomDouble (last + 1)
  elkanRun ctx samples newCenters (fun k => init.centers k) fun j k => init.lowerBound j k

theorem lowerBound_initCenters (numCenters i : Nat) :
    let init := initCenters ctx samples numCenters randomInt randomDouble i
    ∀ j, ∀ k < i, init.lowerBound j k = ctx.distance (samples j) (init.centers k) := by
  induction i with
  | zero => simp
  | succ i ih =>
    intro init j k hk
    have hold := ih j k
    simp only [init, initCenters, initCenter]
    by_cases hki : k = i
    · subst hki
      split <;> simp
    · have hlt : k < i := by omega
      have hnext : k ≠ i + 1 := by omega
      split <;> simp [hki, hnext, hold hlt]

theorem elkanKmeans_eq_elkanFrom :
    elkanKmeans ctx samples newCenters randomInt randomDouble =
      elkanFrom ctx samples newCenters fun k =>
        (initCenters ctx samples (last + 1) randomInt randomDouble (last + 1)).centers k := by
  have hexact := lowerBound_initCenters ctx samples randomInt randomDouble (last + 1) (last + 1)
  simp only [elkanKmeans, elkanFrom]
  congr 1
  funext j k
  exact hexact j k k.isLt

end Elkan

end PgVector.Ivfflat
