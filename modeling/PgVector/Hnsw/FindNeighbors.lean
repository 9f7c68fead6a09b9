import PgVector.Hnsw.SearchSafe
import PgVector.Hnsw.SelectSpec

/-!
# Finding the neighbors of an element

What is known of every element that a search for neighbors can load is known of
the neighbors it returns, at each layer, and they fit into their slots.  This
holds among other programs and for the graph in memory as well as on disk.
-/

namespace PgVector.Hnsw

open Foundation

/-- At most as many neighbors as slots, at each layer, and `P` of the neighbors. -/
def LayersOf {E F : Type} (P : Nat → E → Prop) (m : Nat) :
    List (List (HnswCandidate E F)) → Prop
  | [] => True
  | layer :: lower =>
    (layer.length ≤ hnswGetLayerM m lower.length ∧
      ∀ hc ∈ layer, P lower.length hc.element) ∧ LayersOf P m lower

namespace LayersOf

variable {E F : Type} {P Q : Nat → E → Prop} {m : Nat}
  {layers : List (List (HnswCandidate E F))}

theorem mono (h : LayersOf P m layers) (hPQ : ∀ lc e, P lc e → Q lc e) : LayersOf Q m layers := by
  induction layers with
  | nil => trivial
  | cons layer lower ih =>
    exact ⟨⟨h.1.1, fun hc hmem => hPQ _ _ (h.1.2 hc hmem)⟩, ih h.2⟩

theorem replicate_append (h : LayersOf P m layers) (n : Nat) :
    LayersOf P m (List.replicate n [] ++ layers) := by
  induction n with
  | zero => exact h
  | succ n ih => exact ⟨⟨Nat.zero_le _, by simp⟩, ih⟩

theorem replicate (n : Nat) :
    LayersOf P m (List.replicate n [] : List (List (HnswCandidate E F))) := by
  have h : LayersOf P m (List.replicate n [] ++ ([] : List (List (HnswCandidate E F)))) :=
    @replicate_append E F P m [] trivial n
  rwa [List.append_nil] at h

variable {layer : List (HnswCandidate E F)}

theorem get (h : LayersOf P m layers) {i : Nat} (hlayer : layers[i]? = some layer) :
    layer.length ≤ hnswGetLayerM m (layers.length - 1 - i) ∧
      ∀ hc ∈ layer, P (layers.length - 1 - i) hc.element := by
  induction layers generalizing i with
  | nil => simp at hlayer
  | cons first lower ih =>
    cases i with
    | zero =>
      cases hlayer
      exact h.1
    | succ i =>
      have hlower := ih h.2 hlayer
      have hindex : (first :: lower).length - 1 - (i + 1) = lower.length - 1 - i := by
        rw [List.length_cons]
        omega
      rw [hindex]
      exact hlower

theorem mem (h : LayersOf P m layers) (hlayer : layer ∈ layers) {hc : HnswCandidate E F}
    (hhc : hc ∈ layer) : ∃ lc, P lc hc.element := by
  obtain ⟨i, hi⟩ := List.mem_iff_getElem?.mp hlayer
  exact ⟨_, (h.get hi).2 hc hhc⟩

end LayersOf

section Find

variable {L : Signature} {S X E N K D F : Type} [LinearOrder D] [LinearOrder F]
  [DecidableEq K] {C : Discipline L S X} {A : NeighborSearch L E N K D F}
  {J : X → Prop} {Good : Nat → E → X → Prop} {Ref : Nat → N → X → Prop}
  {Kept : E → Prop} {x : X}

structure NeighborSearchKeeps (C : Discipline L S X) (A : NeighborSearch L E N K D F)
    (J : X → Prop) (Good : Nat → E → X → Prop) (Ref : Nat → N → X → Prop)
    (Kept : E → Prop) : Prop where
  access : ∀ lc, AccessKeeps C (A.access lc) J (Good lc) (Ref lc)
  down : ∀ {lc e x}, Good (lc + 1) e x → Good lc e x
  removeElements : ∀ {w : List (HnswCandidate E F)} {hc},
    hc ∈ A.removeElements w → hc ∈ w ∧ Kept hc.element

variable {ep : List (HnswSearchCandidate E D)}

omit [LinearOrder F] in
theorem NeighborSearch.searchLayer_keeps (hA : NeighborSearchKeeps C A J Good Ref Kept)
    (ef lc : Nat) (hJ : J x) (hep : ∀ sc ∈ ep, Good lc sc.element x) :
    (A.searchLayer ep ef lc).Keeps C (fun w y => ∀ sc ∈ w, Good lc sc.element y) x := by
  have hfresh : ∀ heap ∈ (freshSearch : SearchState E K D).discarded,
      HeapOf (Good lc · x) heap := by simp [freshSearch]
  refine (hnswSearchLayer_keeps (hA.access lc) A.sizes A.fuel ef lc A.m A.existing true hJ
    hep hfresh).bind ?_
  rintro ⟨w, st⟩ y hxy _ ⟨hw, -⟩
  apply Program.Keeps.ret
  intro z hyz _ sc hsc
  exact (hA.access lc).good_stable hyz ((hA.access lc).stable hxy hJ) (hw sc hsc)

omit [LinearOrder F] in
theorem NeighborSearch.descend_keeps (hA : NeighborSearchKeeps C A J Good Ref Kept)
    (level turns : Nat) (hJ : J x) (hep : ∀ sc ∈ ep, Good (level + turns) sc.element x) :
    (A.descend level turns ep).Keeps C (fun w y => ∀ sc ∈ w, Good level sc.element y) x := by
  induction turns generalizing ep x with
  | zero =>
    apply Program.Keeps.ret
    intro y hxy _ sc hsc
    exact (hA.access level).good_stable hxy hJ (hep sc hsc)
  | succ turns ih =>
    refine (A.searchLayer_keeps hA 1 (level + turns + 1) hJ hep).bind ?_
    intro w y hxy _ hw
    exact ih ((hA.access level).stable hxy hJ) fun sc hsc => hA.down (hw sc hsc)

omit [LinearOrder D] [DecidableEq K] in
theorem NeighborSearch.mem_choose (hA : NeighborSearchKeeps C A J Good Ref Kept)
    {w : List (HnswSearchCandidate E D)} {lc : Nat} {hc : HnswCandidate E F}
    (h : hc ∈ A.choose w lc) : (∃ sc ∈ w, sc.element = hc.element) ∧ Kept hc.element := by
  obtain ⟨l, hl, rfl⟩ := List.mem_map.mp h
  obtain ⟨c, hc, heq⟩ := mem_selectNeighbors hl
  obtain ⟨hw, hkept⟩ := hA.removeElements hc
  obtain ⟨sc, hsc, rfl⟩ := List.mem_map.mp hw
  rw [← heq]
  exact ⟨⟨sc, hsc, rfl⟩, hkept⟩

theorem NeighborSearch.connect_keeps (hA : NeighborSearchKeeps C A J Good Ref Kept) (layers : Nat)
    (hJ : J x) (hep : ∀ lc, layers = lc + 1 → ∀ sc ∈ ep, Good lc sc.element x) :
    (A.connect layers ep).Keeps C
      (fun found y => found.length = layers ∧
        LayersOf (fun lc e => Good lc e y ∧ Kept e) A.m found) x := by
  induction layers generalizing ep x with
  | zero => exact .ret fun _ _ _ => ⟨rfl, trivial⟩
  | succ lc ih =>
    refine (A.searchLayer_keeps hA _ lc hJ (hep lc rfl)).bind ?_
    intro w y hxy _ hw
    have hJy := (hA.access lc).stable hxy hJ
    have hlower : ∀ lc', lc = lc' + 1 → ∀ sc ∈ w, Good lc' sc.element y := by
      rintro lc' rfl sc hsc
      exact hA.down (hw sc hsc)
    refine (ih hJy hlower).bind ?_
    rintro found z hyz _ ⟨hlength, hfound⟩
    have hJz := (hA.access lc).stable hyz hJy
    apply Program.Keeps.ret
    intro u hzu _
    refine ⟨by simp [hlength], ⟨?_, ?_⟩, hfound.mono ?_⟩
    · rw [hlength, NeighborSearch.choose, List.length_map]
      exact selectNeighbors_room
    · intro hc hmem
      obtain ⟨⟨sc, hsc, hsame⟩, hkept⟩ := NeighborSearch.mem_choose hA hmem
      have hgood := (hA.access lc).good_stable (C.rely_trans hyz hzu) hJy (hw sc hsc)
      rw [hlength, ← hsame]
      exact ⟨hgood, hsame ▸ hkept⟩
    · rintro lc' e ⟨he, hkept⟩
      exact ⟨(hA.access lc').good_stable hzu hJz he, hkept⟩

structure FoundOf (P : Nat → E → Prop) (m level : Nat) (found : FoundNeighbors E F) :
    Prop where
  length : found.layers.length = level + 1
  layers : LayersOf P m found.layers

theorem NeighborSearch.fromEntry_keeps (hA : NeighborSearchKeeps C A J Good Ref Kept)
    (level entryLevel : Nat) {entry : HnswSearchCandidate E D} (hJ : J x)
    (hentry : Good entryLevel entry.element x) :
    (A.fromEntry level entryLevel entry).Keeps C
      (fun found y => FoundOf (fun lc e => Good lc e y ∧ Kept e) A.m level found ∧
        found.entryLevel = some entryLevel) x := by
  have hep : ∀ sc ∈ [entry], Good (min level entryLevel + (entryLevel - level)) sc.element x := by
    intro sc hsc
    rw [List.mem_singleton] at hsc
    have hsum : min level entryLevel + (entryLevel - level) = entryLevel := by omega
    rw [hsum, hsc]
    exact hentry
  have hdescend : (A.descend level (entryLevel - level) [entry]).Keeps C
      (fun w y => ∀ sc ∈ w, Good (min level entryLevel) sc.element y) x := by
    rcases Nat.le_total level entryLevel with hle | hle
    · rw [Nat.min_eq_left hle] at hep ⊢
      exact A.descend_keeps hA level _ hJ hep
    · rw [Nat.sub_eq_zero_of_le hle] at hep ⊢
      apply Program.Keeps.ret
      intro y hxy _ sc hsc
      exact (hA.access _).good_stable hxy hJ (hep sc hsc)
  refine hdescend.bind ?_
  intro w y hxy _ hw
  have hJy := (hA.access level).stable hxy hJ
  have hwlow : ∀ lc, min level entryLevel + 1 = lc + 1 → ∀ sc ∈ w, Good lc sc.element y := by
    intro lc hlc sc hsc
    obtain rfl := Nat.succ.inj hlc
    exact hw sc hsc
  refine (A.connect_keeps hA _ hJy hwlow).bind ?_
  rintro found z hyz _ ⟨hlength, hfound⟩
  have hJz := (hA.access level).stable hyz hJy
  apply Program.Keeps.ret
  intro u hzu _
  refine ⟨⟨?_, ?_⟩, rfl⟩
  · simp only [List.length_append, List.length_replicate, hlength]
    omega
  · apply LayersOf.replicate_append
    apply hfound.mono
    rintro lc e ⟨he, hkept⟩
    exact ⟨(hA.access lc).good_stable hzu hJz he, hkept⟩

theorem hnswFindElementNeighbors_keeps (hA : NeighborSearchKeeps C A J Good Ref Kept)
    (level : Nat) {entryPoint : Option (Program L (HnswSearchCandidate E D × Nat))}
    (hJ : J x)
    (hentry : ∀ p ∈ entryPoint, p.Keeps C (fun r y => Good r.2 r.1.element y) x) :
    (hnswFindElementNeighbors A level entryPoint).Keeps C
      (fun found y => FoundOf (fun lc e => Good lc e y ∧ Kept e) A.m level found) x := by
  cases entryPoint with
  | none => exact .ret fun _ _ _ => ⟨by simp, LayersOf.replicate _⟩
  | some entryCandidate =>
    refine (hentry _ rfl).bind ?_
    rintro ⟨entry, entryLevel⟩ y hxy _ hgood
    refine (A.fromEntry_keeps hA level entryLevel ((hA.access 0).stable hxy hJ) hgood).mono ?_
    intro found z _ _ hfound
    exact hfound.1

end Find

end PgVector.Hnsw
