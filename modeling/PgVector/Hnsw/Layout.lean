import PgVector.Foundation.History
import PgVector.Hnsw.InsertYields
import PgVector.Hnsw.MemoryBuild
import PgVector.Hnsw.Pairing
import PgVector.Hnsw.SelectSpec

/-!
# The layers of a neighbor tuple

`HnswSetNeighborTuple` writes the layers of an element one after the other, highest
first; `HnswLoadNeighborTids` and `UpdateNeighborOnDisk` work out on their own where a
layer begins.  The three agree, and what is done to one layer leaves the others alone.
-/

namespace PgVector.Hnsw

open Foundation

variable {V D F : Type}

/-! ## Reading a layer -/

def HnswNeighborTuple.tids? (ntup : HnswNeighborTuple) (element : HnswElement V) (m lc : Nat) :
    Option (List ItemPointer) :=
  if ntup.version ≠ element.version ∨ ntup.count ≠ (element.level + 2) * m then none
  else some (ntup.layer ((element.level - lc) * m) (hnswGetLayerM m lc))

theorem touchTrace_reads (self : ThreadId) (trace : Option HnswTraceStats)
    (f : HnswTraceStats → HnswTraceStats) (s : Shared V) :
    (touchTrace trace f).Returns (hnswHandler self) s fun _ t => t.index = s.index := by
  cases trace with
  | none => exact .ret rfl
  | some trace => exact .perform rfl (.ret rfl)

theorem hnswLoadNeighborTids_reads (self : ThreadId) {s : Shared V} (element : HnswElement V)
    {ntup : HnswNeighborTuple} (h : s.index.neighbor? element.neighbortid = some ntup)
    (m lc : Nat) (trace : Option HnswTraceStats) :
    (hnswLoadNeighborTids element m lc trace).Returns (hnswHandler self) s fun r t =>
      r.1 = ntup.tids? element m lc ∧ t.index = s.index := by
  have hread : hnswHandler self (.readTuple element.neighbortid) s =
      some (some (.neighbor ntup), s) := by
    rw [hnswHandler, HnswIndex.neighbor?_eq_some.mp h]
  have htuple : (readNeighborTuple element.neighbortid).Returns (hnswHandler self) s
      fun r t => r = ntup ∧ t = s := .perform hread (.ret ⟨rfl, rfl⟩)
  refine htuple.bind ?_
  rintro _ _ ⟨rfl, rfl⟩
  unfold HnswNeighborTuple.tids?
  split
  · exact .ret ⟨rfl, rfl⟩
  · refine (touchTrace_reads self trace _ _).bind ?_
    intro _ t ht
    exact .ret ⟨rfl, ht⟩

/-! ## Writing into a layer -/

def UpdateIdx.Within (lm : Nat) : UpdateIdx → Prop
  | .slot i => i < lm
  | _ => True

/-- Of the slots, at most one has changed, and it is one of the `n` from `first` on. -/
structure SlotChange (first n : Nat) (slots slots' : List ItemPointer) : Prop where
  length : slots'.length = slots.length
  within : ∀ i : Nat, slots'[i]? ≠ slots[i]? → first ≤ i ∧ i < first + n
  single : ∀ i j : Nat, slots'[i]? ≠ slots[i]? → slots'[j]? ≠ slots[j]? → i = j

theorem SlotChange.refl (first n : Nat) (slots : List ItemPointer) :
    SlotChange first n slots slots where
  length := rfl
  within _ h := absurd rfl h
  single _ _ h := absurd rfl h

theorem SlotChange.set {first n i : Nat} (slots : List ItemPointer) (tid : ItemPointer)
    (hfirst : first ≤ i) (hn : i < first + n) : SlotChange first n slots (slots.set i tid) := by
  have hi (j : Nat) (hj : (slots.set i tid)[j]? ≠ slots[j]?) : j = i := by
    by_contra hne
    exact hj (List.getElem?_set_ne (Ne.symm hne))
  constructor
  · exact List.length_set
  · intro j hj
    rw [hi j hj]
    exact ⟨hfirst, hn⟩
  · intro j k hj hk
    rw [hi j hj, hi k hk]

namespace HnswNeighborTuple

theorem updateSlot_within {ntup : HnswNeighborTuple} {tid : ItemPointer} {idx : UpdateIdx}
    {startIdx lm i : Nat} {checkExisting : Bool} (hidx : idx.Within lm)
    (h : ntup.updateSlot tid idx startIdx lm checkExisting = some i) :
    startIdx ≤ i ∧ i < startIdx + lm := by
  unfold updateSlot at h
  split at h
  · contradiction
  · cases idx with
    | unchanged => contradiction
    | free =>
      obtain ⟨j, hj, rfl⟩ := Option.map_eq_some_iff.mp h
      have hlt := (List.findIdx?_eq_some_iff_findIdx_eq.mp hj).1
      have hlayer : (ntup.layer startIdx lm).length ≤ lm := List.length_take_le _ _
      omega
    | slot j =>
      have hj : j < lm := hidx
      simp only [Option.some.injEq] at h
      omega

theorem update_slotChange (ntup : HnswNeighborTuple) (tid : ItemPointer) {idx : UpdateIdx}
    {lm : Nat} (startIdx : Nat) (checkExisting : Bool) (hidx : idx.Within lm) :
    SlotChange startIdx lm ntup.indextids
      (ntup.update tid idx startIdx lm checkExisting).indextids := by
  unfold update
  split
  · exact .refl _ _ _
  · next i hi =>
    obtain ⟨hfirst, hn⟩ := updateSlot_within hidx hi
    exact .set _ _ hfirst hn

end HnswNeighborTuple

theorem SlotChange.layer_eq {first n first' n' : Nat} {ntup ntup' : HnswNeighborTuple}
    (h : SlotChange first n ntup.indextids ntup'.indextids)
    (hapart : first' + n' ≤ first ∨ first + n ≤ first') :
    ntup'.layer first' n' = ntup.layer first' n' := by
  apply List.ext_getElem?
  intro i
  rw [HnswNeighborTuple.layer, HnswNeighborTuple.layer]
  by_cases hi : i < n'
  · rw [List.getElem?_take_of_lt hi, List.getElem?_take_of_lt hi, List.getElem?_drop,
      List.getElem?_drop]
    by_contra hne
    have hwithin := h.within _ hne
    omega
  · rw [List.getElem?_take_eq_none (by omega), List.getElem?_take_eq_none (by omega)]

theorem layers_apart (m : Nat) {level lc lc' : Nat} (hlc : lc ≤ level) (hlc' : lc' ≤ level)
    (hne : lc' ≠ lc) :
    (level - lc') * m + hnswGetLayerM m lc' ≤ (level - lc) * m ∨
      (level - lc) * m + hnswGetLayerM m lc ≤ (level - lc') * m := by
  -- the higher layer comes first, and takes `m` slots since it is not layer 0
  have hbefore {high low : Nat} (hhigh : high ≤ level) (hlt : low < high) :
      (level - high) * m + hnswGetLayerM m high ≤ (level - low) * m := by
    have hm : hnswGetLayerM m high = m := if_neg (by omega)
    have hle : level - high + 1 ≤ level - low := by omega
    calc (level - high) * m + hnswGetLayerM m high = (level - high + 1) * m := by
          rw [hm, Nat.succ_mul]
      _ ≤ (level - low) * m := Nat.mul_le_mul_right m hle
  rcases Nat.lt_or_gt_of_ne hne with hlt | hlt
  · exact .inr (hbefore hlc hlt)
  · exact .inl (hbefore hlc' hlt)

/-! ## The index of an update -/

section Index

variable [LinearOrder D] [LinearOrder F] (ctx : InsertContext V D F)

omit [LinearOrder D] [LinearOrder F] in
theorem diskNeighbors_length (m lc : Nat) (element : HnswElement V)
    (trace : Option HnswTraceStats) :
    (diskNeighbors m lc element trace).Yields (fun _ => True) fun r =>
      r.1.length ≤ hnswGetLayerM m lc := by
  have hread : (readNeighborTuple element.neighbortid : HnswProgram V _).Yields (fun _ => True)
      fun _ => True :=
    (@readNeighborTuple_yields V none _).uses_mono fun _ _ => trivial
  have htids : (hnswLoadNeighborTids element m lc trace).Yields (fun _ => True) fun r =>
      ∀ tids ∈ r.1, tids.length ≤ hnswGetLayerM m lc := by
    refine hread.bind fun ntup _ => ?_
    split
    · simp [Program.Yields]
    · have hlayer : (ntup.layer ((element.level - lc) * m) (hnswGetLayerM m lc)).length ≤
          hnswGetLayerM m lc := List.length_take_le _ _
      cases trace <;> simpa [touchTrace, emit, Program.Yields] using hlayer
  refine htids.bind ?_
  rintro ⟨tids, trace'⟩ htids
  cases tids with
  | none => exact Nat.zero_le _
  | some tids =>
    exact ⟨trivial, fun _ => ((List.takeWhile_sublist _).length_le).trans (htids tids rfl)⟩

omit [LinearOrder F] in
theorem loadElementsForInsert_length (q : Option V) (tids : List ItemPointer)
    (loaded : List (HnswCandidate (AllocatedElement V) F)) :
    (loadElementsForInsert ctx q tids loaded).Yields (fun _ => True) fun r =>
      r.1.length ≤ loaded.length + tids.length ∧ ∀ i ∈ r.2, i < loaded.length + tids.length := by
  induction tids generalizing loaded with
  | nil => simp [loadElementsForInsert, Program.Yields]
  | cons tid rest ih =>
    refine ((hnswLoadElementImpl_yields ctx.support tid q true none none rfl).uses_mono
      fun _ _ => trivial).bind ?_
    rintro ⟨distance, element, trace⟩ -
    cases element with
    | none => trivial
    | some e =>
      change Program.Yields _ _ (if _ then _ else _)
      split
      · simp [Program.Yields]
      · refine (ih _).mono ?_
        rintro ⟨loaded', pruned⟩ ⟨hloaded, hpruned⟩
        simp only [List.length_append, List.length_cons, List.length_nil] at hloaded hpruned ⊢
        exact ⟨by omega, fun i hi => by have := hpruned i hi; omega⟩

theorem hnswUpdateConnection_within {E : Type} (sel : Selection E F)
    {neighbors : HnswNeighborArray E F} (newElement : E) (distance : F) {lm : Nat}
    (h : neighbors.items.length ≤ lm) :
    (hnswUpdateConnection sel neighbors newElement distance lm).2.Within lm := by
  have hspec := hnswUpdateConnection_spec sel neighbors newElement distance lm
  generalize (hnswUpdateConnection sel neighbors newElement distance lm).2 = idx at hspec
  generalize (hnswUpdateConnection sel neighbors newElement distance lm).1.items.map
    HnswCandidate.plain = items at hspec
  cases hspec with
  | appended => trivial
  | unchanged => trivial
  | replaced i _ hi =>
    rw [List.length_map] at hi
    exact hi.trans_le h

theorem getUpdateIndex_within (element newElement : HnswElement V) (distance : F)
    (m lc : Nat) :
    (getUpdateIndex ctx element newElement distance m lc).Yields (fun _ => True)
      (UpdateIdx.Within (hnswGetLayerM m lc)) := by
  refine (diskNeighbors_length m lc element none).bind ?_
  rintro ⟨tids, trace⟩ htids
  change Program.Yields _ _ (if _ then _ else _)
  split
  · trivial
  · refine (loadElementsForInsert_length ctx _ _ _).bind ?_
    rintro ⟨loaded, pruned⟩ ⟨hloaded, hpruned⟩
    simp only [List.length_nil, Nat.zero_add] at hloaded hpruned
    cases pruned with
    | none => exact hnswUpdateConnection_within _ _ _ (hloaded.trans htids)
    | some i => exact (hpruned i rfl).trans_le htids

end Index

/-! ## Writing, reading and patching -/

section Layout

variable [LinearOrder D] [LinearOrder F]

theorem tids?_hnswSetNeighborTuple {m lc : Nat} {layers : List (List ItemPointer)}
    {element : HnswElement V} (hlevel : layers.length = element.level + 1)
    (hlc : lc ≤ element.level) {tids : List ItemPointer}
    (htids : layers[element.level - lc]? = some tids)
    (hroom : tids.length ≤ hnswGetLayerM m lc) :
    (hnswSetNeighborTuple m element.version layers).tids? element m lc =
      some (tids ++ List.replicate (hnswGetLayerM m lc - tids.length) .invalid) := by
  have hposition : layers.length - 1 - (element.level - lc) = lc := by omega
  have hlayer := layer_hnswSetNeighborTuple m element.version (element.level - lc) layers htids
  rw [hposition] at hlayer
  have hsame : ¬ ((hnswSetNeighborTuple m element.version layers).version ≠ element.version ∨
      (hnswSetNeighborTuple m element.version layers).count ≠ (element.level + 2) * m) := by
    rw [count_hnswSetNeighborTuple hlevel]
    simp [hnswSetNeighborTuple]
  rw [HnswNeighborTuple.tids?, if_neg hsame, hlayer, layerSlots, List.take_of_length_le hroom]

theorem updateNeighborOnDisk_changes (self : ThreadId) {s : Shared V}
    (element newElement : HnswElement V) {idx : UpdateIdx} {m lc : Nat} (checkExisting : Bool)
    (hidx : idx.Within (hnswGetLayerM m lc)) {ntup : HnswNeighborTuple}
    (h : s.index.neighbor? element.neighbortid = some ntup) :
    (updateNeighborOnDisk element newElement idx m lc checkExisting).Returns
      (hnswHandler self) s fun _ t => ∃ ntup',
        t.index.neighbor? element.neighbortid = some ntup' ∧ ntup'.version = ntup.version ∧
        SlotChange ((element.level - lc) * m) (hnswGetLayerM m lc) ntup.indextids
          ntup'.indextids := by
  unfold updateNeighborOnDisk
  split
  · exact .ret ⟨ntup, h, rfl, .refl _ _ _⟩
  · have hthere : hnswHandler self (.updateNeighbor element.neighbortid newElement.tid idx
        ((element.level - lc) * m) (hnswGetLayerM m lc) checkExisting) s =
        some (true, s.withIndex (updateNeighborOnPage s.index element.neighbortid newElement.tid idx
          ((element.level - lc) * m) (hnswGetLayerM m lc) checkExisting)) := by
      simp [hnswHandler, h]
    refine .perform hthere
      (.ret ⟨_, ?_, ?_, ntup.update_slotChange newElement.tid _ checkExisting hidx⟩)
    · obtain ⟨size, hitem⟩ := HnswIndex.item?_of_neighbor? h
      apply HnswIndex.neighbor?_of_item?
      rw [Shared.withIndex_index, item?_updateNeighborOnPage hitem, Function.update_self]
    · exact (Prod.mk.inj (HnswNeighborTuple.shape_update ntup _ _ _ _ _)).1

theorem neighbor_layers_separate (ctx : InsertContext V D F) (self : ThreadId) (m : Nat)
    (element : HnswElement V) (layers : List (List ItemPointer))
    (hlevel : layers.length = element.level + 1)
    (hroom : ∀ lc ≤ element.level, ∀ tids, layers[element.level - lc]? = some tids →
      tids.length ≤ hnswGetLayerM m lc) :
    (∀ (s : Shared V), s.index.neighbor? element.neighbortid =
        some (hnswSetNeighborTuple m element.version layers) →
      ∀ lc ≤ element.level, ∀ tids, layers[element.level - lc]? = some tids →
      ∀ trace, (hnswLoadNeighborTids element m lc trace).Returns (hnswHandler self) s fun r _ =>
        r.1 = some (tids ++ List.replicate (hnswGetLayerM m lc - tids.length) .invalid)) ∧
    ∀ lc ≤ element.level, ∀ newElement distance s₀ idx s₁,
      (getUpdateIndex ctx element newElement distance m lc).run (hnswHandler self) s₀ =
        (.done idx, s₁) →
      ∀ (s : Shared V) ntup, s.index.neighbor? element.neighbortid = some ntup →
      ∀ checkExisting, (updateNeighborOnDisk element newElement idx m lc checkExisting).Returns
        (hnswHandler self) s fun _ t => ∃ ntup',
          t.index.neighbor? element.neighbortid = some ntup' ∧
          SlotChange ((element.level - lc) * m) (hnswGetLayerM m lc) ntup.indextids
            ntup'.indextids ∧
          ∀ lc' ≤ element.level, lc' ≠ lc → ∀ trace, ∃ tids,
            ((hnswLoadNeighborTids element m lc' trace).Returns (hnswHandler self) s
              fun r _ => r.1 = tids) ∧
            (hnswLoadNeighborTids element m lc' trace).Returns (hnswHandler self) t
              fun r _ => r.1 = tids := by
  constructor
  · intro s hs lc hlc tids htids trace
    refine (hnswLoadNeighborTids_reads self element hs m lc trace).mono ?_
    rintro r _ ⟨hr, -⟩
    rw [hr]
    exact tids?_hnswSetNeighborTuple hlevel hlc htids (hroom lc hlc tids htids)
  · intro lc hlc newElement distance s₀ idx s₁ hrun s ntup hs checkExisting
    have hfollows : (getUpdateIndex ctx element newElement distance m lc).Follows
        (Program.history (hnswHandler self) (fun _ => ()) _ s₀) idx := Program.follows_history hrun
    have hidx : idx.Within (hnswGetLayerM m lc) :=
      Program.Yields.follows (getUpdateIndex_within ctx element newElement distance m lc) hfollows
    refine (updateNeighborOnDisk_changes self element newElement checkExisting hidx hs).mono ?_
    rintro _ t ⟨ntup', ht, hversion, hchange⟩
    refine ⟨ntup', ht, hchange, ?_⟩
    intro lc' hlc' hne trace
    have hlayer := hchange.layer_eq (layers_apart m hlc hlc' hne)
    have hcount' : ntup'.count = ntup.count := hchange.length
    have hsame : ntup'.tids? element m lc' = ntup.tids? element m lc' := by
      rw [HnswNeighborTuple.tids?, HnswNeighborTuple.tids?, hversion, hcount', hlayer]
    refine ⟨ntup.tids? element m lc', ?_, ?_⟩
    · exact (hnswLoadNeighborTids_reads self element hs m lc' trace).mono fun _ _ hr => hr.1
    · refine (hnswLoadNeighborTids_reads self element ht m lc' trace).mono ?_
      exact fun _ _ hr => hr.1.trans hsame

end Layout

def layeredElement : HnswElement Nat :=
  ⟨⟨1, 1⟩, 1, false, 1, [⟨0, 1⟩], ⟨1, 2⟩, some 5⟩

def layeredShared : Shared Nat where
  index :=
    { metapage := ⟨hnswMagicNumber, 2, some ⟨⟨1, 1⟩, 1⟩, some 1⟩
      pages :=
        [{ items :=
             [⟨80, .element (hnswSetElementTuple 1 1 [⟨0, 1⟩] 5 ⟨1, 2⟩)⟩,
               ⟨40, .neighbor (hnswSetNeighborTuple 2 1 [[⟨1, 3⟩], [⟨1, 3⟩, ⟨1, 5⟩]])⟩]
           nextblkno := none }] }
  locks := []
  env := fun _ => default
  observed := 0
  queryCounter := 0
  log := fun _ => []

theorem neighbor_layers_separate_two :
    ((hnswLoadNeighborTids layeredElement 2 0 none).Returns (hnswHandler 0) layeredShared
      fun r _ => r.1 = some [⟨1, 3⟩, ⟨1, 5⟩, .invalid, .invalid]) ∧
    (updateNeighborOnDisk layeredElement { layeredElement with tid := ⟨1, 7⟩ } .free 2 0
      false).Returns (hnswHandler 0) layeredShared fun _ t => ∃ ntup',
        t.index.neighbor? ⟨1, 2⟩ = some ntup' ∧
        SlotChange 2 4 (neighborSlots 2 [[⟨1, 3⟩], [⟨1, 3⟩, ⟨1, 5⟩]]) ntup'.indextids := by
  obtain ⟨hread, hpatch⟩ := neighbor_layers_separate (numberInserts 4) 0 2 layeredElement
    [[⟨1, 3⟩], [⟨1, 3⟩, ⟨1, 5⟩]] rfl (by decide)
  constructor
  · exact hread layeredShared (by decide) 0 (by decide) [⟨1, 3⟩, ⟨1, 5⟩] rfl none
  · refine (hpatch 0 (by decide) { layeredElement with tid := ⟨1, 7⟩ } 2 layeredShared .free _
      (by rfl) layeredShared _ (by rfl) false).mono ?_
    rintro _ t ⟨ntup', hntup', hchange, -⟩
    exact ⟨ntup', hntup', hchange⟩

end PgVector.Hnsw
