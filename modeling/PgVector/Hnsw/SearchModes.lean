import PgVector.Hnsw.SearchNearest

/-!
# Searching in memory and on the pages

A graph is flushed: its elements get positions on the pages.  A search of the
pages takes the same decisions as the search of the graph in memory, although it
leaves out elements that are too far away to be loaded.
-/

namespace PgVector.Hnsw

open Foundation

/-! ## The graph on the pages it was flushed to -/

section Flushed

variable {V F : Type} {valueSize : V → Nat} {m : Nat} {graph : HnswGraph V F}
  {index : HnswIndex V} {position : Nat → FlushPosition}

namespace FlushedTo

theorem tid_inj (h : FlushedTo m graph index position) {a b : Nat}
    (ha : a < graph.elements.length) (hb : b < graph.elements.length) :
    (position a).tid = (position b).tid ↔ a = b := by
  have hnodup : ((List.range graph.elements.length).map fun ptr => (position ptr).tid).Nodup :=
    nodup_map_of_flatMap (fun ptr => List.mem_cons_self ..) h.distinct
  constructor
  · intro heq
    exact List.inj_on_of_nodup_map hnodup (List.mem_range.mpr ha) (List.mem_range.mpr hb) heq
  · rintro rfl
    rfl

theorem live (h : FlushedTo m graph index position) {ptr : Nat} {e : GraphElement V F}
    (he : graph.elements[ptr]? = some e) :
    index.live? (position ptr).tid = some (e.tuple (position ptr)) :=
  HnswIndex.live?_eq_some.mpr ⟨h.element he, rfl⟩

theorem of_live (h : FlushedTo m graph index position) {tid : ItemPointer}
    {etup : HnswElementTuple V} (hlive : index.live? tid = some etup) :
    ∃ ptr e, graph.elements[ptr]? = some e ∧ tid = (position ptr).tid ∧
      etup = e.tuple (position ptr) := by
  obtain ⟨helement, -⟩ := HnswIndex.live?_eq_some.mp hlive
  obtain ⟨size, hitem⟩ := HnswIndex.item?_of_element? helement
  obtain ⟨ptr, hptr, hmem⟩ := h.only (by rw [hitem]; rfl)
  have he := List.getElem?_eq_getElem hptr
  simp only [FlushPosition.tids, List.mem_cons, List.not_mem_nil, or_false] at hmem
  rcases hmem with rfl | rfl
  · rw [h.element he] at helement
    exact ⟨ptr, _, he, rfl, (Option.some.inj helement).symm⟩
  · -- a neighbor tuple is no element
    have hneighbor := HnswIndex.neighbor?_eq_some.mp (h.neighbors he)
    rw [HnswIndex.element?_eq_some.mp helement] at hneighbor
    cases hneighbor

theorem links (h : FlushedTo m graph index position) (hgraph : graph.Storable valueSize m)
    {ptr lc : Nat} {e : GraphElement V F} (he : graph.elements[ptr]? = some e)
    (hlc : lc ≤ e.level) :
    index.links lc (position ptr).tid = graph.neighborTids position ptr lc := by
  have hstorable := hgraph.elements e (List.mem_of_getElem? he)
  obtain ⟨hlayer, hvalid⟩ := h.layer he hstorable hlc
  have hcount := count_neighborTuple hstorable position
  have hntup : index.neighbor? (e.tuple (position ptr)).neighbortid = _ := h.neighbors he
  rw [HnswIndex.links, h.live he, Option.elim_some, HnswIndex.neighborTids, hntup]
  dsimp only
  rw [h.m_eq, if_neg]
  · change ((e.neighborTuple m position).layer ((e.level - lc) * m) _).takeWhile _ = _
    rw [hlayer, hvalid]
  · rintro (hversion | hcount')
    · exact hversion rfl
    · exact hcount' hcount

theorem isGraph (h : FlushedTo m graph index position) (hgraph : graph.Storable valueSize m) :
    index.IsGraph where
  magicNumber := h.magicNumber
  entryPoint := by
    intro e he
    rw [h.entryPoint, Option.mem_def, Option.bind_eq_some_iff] at he
    obtain ⟨ptr, -, he⟩ := he
    obtain ⟨element, helement, rfl⟩ := Option.map_eq_some_iff.mp he
    rw [h.live helement]
    rfl
  neighbortid := by
    intro tid etup hlive
    obtain ⟨ptr, e, he, rfl, rfl⟩ := h.of_live hlive
    change (index.neighbor? (position ptr).neighbortid).isSome
    rw [h.neighbors he]
    rfl
  links := by
    intro tid etup lc hlive hlc n hn
    obtain ⟨ptr, e, he, rfl, rfl⟩ := h.of_live hlive
    rw [h.links hgraph he hlc] at hn
    obtain ⟨c, hc, rfl⟩ := List.mem_map.mp hn
    rw [h.live (List.getElem?_eq_getElem (hgraph.linked ptr lc c hc))]
    rfl

end FlushedTo

end Flushed

/-! ## Corresponding elements -/

section Modes

variable {V D F : Type} [LinearOrder D] [LinearOrder F]

def SameElement (graph : HnswGraph V F) (position : Nat → FlushPosition) (inserting : Bool)
    (p : GraphPointer V) (e' : HnswElement V) : Prop :=
  ∃ e, graph.elements[p.ptr]? = some e ∧ p = ⟨p.ptr, e.level, e.value⟩ ∧
    e' = hnswLoadElementFromTuple (position p.ptr).tid (e.tuple (position p.ptr)) inserting

def SameCandidate (graph : HnswGraph V F) (position : Nat → FlushPosition) (inserting : Bool)
    (c : HnswSearchCandidate (GraphPointer V) D)
    (c' : DiskCandidate V D) : Prop :=
  SameElement graph position inserting c.element c'.element ∧ c.distance = c'.distance

variable {valueSize : V → Nat} {m : Nat} {graph : HnswGraph V F} {index : HnswIndex V}
  {position : Nat → FlushPosition}

def flushCorrespondence (h : FlushedTo m graph index position) (inserting : Bool) (lc : Nat) :
    Correspondence (GraphPointer V) Nat Nat (HnswElement V) ItemPointer ItemPointer where
  element := SameElement graph position inserting
  neighbor ptr tid := ptr < graph.elements.length ∧ tid = (position ptr).tid
  key ptr tid := ptr < graph.elements.length ∧ tid = (position ptr).tid
  key_inj := by
    rintro a b _ _ ⟨ha, rfl⟩ ⟨hb, rfl⟩
    exact (h.tid_inj ha hb).symm
  allocated _ _ := True
  allocated_add := fun _ _ => trivial
  trace _ _ := True
  layer p := lc ≤ p.level

def modeComparison (ctx : InsertContext V D F) (self : ThreadId) :
    Comparison (graphSignature V F) (hnswSignature V) (HnswGraph V F) (Shared V) where
  handler := graphHandler ctx
  handler' := hnswHandler self
  errors := Eq
  excused _ := False
  excused_step := fun _ h => h

variable {self : ThreadId} {tests : List (Nat × Nat)}

theorem modes_alike (ctx : InsertContext V D F) (h : FlushedTo m graph index position)
    (hgraph : graph.Storable valueSize m) (q : V) (inserting : Bool) (lc : Nat) :
    AccessAlike (modeComparison ctx self) (fun g s => g = graph ∧ Calm self index tests s)
      (flushCorrespondence h inserting lc) lc false (memoryAccess ctx.support q lc)
      (diskAccess ctx.support (some q) m lc inserting) where
  elementKey := by
    rintro p _ ⟨e, he, -, rfl⟩
    exact ⟨(List.getElem?_eq_some_iff.mp he).1, rfl⟩
  neighborKey := id
  level := by
    rintro p _ ⟨e, -, hp, rfl⟩
    exact congrArg GraphPointer.level hp
  layer := fun _ hle => hle
  heaptidsLength := nofun
  loadNeighbors := by
    rintro p _ t t' g s ⟨e, he, hp, rfl⟩ hlayer - ⟨rfl, hs⟩
    have hlevel : lc ≤ e.level := by
      rw [hp] at hlayer
      exact hlayer
    have hread := diskNeighbors_returns (h.isGraph hgraph) (h.live he) lc inserting t' hs
    rw [h.m_eq, h.links hgraph he hlevel] at hread
    refine .of_returns (loadNeighbors_memory ctx ctx.support _ q lc p t) hread ?_
    rintro ⟨ns, u⟩ ⟨ns', u'⟩ g' s' ⟨hns, rfl⟩ ⟨hns', hs'⟩
    simp only at hns hns'
    subst hns hns'
    refine ⟨?_, trivial, rfl, hs'⟩
    rw [HnswGraph.neighborTids, List.forall₂_map_left_iff, List.forall₂_map_right_iff,
      List.forall₂_same]
    intro c hc
    exact ⟨hgraph.linked p.ptr lc c hc, rfl⟩
  loadElement := by
    rintro ptr _ t t' g s limit ⟨hptr, rfl⟩ - ⟨rfl, hs⟩
    have he := List.getElem?_eq_getElem hptr
    generalize g.elements[ptr] = e at he
    have hp : g.pointer? ptr = some ⟨ptr, e.level, e.value⟩ := by
      rw [HnswGraph.pointer?, he, Option.map_some]
    refine .of_returns (loadElement_memory ctx ctx.support q lc hp limit t)
      (hnswLoadElementImpl_returns ctx.support (h.live he) (some q) inserting limit t' hs) ?_
    rintro ⟨d, p, u⟩ ⟨d', e', u'⟩ g' s' ⟨hd, hp, rfl⟩ ⟨hd', he', hs'⟩
    simp only at hd hp hd' he'
    subst hd hp hd'
    refine ⟨rfl, ?_, trivial, rfl, hs'⟩
    split at he'
    · subst he'
      exact .some ⟨e, he, rfl, rfl⟩
    · next hfar =>
      subst he'
      cases limit with
      | none => exact absurd rfl hfar
      | some limit =>
        rw [Option.all_some, decide_eq_true_eq] at hfar
        exact .unneeded rfl hfar fun _ _ _ _ => trivial
  touchTrace := by
    rintro t t' g s f - ⟨rfl, hs⟩
    refine .of_returns (P := fun _ g' => g' = g) (.ret rfl) (touchTrace_returns t' f hs) ?_
    rintro u u' _ s' rfl hs'
    exact ⟨trivial, rfl, hs'⟩
  corrupted := rfl
  outOfFuel := rfl

def SearchState.fresh {E K : Type} (tuples : Nat) (trace : Option HnswTraceStats)
    (allocated : Nat) : SearchState E K D :=
  ⟨.nil, .nil, 0, [], none, tuples, trace, allocated⟩

theorem searches_alike (ctx : InsertContext V D F) (h : FlushedTo m graph index position)
    (hgraph : graph.Storable valueSize m) (q : V) (inserting : Bool) (sizes : AllocSizes)
    (lc ef fuel tuples : Nat) {ep : List (HnswSearchCandidate (GraphPointer V) D)}
    {ep' : List (DiskCandidate V D)}
    (hlevel : ∀ sc ∈ ep, lc ≤ sc.element.level)
    (hep : List.Forall₂ (SameCandidate graph position inserting) ep ep')
    (trace trace' : Option HnswTraceStats) (allocated allocated' : Nat) {s : Shared V}
    (hs : Calm self index tests s) :
    (hnswSearchLayer (memoryAccess ctx.support q lc) sizes fuel ep ef lc m false true
        (.fresh tuples trace allocated)).Alike (modeComparison ctx self)
      (fun r r' g t => List.Forall₂ (SameCandidate graph position inserting) r.1 r'.1 ∧
        g = graph ∧ Calm self index tests t)
      (hnswSearchLayer (diskAccess ctx.support (some q) m lc inserting) sizes fuel ep' ef lc m
        false true (.fresh tuples trace' allocated')) graph s := by
  have hentries : List.Forall₂ (LayerAlike (flushCorrespondence h inserting lc)) ep ep' := by
    induction hep with
    | nil => exact .nil
    | cons hsc _ ih =>
      obtain ⟨hfirst, hrest⟩ := List.forall_mem_cons.mp hlevel
      exact .cons ⟨hsc, hfirst⟩ (ih hrest)
  have hstart : StateAlike (flushCorrespondence h inserting lc)
      (.fresh tuples trace allocated : SearchState (GraphPointer V) Nat D)
      (.fresh tuples trace' allocated') :=
    ⟨.nil, .nil, rfl, .nil, .none, rfl, trivial, trivial⟩
  refine (hnswSearchLayer_alike (modes_alike ctx h hgraph q inserting lc) sizes fuel hentries
    ef m true hstart ⟨rfl, hs⟩).mono ?_
  rintro r r' g t ⟨hw, -, hend⟩
  exact ⟨hw.imp fun _ _ hc => hc.1, hend⟩

/--
A flushed graph, searched for the same query from the same entry points.  The two
searches end alike, and with proper entry points both return.
-/
theorem disk_search_matches_memory (ctx : InsertContext V D F) (valueSize : V → Nat) (m : Nat)
    (graph : HnswGraph V F) (hm : 2 ≤ m ∧ m ≤ 100) (hgraph : graph.Storable valueSize m) :
    ∃ index position, flushPages valueSize m graph = .ok index ∧
      FlushedTo m graph index position ∧
      ∀ (q : V) (inserting : Bool) (sizes : AllocSizes) (lc ef fuel tuples : Nat)
        (ep : List (HnswSearchCandidate (GraphPointer V) D))
        (ep' : List (DiskCandidate V D))
        (trace trace' : Option HnswTraceStats) (allocated allocated' : Nat)
        (self : ThreadId) (s : Shared V),
        s.index = index → Alone self s → (∀ sc ∈ ep, lc ≤ sc.element.level) →
        List.Forall₂ (SameCandidate graph position inserting) ep ep' →
        @Program.EndAlike (graphSignature V F) (hnswSignature V) _ _ _ _ Eq
          (fun r r' g t => List.Forall₂ (SameCandidate graph position inserting) r.1 r'.1 ∧
            g = graph ∧ t.index = index)
          ((hnswSearchLayer (memoryAccess ctx.support q lc) sizes fuel ep ef lc m false true
            (.fresh tuples trace allocated)).run (graphHandler ctx) graph)
          ((hnswSearchLayer (diskAccess ctx.support (some q) m lc inserting) sizes fuel ep' ef
            lc m false true (.fresh tuples trace' allocated')).run (hnswHandler self) s) ∧
        (EntryList (memoryAccess (F := F) ctx.support q lc)
            (memoryGraph graph ctx.support q lc) lc ef ep →
          graph.elements.length < fuel →
          (hnswSearchLayer (memoryAccess ctx.support q lc) sizes fuel ep ef lc m false true
            (.fresh tuples trace allocated)).Returns (graphHandler ctx) graph fun r _ =>
              (hnswSearchLayer (diskAccess ctx.support (some q) m lc inserting) sizes fuel ep'
                ef lc m false true (.fresh tuples trace' allocated')).Returns
                  (hnswHandler self) s fun r' _ =>
                    List.Forall₂ (SameCandidate graph position inserting) r.1 r'.1) := by
  have hfits : ∀ e ∈ graph.elements, e.Fits valueSize m :=
    fun e he => (hgraph.elements e he).toFits
  obtain ⟨index, position, hflush, h⟩ := flushPages_spec hm hfits
  refine ⟨index, position, hflush, h, ?_⟩
  intro q inserting sizes lc ef fuel tuples ep ep' trace trace' allocated allocated' self s hs
    halone hlevel hep
  have hcalm : Calm self index (limitTests (s.log self)) s := ⟨hs, halone, rfl⟩
  have halike := searches_alike ctx h hgraph q inserting sizes lc ef fuel tuples hlevel hep
    trace trace' allocated allocated' hcalm
  constructor
  · refine Or.resolve_left (halike.mono ?_) id
    rintro r r' g t ⟨hw, hg, ht⟩
    exact ⟨hw, hg, ht.same⟩
  · intro hentries hfuel
    have hmemory : (hnswSearchLayer (memoryAccess ctx.support q lc) sizes fuel ep ef lc m false
        true (.fresh tuples trace allocated)).Returns (graphHandler ctx) graph _ :=
      hnswSearchLayer_nearest (memoryAccess_returns ctx ctx.support hgraph.linked q lc) sizes
        (fun _ => HnswGraph.length_le_elements) hfuel ep hentries.candidates hentries.distinct
        hentries.pos hentries.length_le m nofun rfl
    obtain ⟨r, g, hrun, -⟩ := hmemory
    refine ⟨r, g, hrun, ?_⟩
    have hreturns := halike.returns (fun _ => id) (P := fun a _ => a = r) ⟨r, g, hrun, rfl⟩
    refine hreturns.mono ?_
    rintro r' t ⟨_, _, rfl, hw, -⟩
    exact hw

end Modes

/-- The nearest of two elements, in memory and after the flush. -/
theorem disk_search_matches_memory_two :
    ∃ index position ep', flushPages (fun _ => 8) 2 twoElementGraph = .ok index ∧
      List.Forall₂ (SameCandidate twoElementGraph position true) [⟨⟨1, 1, 9⟩, 6⟩] ep' ∧
      (hnswSearchLayer (memoryAccess (numberInserts 4).support 3 0) default 4 [⟨⟨1, 1, 9⟩, 6⟩]
        1 0 2 false true (.fresh 0 none 0)).Returns (graphHandler (numberInserts 4))
        twoElementGraph fun r _ => r.1 = [⟨⟨0, 0, 7⟩, 4⟩] ∧
          (hnswSearchLayer (diskAccess (numberInserts 4).support (some 3) 2 0 true) default 4
            ep' 1 0 2 false true (.fresh 0 none 0)).Returns (hnswHandler 0)
            ((emptyShared 2).withIndex index) fun r' _ =>
              (r'.1.map fun sc => (sc.element.value, sc.distance)) = [(some 7, 4)] := by
  obtain ⟨index, position, hflush, -, hsearch⟩ :=
    disk_search_matches_memory (numberInserts 4) (fun _ => 8) 2 twoElementGraph (by decide)
      twoElementGraph_storable
  have hep : List.Forall₂ (SameCandidate twoElementGraph position true) [⟨⟨1, 1, 9⟩, 6⟩] [⟨_, 6⟩] :=
    .cons ⟨⟨_, rfl, rfl, rfl⟩, rfl⟩ .nil
  refine ⟨index, position, _, hflush, hep, ?_⟩
  obtain ⟨r, t, hrun, hdisk⟩ := (hsearch 3 true default 0 1 4 0 _ _ none none 0 0 0
    ((emptyShared 2).withIndex index) rfl (by simp [Alone, emptyShared]) (by simp) hep).2 (by
      refine ⟨?_, List.nodup_singleton _, Nat.one_pos, le_rfl⟩
      intro sc hsc
      obtain rfl := List.mem_singleton.mp hsc
      exact ⟨⟨1, Nat.one_lt_two, rfl⟩, Nat.zero_le _⟩) (by decide)
  have hr : some [⟨⟨0, 0, 7⟩, 4⟩] = some r.1 := congrArg (fun x => x.1.value?.map Prod.fst) hrun
  refine ⟨r, t, hrun, (Option.some.inj hr).symm, hdisk.mono ?_⟩
  intro r' t' hsame
  rw [← Option.some.inj hr, List.forall₂_cons_left_iff] at hsame
  obtain ⟨sc, rest, ⟨⟨e, he, -, hel⟩, hdistance⟩, hrest, heq⟩ := hsame
  cases he
  rw [heq, List.forall₂_nil_left_iff.mp hrest, List.map_singleton, hel, ← hdistance]
  rfl

end PgVector.Hnsw
