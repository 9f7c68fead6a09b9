import PgVector.Ivfflat.Concurrent
import PgVector.Ivfflat.ListSelection

/-!
# What a scan of an IVFFlat index returns

On an index that nobody changes meanwhile, a scan chooses the nearest lists and
returns what is stored on their chains, batch after batch, each batch in ascending
order of the distance.
-/

namespace PgVector.Ivfflat

open Foundation
open Hnsw (BlockNumber OffsetNumber ItemPointer Page Item firstOffsetNumber)

/-! ## The tuples of a list -/

section Visit

variable {V D : Type} [LinearOrder D]

def IvfflatIndex.tuplesAt (index : IvfflatIndex V) (distance : V → D)
    (blkno : BlockNumber) : List (D × ItemPointer) :=
  (index.entryPage? blkno).elim [] (scanTuples distance)

def listTuples (index : IvfflatIndex V) (distance : V → D)
    (chains : ListInfo → List BlockNumber) (p : PlacedList V) : List (D × ItemPointer) :=
  (chains p.1).flatMap (index.tuplesAt distance)

variable {index : IvfflatIndex V} {chains : ListInfo → List BlockNumber} {distance : V → D}

omit [LinearOrder D] in
theorem scanEntryPages_returns {start : Option BlockNumber} {blocks : List BlockNumber}
    (hchain : Chain index.entryNext start blocks) {fuel : Nat} (hfuel : blocks.length ≤ fuel)
    (tuples : List (D × ItemPointer)) :
    (scanEntryPages distance fuel start tuples).Returns ivfflatHandler index
      fun tuples' s => s = index ∧
        tuples' = tuples ++ blocks.flatMap (index.tuplesAt distance) := by
  induction hchain generalizing fuel tuples with
  | nil =>
    unfold scanEntryPages
    exact .ret ⟨rfl, by simp⟩
  | @cons blkno link rest hnext _ ih =>
    cases fuel with
    | zero => simp at hfuel
    | succ fuel =>
      obtain ⟨page, hpage, rfl⟩ := Option.map_eq_some_iff.mp hnext
      have hexec : ivfflatHandler (.readEntryPage blkno) index = some (some page, index) := by
        simp [ivfflatHandler, hpage]
      refine .perform hexec ?_
      refine (ih (by simpa using hfuel) _).mono ?_
      rintro tuples' s ⟨rfl, rfl⟩
      refine ⟨rfl, ?_⟩
      have hat : s.tuplesAt distance blkno = scanTuples distance page := by
        simp [IvfflatIndex.tuplesAt, hpage]
      rw [List.flatMap_cons, hat, List.append_assoc]

structure Prepared (distance : V → D) (probes : Nat) (selected : List (PlacedList V))
    (so : IvfflatScanOpaque V D) : Prop where
  probes_eq : so.probes = probes
  maxProbes_eq : so.maxProbes = selected.length
  listPages_eq : so.listPages = selected.map fun p => p.2.startPage
  distance_eq : so.distance = distance
  listIndex_le : so.listIndex ≤ selected.length

variable {probes : Nat} {selected : List (PlacedList V)} {so : IvfflatScanOpaque V D}
  {ctx : IvfflatContext V D}

omit [LinearOrder D] in
theorem scanBatch_returns (h : WellFormed index chains) (hfuel : index.pages.length ≤ ctx.fuel)
    (hlists : ∀ p ∈ selected, index.list? p.1 = some p.2)
    (hso : Prepared distance probes selected so) (n : Nat) {listIndex : Nat}
    (hle : listIndex ≤ selected.length) (tuples : List (D × ItemPointer)) :
    (scanBatch ctx.fuel so n listIndex tuples).Returns ivfflatHandler index
      fun r s => s = index ∧ r.1 = min (listIndex + n) selected.length ∧
        r.2 = tuples ++
          ((selected.drop listIndex).take n).flatMap (listTuples index distance chains) := by
  induction n generalizing listIndex tuples with
  | zero =>
    exact .ret ⟨rfl, by simpa using hle, by simp⟩
  | succ n ih =>
    unfold scanBatch
    rw [hso.maxProbes_eq]
    split
    · next hlt =>
      have hdrop := List.drop_eq_getElem_cons hlt
      have hget : so.listPages[listIndex]? = some (selected[listIndex].2.startPage) := by
        rw [hso.listPages_eq]
        simp [hlt]
      rw [hget]
      have hlist := hlists selected[listIndex] (List.getElem_mem hlt)
      have hchain : Chain index.entryNext selected[listIndex].2.startPage
          (chains selected[listIndex].1) := by
        apply h.laid.linked.chain
        simp [IvfflatIndex.root, hlist]
      have hlen : (chains selected[listIndex].1).length ≤ ctx.fuel := by
        refine (length_le_pages (h.laid.linked.sorted _) fun b hb => ?_).trans hfuel
        obtain ⟨link, hlink⟩ := h.laid.linked.exists_next hb
        exact IvfflatIndex.entryNext_bounds hlink
      rw [hso.distance_eq]
      refine .bind (scanEntryPages_returns hchain hlen tuples) ?_
      rintro tuples₁ s ⟨rfl, rfl⟩
      refine (ih (Nat.succ_le_of_lt hlt) _).mono ?_
      rintro ⟨listIndex', tuples'⟩ s' ⟨rfl, hindex, htuples⟩
      refine ⟨rfl, ?_, ?_⟩
      · dsimp only at hindex ⊢
        omega
      · dsimp only at htuples ⊢
        rw [htuples, hdrop, List.take_succ_cons, List.flatMap_cons, List.append_assoc]
        rfl
    · next hge =>
      have hend : listIndex = selected.length := by omega
      refine .ret ⟨rfl, by dsimp only; omega, ?_⟩
      simp [hend]

/-! ## Batches -/

/-- Lists are taken `probes` at a time, and the tuples of each batch are sorted. -/
inductive Batched {α : Type} (probes : Nat) (tuples : α → List (D × ItemPointer)) :
    List α → List (D × ItemPointer) → Prop
  | done : Batched probes tuples [] []
  | batch {lists : List α} {run rest : List (D × ItemPointer)} : lists ≠ [] →
      run.Perm ((lists.take probes).flatMap tuples) →
      (run.Pairwise fun t t' => t.1 ≤ t'.1) →
      Batched probes tuples (lists.drop probes) rest →
      Batched probes tuples lists (run ++ rest)

variable {out : List (D × ItemPointer)} {tuples : PlacedList V → List (D × ItemPointer)}
  {maxProbes : Nat}

theorem Batched.perm {α : Type} {tuples : α → List (D × ItemPointer)} {lists : List α}
    (h : Batched probes tuples lists out) : out.Perm (lists.flatMap tuples) := by
  induction h with
  | done => exact .refl _
  | @batch lists run rest _ hperm _ _ ih =>
    conv =>
      rhs
      rw [← List.take_append_drop probes lists, List.flatMap_append]
    exact hperm.append ih

theorem Batched.sorted {α : Type} {tuples : α → List (D × ItemPointer)} {lists : List α}
    (h : Batched probes tuples lists out) (hle : lists.length ≤ probes) :
    out.Pairwise fun t t' => t.1 ≤ t'.1 := by
  cases h with
  | done => exact .nil
  | @batch _ run rest _ _ hsorted hrest =>
    have hnil : rest = [] := by
      have hperm := hrest.perm
      rw [List.drop_eq_nil_of_le hle] at hperm
      exact hperm.eq_nil
    rw [hnil, List.append_nil]
    exact hsorted

def Ahead (probes : Nat) (tuples : PlacedList V → List (D × ItemPointer))
    (selected : List (PlacedList V)) (so : IvfflatScanOpaque V D)
    (out : List (D × ItemPointer)) : Prop :=
  ∃ later, out = so.sortstate ++ later ∧ Batched probes tuples (selected.drop so.listIndex) later

def remaining (tuples : PlacedList V → List (D × ItemPointer))
    (selected : List (PlacedList V)) (so : IvfflatScanOpaque V D) : Nat :=
  so.sortstate.length + ((selected.drop so.listIndex).flatMap tuples).length

theorem getScanItems_returns (h : WellFormed index chains)
    (hfuel : index.pages.length ≤ ctx.fuel) (sort : Tuplesort D)
    (hlists : ∀ p ∈ selected, index.list? p.1 = some p.2)
    (hso : Prepared distance probes selected so) :
    (getScanItems ctx sort so).Returns ivfflatHandler index
      fun so' s => s = index ∧ Prepared distance probes selected so' ∧
        so'.first = so.first ∧
        so'.listIndex = min (so.listIndex + probes) selected.length ∧
        so'.sortstate.Perm (((selected.drop so.listIndex).take probes).flatMap
          (listTuples index distance chains)) ∧
        so'.sortstate.Pairwise fun t t' => t.1 ≤ t'.1 := by
  unfold getScanItems
  rw [hso.probes_eq]
  refine .bind (scanBatch_returns h hfuel hlists hso probes hso.listIndex_le []) ?_
  rintro ⟨listIndex, tuples⟩ s ⟨rfl, hindex, htuples⟩
  rw [List.nil_append] at htuples
  subst hindex htuples
  refine .ret ⟨rfl, ⟨rfl, hso.maxProbes_eq, hso.listPages_eq, hso.distance_eq,
    Nat.min_le_right _ _⟩, rfl, rfl, sort.perm _, sort.sorted _⟩

theorem Ahead.of_batch {so' : IvfflatScanOpaque V D} (hempty : so.sortstate = [])
    (hlt : so.listIndex < selected.length)
    (hindex : so'.listIndex = min (so.listIndex + probes) selected.length)
    (hperm : so'.sortstate.Perm (((selected.drop so.listIndex).take probes).flatMap tuples))
    (hsorted : so'.sortstate.Pairwise fun t t' => t.1 ≤ t'.1) :
    remaining tuples selected so = remaining tuples selected so' ∧
      ∀ out, Ahead probes tuples selected so' out → Ahead probes tuples selected so out := by
  have hdrop : selected.drop so'.listIndex = (selected.drop so.listIndex).drop probes := by
    rw [List.drop_drop, hindex]
    by_cases hend : so.listIndex + probes ≤ selected.length
    · rw [Nat.min_eq_left hend]
    · rw [Nat.min_eq_right (by omega), List.drop_length, List.drop_eq_nil_of_le (by omega)]
  constructor
  · have hsplit := congrArg (fun l => (l.flatMap tuples).length)
      (List.take_append_drop probes (selected.drop so.listIndex))
    simp only [List.flatMap_append, List.length_append] at hsplit
    rw [remaining, remaining, hempty, hdrop, hperm.length_eq, ← hsplit]
    simp
  · rintro out ⟨later, rfl, hlater⟩
    refine ⟨so'.sortstate ++ later, by rw [hempty, List.nil_append], ?_⟩
    rw [hdrop] at hlater
    exact .batch (List.drop_eq_nil_iff.not.mpr (by omega)) hperm hsorted hlater

def Fetched (distance : V → D) (probes : Nat)
    (tuples : PlacedList V → List (D × ItemPointer)) (selected : List (PlacedList V))
    (so : IvfflatScanOpaque V D) (r : Option ItemPointer × IvfflatScanOpaque V D) : Prop :=
  match r.1 with
  | none => Ahead probes tuples selected so []
  | some heaptid =>
    Prepared distance probes selected r.2 ∧ r.2.first = false ∧
      remaining tuples selected so = remaining tuples selected r.2 + 1 ∧
      ∀ out, Ahead probes tuples selected r.2 out →
        ∃ d, Ahead probes tuples selected so ((d, heaptid) :: out)

theorem Fetched.of_batch {so' : IvfflatScanOpaque V D}
    {r : Option ItemPointer × IvfflatScanOpaque V D}
    (hfetched : Fetched distance probes tuples selected so' r) (hempty : so.sortstate = [])
    (hlt : so.listIndex < selected.length)
    (hindex : so'.listIndex = min (so.listIndex + probes) selected.length)
    (hperm : so'.sortstate.Perm (((selected.drop so.listIndex).take probes).flatMap tuples))
    (hsorted : so'.sortstate.Pairwise fun t t' => t.1 ≤ t'.1) :
    Fetched distance probes tuples selected so r := by
  obtain ⟨hremaining, hahead⟩ := Ahead.of_batch hempty hlt hindex hperm hsorted
  obtain ⟨reply, so₂⟩ := r
  cases reply with
  | none => exact hahead [] hfetched
  | some heaptid =>
    obtain ⟨hso₂, hfirst, hremaining₂, hout⟩ := hfetched
    refine ⟨hso₂, hfirst, hremaining.trans hremaining₂, ?_⟩
    intro out hahead₂
    obtain ⟨d, hd⟩ := hout out hahead₂
    exact ⟨d, hahead _ hd⟩

theorem fetchTuple_returns (h : WellFormed index chains)
    (hfuel : index.pages.length ≤ ctx.fuel) (sort : Tuplesort D) (hprobes : 1 ≤ probes)
    (hlists : ∀ p ∈ selected, index.list? p.1 = some p.2) (hfirst : so.first = false)
    (hso : Prepared distance probes selected so) {fuel : Nat}
    (hturns : selected.length - so.listIndex < fuel) :
    (fetchTuple ctx sort fuel so).Returns ivfflatHandler index
      fun r s => s = index ∧
        Fetched distance probes (listTuples index distance chains) selected so r := by
  induction fuel generalizing so with
  | zero => omega
  | succ fuel ih =>
    unfold fetchTuple
    split
    · next d heaptid rest hsort =>
      refine .ret ⟨rfl, ⟨hso.probes_eq, hso.maxProbes_eq, hso.listPages_eq,
        hso.distance_eq, hso.listIndex_le⟩, hfirst, ?_, ?_⟩
      · simp only [remaining, hsort, List.length_cons]
        omega
      · rintro out ⟨later, rfl, hlater⟩
        exact ⟨d, later, by rw [hsort]; rfl, hlater⟩
    · next hsort =>
      rw [hso.maxProbes_eq]
      split
      · next hend =>
        refine .ret ⟨rfl, [], by rw [hsort]; rfl, ?_⟩
        rw [hend, List.drop_length]
        exact .done
      · next hmore =>
        have hlt : so.listIndex < selected.length :=
          Nat.lt_of_le_of_ne hso.listIndex_le hmore
        refine .bind (getScanItems_returns h hfuel sort hlists hso) ?_
        rintro so₁ s ⟨rfl, hso₁, hfirst₁, hindex, hperm, hsorted⟩
        refine (ih (hfirst₁.trans hfirst) hso₁ (by omega)).mono ?_
        rintro r s' ⟨rfl, hfetched⟩
        exact ⟨rfl, hfetched.of_batch hsort hlt hindex hperm hsorted⟩

theorem fetchRest_returns {sort : Tuplesort D} {scan : IvfflatScanDesc V} {calls : Nat}
    (hrest : ∀ so', so'.first = false → Prepared distance probes selected so' →
      remaining tuples selected so' < calls →
      (fetchAll ctx sort scan calls so').Returns ivfflatHandler index
        fun tids s => s = index ∧ ∃ out : List (D × ItemPointer),
          tids = out.map Prod.snd ∧ Ahead probes tuples selected so' out)
    (hcalls : remaining tuples selected so < calls + 1)
    {program : IvfflatProgram V (Option ItemPointer × IvfflatScanOpaque V D)}
    (hfetch : program.Returns ivfflatHandler index
      fun r s => s = index ∧ Fetched distance probes tuples selected so r) :
    (do
      match ← program with
      | (none, _) => return []
      | (some heaptid, so) => do
        let heaptids ← fetchAll ctx sort scan calls so
        return heaptid :: heaptids).Returns ivfflatHandler index
      fun tids s => s = index ∧ ∃ out : List (D × ItemPointer),
        tids = out.map Prod.snd ∧ Ahead probes tuples selected so out := by
  refine .bind hfetch ?_
  rintro ⟨reply, so₁⟩ s ⟨rfl, hfetched⟩
  cases reply with
  | none => exact .ret ⟨rfl, [], rfl, hfetched⟩
  | some heaptid =>
    obtain ⟨hso₁, hfirst₁, hremaining, hahead⟩ := hfetched
    dsimp only at hso₁ hfirst₁ hremaining hahead
    refine .bind (hrest so₁ hfirst₁ hso₁ (by omega)) ?_
    rintro tids s' ⟨rfl, out, rfl, hout⟩
    obtain ⟨d, hd⟩ := hahead out hout
    exact .ret ⟨rfl, (d, heaptid) :: out, rfl, hd⟩

theorem fetchAll_returns (h : WellFormed index chains)
    (hfuel : index.pages.length ≤ ctx.fuel) (sort : Tuplesort D) (hprobes : 1 ≤ probes)
    (hlists : ∀ p ∈ selected, index.list? p.1 = some p.2) (scan : IvfflatScanDesc V)
    {calls : Nat} (hfirst : so.first = false)
    (hso : Prepared distance probes selected so)
    (hcalls : remaining (listTuples index distance chains) selected so < calls) :
    (fetchAll ctx sort scan calls so).Returns ivfflatHandler index
      fun tids s => s = index ∧ ∃ out : List (D × ItemPointer), tids = out.map Prod.snd ∧
        Ahead probes (listTuples index distance chains) selected so out := by
  induction calls generalizing so with
  | zero => omega
  | succ calls ih =>
    unfold fetchAll ivfflatgettuple
    rw [hfirst, if_neg Bool.false_ne_true]
    refine fetchRest_returns (fun so' hfirst' hso' hcalls' => ih hfirst' hso' hcalls')
      hcalls (fetchTuple_returns h hfuel sort hprobes hlists hfirst hso ?_)
    rw [hso.maxProbes_eq]
    omega

/-! ## Whole scans -/

def IvfflatIndex.tidsOn (index : IvfflatIndex V) (chains : ListInfo → List BlockNumber)
    (infos : List ListInfo) : Multiset ItemPointer :=
  ((infos.flatMap chains).map index.tidsAt).sum

omit [LinearOrder D] in
theorem map_snd_listTuples (lists : List (PlacedList V)) :
    (((lists.flatMap (listTuples index distance chains)).map Prod.snd : List ItemPointer) :
      Multiset ItemPointer) = index.tidsOn chains (lists.map Prod.fst) := by
  have hpage : ∀ b, (((index.tuplesAt distance b).map Prod.snd : List ItemPointer) :
      Multiset ItemPointer) = index.tidsAt b := by
    intro b
    rcases hentry : index.entryPage? b with _ | page
    · simp [IvfflatIndex.tuplesAt, IvfflatIndex.tidsAt, hentry]
    · simp [IvfflatIndex.tuplesAt, IvfflatIndex.tidsAt, hentry, scanTuples, Function.comp_def]
  have hblocks : ∀ blocks : List BlockNumber,
      (((blocks.flatMap (index.tuplesAt distance)).map Prod.snd : List ItemPointer) :
        Multiset ItemPointer) = (blocks.map index.tidsAt).sum := by
    intro blocks
    induction blocks with
    | nil => rfl
    | cons b blocks ih =>
      rw [List.flatMap_cons, List.map_append, ← Multiset.coe_add, hpage, ih, List.map_cons,
        List.sum_cons]
  have hflat : lists.flatMap (listTuples index distance chains) =
      ((lists.map Prod.fst).flatMap chains).flatMap (index.tuplesAt distance) := by
    rw [List.flatMap_assoc, List.flatMap_map]
    rfl
  rw [hflat, hblocks]
  rfl

structure ScanResult (index : IvfflatIndex V) (distance : V → D) (probes maxProbes : Nat)
    (chains : ListInfo → List BlockNumber) (tids : List ItemPointer)
    (selected : List (PlacedList V)) (out : List (D × ItemPointer)) : Prop where
  selection : Selection index distance maxProbes selected
  batched : Batched probes (listTuples index distance chains) selected out
  tids_eq : tids = out.map Prod.snd
  /-- Each heap TID comes as often as it is stored. -/
  once : (tids : Multiset ItemPointer) = index.tidsOn chains (selected.map Prod.fst)
  /-- If all lists are probed at once, everything is returned, in order. -/
  exact : index.metapage.lists ≤ probes →
    (tids : Multiset ItemPointer) = index.chainTids chains ∧ out.Pairwise fun t t' => t.1 ≤ t'.1

theorem Selection.perm_listInfos (h : WellFormed index chains)
    (hsel : Selection index distance maxProbes selected) (hall : maxProbes = index.metapage.lists) :
    (selected.map Prod.fst).Perm index.listInfos := by
  obtain ⟨infos, hnodup, hcount, hmem⟩ := h.listCount
  have hinfos : infos.Perm index.listInfos := by
    refine (List.perm_ext_iff_of_nodup hnodup index.nodup_listInfos).mpr fun info => ?_
    rw [hmem, IvfflatIndex.mem_listInfos]
  have hsub : selected.map Prod.fst ⊆ infos := by
    intro info hinfo
    obtain ⟨p, hp, rfl⟩ := List.mem_map.mp hinfo
    exact (hmem p.1).mpr ⟨p.2, hsel.lists p hp⟩
  have hperm : (selected.map Prod.fst).Perm infos := by
    refine (hsel.nodup.subperm hsub).perm_of_length_le ?_
    rw [List.length_map, hsel.length_eq, hcount, hall]
  exact hperm.trans hinfos

theorem scanResult_of_batched (h : WellFormed index chains) (hle : probes ≤ maxProbes)
    (hlists : maxProbes ≤ index.metapage.lists)
    (hsel : Selection index distance maxProbes selected)
    (hbatched : Batched probes (listTuples index distance chains) selected out) :
    ScanResult index distance probes maxProbes chains (out.map Prod.snd) selected out := by
  have honce : ((out.map Prod.snd : List ItemPointer) : Multiset ItemPointer) =
      index.tidsOn chains (selected.map Prod.fst) := by
    rw [← map_snd_listTuples, Multiset.coe_eq_coe]
    exact hbatched.perm.map _
  refine ⟨hsel, hbatched, rfl, honce, ?_⟩
  intro hall
  have hprobes : maxProbes = index.metapage.lists := by omega
  constructor
  · rw [honce, IvfflatIndex.tidsOn, IvfflatIndex.chainTids]
    exact (((hsel.perm_listInfos h hprobes).flatMap_right chains).map index.tidsAt).sum_eq
  · apply hbatched.sorted
    rw [hsel.length_eq]
    omega

theorem tidsOn_append (infos infos' : List ListInfo) :
    index.tidsOn chains (infos ++ infos') =
      index.tidsOn chains infos + index.tidsOn chains infos' := by
  simp [IvfflatIndex.tidsOn]

theorem tidsOn_perm {infos infos' : List ListInfo} (hperm : infos.Perm infos') :
    index.tidsOn chains infos = index.tidsOn chains infos' :=
  ((hperm.flatMap_right chains).map index.tidsAt).sum_eq

theorem Selection.card_le (h : WellFormed index chains)
    (hsel : Selection index distance maxProbes selected) :
    (selected.flatMap (listTuples index distance chains)).length ≤ index.entryTids.card := by
  have hsub : selected.map Prod.fst ⊆ index.listInfos := by
    intro info hinfo
    obtain ⟨p, hp, rfl⟩ := List.mem_map.mp hinfo
    exact IvfflatIndex.mem_listInfos.mpr ⟨p.2, hsel.lists p hp⟩
  obtain ⟨all, hperm, hsublist⟩ := List.subperm_iff.mp (hsel.nodup.subperm hsub)
  obtain ⟨others, hothers⟩ := hsublist.exists_perm_append
  have hall : index.entryTids = index.tidsOn chains (selected.map Prod.fst) +
      index.tidsOn chains others := by
    rw [← tidsOn_append, ← tidsOn_perm hothers, tidsOn_perm hperm]
    exact h.chainTids_eq.symm
  rw [hall, Multiset.card_add, ← map_snd_listTuples (D := D), Multiset.coe_card,
    List.length_map]
  exact Nat.le_add_right _ _

theorem ivfflatgettuple_first_returns (h : WellFormed index chains)
    (hfuel : index.pages.length ≤ ctx.fuel) (sort : Tuplesort D) (query : Option V)
    (hprobes : 1 ≤ probes) (hpos : 1 ≤ maxProbes) (hmax : maxProbes ≤ index.metapage.lists)
    (hso : so.probes = probes) (hsoMax : so.maxProbes = maxProbes) :
    (ivfflatgettuple ctx sort ⟨some query, true⟩ (ivfflatrescan so)).Returns ivfflatHandler
      index fun r s => s = index ∧ ∃ selected,
        Selection index (getScanValue ctx query) maxProbes selected ∧
        Fetched (getScanValue ctx query) probes
          (listTuples index (getScanValue ctx query) chains) selected
          { so with listIndex := 0, sortstate := [] } r := by
  subst hsoMax
  unfold ivfflatgettuple ivfflatrescan
  rw [if_pos rfl]
  dsimp only
  rw [if_pos rfl]
  refine .bind (getScanLists_returns h hfuel hpos hmax _) ?_
  rintro listPages s ⟨rfl, selected, hsel, rfl⟩
  have hprep : Prepared (getScanValue ctx query) probes selected
      { so with
        first := true
        listIndex := 0
        listPages := selected.map fun p => p.2.startPage
        distance := getScanValue ctx query } :=
    ⟨hso, hsel.length_eq.symm, rfl, rfl, Nat.zero_le _⟩
  refine .bind (getScanItems_returns h hfuel sort hsel.lists hprep) ?_
  rintro so₁ s ⟨rfl, hso₁, -, hindex, hperm, hsorted⟩
  have hso₁' : Prepared (getScanValue ctx query) probes selected
      { so₁ with first := false } :=
    ⟨hso₁.probes_eq, hso₁.maxProbes_eq, hso₁.listPages_eq, hso₁.distance_eq, hso₁.listIndex_le⟩
  refine (fetchTuple_returns h hfuel sort hprobes hsel.lists rfl hso₁' ?_).mono ?_
  · rw [hso₁.maxProbes_eq]
    omega
  · rintro r s' ⟨rfl, hfetched⟩
    have hlt : 0 < selected.length := by
      rw [hsel.length_eq]
      exact hpos
    exact ⟨rfl, selected, hsel, hfetched.of_batch rfl hlt hindex hperm hsorted⟩

theorem fetchAll_rescan_returns (h : WellFormed index chains)
    (hfuel : index.pages.length ≤ ctx.fuel) (sort : Tuplesort D) (query : Option V) {calls : Nat}
    (hprobes : 1 ≤ probes) (hle : probes ≤ maxProbes) (hmax : maxProbes ≤ index.metapage.lists)
    (hso : so.probes = probes) (hsoMax : so.maxProbes = maxProbes)
    (hcalls : index.entryTids.card < calls) :
    (fetchAll ctx sort ⟨some query, true⟩ calls (ivfflatrescan so)).Returns ivfflatHandler
      index fun tids s => s = index ∧ ∃ selected out,
        ScanResult index (getScanValue ctx query) probes maxProbes chains tids selected out := by
  cases calls with
  | zero => omega
  | succ calls =>
    obtain ⟨r, s, hrun, rfl, selected, hsel, hfetched⟩ := ivfflatgettuple_first_returns h
      hfuel sort query hprobes (hprobes.trans hle) hmax hso hsoMax
    have hahead : remaining (listTuples s (getScanValue ctx query) chains) selected
        { so with listIndex := 0, sortstate := [] } < calls + 1 := by
      have hcard := hsel.card_le h
      simp only [remaining, List.drop_zero, List.length_nil]
      omega
    refine (fetchRest_returns (fun so' hfirst' hso' hcalls' => fetchAll_returns h hfuel sort
      hprobes hsel.lists _ hfirst' hso' hcalls') hahead ⟨r, s, hrun, rfl, hfetched⟩).mono ?_
    rintro tids s' ⟨rfl, out, rfl, later, rfl, hbatched⟩
    exact ⟨rfl, selected, _, scanResult_of_batched h hle hmax hsel hbatched⟩

omit [LinearOrder D] in
theorem ivfflatbeginscan_returns (h : WellFormed index chains)
    (settings : IvfflatScanSettings) :
    (ivfflatbeginscan ctx settings).Returns ivfflatHandler index
      fun begun s => s = index ∧
        begun.probes = min settings.probes index.metapage.lists ∧
        begun.maxProbes = min (if settings.iterativeScan then
          max settings.maxProbes settings.probes else settings.probes) index.metapage.lists := by
  have hmeta : (ivfflatGetMetaPageInfo (V := V)).Returns ivfflatHandler index
      fun metap s => s = index ∧ metap = index.metapage := by
    refine .perform rfl ?_
    rw [if_neg (by simp [h.magicNumber])]
    exact .ret ⟨rfl, rfl⟩
  refine .bind hmeta ?_
  rintro metap s ⟨rfl, rfl⟩
  exact .ret ⟨rfl, rfl, rfl⟩

/--
On every index that builds, inserts and vacuums lead to, every scan returns what is
stored in the lists it selects, each heap TID once, in batches that are sorted by
distance; with as many probes as lists, it returns everything in order.
-/
theorem ivfflat_scan_exactly_once {built : IvfflatContext V D}
    {rows : List (Option V × ItemPointer)} (hbuilt : Built built rows index)
    {pool : Pool (ivfflatSignature V) (Monitored V) (Task V D)}
    (hreach : (ivfflatSystem V D).Reaches (Pool.idle ⟨index, History.start⟩) pool)
    (ctx : IvfflatContext V D) (sort : Tuplesort D) (settings : IvfflatScanSettings)
    (query : Option V) {calls : Nat} (hfuel : pool.shared.index.pages.length ≤ ctx.fuel)
    (hcalls : pool.shared.index.entryTids.card < calls) :
    ∃ chains, (∀ info list, pool.shared.index.list? info = some list →
        Chain pool.shared.index.entryNext list.startPage (chains info)) ∧
      (ivfflatbeginscan ctx settings).Returns ivfflatHandler pool.shared.index
        fun begun s => s = pool.shared.index ∧
          begun.probes = min settings.probes s.metapage.lists ∧
          begun.maxProbes = min (if settings.iterativeScan then
            max settings.maxProbes settings.probes else settings.probes) s.metapage.lists ∧
          -- the scan may have been used before
          ∀ so, so.probes = begun.probes → so.maxProbes = begun.maxProbes →
            (fetchAll ctx sort ⟨some query, true⟩ calls (ivfflatrescan so)).Returns
              ivfflatHandler s fun tids s' => s' = s ∧ ∃ selected out,
                ScanResult s (getScanValue ctx query) begun.probes begun.maxProbes chains
                  tids selected out := by
  obtain ⟨x, hx⟩ := hbuilt.reaches hreach
  have hinv : x.Invariant (indexedTids built rows) := hx.inv
  rw [← show x.state = pool.shared from hx.shared] at hfuel hcalls ⊢
  refine ⟨x.chains, hinv.chainsHold.chain, ?_⟩
  refine (ivfflatbeginscan_returns hinv.wellFormed settings).mono ?_
  rintro begun s ⟨rfl, hprobes, hmaxProbes⟩
  refine ⟨rfl, hprobes, hmaxProbes, ?_⟩
  intro so hso hsoMax
  have hlists := hinv.wellFormed.lists_pos
  have hpos := settings.probes_pos
  have hprobes_le : settings.probes ≤ if settings.iterativeScan then
      max settings.maxProbes settings.probes else settings.probes := by
    split
    · exact Nat.le_max_right _ _
    · exact Nat.le_refl _
  exact fetchAll_rescan_returns hinv.wellFormed hfuel sort query (by omega) (by omega)
    (by omega) hso hsoMax hcalls

/--
When no backend is at work, a scan that probes every list returns what was built and what
the completed inserts, and some of the aborted ones, have added, without what the vacuums
have removed.
-/
theorem full_scan_accounts {built : IvfflatContext V D} {rows : List (Option V × ItemPointer)}
    (hbuilt : Built built rows index)
    {pool : Pool (ivfflatSignature V) (Monitored V) (Task V D)}
    (hreach : (ivfflatSystem V D).Reaches (Pool.idle ⟨index, History.start⟩) pool)
    (hquiet : ∀ i, pool.threads i = none) (ctx : IvfflatContext V D) (sort : Tuplesort D)
    (settings : IvfflatScanSettings) (hall : pool.shared.index.metapage.lists ≤ settings.probes)
    (query : Option V) (calls : Nat) (hfuel : pool.shared.index.pages.length ≤ ctx.fuel)
    (hcalls : pool.shared.index.entryTids.card < calls) :
    ∃ extra ≤ (pool.shared.history.abandoned : Multiset ItemPointer),
      (do
        let so ← ivfflatbeginscan ctx settings
        fetchAll ctx sort ⟨some query, true⟩ calls (ivfflatrescan so)).Returns ivfflatHandler
        pool.shared.index fun tids s => s = pool.shared.index ∧
          (tids : Multiset ItemPointer) + (pool.shared.history.removed : Multiset ItemPointer) =
            indexedTids built rows + (pool.shared.history.completed + extra) := by
  obtain ⟨x, hx⟩ := hbuilt.reaches hreach
  have hinv : x.Invariant (indexedTids built rows) := hx.inv
  have hpending : x.pending = 0 := by
    refine Multiset.eq_zero_of_forall_notMem fun entry hentry => ?_
    have hrest : x.pendingOf entry.1 = 0 := hx.resting entry.1 (hquiet entry.1)
    exact Multiset.notMem_zero entry (hrest ▸ Multiset.mem_filter.mpr ⟨hentry, rfl⟩)
  rw [← show x.state = pool.shared from hx.shared] at hall hfuel hcalls ⊢
  refine ⟨x.extra, hinv.extra, .bind (ivfflatbeginscan_returns hinv.wellFormed settings) ?_⟩
  rintro so s ⟨rfl, hprobes, hmaxProbes⟩
  have hlists := hinv.wellFormed.lists_pos
  rw [Nat.min_eq_right hall] at hprobes
  have hmax : so.maxProbes = x.state.index.metapage.lists := by
    rw [hmaxProbes]
    split <;> omega
  refine (fetchAll_rescan_returns hinv.wellFormed hfuel sort query hlists le_rfl le_rfl hprobes
    hmax hcalls).mono ?_
  rintro tids s ⟨rfl, selected, out, hresult⟩
  refine ⟨rfl, ?_⟩
  rw [(hresult.exact le_rfl).1, hinv.chainsHold.stored, hinv.placed, hpending,
    Multiset.map_zero, add_zero]

end Visit

/-! ## A scan -/

section Sample

def sampleSort : Tuplesort Nat where
  performsort tuples := tuples.mergeSort fun t t' => decide (t.1 ≤ t'.1)
  perm tuples := List.mergeSort_perm tuples _
  sorted tuples := by
    have htrans : ∀ a b c : Nat × ItemPointer, decide (a.1 ≤ b.1) = true →
        decide (b.1 ≤ c.1) = true → decide (a.1 ≤ c.1) = true := by
      simp only [decide_eq_true_eq]
      omega
    have htotal : ∀ a b : Nat × ItemPointer, (decide (a.1 ≤ b.1) || decide (b.1 ≤ a.1)) = true := by
      simp only [Bool.or_eq_true, decide_eq_true_eq]
      omega
    simpa using List.pairwise_mergeSort htrans htotal tuples

def sampleSettings : IvfflatScanSettings := ⟨1, 2, true, le_rfl⟩

theorem ivfflat_scan_sample :
    ∃ chains, (∀ info list, sampleAfter.index.list? info = some list →
        Chain sampleAfter.index.entryNext list.startPage (chains info)) ∧
      (ivfflatbeginscan sampleContext sampleSettings).Returns ivfflatHandler
        sampleAfter.index fun begun s => s = sampleAfter.index ∧
          begun.probes = min 1 s.metapage.lists ∧ begun.maxProbes = min 2 s.metapage.lists ∧
          ∀ so, so.probes = begun.probes → so.maxProbes = begun.maxProbes →
            (fetchAll sampleContext sampleSort ⟨some (some 18), true⟩ 4
              (ivfflatrescan so)).Returns ivfflatHandler s fun tids s' => s' = s ∧
                ∃ selected out, ScanResult s (getScanValue sampleContext (some 18))
                  begun.probes begun.maxProbes chains tids selected out :=
  ivfflat_scan_exactly_once sampleIndex_built sampleAfter_reached sampleContext sampleSort
    sampleSettings (some 18) (by decide) (by decide)

/-- The row of the build that was removed is not returned, the one that was added is. -/
theorem full_scan_accounts_sample :
    (do
      let so ← ivfflatbeginscan sampleContext ⟨2, 2, false, by decide⟩
      fetchAll sampleContext sampleSort ⟨some (some 18), true⟩ 4 (ivfflatrescan so)).Returns
      ivfflatHandler sampleAfter.index fun tids s => s = sampleAfter.index ∧
        (tids : Multiset ItemPointer) + ([⟨0, 2⟩] : List ItemPointer) =
          ([⟨0, 1⟩, ⟨0, 2⟩, ⟨0, 4⟩] : List ItemPointer) + ([⟨0, 5⟩] : List ItemPointer) := by
  obtain ⟨extra, hextra, hscan⟩ := full_scan_accounts sampleIndex_built sampleAfter_reached
    (fun _ => rfl) sampleContext sampleSort ⟨2, 2, false, by decide⟩ (by decide) (some 18) 4
    (by decide) (by decide)
  obtain rfl : extra = 0 := Multiset.le_zero.mp hextra
  exact hscan

end Sample

end PgVector.Ivfflat
