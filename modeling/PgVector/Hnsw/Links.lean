import Mathlib.Data.List.TakeWhile
import PgVector.Foundation.Reclamation
import PgVector.Hnsw.Storage

/-!
# The index as a graph whose nodes are reclaimed

Which element tuples there are, which of them have been emptied or deleted, and
which TIDs their neighbor tuples hold, at any layer.  There is one lemma for each
change of the pages, which says what it does to this graph.
-/

namespace PgVector.Hnsw

open Foundation

variable {V : Type}

def HnswNeighborTuple.named (ntup : HnswNeighborTuple) : Set ItemPointer :=
  {tid | tid ∈ ntup.indextids ∧ tid.isValid = true}

namespace HnswIndex

def net (index : HnswIndex V) : Net ItemPointer where
  present := {tid | ∃ etup, index.element? tid = some etup}
  emptied := {tid | ∃ etup, index.element? tid = some etup ∧ etup.isEmptied = true}
  deleted := {tid | ∃ etup, index.element? tid = some etup ∧ etup.deleted = true}
  names tid := {n | ∃ etup ntup, index.element? tid = some etup ∧
    index.neighbor? etup.neighbortid = some ntup ∧ n ∈ ntup.named}
  entry := index.metapage.entryPoint.map EntryPoint.tid

structure WellFormed (index : HnswIndex V) : Prop where
  magicNumber : index.metapage.magicNumber = hnswMagicNumber
  insertPage : index.metapage.insertPage.isSome
  chained : index.Chained
  head : 1 ≤ index.pages.length
  neighbortid : ∀ {tid etup}, index.element? tid = some etup →
    ∃ ntup, index.neighbor? etup.neighbortid = some ntup
  distinct : ∀ {tid tid' etup etup'}, index.element? tid = some etup →
    index.element? tid' = some etup' → etup.neighbortid = etup'.neighbortid → tid = tid'

end HnswIndex

structure Evolves (index index' : HnswIndex V) : Prop where
  wellFormed : index.WellFormed → index'.WellFormed
  length : index.pages.length ≤ index'.pages.length
  element : ∀ {tid etup}, index.element? tid = some etup →
    ∃ etup', index'.element? tid = some etup' ∧ etup'.neighbortid = etup.neighbortid

namespace Evolves

variable {index₁ index₂ index₃ : HnswIndex V}

theorem refl (index : HnswIndex V) : Evolves index index :=
  ⟨id, Nat.le_refl _, fun h => ⟨_, h, rfl⟩⟩

theorem trans (h : Evolves index₁ index₂) (h' : Evolves index₂ index₃) : Evolves index₁ index₃ := by
  refine ⟨fun hwf => h'.wellFormed (h.wellFormed hwf), h.length.trans h'.length, ?_⟩
  intro tid etup hetup
  obtain ⟨etup₂, hetup₂, heq₂⟩ := h.element hetup
  obtain ⟨etup₃, hetup₃, heq₃⟩ := h'.element hetup₂
  exact ⟨etup₃, hetup₃, heq₃.trans heq₂⟩

end Evolves

/-! ## Heap TIDs -/

namespace HnswElementTuple

variable {etup etup' : HnswElementTuple V}

theorem isEmptied_iff : etup.isEmptied = true ↔ etup.liveTids = [] := by
  simp [isEmptied]

theorem liveTids_removeHeapTids (etup : HnswElementTuple V)
    (callback : ItemPointer → Bool) :
    (etup.removeHeapTids callback).liveTids = etup.liveTids.filter fun tid => !callback tid := by
  unfold removeHeapTids
  split
  · next hnone =>
    have hkept : ∀ tid ∈ etup.liveTids, callback tid = false := by
      simpa [removedTids, List.filter_eq_nil_iff] using hnone
    symm
    rw [List.filter_eq_self]
    intro tid htid
    simp [hkept tid htid]
  · have hvalid : ∀ tid ∈ etup.liveTids.filter fun tid => !callback tid, tid.isValid = true := by
      intro tid htid
      exact List.mem_takeWhile_imp (List.mem_filter.mp htid).1
    refine (List.takeWhile_append_of_pos hvalid).trans ?_
    cases hnswHeaptids - (etup.liveTids.filter fun tid => !callback tid).length <;>
      simp [List.replicate_succ]

@[simp] theorem neighbortid_removeHeapTids (etup : HnswElementTuple V)
    (callback : ItemPointer → Bool) :
    (etup.removeHeapTids callback).neighbortid = etup.neighbortid := by
  unfold removeHeapTids
  split <;> rfl

@[simp] theorem deleted_removeHeapTids (etup : HnswElementTuple V)
    (callback : ItemPointer → Bool) :
    (etup.removeHeapTids callback).deleted = etup.deleted := by
  unfold removeHeapTids
  split <;> rfl

theorem isEmptied_removeHeapTids {callback : ItemPointer → Bool}
    (h : etup.isEmptied = true) : (etup.removeHeapTids callback).isEmptied = true := by
  rw [isEmptied_iff] at h ⊢
  rw [liveTids_removeHeapTids, h]
  rfl

theorem isEmptied_addDuplicate {heaptid : ItemPointer}
    (h : etup.addDuplicate? heaptid = some etup') :
    etup.isEmptied = false ∧ etup'.isEmptied = false ∧ etup'.deleted = etup.deleted ∧
      etup'.neighbortid = etup.neighbortid := by
  unfold addDuplicate? at h
  simp only at h
  split at h
  · cases h
  · next hlength =>
    cases h
    rw [not_or] at hlength
    -- the first heap TID is valid and is not the one that is set
    have hne : etup.liveTids ≠ [] := fun h => hlength.1 (by simp [h])
    obtain ⟨first, rest, hfirst⟩ := List.exists_cons_of_ne_nil hne
    have hheap : ∃ tail, etup.heaptids = first :: tail ∧ first.isValid = true := by
      unfold liveTids at hfirst
      cases hh : etup.heaptids with
      | nil => simp [hh] at hfirst
      | cons a tail =>
        rw [hh, List.takeWhile_cons] at hfirst
        split at hfirst
        · next ha =>
          obtain ⟨rfl, -⟩ := List.cons.inj hfirst
          exact ⟨tail, rfl, ha⟩
        · cases hfirst
    obtain ⟨tail, hheap, hvalid⟩ := hheap
    refine ⟨?_, ?_, rfl, rfl⟩
    · simp [isEmptied, hfirst]
    · simp [isEmptied, liveTids, hheap, hvalid]

end HnswElementTuple

/-! ## Tuples that are written -/

section Write

open HnswIndex

variable {index index' : HnswIndex V} {tid ntid : ItemPointer}

theorem element?_update (item : Item (IndexTuple V))
    (h : index'.item? = Function.update index.item? tid (some item)) :
    index'.element? = Function.update index.element? tid
      (match item.tuple with
        | .element etup => some etup
        | _ => none) := by
  funext t
  by_cases ht : t = tid
  · subst ht
    rw [Function.update_self]
    simp only [element?, tuple?_eq, h, Function.update_self, Option.map_some]
    cases item.tuple <;> rfl
  · rw [Function.update_of_ne ht]
    exact element?_congr (by rw [h, Function.update_of_ne ht])

theorem neighbor?_update (item : Item (IndexTuple V))
    (h : index'.item? = Function.update index.item? tid (some item)) :
    index'.neighbor? = Function.update index.neighbor? tid
      (match item.tuple with
        | .neighbor ntup => some ntup
        | _ => none) := by
  funext t
  by_cases ht : t = tid
  · subst ht
    rw [Function.update_self]
    simp only [neighbor?, tuple?_eq, h, Function.update_self, Option.map_some]
    cases item.tuple <;> rfl
  · rw [Function.update_of_ne ht]
    exact neighbor?_congr (by rw [h, Function.update_of_ne ht])

theorem neighbor?_of_element? {etup : HnswElementTuple V}
    (h : index.element? tid = some etup) : index.neighbor? tid = none := by
  cases hn : index.neighbor? tid with
  | none => rfl
  | some ntup => exact absurd rfl (element?_ne_neighbor? h hn)

variable {ntup : HnswNeighborTuple} {size : Nat} {new : HnswElementTuple V} {blkno : BlockNumber}
  {r : AddElementRequest V}

theorem element?_of_neighbor? (h : index.neighbor? tid = some ntup) :
    index.element? tid = none := by
  cases he : index.element? tid with
  | none => rfl
  | some etup => exact absurd rfl (element?_ne_neighbor? he h)

theorem neighbor_written {old new : HnswNeighborTuple} (hold : index.neighbor? ntid = some old)
    (h : index'.item? = Function.update index.item? ntid (some ⟨size, .neighbor new⟩)) :
    index'.element? = index.element? ∧
      index'.neighbor? = Function.update index.neighbor? ntid (some new) := by
  constructor
  · rw [element?_update _ h, Function.update_eq_self_iff]
    exact (element?_of_neighbor? hold).symm
  · exact neighbor?_update _ h

theorem element_written {old : HnswElementTuple V} (hold : index.element? tid = some old)
    (h : index'.item? = Function.update index.item? tid (some ⟨size, .element new⟩)) :
    index'.element? = Function.update index.element? tid (some new) ∧
      index'.neighbor? = index.neighbor? := by
  constructor
  · exact element?_update _ h
  · rw [neighbor?_update _ h, Function.update_eq_self_iff]
    exact (neighbor?_of_element? hold).symm

theorem exists_of_map_eq {α β : Type} {f : α → β} {x y : Option α} {a : α}
    (h : x.map f = y.map f) (ha : x = some a) : ∃ b, y = some b ∧ f b = f a := by
  subst ha
  exact Option.map_eq_some_iff.mp h.symm

theorem Evolves.of_elements (hpages : KeepsPages index index')
    (helement : ∀ t, (index'.element? t).map (·.neighbortid) =
      (index.element? t).map (·.neighbortid))
    (hneighbor : ∀ t, (index.neighbor? t).isSome → (index'.neighbor? t).isSome) :
    Evolves index index' := by
  refine ⟨fun hwf => ⟨hpages.metapage ▸ hwf.magicNumber, hpages.metapage ▸ hwf.insertPage,
    hpages.chained hwf.chained, hwf.head.trans hpages.length, ?_, ?_⟩, hpages.length,
    fun he => exists_of_map_eq (helement _).symm he⟩
  · intro t e' he'
    obtain ⟨e, he, hsame⟩ := exists_of_map_eq (helement t) he'
    obtain ⟨ntup, hntup⟩ := hwf.neighbortid he
    rw [← hsame]
    exact Option.isSome_iff_exists.mp (hneighbor _ (by rw [hntup]; rfl))
  · intro t t' e e' he he' heq
    obtain ⟨a, ha, hae⟩ := exists_of_map_eq (helement t) he
    obtain ⟨a', ha', hae'⟩ := exists_of_map_eq (helement t') he'
    exact hwf.distinct ha ha' (by rw [hae, hae', heq])

theorem element_written_evolves {old : HnswElementTuple V} (hold : index.element? tid = some old)
    (hsame : new.neighbortid = old.neighbortid)
    (h : index'.item? = Function.update index.item? tid (some ⟨size, .element new⟩))
    (hpages : KeepsPages index index') : Evolves index index' := by
  obtain ⟨helement, hneighbor⟩ := element_written hold h
  refine .of_elements hpages (fun t => ?_) fun t ht => by rwa [hneighbor]
  rw [helement]
  by_cases ht : t = tid
  · simp [ht, hold, hsame]
  · rw [Function.update_of_ne ht]

theorem both_written (new : HnswElementTuple V) {nsize : Nat} (hne : new.neighbortid ≠ tid)
    (helement : index.element? new.neighbortid = none) (hneighbor : index.neighbor? tid = none)
    (h : index'.item? =
      Function.update (Function.update index.item? tid (some ⟨size, .element new⟩))
        new.neighbortid (some ⟨nsize, .neighbor ntup⟩)) :
    index'.element? = Function.update index.element? tid (some new) ∧
      index'.neighbor? = Function.update index.neighbor? new.neighbortid (some ntup) := by
  have htid : index'.item? tid = some ⟨size, .element new⟩ := by
    rw [h, Function.update_of_ne hne.symm, Function.update_self]
  have hntid : index'.item? new.neighbortid = some ⟨nsize, .neighbor ntup⟩ := by
    rw [h, Function.update_self]
  have hother : ∀ t, t ≠ tid → t ≠ new.neighbortid → index'.item? t = index.item? t := by
    intro t ht ht'
    rw [h, Function.update_of_ne ht', Function.update_of_ne ht]
  have hwritten := element?_of_item? htid
  have hwritten' := neighbor?_of_item? hntid
  constructor
  · funext t
    by_cases ht : t = tid
    · rw [ht, hwritten, Function.update_self]
    · rw [Function.update_of_ne ht]
      by_cases ht' : t = new.neighbortid
      · rw [ht', helement]
        exact element?_of_neighbor? hwritten'
      · exact element?_congr (hother t ht ht')
  · funext t
    by_cases ht' : t = new.neighbortid
    · rw [ht', hwritten', Function.update_self]
    · rw [Function.update_of_ne ht']
      by_cases ht : t = tid
      · rw [ht, hneighbor]
        exact neighbor?_of_element? hwritten
      · exact neighbor?_congr (hother t ht ht')

structure BothWritten (index index' : HnswIndex V) (tid : ItemPointer)
    (new : HnswElementTuple V) (ntup : HnswNeighborTuple) : Prop where
  element : index'.element? = Function.update index.element? tid (some new)
  neighbor : index'.neighbor? = Function.update index.neighbor? new.neighbortid (some ntup)
  same : ∀ old, index.element? tid = some old → new.neighbortid = old.neighbortid
  unshared : ∀ {t e}, index.element? t = some e → t ≠ tid → e.neighbortid ≠ new.neighbortid

namespace BothWritten

theorem again {etup : HnswElementTuple V} {nsize : Nat} (hwf : index.WellFormed)
    (hetup : index.element? tid = some etup) (hsame : new.neighbortid = etup.neighbortid)
    (h : index'.item? =
      Function.update (Function.update index.item? tid (some ⟨size, .element new⟩))
        new.neighbortid (some ⟨nsize, .neighbor ntup⟩)) :
    BothWritten index index' tid new ntup := by
  obtain ⟨old, hold⟩ := hwf.neighbortid hetup
  rw [← hsame] at hold
  obtain ⟨helement, hneighbor⟩ := both_written new
    (fun heq => element?_ne_neighbor? hetup hold heq.symm) (element?_of_neighbor? hold)
    (neighbor?_of_element? hetup) h
  refine ⟨helement, hneighbor, fun e he => ?_, fun he ht heq =>
    ht (hwf.distinct he hetup (heq.trans hsame))⟩
  rw [hsame, Option.some.inj (hetup.symm.trans he)]

variable (h : BothWritten index index' tid new ntup)
include h

theorem names : index'.net.names = Function.update index.net.names tid ntup.named := by
  funext t
  ext n
  by_cases ht : t = tid
  · subst ht
    simp [net, h.element, h.neighbor]
  · simp only [net, h.element, h.neighbor, Function.update_of_ne ht, Set.mem_ofPred_eq]
    constructor
    · rintro ⟨e, ntup', he, hn, hmem⟩
      rw [Function.update_of_ne (h.unshared he ht)] at hn
      exact ⟨e, ntup', he, hn, hmem⟩
    · rintro ⟨e, ntup', he, hn, hmem⟩
      refine ⟨e, ntup', he, ?_, hmem⟩
      rw [Function.update_of_ne (h.unshared he ht)]
      exact hn

theorem evolves (hpages : KeepsPages index index') : Evolves index index' := by
  have hcases : ∀ {t e}, index'.element? t = some e →
      (t = tid ∧ e = new) ∨ (t ≠ tid ∧ index.element? t = some e) := by
    intro t e he
    rw [h.element] at he
    by_cases ht : t = tid
    · subst ht
      rw [Function.update_self] at he
      exact .inl ⟨rfl, (Option.some.inj he).symm⟩
    · rw [Function.update_of_ne ht] at he
      exact .inr ⟨ht, he⟩
  refine ⟨fun hwf => ⟨hpages.metapage ▸ hwf.magicNumber, hpages.metapage ▸ hwf.insertPage,
    hpages.chained hwf.chained, hwf.head.trans hpages.length, ?_, ?_⟩, hpages.length, ?_⟩
  · intro t e he
    rw [h.neighbor]
    rcases hcases he with ⟨-, rfl⟩ | ⟨ht, he⟩
    · exact ⟨ntup, Function.update_self _ _ _⟩
    · rw [Function.update_of_ne (h.unshared he ht)]
      exact hwf.neighbortid he
  · intro t t' e e' he he' heq
    rcases hcases he with ⟨rfl, rfl⟩ | ⟨ht, he⟩
    · rcases hcases he' with ⟨rfl, -⟩ | ⟨ht', he'⟩
      · rfl
      · exact absurd heq.symm (h.unshared he' ht')
    · rcases hcases he' with ⟨rfl, rfl⟩ | ⟨-, he'⟩
      · exact absurd heq (h.unshared he ht)
      · exact hwf.distinct he he' heq
  · intro t e he
    rw [h.element]
    by_cases ht : t = tid
    · subst ht
      exact ⟨new, Function.update_self _ _ _, h.same e he⟩
    · exact ⟨e, by rw [Function.update_of_ne ht]; exact he, rfl⟩

end BothWritten

theorem neighbor_written_net {etup : HnswElementTuple V} {new : HnswNeighborTuple}
    (hwf : index.WellFormed) (hetup : index.element? tid = some etup)
    (h : index'.item? = Function.update index.item? etup.neighbortid (some ⟨size, .neighbor new⟩))
    (hpages : KeepsPages index index') :
    index'.net = index.net.relink tid new.named ∧ Evolves index index' := by
  obtain ⟨old, hold⟩ := hwf.neighbortid hetup
  obtain ⟨helement, hneighbor⟩ := neighbor_written hold h
  have hwritten : BothWritten index index' tid etup new := by
    refine ⟨?_, hneighbor, fun e he => ?_, fun he ht heq => ht (hwf.distinct he hetup heq)⟩
    · rw [helement, ← hetup, Function.update_eq_self]
    · rw [Option.some.inj (hetup.symm.trans he)]
  refine ⟨?_, hwritten.evolves hpages⟩
  rw [Net.relink, ← hwritten.names]
  simp only [net, helement, hpages.metapage]

/-! ## The changes of the pages -/

theorem updateNeighborOnPage_net {etup : HnswElementTuple V} (new : ItemPointer)
    (idx : UpdateIdx) (startIdx lm : Nat) (checkExisting : Bool)
    (hwf : index.WellFormed) (hetup : index.element? tid = some etup) :
    ∃ s, (updateNeighborOnPage index etup.neighbortid new idx startIdx lm
        checkExisting).net = index.net.relink tid s ∧
      (∀ b ∈ s, b ∈ index.net.names tid ∨ b = new) ∧
      Evolves index (updateNeighborOnPage index etup.neighbortid new idx startIdx lm
        checkExisting) := by
  obtain ⟨old, hold⟩ := hwf.neighbortid hetup
  obtain ⟨size, hitem⟩ := item?_of_neighbor? hold
  obtain ⟨hnet, hevolves⟩ := neighbor_written_net hwf hetup
    (item?_updateNeighborOnPage hitem) (.modifyTuple _ _ _)
  refine ⟨_, hnet, ?_, hevolves⟩
  rintro b ⟨hb, hvalid⟩
  unfold HnswNeighborTuple.update at hb
  split at hb
  · exact .inl ⟨etup, old, hetup, hold, hb, hvalid⟩
  · rcases List.mem_or_eq_of_mem_set hb with hb | rfl
    · exact .inl ⟨etup, old, hetup, hold, hb, hvalid⟩
    · exact .inr rfl

theorem overwriteNeighborOnPage_net {etup : HnswElementTuple V} {ntupSize : Nat}
    (hwf : index.WellFormed) (hetup : index.element? tid = some etup)
    (h : overwriteNeighborOnPage index etup.neighbortid ntup ntupSize = some index') :
    index'.net = index.net.relink tid ntup.named ∧ Evolves index index' :=
  neighbor_written_net hwf hetup (item?_overwriteNeighborOnPage h).1
    (item?_overwriteNeighborOnPage h).2

theorem addDuplicateOnPage_net {heaptid : ItemPointer} {added : Bool}
    (h : addDuplicateOnPage index tid heaptid = some (added, index')) :
    index'.net = index.net ∧ Evolves index index' := by
  rcases addDuplicateOnPage_eq_some h with ⟨-, rfl⟩ | hadded
  · exact ⟨rfl, .refl index'⟩
  · obtain ⟨size, etup, etup', hitem, hadd, -, hitem', hpages⟩ := hadded
    have hetup := element?_of_item? hitem
    obtain ⟨hempty, hempty', hdeleted, hsame⟩ :=
      HnswElementTuple.isEmptied_addDuplicate hadd
    obtain ⟨helement, hneighbor⟩ := element_written hetup hitem'
    refine ⟨?_, element_written_evolves hetup hsame hitem' hpages⟩
    -- apart from its heap TIDs, the element is as before
    have hsome : ∀ t (P : HnswElementTuple V → Prop), (P etup' ↔ P etup) →
        ((∃ e, index'.element? t = some e ∧ P e) ↔ ∃ e, index.element? t = some e ∧ P e) := by
      intro t P hP
      rw [helement]
      by_cases ht : t = tid
      · subst ht
        simp [hetup, hP]
      · rw [Function.update_of_ne ht]
    simp only [net, hneighbor, hpages.metapage, Net.mk.injEq, and_true]
    refine ⟨?_, ?_, ?_, ?_⟩
    · ext t
      simpa using hsome t (fun _ => True) Iff.rfl
    · ext t
      exact hsome t (fun e => e.isEmptied = true) (by rw [hempty, hempty'])
    · ext t
      exact hsome t (fun e => e.deleted = true) (by rw [hdeleted])
    · funext t
      ext n
      simpa using hsome t (fun e => ∃ ntup, index.neighbor? e.neighbortid = some ntup ∧
        n ∈ ntup.named) (by rw [hsame])

theorem removeHeapTidsOnPage_tuples {callback : ItemPointer → Bool} {reply : RemoveHeapTidsReply}
    (h : removeHeapTidsOnPage index blkno callback = some (reply, index')) :
    (∀ t, index'.element? t =
      if t.blkno = blkno then
        (index.element? t).map fun etup => etup.removeHeapTids callback
      else index.element? t) ∧
    index'.neighbor? = index.neighbor? := by
  obtain ⟨hitem, -⟩ := removeHeapTidsOnPage_eq_some h
  constructor
  · intro t
    split
    · next ht =>
      simp only [element?, tuple?_eq, hitem t, if_pos ht]
      cases index.item? t with
      | none => rfl
      | some item => cases htuple : item.tuple <;>
          simp [removeHeapTidsItem, IndexTuple.removeHeapTids, htuple]
    · next ht => exact element?_congr (by rw [hitem, if_neg ht])
  · funext t
    by_cases ht : t.blkno = blkno
    · simp only [neighbor?, tuple?_eq, hitem t, if_pos ht]
      cases index.item? t with
      | none => rfl
      | some item => cases htuple : item.tuple <;>
          simp [removeHeapTidsItem, IndexTuple.removeHeapTids, htuple]
    · exact neighbor?_congr (by rw [hitem, if_neg ht])

theorem removeHeapTidsOnPage_elements {callback : ItemPointer → Bool}
    {reply : RemoveHeapTidsReply}
    (h : removeHeapTidsOnPage index blkno callback = some (reply, index')) (t : ItemPointer) :
    (index.element? t = none ∧ index'.element? t = none) ∨
      ∃ etup etup', index.element? t = some etup ∧ index'.element? t = some etup' ∧
        etup'.neighbortid = etup.neighbortid ∧ etup'.deleted = etup.deleted ∧
        (etup.isEmptied = true → etup'.isEmptied = true) ∧
        (t.blkno ≠ blkno → etup' = etup) := by
  have helement := (removeHeapTidsOnPage_tuples h).1 t
  cases hetup : index.element? t with
  | none =>
    left
    rw [helement, hetup]
    simp
  | some etup =>
    right
    rw [hetup] at helement
    split at helement
    · next ht =>
      exact ⟨etup, _, rfl, helement, by simp, by simp,
        HnswElementTuple.isEmptied_removeHeapTids, fun hne => absurd ht hne⟩
    · exact ⟨etup, etup, rfl, helement, rfl, rfl, id, fun _ => rfl⟩

theorem removeHeapTidsOnPage_net {callback : ItemPointer → Bool} {reply : RemoveHeapTidsReply}
    (h : removeHeapTidsOnPage index blkno callback = some (reply, index')) :
    index'.net = { index.net with emptied := index'.net.emptied } ∧
      index.net.emptied ⊆ index'.net.emptied ∧
      index'.net.emptied ⊆ index.net.present ∧
      (∀ t ∈ index'.net.emptied, t.blkno ≠ blkno → t ∈ index.net.emptied) ∧
      Evolves index index' := by
  have hpages := (removeHeapTidsOnPage_eq_some h).2.1
  have hneighbor := (removeHeapTidsOnPage_tuples h).2
  have helements := removeHeapTidsOnPage_elements h
  have hsame : ∀ t (P : ItemPointer → Bool → Prop),
      ((∃ e, index'.element? t = some e ∧ P e.neighbortid e.deleted) ↔
        ∃ e, index.element? t = some e ∧ P e.neighbortid e.deleted) := by
    intro t P
    rcases helements t with ⟨hnone, hnone'⟩ | ⟨e, e', he, he', hntid, hdeleted, -⟩
    · simp [hnone, hnone']
    · simp [he, he', hntid, hdeleted]
  refine ⟨?_, ?_, ?_, ?_, ?_⟩
  · simp only [net, hneighbor, hpages.metapage, Net.mk.injEq, true_and, and_true]
    refine ⟨?_, ?_, ?_⟩
    · ext t
      simpa using hsame t (fun _ _ => True)
    · ext t
      exact hsame t (fun _ deleted => deleted = true)
    · funext t
      ext n
      simpa using hsame t (fun ntid _ => ∃ ntup, index.neighbor? ntid = some ntup ∧ n ∈ ntup.named)
  · rintro t ⟨e₁, he₁, hempty⟩
    rcases helements t with ⟨hnone, -⟩ | ⟨e, e', he, he', -, -, hempty', -⟩
    · simp [hnone] at he₁
    · obtain rfl := Option.some.inj (he₁.symm.trans he)
      exact ⟨e', he', hempty' hempty⟩
  · rintro t ⟨e₁, he₁, -⟩
    rcases helements t with ⟨-, hnone⟩ | ⟨e, -, he, -⟩
    · simp [hnone] at he₁
    · exact ⟨e, he⟩
  · rintro t ⟨e₁, he₁, hempty⟩ ht
    rcases helements t with ⟨-, hnone⟩ | ⟨e, e', he, he', -, -, -, hsame⟩
    · simp [hnone] at he₁
    · obtain rfl := Option.some.inj (he₁.symm.trans he')
      obtain rfl := hsame ht
      exact ⟨e₁, he, hempty⟩
  · refine .of_elements hpages (fun t => ?_) fun t ht => by rwa [hneighbor]
    rcases helements t with ⟨hnone, hnone'⟩ | ⟨e, e', he, he', hntid, -⟩
    · simp [hnone, hnone']
    · simp [he, he', hntid]

theorem markDeletedAt_there (hwf : index.WellFormed) (tid : ItemPointer) :
    (markDeletedAt index tid).1 ≠ .missing := by
  unfold markDeletedAt
  split
  · simp
  · next etup hetup =>
    obtain ⟨ntup, hntup⟩ := hwf.neighbortid hetup
    rw [hntup]
    repeat' split
    all_goals simp_all

theorem markDeletedAt_net (hwf : index.WellFormed) (tid : ItemPointer) :
    (markDeletedAt index tid).2 = index ∨
      (tid ∈ index.net.emptied ∧
        (markDeletedAt index tid).2.net = index.net.delete tid ∧
        Evolves index (markDeletedAt index tid).2) := by
  rcases markDeletedAt_cases index tid with h | ⟨size, etup, hitem, -, hempty, hitem', hpages⟩
  · exact .inl h
  · right
    have hetup := element?_of_item? hitem
    refine ⟨⟨etup, hetup, hempty⟩, ?_⟩
    obtain ⟨ntup, hntup⟩ := hwf.neighbortid hetup
    obtain ⟨nsize, hnitem⟩ := item?_of_neighbor? hntup
    have hupdate := hitem' nsize ntup hnitem
    generalize (markDeletedAt index tid).2 = index' at hpages hupdate
    have hwritten : BothWritten index index' tid etup.markDeleted
        (ntup.markDeleted etup.markDeleted.version) := .again hwf hetup rfl hupdate
    refine ⟨?_, hwritten.evolves hpages⟩
    have hwiped : (ntup.markDeleted etup.markDeleted.version).named = ∅ := by
      ext n
      simp only [HnswNeighborTuple.named, HnswNeighborTuple.markDeleted, List.mem_map,
        Set.mem_ofPred_eq, Set.mem_empty_iff_false, iff_false]
      rintro ⟨⟨_, -, rfl⟩, hvalid⟩
      cases hvalid
    have hnames := hwritten.names
    rw [hwiped] at hnames
    have hpresent : index'.net.present = index.net.present := by
      ext t
      by_cases ht : t = tid
      · simp [net, hwritten.element, ht, hetup]
      · simp [net, hwritten.element, ht]
    have hemptied : index'.net.emptied = index.net.emptied := by
      ext t
      by_cases ht : t = tid
      · simp only [net, hwritten.element, ht, hetup, Function.update_self, Set.mem_ofPred_eq,
          Option.some.injEq, exists_eq_left']
        exact Iff.rfl
      · simp [net, hwritten.element, ht]
    have hdeleted : index'.net.deleted = insert tid index.net.deleted := by
      ext t
      by_cases ht : t = tid
      · simp [net, hwritten.element, ht, HnswElementTuple.markDeleted]
      · simp [net, hwritten.element, ht]
    have hentry : index'.net.entry = index.net.entry := by
      simp [net, hpages.metapage]
    rw [Net.delete, ← hnames, ← hpresent, ← hemptied, ← hdeleted, ← hentry]

theorem BothWritten.place (h : BothWritten index index' tid new ntup)
    (hnonempty : new.isEmptied = false) (hlive : new.deleted = false)
    (hpages : KeepsPages index index') :
    Evolves index index' ∧ index'.net = index.net.place tid ntup.named ∧
      index'.element? tid = some new := by
  have helement := h.element
  refine ⟨h.evolves hpages, ?_, by rw [helement, Function.update_self]⟩
  have hnames := h.names
  have hpresent : index'.net.present = insert tid index.net.present := by
    ext t
    by_cases ht : t = tid
    · simp [net, helement, ht]
    · simp [net, helement, ht]
  have hemptied : index'.net.emptied = index.net.emptied \ {tid} := by
    ext t
    by_cases ht : t = tid
    · simp [net, helement, ht, hnonempty]
    · simp [net, helement, ht]
  have hdeleted : index'.net.deleted = index.net.deleted \ {tid} := by
    ext t
    by_cases ht : t = tid
    · simp [net, helement, ht, hlive]
    · simp [net, helement, ht]
  have hentry : index'.net.entry = index.net.entry := by
    simp [net, hpages.metapage]
  rw [Net.place, ← hnames, ← hpresent, ← hemptied, ← hdeleted, ← hentry]

def PlacedTuples (index : HnswIndex V) (r : AddElementRequest V) (tid : ItemPointer)
    (new : HnswElementTuple V) (ntup : HnswNeighborTuple) : Prop :=
  (index.item? tid = none ∧ new = { r.etup with neighbortid := new.neighbortid } ∧ ntup = r.ntup) ∨
  ∃ old, index.element? tid = some old ∧ old.deleted = true ∧
    new = { r.etup with version := old.version, neighbortid := old.neighbortid } ∧
    ntup = { r.ntup with version := old.version }

theorem Placed.tuples {reply : AddElementReply} (h : Placed index r reply index')
    (hwf : index.WellFormed) :
    (∃ e, reply = .failed e ∧ index'.element? = index.element? ∧
      index'.neighbor? = index.neighbor?) ∨
    ∃ tid new ntup p, reply = .placed tid new.neighbortid p ∧
      BothWritten index index' tid new ntup ∧ PlacedTuples index r tid new ntup := by
  cases h with
  | failed e hitem =>
    refine .inl ⟨e, rfl, ?_, ?_⟩
    · funext t
      exact element?_congr (congrFun hitem t)
    · funext t
      exact neighbor?_congr (congrFun hitem t)
  | fresh tid neighbortid p hfree hnfree hne _ _ hitem =>
    have hnone : index.element? tid = none := by
      simp [element?, tuple?_eq, hfree]
    obtain ⟨helement, hneighbor⟩ := both_written
      { r.etup with neighbortid := neighbortid } hne.symm
      (by simp [element?, tuple?_eq, hnfree]) (by simp [neighbor?, tuple?_eq, hfree]) hitem
    refine .inr ⟨tid, { r.etup with neighbortid := neighbortid }, r.ntup, p, rfl,
      ⟨helement, hneighbor, by simp [hnone], ?_⟩, .inl ⟨hfree, rfl, rfl⟩⟩
    intro t e he _ heq
    obtain ⟨ntup, hntup⟩ := hwf.neighbortid he
    obtain ⟨size, hsome⟩ := item?_of_neighbor? hntup
    rw [heq, hnfree] at hsome
    cases hsome
  | reused tid p size old hold hdeleted _ hitem =>
    have hetup := element?_of_item? hold
    exact .inr ⟨tid,
      { r.etup with version := old.version, neighbortid := old.neighbortid },
      { r.ntup with version := old.version }, p, rfl, .again hwf hetup rfl hitem,
      .inr ⟨old, hetup, hdeleted, rfl, rfl⟩⟩

theorem PlacedTuples.named {tid : ItemPointer} (h : PlacedTuples index r tid new ntup) :
    ntup.named = r.ntup.named ∧ new.isEmptied = r.etup.isEmptied ∧
      new.deleted = r.etup.deleted := by
  rcases h with ⟨-, hnew, rfl⟩ | ⟨old, -, -, rfl, rfl⟩
  · rw [hnew]
    exact ⟨rfl, rfl, rfl⟩
  · exact ⟨rfl, rfl, rfl⟩

theorem Placed.net {reply : AddElementReply} (h : Placed index r reply index')
    (hpages : KeepsPages index index') (hwf : index.WellFormed)
    (hnonempty : r.etup.isEmptied = false) (hlive : r.etup.deleted = false) :
    Evolves index index' ∧
      ((∃ e, reply = .failed e ∧ index'.net = index.net) ∨
        ∃ t p etup, reply = .placed t etup.neighbortid p ∧
          index'.net = index.net.place t r.ntup.named ∧ index'.element? t = some etup) := by
  rcases h.tuples hwf with ⟨e, rfl, helement, hneighbor⟩ |
    ⟨tid, new, ntup, p, rfl, hwritten, htuples⟩
  · refine ⟨.of_elements hpages (by simp [helement]) (by simp [hneighbor]), .inl ⟨e, rfl, ?_⟩⟩
    simp only [HnswIndex.net, helement, hneighbor, hpages.metapage]
  · obtain ⟨hnamed, hempty, hdeleted⟩ := htuples.named
    obtain ⟨hevolves, hnet, hetup⟩ := hwritten.place (hempty.trans hnonempty)
      (hdeleted.trans hlive) hpages
    rw [hnamed] at hnet
    exact ⟨hevolves, .inr ⟨tid, p, new, rfl, hnet, hetup⟩⟩

theorem addElementOnPage_net (r : AddElementRequest V) (blkno : BlockNumber)
    (newInsertPage : Option BlockNumber) (hwf : index.WellFormed)
    (hnonempty : r.etup.isEmptied = false) (hlive : r.etup.deleted = false) :
    Evolves index (addElementOnPage index r blkno newInsertPage).2 ∧
      (((∀ t nt p, (addElementOnPage index r blkno newInsertPage).1 ≠ .placed t nt p) ∧
        (addElementOnPage index r blkno newInsertPage).2.net = index.net) ∨
      ∃ t p etup,
        (addElementOnPage index r blkno newInsertPage).1 = .placed t etup.neighbortid p ∧
        (addElementOnPage index r blkno newInsertPage).2.net = index.net.place t r.ntup.named ∧
        (addElementOnPage index r blkno newInsertPage).2.element? t = some etup) := by
  rcases addElementOnPage_cases index r blkno newInsertPage with
    ⟨hsame, _, next, ip, _, _, hreply⟩ | ⟨hplaced, hpages⟩
  · rw [hsame]
    refine ⟨.refl index, .inl ⟨?_, rfl⟩⟩
    intro t nt p h
    rw [hreply] at h
    cases h
  · obtain ⟨hevolves, ⟨e, hreply, hnet⟩ | hplaced⟩ := hplaced.net hpages hwf hnonempty hlive
    · refine ⟨hevolves, .inl ⟨?_, hnet⟩⟩
      intro t nt p h
      rw [hreply] at h
      cases h
    · exact ⟨hevolves, .inr hplaced⟩

theorem addNewElement_failed {blkno nblkno : BlockNumber} {newInsertPage : Option BlockNumber}
    {e : HnswError} (h : (addNewElement index r blkno nblkno newInsertPage).1 = .failed e) :
    e = .failedToAddIndexItem := by
  unfold addNewElement at h
  dsimp only at h
  repeat' split at h
  all_goals cases h
  all_goals rfl

/-- Every element has its neighbors, so the space check finds what it reads. -/
theorem addElementOnPage_failed (hwf : index.WellFormed) {blkno : BlockNumber}
    {newInsertPage : Option BlockNumber} {e : HnswError}
    (h : (addElementOnPage index r blkno newInsertPage).1 = .failed e) :
    e = .failedToAddIndexItem := by
  unfold addElementOnPage at h
  dsimp only at h
  split at h
  · cases h
    rfl
  · next page hpage =>
    split at h
    · exact addNewElement_failed h
    · split at h
      · next free after hfree =>
        obtain ⟨size, etup, hitem, -, hneighbor, -⟩ := hnswFreeOffset_eq_some hfree
        have hetup : index.element? ⟨blkno, free.freeOffno⟩ = some etup :=
          element?_of_item? (item?_eq_some.mpr ⟨page, hpage, hitem⟩)
        obtain ⟨ntup, hntup⟩ := hwf.neighbortid hetup
        unfold reuseElement at h
        rw [hneighbor, hntup, if_neg (by simp)] at h
        dsimp only at h
        repeat' split at h
        all_goals cases h
        all_goals rfl
      · repeat' split at h
        all_goals first
          | exact addNewElement_failed h
          | cases h

theorem hnswUpdateMetaPageInfo_eq (metap : HnswMetaPage) (updateEntry : UpdateEntry)
    (entryPoint : Option EntryPoint) (insertPage : Option BlockNumber) :
    ∃ entry, ((updateEntry ≠ .always ∧ entry = metap.entryPoint) ∨
        (updateEntry ≠ .no ∧ entry = entryPoint)) ∧
      hnswUpdateMetaPageInfo metap updateEntry entryPoint insertPage =
        { metap with
          entryPoint := entry
          insertPage := insertPage.or metap.insertPage } := by
  cases updateEntry with
  | no =>
    refine ⟨metap.entryPoint, .inl ⟨by simp, rfl⟩, ?_⟩
    cases insertPage <;> rfl
  | always =>
    refine ⟨entryPoint, .inr ⟨by simp, rfl⟩, ?_⟩
    cases entryPoint <;> cases insertPage <;> rfl
  | greater =>
    cases entryPoint with
    | none =>
      refine ⟨none, .inr ⟨by simp, rfl⟩, ?_⟩
      cases insertPage <;> rfl
    | some e =>
      cases hold : metap.entryPoint with
      | none =>
        refine ⟨some e, .inr ⟨by simp, rfl⟩, ?_⟩
        cases insertPage <;> simp [hnswUpdateMetaPageInfo, hold]
      | some old =>
        by_cases hlevel : old.level < e.level
        · refine ⟨some e, .inr ⟨by simp, rfl⟩, ?_⟩
          cases insertPage <;> simp [hnswUpdateMetaPageInfo, hold, hlevel]
        · refine ⟨some old, .inl ⟨by simp, rfl⟩, ?_⟩
          obtain ⟨magicNumber, m, _, _⟩ := metap
          subst hold
          cases insertPage <;> simp [hnswUpdateMetaPageInfo, hlevel]

theorem updateMetaPage_net (index : HnswIndex V) (updateEntry : UpdateEntry)
    (entryPoint : Option EntryPoint) (insertPage : Option BlockNumber) :
    Evolves index { index with
        metapage := hnswUpdateMetaPageInfo index.metapage updateEntry entryPoint
          insertPage } ∧
      ((updateEntry ≠ .always ∧
          HnswIndex.net { index with
            metapage := hnswUpdateMetaPageInfo index.metapage updateEntry entryPoint
              insertPage } = index.net) ∨
        (updateEntry ≠ .no ∧
          HnswIndex.net { index with
              metapage := hnswUpdateMetaPageInfo index.metapage updateEntry entryPoint
                insertPage } =
            index.net.setEntry (entryPoint.map EntryPoint.tid))) := by
  obtain ⟨entry, hentry, heq⟩ :=
    hnswUpdateMetaPageInfo_eq index.metapage updateEntry entryPoint insertPage
  rw [heq]
  refine ⟨⟨?_, Nat.le_refl _, fun he => ⟨_, he, rfl⟩⟩, ?_⟩
  · intro hwf
    refine ⟨hwf.magicNumber, ?_, hwf.chained, hwf.head, hwf.neighbortid, hwf.distinct⟩
    cases insertPage with
    | none => exact hwf.insertPage
    | some blkno => rfl
  · rcases hentry with ⟨hne, rfl⟩ | ⟨hne, rfl⟩
    · exact .inl ⟨hne, rfl⟩
    · exact .inr ⟨hne, rfl⟩

end Write

end PgVector.Hnsw
