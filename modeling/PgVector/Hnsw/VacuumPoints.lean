import PgVector.Foundation.History
import PgVector.Hnsw.Links
import PgVector.Hnsw.Vacuum

/-!
# The two highest elements that a vacuum keeps

`RemoveHeapTids` notes the highest live element it meets and a fallback in one pass
over the pages.  The pass is followed through its history, with the state of the
server at each of its instructions.
-/

namespace PgVector.Hnsw

open Foundation

/-! ## Two running maxima -/

def HighestOf (rest : List EntryPoint) : Option EntryPoint → Prop
  | none => rest = []
  | some point => point ∈ rest ∧ ∀ e ∈ rest, e.level ≤ point.level

/--
The highest point is the first entry of the highest level, and the fallback point is
one of the highest level among the others.
-/
def VacuumState.TwoHighest (live : List EntryPoint) (st : VacuumState) : Prop :=
  match st.highestPoint with
  | none => live = [] ∧ st.fallbackPoint = none
  | some point => ∃ before after, live = before ++ point :: after ∧
      (∀ e ∈ before, e.level < point.level) ∧ (∀ e ∈ after, e.level ≤ point.level) ∧
      HighestOf (before ++ after) st.fallbackPoint

def higherOf (point : EntryPoint) : Option EntryPoint → Option EntryPoint
  | none => some point
  | some f => if f.level < point.level then some point else some f

theorem HighestOf.concat {rest : List EntryPoint} {fallback : Option EntryPoint}
    (h : HighestOf rest fallback) (point : EntryPoint) :
    HighestOf (rest ++ [point]) (higherOf point fallback) := by
  cases fallback with
  | none =>
    have hrest : rest = [] := h
    simp [HighestOf, higherOf, hrest]
  | some f =>
    obtain ⟨hmem, hle⟩ := h
    by_cases hlt : f.level < point.level
    · rw [higherOf, if_pos hlt]
      refine ⟨by simp, ?_⟩
      intro e he
      rcases List.mem_append.mp he with he | he
      · exact (hle e he).trans hlt.le
      · rw [List.mem_singleton.mp he]
    · rw [higherOf, if_neg hlt]
      refine ⟨by simp [hmem], ?_⟩
      intro e he
      rcases List.mem_append.mp he with he | he
      · exact hle e he
      · rw [List.mem_singleton.mp he]
        exact not_lt.mp hlt

theorem VacuumState.TwoHighest.notePoint {live : List EntryPoint} {st : VacuumState}
    (h : st.TwoHighest live) (point : EntryPoint) :
    (st.notePoint point).TwoHighest (live ++ [point]) := by
  rcases st with ⟨deleted, _ | highest, fallback⟩
  · obtain ⟨rfl, rfl⟩ : live = [] ∧ fallback = none := h
    exact ⟨[], [], rfl, by simp, by simp, rfl⟩
  · obtain ⟨before, after, rfl, hbefore, hafter, hrest⟩ := h
    by_cases hlevel : highest.level < point.level
    · simp only [VacuumState.notePoint, if_pos hlevel]
      have hle : ∀ e ∈ before ++ highest :: after, e.level ≤ highest.level := by
        intro e he
        rcases List.mem_append.mp he with he | he
        · exact (hbefore e he).le
        · rcases List.mem_cons.mp he with rfl | he
          · exact le_rfl
          · exact hafter e he
      exact ⟨_, [], rfl, fun e he => (hle e he).trans_lt hlevel, by simp,
        by simp, by simpa using hle⟩
    · have hafter' : ∀ e ∈ after ++ [point], e.level ≤ highest.level := by
        intro e he
        rcases List.mem_append.mp he with he | he
        · exact hafter e he
        · rw [List.mem_singleton.mp he]
          exact not_lt.mp hlevel
      have hnote : (VacuumState.mk deleted (some highest) fallback).notePoint point =
          ⟨deleted, some highest, higherOf point fallback⟩ := by
        cases fallback with
        | none => simp [VacuumState.notePoint, hlevel, higherOf]
        | some f =>
          simp only [VacuumState.notePoint, if_neg hlevel, higherOf]
          split <;> rfl
      rw [hnote]
      exact ⟨before, after ++ [point], by simp, hbefore, hafter',
        by simpa using hrest.concat point⟩

/-! ## What the pass meets -/

section Pass

variable {V : Type} (callback : ItemPointer → Bool)

def HnswElementTuple.keepsTid (etup : HnswElementTuple V) : Bool :=
  etup.liveTids.any fun tid => !callback tid

def livePoints (blkno : BlockNumber) (page : Page (IndexTuple V)) : List EntryPoint :=
  (page.elements.filter fun e => e.2.keepsTid callback).map fun e =>
    ⟨⟨blkno, e.1⟩, e.2.level⟩

/-- What a pass along this history meets, from the pages as they are at each moment. -/
def metLive (history : List (Moment (hnswSignature V) (Shared V))) : List EntryPoint :=
  history.flatMap fun m =>
    match m.op with
    | .removeHeapTids blkno _ =>
      ((m.mark.index.page? blkno).map (livePoints callback blkno)).getD []
    | _ => []

variable {callback}

theorem elements_removeHeapTids (page : Page (IndexTuple V)) :
    Page.elements { page with items := page.items.map (removeHeapTidsItem callback) } =
      page.elements.map fun e => (e.1, e.2.removeHeapTids callback) := by
  simp only [Page.elements, List.zipIdx_map, List.filterMap_map, List.map_filterMap]
  congr 1
  funext p
  obtain ⟨⟨size, tuple⟩, offno⟩ := p
  cases tuple <;> rfl

theorem isEmptied_removeHeapTids_eq (etup : HnswElementTuple V) :
    (etup.removeHeapTids callback).isEmptied = !etup.keepsTid callback := by
  rw [HnswElementTuple.isEmptied, HnswElementTuple.liveTids_removeHeapTids,
    HnswElementTuple.keepsTid]
  induction etup.liveTids with
  | nil => rfl
  | cons tid tids ih => cases h : callback tid <;> simp_all

theorem level_removeHeapTids (etup : HnswElementTuple V) :
    (etup.removeHeapTids callback).level = etup.level := by
  unfold HnswElementTuple.removeHeapTids
  split <;> rfl

variable (callback) in
theorem VacuumState.TwoHighest.visit {live : List EntryPoint} {st : VacuumState}
    (h : st.TwoHighest live) (blkno : BlockNumber) (offno : OffsetNumber)
    (etup : HnswElementTuple V) :
    (VacuumState.visit blkno st ⟨offno, (etup.removeHeapTids callback).level,
        (etup.removeHeapTids callback).isEmptied⟩).TwoHighest
      (live ++ if etup.keepsTid callback then [⟨⟨blkno, offno⟩, etup.level⟩] else []) := by
  simp only [VacuumState.visit, isEmptied_removeHeapTids_eq, level_removeHeapTids]
  cases etup.keepsTid callback with
  | false => simpa [VacuumState.TwoHighest] using h
  | true => simpa using h.notePoint ⟨⟨blkno, offno⟩, etup.level⟩

variable (callback) in
theorem VacuumState.TwoHighest.page {live : List EntryPoint} {st : VacuumState}
    (h : st.TwoHighest live) (blkno : BlockNumber) (page : Page (IndexTuple V)) :
    ((page.elements.map fun e => (⟨e.1, (e.2.removeHeapTids callback).level,
        (e.2.removeHeapTids callback).isEmptied⟩ : VisitedElement)).foldl
      (VacuumState.visit blkno) st).TwoHighest (live ++ livePoints callback blkno page) := by
  unfold livePoints
  induction page.elements generalizing live st with
  | nil => simpa using h
  | cons e elements ih =>
    have hrest := ih (h.visit callback blkno e.1 e.2)
    rw [List.map_cons, List.foldl_cons, List.filter_cons]
    cases hkeeps : e.2.keepsTid callback with
    | false => simpa [hkeeps] using hrest
    | true => simpa [hkeeps] using hrest

theorem removeHeapTids_twoHighest {self : ThreadId} {fuel : Nat} {blkno : BlockNumber}
    {history : List (Moment (hnswSignature V) (Shared V))} {live : List EntryPoint}
    {st st' : VacuumState}
    (hfollows : (removeHeapTids callback fuel blkno st).Follows history st')
    (hreplies : ∀ m ∈ history, ∃ s, hnswHandler self m.op m.mark = some (m.reply, s))
    (h : st.TwoHighest live) : st'.TwoHighest (live ++ metLive callback history) := by
  induction fuel generalizing blkno history live st with
  | zero => cases hfollows
  | succ fuel ih =>
    obtain ⟨reply, s, rest, rfl, hrest⟩ := Program.follows_perform_iff.mp hfollows
    obtain ⟨s', hreply⟩ := hreplies _ (List.mem_cons_self ..)
    cases reply with
    | none => cases hrest
    | some reply =>
      simp only [hnswHandler, removeHeapTidsOnPage] at hreply
      cases hpage : s.index.page? blkno with
      | none => simp [hpage] at hreply
      | some page =>
        simp only [hpage, Option.some.injEq, Prod.mk.injEq] at hreply
        have hvisited : reply.visited = page.elements.map fun e =>
            ⟨e.1, (e.2.removeHeapTids callback).level,
              (e.2.removeHeapTids callback).isEmptied⟩ := by
          rw [← hreply.1, elements_removeHeapTids, List.map_map]
          rfl
        have hmet : metLive callback
            (⟨.removeHeapTids blkno callback, some reply, s⟩ :: rest) =
              livePoints callback blkno page ++ metLive callback rest := by
          simp [metLive, hpage]
        have hpoints := h.page callback blkno page
        rw [← hvisited] at hpoints
        rw [hmet, ← List.append_assoc]
        dsimp only at hrest
        cases hnext : reply.nextblkno with
        | none =>
          rw [hnext] at hrest
          obtain ⟨rfl, rfl⟩ := Program.follows_ret_iff.mp hrest
          simpa [metLive] using hpoints
        | some next =>
          rw [hnext] at hrest
          exact ih hrest (fun m hm => hreplies m (.tail _ hm)) hpoints

/--
In every history of the pass, from the head page to the end of the chain, the two
points are kept.  They are different elements if no page is met twice.
-/
theorem highest_and_fallback_kept (self : ThreadId) {fuel : Nat}
    {history : List (Moment (hnswSignature V) (Shared V))} {st : VacuumState}
    (hfollows : (removeHeapTids callback fuel hnswHeadBlkno .start).Follows history st)
    (hreplies : ∀ m ∈ history, ∃ s, hnswHandler self m.op m.mark = some (m.reply, s)) :
    st.TwoHighest (metLive callback history) ∧
      (((metLive callback history).map EntryPoint.tid).Nodup →
        ∀ highest ∈ st.highestPoint, ∀ fallback ∈ st.fallbackPoint,
          highest.tid ≠ fallback.tid) := by
  have hstart : VacuumState.start.TwoHighest [] := ⟨rfl, rfl⟩
  have h := removeHeapTids_twoHighest hfollows hreplies hstart
  rw [List.nil_append] at h
  refine ⟨h, fun hnodup highest hhighest fallback hfallback heq => ?_⟩
  rw [VacuumState.TwoHighest, hhighest, hfallback] at h
  obtain ⟨before, after, hlive, -, -, hmem, -⟩ := h
  rw [hlive, List.map_append, List.map_cons, List.nodup_middle, ← List.map_append,
    List.nodup_cons] at hnodup
  exact hnodup.1 (heq ▸ List.mem_map_of_mem hmem)

def fourLevels : Shared Nat where
  index :=
    { metapage := ⟨hnswMagicNumber, 2, none, some 1⟩
      pages :=
        [{ items :=
             [⟨80, .element (hnswSetElementTuple 0 1 [⟨0, 1⟩] 5 ⟨1, 5⟩)⟩,
               ⟨80, .element (hnswSetElementTuple 2 1 [⟨0, 2⟩] 6 ⟨1, 6⟩)⟩,
               ⟨80, .element (hnswSetElementTuple 2 1 [⟨0, 3⟩] 7 ⟨1, 7⟩)⟩,
               ⟨80, .element (hnswSetElementTuple 1 1 [⟨0, 4⟩] 8 ⟨1, 8⟩)⟩]
           nextblkno := none }] }
  locks := []
  env := fun _ => default
  observed := 0
  queryCounter := 0
  log := fun _ => []

theorem highest_and_fallback_kept_four :
    ∃ history, ∃ st : VacuumState, st.highestPoint = some ⟨⟨1, 3⟩, 2⟩ ∧
      st.fallbackPoint = some ⟨⟨1, 4⟩, 1⟩ ∧
      st.TwoHighest (metLive (V := Nat) (fun tid => tid == ⟨0, 2⟩) history) := by
  refine ⟨(removeHeapTids (fun tid => tid == ⟨0, 2⟩) 2 1 .start).history (hnswHandler 0) id
    fourLevels, ⟨[⟨1, 2⟩], some ⟨⟨1, 3⟩, 2⟩, some ⟨⟨1, 4⟩, 1⟩⟩, rfl, rfl, ?_⟩
  refine (highest_and_fallback_kept 0 (Program.follows_history rfl) ?_).1
  intro m hm
  obtain ⟨s, s', hexec, hmark⟩ := Program.mem_history hm
  exact ⟨s', by rw [hmark]; exact hexec⟩

end Pass

end PgVector.Hnsw
