import Mathlib.Data.List.Nodup
import PgVector.Foundation.Log
import PgVector.Ivfflat.Concurrent

/-!
# An insert and a vacuum that set the same insert page

One insert and one vacuum take turns on an index, and every instruction is logged
with the index it found.  What the insert page of a list is in the end follows from
the calls of `IvfflatUpdateList` in the log; which calls the two programs make
follows from the programs.
-/

namespace PgVector.Ivfflat

open Foundation
open Hnsw (BlockNumber OffsetNumber ItemPointer Page Item firstOffsetNumber)

abbrev IvfflatEvent (V : Type) := LogEntry (ivfflatSignature V) (IvfflatIndex V)

abbrev LoggedIndex (V : Type) := Logged (ivfflatSignature V) (IvfflatIndex V)

section Events

variable {V : Type}

def IvfflatOp.updatedList? : IvfflatOp V → Option ListInfo
  | .updateList info _ _ _ => some info
  | _ => none

def IvfflatOp.isPlacement : IvfflatOp V → Bool
  | .insertOnPage _ _ _ => true
  | _ => false

def HasRoom (index : IvfflatIndex V) : IvfflatOp V → Prop
  | .insertOnPage blkno _ itemsz =>
    ∃ page, index.entryPage? blkno = some page ∧ itemsz ≤ page.freeSpace
  | _ => False

/-- `IvfflatUpdateList`, for the insert page only. -/
def updatedInsertPage (current insertPage originalInsertPage : Option BlockNumber) :
    Option BlockNumber :=
  match insertPage with
  | none => current
  | some blkno =>
    if current ≠ some blkno ∧ originalInsertPage.all (· ≤ blkno) then some blkno
    else current

def IvfflatOp.setInsertPage (info : ListInfo) (current : Option BlockNumber) :
    IvfflatOp V → Option BlockNumber
  | .updateList info' insertPage originalInsertPage _ =>
    if info' = info then updatedInsertPage current insertPage originalInsertPage
    else current
  | _ => current

def insertPageAfter (info : ListInfo) (start : Option BlockNumber)
    (log : List (IvfflatEvent V)) : Option BlockNumber :=
  log.foldl (fun current e => e.op.setInsertPage info current) start

theorem insertPage_update (list : IvfflatList V)
    (insertPage originalInsertPage startPage : Option BlockNumber) :
    (list.update insertPage originalInsertPage startPage).insertPage =
      updatedInsertPage list.insertPage insertPage originalInsertPage := by
  have hstart : ∀ list' : IvfflatList V, (match startPage with
      | none => list'
      | some blkno => { list' with startPage := some blkno }).insertPage =
        list'.insertPage := by
    intro list'
    cases startPage with
    | none => rfl
    | some blkno => rfl
  refine (hstart _).trans ?_
  unfold updatedInsertPage
  cases insertPage with
  | none => rfl
  | some blkno =>
    dsimp only
    split
    · rfl
    · rfl

theorem updatedInsertPage_none (current : Option BlockNumber) (blkno : BlockNumber) :
    updatedInsertPage current (some blkno) none = some blkno := by
  by_cases h : current = some blkno
  · simp [updatedInsertPage, h]
  · simp [updatedInsertPage, h]

theorem setInsertPage_of_ne {info : ListInfo} {o : IvfflatOp V}
    (h : o.updatedList? ≠ some info) (current : Option BlockNumber) :
    o.setInsertPage info current = current := by
  cases o with
  | updateList info' _ _ _ =>
    refine if_neg fun heq => h ?_
    exact congrArg some heq
  | _ => rfl

theorem insertPageAfter_filter (info : ListInfo) (start : Option BlockNumber)
    (log : List (IvfflatEvent V)) :
    insertPageAfter info start (log.filter fun e => e.op.updatedList? == some info) =
      insertPageAfter info start log := by
  induction log generalizing start with
  | nil => rfl
  | cons e log ih =>
    by_cases he : e.op.updatedList? = some info
    · simp only [insertPageAfter] at ih ⊢
      simp [he, ih]
    · simp only [insertPageAfter] at ih ⊢
      simp [he, ih, setInsertPage_of_ne he]

end Events

/-! ## What every instruction preserves -/

section Invariant

variable {V : Type} {index : IvfflatIndex V} {x : LoggedIndex V}

structure Race (index : IvfflatIndex V) (x : LoggedIndex V) : Prop where
  entries : ∀ b b', x.state.entryNext b = some (some b') → b < b'
  lists : ∀ b b', x.state.listNext b = some (some b') → b < b'
  insertPages : ∀ info, (x.state.list? info).map IvfflatList.insertPage =
    (index.list? info).map fun list => insertPageAfter info list.insertPage x.log

theorem WellFormed.race {chains : ListInfo → List BlockNumber} (h : WellFormed index chains) :
    Race index (Logged.start index) where
  entries := by
    intro b b' hnext
    obtain ⟨info, hmem⟩ := h.covers b _ hnext
    exact h.laid.linked.lt_of_next hmem hnext
  lists := by
    intro b b' hnext
    obtain ⟨blocks, hchain, hsorted, hall⟩ := h.lists
    exact hchain.lt_of_next hsorted (hall b _ hnext) hnext
  insertPages := fun _ => rfl

theorem Race.of_same_lists (hx : Race index x) {i : Nat} {o : IvfflatOp V} {r : o.Res}
    {s : IvfflatIndex V} (hupdate : o.updatedList? = none)
    (hlists : s.listPage? = x.state.listPage?)
    (hentries : ∀ b b', s.entryNext b = some (some b') → b < b') :
    Race index (x.next i o r s) where
  entries := hentries
  lists := by
    intro b b' hnext
    change s.listNext b = _ at hnext
    rw [IvfflatIndex.listNext, hlists] at hnext
    exact hx.lists b b' hnext
  insertPages := by
    intro info
    have hsame : ∀ current, o.setInsertPage info current = current :=
      setInsertPage_of_ne (by simp [hupdate])
    simp only [Logged.next, insertPageAfter, List.foldl_append, List.foldl_cons,
      List.foldl_nil, hsame]
    rw [IvfflatIndex.list?_congr hlists]
    exact hx.insertPages info

theorem Race.next_updateList (hx : Race index x) (i : Nat) {info : ListInfo}
    {insertPage originalInsertPage startPage : Option BlockNumber} {r : Bool}
    {s : IvfflatIndex V}
    (hexec : ivfflatHandler (.updateList info insertPage originalInsertPage startPage)
      x.state = some (r, s)) :
    Race index (x.next i (.updateList info insertPage originalInsertPage startPage) r s) := by
  rcases hlist : x.state.list? info with _ | list
  · -- there is no such list, nor was there one at the start
    have hnone : ivfflatUpdateList x.state info insertPage originalInsertPage startPage = none := by
      unfold ivfflatUpdateList
      split
      · rfl
      · next page hpage =>
        have htuple : page.tuple? info.offno = none := by
          simpa [IvfflatIndex.list?, hpage] using hlist
        rw [htuple]
    obtain ⟨-, rfl⟩ : r = false ∧ s = x.state := by
      simpa [ivfflatHandler, hnone, eq_comm] using hexec
    refine ⟨hx.entries, hx.lists, ?_⟩
    intro info'
    by_cases hinfo : info' = info
    · subst hinfo
      have hstart := hx.insertPages info'
      rw [hlist, Option.map_none, eq_comm, Option.map_eq_none_iff] at hstart
      change (x.state.list? info').map _ = _
      rw [hlist, hstart]
      rfl
    · have hsame : ∀ current, (IvfflatOp.updateList (V := V) info insertPage
          originalInsertPage startPage).setInsertPage info' current = current :=
        setInsertPage_of_ne (by simp [IvfflatOp.updatedList?, Ne.symm hinfo])
      simp only [Logged.next, insertPageAfter, List.foldl_append, List.foldl_cons,
        List.foldl_nil, hsame]
      exact hx.insertPages info'
  · obtain ⟨s', hupdate, hlinks, -, hnext, -, hlist'⟩ :=
      ivfflatUpdateList_eq_some hlist insertPage originalInsertPage startPage
    obtain ⟨-, rfl⟩ : r = true ∧ s = s' := by
      simpa [ivfflatHandler, hupdate, eq_comm] using hexec
    constructor
    · intro b b' hb
      change s.entryNext b = _ at hb
      rw [hlinks] at hb
      exact hx.entries b b' hb
    · intro b b' hb
      change s.listNext b = _ at hb
      rw [hnext] at hb
      exact hx.lists b b' hb
    · intro info'
      have hbefore := hx.insertPages info'
      simp only [Logged.next, insertPageAfter, List.foldl_append, List.foldl_cons, List.foldl_nil]
      by_cases hinfo : info' = info
      · subst hinfo
        rw [hlist, Option.map_some, eq_comm, Option.map_eq_some_iff] at hbefore
        obtain ⟨start, hstart, hafter⟩ := hbefore
        rw [hlist', Function.update_self, hstart, Option.map_some, Option.map_some,
          insertPage_update, ← hafter]
        simp [IvfflatOp.setInsertPage, insertPageAfter]
      · have hsame : ∀ current, (IvfflatOp.updateList (V := V) info insertPage
            originalInsertPage startPage).setInsertPage info' current = current :=
          setInsertPage_of_ne (by simp [IvfflatOp.updatedList?, Ne.symm hinfo])
        rw [hlist', Function.update_of_ne hinfo]
        simp only [hsame]
        exact hbefore

theorem Race.next (x : LoggedIndex V) (i : Nat) (o : IvfflatOp V) (r : o.Res)
    (s : IvfflatIndex V) (hx : Race index x)
    (hexec : ivfflatHandler o x.state = some (r, s)) : Race index (x.next i o r s) := by
  cases o with
  | getMetaPage =>
    obtain ⟨-, rfl⟩ := Prod.mk.inj (Option.some.inj hexec)
    exact hx.of_same_lists rfl rfl hx.entries
  | readListPage blkno =>
    obtain ⟨-, rfl⟩ := Prod.mk.inj (Option.some.inj hexec)
    exact hx.of_same_lists rfl rfl hx.entries
  | readEntryPage blkno =>
    obtain ⟨-, rfl⟩ := Prod.mk.inj (Option.some.inj hexec)
    exact hx.of_same_lists rfl rfl hx.entries
  | insertOnPage blkno itup itemsz =>
    have hpair : insertOnPage x.state blkno itup itemsz = (r, s) := Option.some.inj hexec
    rcases hentry : x.state.entryPage? blkno with _ | page
    · obtain ⟨-, rfl⟩ : r = .missing ∧ s = x.state := by
        simpa [insertOnPage, hentry, eq_comm] using hpair
      exact hx.of_same_lists rfl rfl hx.entries
    · have hpage := IvfflatIndex.entryPage?_eq_some.mp hentry
      have hturn := insertOnPage_turn hpage itup itemsz
      rw [hpair] at hturn
      obtain ⟨hlists, hlinks⟩ := hturn.links hpage
      refine hx.of_same_lists rfl hlists ?_
      rcases hlinks with hlinks | hlinks
      · rw [hlinks]
        exact hx.entries
      · intro b b' hb
        rw [hlinks] at hb
        by_cases hnew : b = x.state.nextBlock
        · subst hnew
          simp at hb
        · rw [Function.update_of_ne hnew] at hb
          by_cases hblk : b = blkno
          · subst hblk
            rw [Function.update_self] at hb
            obtain rfl := Option.some.inj (Option.some.inj hb)
            exact Nat.lt_succ_of_le (bounds_of_block? hpage).2
          · rw [Function.update_of_ne hblk] at hb
            exact hx.entries b b' hb
  | updateList info insertPage originalInsertPage startPage =>
    exact hx.next_updateList i hexec
  | bulkDelete blkno callback =>
    rcases hdelete : bulkDeleteOnPage x.state blkno callback with _ | ⟨reply, s'⟩
    · obtain ⟨-, rfl⟩ : r = none ∧ s = x.state := by
        simpa [ivfflatHandler, hdelete, eq_comm] using hexec
      exact hx.of_same_lists rfl rfl hx.entries
    · obtain ⟨-, rfl⟩ : r = some reply ∧ s = s' := by
        simpa [ivfflatHandler, hdelete, eq_comm] using hexec
      obtain ⟨-, -, -, hlinks, hkeeps, -, -⟩ := bulkDeleteOnPage_eq_some hdelete
      refine hx.of_same_lists rfl hkeeps.listPage ?_
      rw [hlinks]
      exact hx.entries

end Invariant

/-! ## What the insert logs -/

section Insert

variable {V D : Type} [LinearOrder D] {index : IvfflatIndex V}

def considered (ctx : IvfflatContext V D) (value : V) (choice : InsertChoice D) :
    (o : IvfflatOp V) → o.Res → InsertChoice D
  | .readListPage blkno, some page => choice.considerPage ctx value blkno page
  | _, _ => choice

/-- The list that `FindInsertPage` chooses, from the list pages it has read. -/
def chosenBy (ctx : IvfflatContext V D) (value : V) (log : List (IvfflatEvent V)) :
    InsertChoice D :=
  log.foldl (fun choice e => considered ctx value choice e.op e.reply) (InsertChoice.start ctx)

variable (ctx : IvfflatContext V D)

theorem chosenBy_concat (value : V) (log : List (IvfflatEvent V)) (e : IvfflatEvent V) :
    chosenBy ctx value (log ++ [e]) =
      considered ctx value (chosenBy ctx value log) e.op e.reply := by
  simp [chosenBy]

theorem chosenBy_append_of_later {ctx : IvfflatContext V D} {value : V}
    (log : List (IvfflatEvent V)) {later : List (IvfflatEvent V)}
    (h : ∀ e ∈ later, e.op.isPlacement = true ∨ e.op.updatedList? ≠ none) :
    chosenBy ctx value (log ++ later) = chosenBy ctx value log := by
  unfold chosenBy
  rw [List.foldl_append]
  generalize List.foldl _ _ log = choice
  induction later with
  | nil => rfl
  | cons e later ih =>
    have he : considered ctx value choice e.op e.reply = choice := by
      have hlater := h e (by simp)
      obtain ⟨thread, before, op, reply⟩ := e
      cases op with
      | readListPage blkno => simp [IvfflatOp.isPlacement, IvfflatOp.updatedList?] at hlater
      | _ => rfl
    rw [List.foldl_cons, he]
    exact ih fun e' he' => h e' (.tail _ he')

def Reading (log : List (IvfflatEvent V)) : Prop :=
  ∀ e ∈ log, e.op.isPlacement = false ∧ e.op.updatedList? = none

theorem Reading.concat {log : List (IvfflatEvent V)} (h : Reading log) {e : IvfflatEvent V}
    (he : e.op.isPlacement = false ∧ e.op.updatedList? = none) : Reading (log ++ [e]) := by
  intro e' he'
  rcases List.mem_append.mp he' with hmem | hmem
  · exact h e' hmem
  · rw [List.mem_singleton.mp hmem]
    exact he

structure Choosing (index : IvfflatIndex V) (ctx : IvfflatContext V D) (value : V)
    (choice : InsertChoice D) (log : List (IvfflatEvent V)) : Prop where
  reading : Reading log
  chosen : chosenBy ctx value log = choice
  exists_list : choice.insertPage ≠ none → ∃ list, index.list? choice.listInfo = some list

theorem findInsertPage_emits (value : V) (fuel : Nat) (next : Option BlockNumber)
    {choice : InsertChoice D} {log : List (IvfflatEvent V)}
    (h : Choosing index ctx value choice log) :
    (findInsertPage ctx value fuel next choice).Emits ivfflatHandler (Race index) 0
      (Choosing index ctx value) log := by
  induction fuel generalizing next choice log with
  | zero =>
    cases next with
    | none => exact h
    | some blkno => trivial
  | succ fuel ih =>
    cases next with
    | none => exact h
    | some blkno =>
      intro x hx _ r s hexec
      cases r with
      | none => trivial
      | some page =>
        have hpage : x.state.listPage? blkno = some page :=
          (Prod.mk.inj (Option.some.inj hexec)).1
        refine ih _ ⟨h.reading.concat ⟨rfl, rfl⟩, ?_, ?_⟩
        · rw [chosenBy_concat, h.chosen]
          rfl
        · refine considerPage_induct (P := fun info insertPage => insertPage ≠ none →
            ∃ list, index.list? info = some list) h.exists_list ?_
          intro item offno hitem _
          have hlist : x.state.list? ⟨blkno, offno⟩ = some item.tuple := by
            simp [IvfflatIndex.list?, hpage, Page.tuple?, hitem]
          have hstart := hx.insertPages ⟨blkno, offno⟩
          rw [hlist, Option.map_some, eq_comm, Option.map_eq_some_iff] at hstart
          exact ⟨hstart.choose, hstart.choose_spec.1⟩

structure Placing (blkno : BlockNumber) (p : BlockNumber) (first : IvfflatEvent V)
    (rest : List (IvfflatEvent V)) : Prop where
  op_eq : ∃ itup itemsz, first.op = .insertOnPage blkno itup itemsz
  isPlacement : ∀ e ∈ rest, e.op.isPlacement = true
  room : HasRoom first.before first.op → p = blkno
  noRoom : ¬HasRoom first.before first.op → blkno < p

theorem insertLoop_emits (itup : IndexTuple V) (itemsz fuel : Nat) (blkno : BlockNumber)
    (log : List (IvfflatEvent V)) :
    (insertLoop itup itemsz fuel blkno).Emits ivfflatHandler (Race index) 0
      (fun p log' => ∃ first rest, log' = log ++ first :: rest ∧
        Placing blkno p first rest) log := by
  induction fuel generalizing blkno log with
  | zero => trivial
  | succ fuel ih =>
    intro x hx _ reply s hexec
    have hpair : insertOnPage x.state blkno itup itemsz = (reply, s) := Option.some.inj hexec
    rcases hentry : x.state.entryPage? blkno with _ | page
    · obtain ⟨rfl, -⟩ : reply = .missing ∧ s = x.state := by
        simpa [insertOnPage, hentry, eq_comm] using hpair
      trivial
    · have hpage := IvfflatIndex.entryPage?_eq_some.mp hentry
      have hturn := insertOnPage_turn hpage itup itemsz
      rw [hpair] at hturn
      have hroom : HasRoom x.state (.insertOnPage blkno itup itemsz) ↔ itemsz ≤ page.freeSpace := by
        simp [HasRoom, hentry]
      cases hturn with
      | refused _ => trivial
      | placed hfits _ _ _ _ _ =>
        exact ⟨_, [], rfl, ⟨itup, itemsz, rfl⟩, by simp, fun _ => rfl,
          fun hno => absurd (hroom.mpr hfits) hno⟩
      | @next next hfull hnext =>
        have hlt : blkno < next :=
          hx.entries blkno next (IvfflatIndex.entryNext_eq_some.mpr ⟨page, hpage, hnext⟩)
        apply Program.Emits.mono (ih next _)
        rintro p log' ⟨first, rest, rfl, hplacing⟩
        refine ⟨_, first :: rest, List.append_assoc _ _ _, ⟨itup, itemsz, rfl⟩, ?_, ?_, ?_⟩
        · obtain ⟨itup', itemsz', hfirst⟩ := hplacing.op_eq
          intro e he
          rcases List.mem_cons.mp he with rfl | hmem
          · rw [hfirst]
            rfl
          · exact hplacing.isPlacement e hmem
        · exact fun hyes => absurd (hroom.mp hyes) hfull
        · intro _
          by_cases hfirst : HasRoom first.before first.op
          · rw [hplacing.room hfirst]
            exact hlt
          · exact hlt.trans (hplacing.noRoom hfirst)
      | extended hfull _ _ _ _ _ hreply =>
        rcases hreply with ⟨rfl, -⟩ | ⟨rfl, -⟩
        · trivial
        · refine ⟨_, [], rfl, ⟨itup, itemsz, rfl⟩, by simp, ?_, ?_⟩
          · exact fun hyes => absurd (hroom.mp hyes) hfull
          · exact fun _ => Nat.lt_succ_of_le (bounds_of_block? hpage).2

theorem updateList_emits {i : Nat} (info : ListInfo)
    (insertPage originalInsertPage startPage : Option BlockNumber)
    (log : List (IvfflatEvent V)) :
    (updateList (V := V) info insertPage originalInsertPage startPage).Emits ivfflatHandler
      (Race index) i
      (fun _ log' => ∃ e : IvfflatEvent V, log' = log ++ [e] ∧
        e.op = .updateList info insertPage originalInsertPage startPage) log := by
  intro x _ _ r s _
  cases r with
  | false => trivial
  | true => exact ⟨_, rfl, rfl⟩

/-- The log of an insert that chose the list at `info`, with insert page `p0`. -/
structure InsertLog (index : IvfflatIndex V) (info : ListInfo) (p0 : BlockNumber)
    (log : List (IvfflatEvent V)) : Prop where
  exists_list : ∃ list, index.list? info = some list
  shape : ∃ before first rest, log = before ++ first :: rest ∧ Reading before ∧
    first.op.isPlacement = true ∧
    (HasRoom first.before first.op ∧ (∀ e ∈ rest, e.op.updatedList? = none) ∨
      ¬HasRoom first.before first.op ∧
        ∃ placements update p1, rest = placements ++ [update] ∧
          (∀ e ∈ placements, e.op.updatedList? = none) ∧ p0 < p1 ∧
          update.op = .updateList info (some p1) (some p0) none)

theorem updatedList?_of_isPlacement {o : IvfflatOp V} (h : o.isPlacement = true) :
    o.updatedList? = none := by
  cases o with
  | insertOnPage _ _ _ => rfl
  | _ => cases h

theorem insertFrom_emits (itup : IndexTuple V) (info : ListInfo) (p0 : BlockNumber) {value : V}
    {before : List (IvfflatEvent V)} (hreading : Reading before)
    (hlist : ∃ list, index.list? info = some list) :
    (insertFrom ctx itup info p0).Emits ivfflatHandler (Race index) 0
      (fun _ log => InsertLog index info p0 log ∧
        chosenBy ctx value log = chosenBy ctx value before) before := by
  apply Program.Emits.seq (insertLoop_emits _ _ _ p0 before)
  rintro p log ⟨first, rest, rfl, hplacing⟩
  have hfirst : first.op.isPlacement = true := by
    obtain ⟨itup', itemsz', hfirst⟩ := hplacing.op_eq
    rw [hfirst]
    rfl
  have hrest : ∀ e ∈ rest, e.op.updatedList? = none :=
    fun e he => updatedList?_of_isPlacement (hplacing.isPlacement e he)
  split
  · next hne =>
    apply Program.Emits.mono (updateList_emits info (some p) (some p0) none _)
    rintro _ log ⟨update, rfl, hupdate⟩
    have hno : ¬HasRoom first.before first.op := fun hyes => hne (hplacing.room hyes)
    refine ⟨⟨hlist, before, first, rest ++ [update], by simp, hreading, hfirst, .inr ⟨hno,
      rest, update, p, rfl, hrest, hplacing.noRoom hno, hupdate⟩⟩, ?_⟩
    rw [List.append_assoc]
    apply chosenBy_append_of_later
    intro e he
    rcases List.mem_cons.mp he with rfl | he
    · exact .inl hfirst
    · rcases List.mem_append.mp he with hmem | hmem
      · exact .inl (hplacing.isPlacement e hmem)
      · rw [List.mem_singleton.mp hmem, hupdate]
        exact .inr (by simp [IvfflatOp.updatedList?])
  · next heq =>
    have hp : p = p0 := not_not.mp heq
    have hyes : HasRoom first.before first.op := by
      by_contra hno
      exact absurd (hplacing.noRoom hno) (by simp [hp])
    refine ⟨⟨hlist, before, first, rest, rfl, hreading, hfirst, .inl ⟨hyes, hrest⟩⟩, ?_⟩
    apply chosenBy_append_of_later
    intro e he
    rcases List.mem_cons.mp he with rfl | hmem
    · exact .inl hfirst
    · exact .inl (hplacing.isPlacement e hmem)

theorem ivfflatinsert_emits {value : Option V} {indexed : V}
    (hvalue : formIndexValue ctx value = some indexed) (heaptid : ItemPointer) :
    (ivfflatinsert ctx value heaptid).Emits ivfflatHandler (Race index) 0
      (fun _ log => ∀ p0, (chosenBy ctx indexed log).insertPage = some p0 →
        InsertLog index (chosenBy ctx indexed log).listInfo p0 log) [] := by
  unfold ivfflatinsert
  rw [hvalue]
  apply Program.Emits.seq (P := fun _ => Choosing index ctx indexed (InsertChoice.start ctx))
  · intro x _ _ metap s _
    change Program.Emits _ _ _ (ite _ _ _) _ _
    split
    · trivial
    · exact ⟨Reading.concat (by simp [Reading]) ⟨rfl, rfl⟩, rfl, fun h => absurd rfl h⟩
  · intro _ log hstart
    apply Program.Emits.seq (findInsertPage_emits ctx indexed _ _ hstart)
    intro choice log hchoice
    cases hp : choice.insertPage with
    | none => trivial
    | some p0 =>
      have hlist := hchoice.exists_list (by simp [hp])
      apply Program.Emits.mono (insertFrom_emits ctx _ choice.listInfo p0 hchoice.reading hlist)
      rintro _ log ⟨hlog, hsame⟩ p0' hp0'
      rw [hsame, hchoice.chosen] at hp0' ⊢
      obtain rfl := Option.some.inj (hp.symm.trans hp0')
      exact hlog

end Insert

/-! ## What the vacuum logs -/

section Vacuum

variable {V : Type} {index : IvfflatIndex V}

def updatedLists (log : List (IvfflatEvent V)) : List ListInfo :=
  log.filterMap fun e => e.op.updatedList?

theorem updatedLists_concat (log : List (IvfflatEvent V)) (e : IvfflatEvent V) :
    updatedLists (log ++ [e]) = updatedLists log ++ e.op.updatedList?.toList := by
  cases h : e.op.updatedList? with
  | none => simp [updatedLists, h]
  | some info => simp [updatedLists, h]

variable (callback : ItemPointer → Bool)

theorem vacuumEntries_emits (fuel : Nat) (searchPage insertPage : Option BlockNumber)
    (log : List (IvfflatEvent V)) :
    (vacuumEntries callback fuel searchPage insertPage).Emits ivfflatHandler (Race index) 1
      (fun _ log' => updatedLists log' = updatedLists log) log := by
  induction fuel generalizing searchPage insertPage log with
  | zero =>
    cases searchPage with
    | none => rfl
    | some blkno => trivial
  | succ fuel ih =>
    cases searchPage with
    | none => rfl
    | some blkno =>
      intro x _ _ r s _
      cases r with
      | none => trivial
      | some reply =>
        apply Program.Emits.mono (ih _ _ _)
        intro _ log' hlog'
        rw [hlog', updatedLists_concat]
        simp [IvfflatOp.updatedList?]

theorem vacuumLists_emits (fuel : Nat) (blkno : BlockNumber)
    {lists : List (Option BlockNumber × OffsetNumber)} (hlists : (lists.map Prod.snd).Nodup)
    {log : List (IvfflatEvent V)} (hnodup : (updatedLists log).Nodup)
    (hbefore : ∀ info ∈ updatedLists log, info.blkno ≤ blkno ∧
      (info.blkno = blkno → info.offno ∉ lists.map Prod.snd)) :
    (vacuumLists callback fuel blkno lists).Emits ivfflatHandler (Race index) 1
      (fun _ log' => (updatedLists log').Nodup ∧
        ∀ info ∈ updatedLists log', info.blkno ≤ blkno) log := by
  induction lists generalizing log with
  | nil => exact ⟨hnodup, fun info hinfo => (hbefore info hinfo).1⟩
  | cons list lists ih =>
    obtain ⟨startPage, coffno⟩ := list
    rw [List.map_cons, List.nodup_cons] at hlists
    apply Program.Emits.seq (vacuumEntries_emits callback fuel startPage none log)
    intro insertPage log₁ hlog₁
    rw [← hlog₁] at hnodup hbefore
    cases insertPage with
    | none =>
      apply ih hlists.2 hnodup
      intro info hinfo
      refine ⟨(hbefore info hinfo).1, fun heq hmem => ?_⟩
      exact (hbefore info hinfo).2 heq (.tail _ hmem)
    | some p =>
      apply Program.Emits.seq (updateList_emits ⟨blkno, coffno⟩ (some p) none none log₁)
      rintro _ log₂ ⟨e, rfl, he⟩
      have hnew : updatedLists (log₁ ++ [e]) = updatedLists log₁ ++ [⟨blkno, coffno⟩] := by
        rw [updatedLists_concat, he]
        rfl
      apply ih hlists.2
      · rw [hnew, List.nodup_append]
        refine ⟨hnodup, List.nodup_singleton _, ?_⟩
        rintro info hinfo _ hmem rfl
        rw [List.mem_singleton.mp hmem] at hinfo
        exact (hbefore _ hinfo).2 rfl (by simp)
      · intro info hinfo
        rw [hnew] at hinfo
        rcases List.mem_append.mp hinfo with hold | hmem
        · refine ⟨(hbefore info hold).1, fun heq hmem => ?_⟩
          exact (hbefore info hold).2 heq (.tail _ hmem)
        · rw [List.mem_singleton.mp hmem]
          exact ⟨le_rfl, fun _ => hlists.1⟩

theorem nodup_startPages (page : Page (IvfflatList V)) :
    ((startPages page).map Prod.snd).Nodup := by
  have hoffsets : (startPages page).map Prod.snd =
      List.range' firstOffsetNumber page.items.length := by
    rw [startPages, List.map_map, ← List.zipIdx_map_snd firstOffsetNumber page.items]
    rfl
  rw [hoffsets]
  exact List.nodup_range'

theorem vacuumListPages_emits (entryFuel fuel : Nat) (next : Option BlockNumber)
    {log : List (IvfflatEvent V)} (hnodup : (updatedLists log).Nodup)
    (hbefore : ∀ info ∈ updatedLists log, ∀ b, next = some b → info.blkno < b) :
    (vacuumListPages callback entryFuel fuel next).Emits ivfflatHandler (Race index) 1
      (fun _ log' => (updatedLists log').Nodup) log := by
  induction fuel generalizing next log with
  | zero =>
    cases next with
    | none => exact hnodup
    | some blkno => trivial
  | succ fuel ih =>
    cases next with
    | none => exact hnodup
    | some blkno =>
      intro x hx _ r s hexec
      cases r with
      | none => trivial
      | some page =>
        have hpage : x.state.listPage? blkno = some page :=
          (Prod.mk.inj (Option.some.inj hexec)).1
        have hread : ∀ reply, updatedLists (log ++
            [⟨1, x.state, .readListPage blkno, reply⟩]) = updatedLists log := by
          intro reply
          rw [updatedLists_concat]
          simp [IvfflatOp.updatedList?]
        change (vacuumLists callback entryFuel blkno (startPages page) >>= fun _ =>
          vacuumListPages callback entryFuel fuel page.nextblkno).Emits _ _ _ _ _
        refine Program.Emits.seq (vacuumLists_emits callback entryFuel blkno
          (nodup_startPages page) ?_ ?_) ?_
        · rw [hread]
          exact hnodup
        · intro info hinfo
          rw [hread] at hinfo
          have hlt := hbefore info hinfo blkno rfl
          exact ⟨hlt.le, fun heq => absurd heq hlt.ne⟩
        · rintro _ log' ⟨hnodup', hle⟩
          apply ih page.nextblkno hnodup'
          intro info hinfo b hb
          have hlink : x.state.listNext blkno = some (some b) := by
            simp [IvfflatIndex.listNext, hpage, hb]
          exact (hle info hinfo).trans_lt (hx.lists blkno b hlink)

end Vacuum

/-! ## Both of them -/

section Both

variable {V D : Type} [LinearOrder D]

def insertBesideVacuum (ctx : IvfflatContext V D) (value : Option V) (heaptid : ItemPointer)
    (callback : ItemPointer → Bool) : Nat → IvfflatProgram V Unit
  | 0 => ivfflatinsert ctx value heaptid
  | 1 => ivfflatbulkdelete ctx callback
  | _ => .ret ()

/--
After the insert has read the list page, and before it updates a list, the vacuum
sets the insert page of the list at `info` to `v`.
-/
def SetByVacuum (log : List (IvfflatEvent V)) (info : ListInfo) (v : BlockNumber) : Prop :=
  ∃ before read between set after,
    log = before ++ read :: (between ++ set :: after) ∧
    read.thread = 0 ∧ read.op = .readListPage info.blkno ∧
    set.thread = 1 ∧ set.op = .updateList info (some v) none none ∧
    ∀ e ∈ before ++ between, e.thread = 0 → e.op.updatedList? = none

/-- The first page that an insert looks at has room for its item at that time. -/
def FirstPageHasRoom (log : List (IvfflatEvent V)) : Prop :=
  ∃ e, (log.find? fun e => e.op.isPlacement) = some e ∧ HasRoom e.before e.op

theorem firstPageHasRoom_iff {before rest : List (IvfflatEvent V)} {first : IvfflatEvent V}
    (hreading : Reading before) (hfirst : first.op.isPlacement = true) :
    FirstPageHasRoom (before ++ first :: rest) ↔ HasRoom first.before first.op := by
  have hfind : ((before ++ first :: rest).find? fun e => e.op.isPlacement) = some first := by
    rw [List.find?_append, List.find?_eq_none.mpr]
    · simp [hfirst]
    · intro e he
      simp [(hreading e he).1]
  simp [FirstPageHasRoom, hfind]

def updatesOf (info : ListInfo) (log : List (IvfflatEvent V)) : List (IvfflatEvent V) :=
  log.filter fun e => e.op.updatedList? == some info

theorem updatesOf_append (info : ListInfo) (log log' : List (IvfflatEvent V)) :
    updatesOf info (log ++ log') = updatesOf info log ++ updatesOf info log' :=
  List.filter_append ..

theorem updatesOf_eq_nil {info : ListInfo} {log : List (IvfflatEvent V)}
    (h : ∀ e ∈ log, e.op.updatedList? = none) : updatesOf info log = [] := by
  rw [updatesOf, List.filter_eq_nil_iff]
  intro e he
  simp [h e he]

theorem length_updatesOf_le_one {log : List (IvfflatEvent V)} (h : (updatedLists log).Nodup)
    (info : ListInfo) : (updatesOf info log).length ≤ 1 := by
  have hcount := List.nodup_iff_count_le_one.mp h info
  rwa [updatedLists, List.count_filterMap, List.countP_eq_length_filter] at hcount

theorem updatesOf_eq {x : LoggedIndex V} {info : ListInfo} {front after : List (IvfflatEvent V)}
    {set : IvfflatEvent V} (hthreads : ∀ e ∈ x.log, e.thread = 0 ∨ e.thread = 1)
    (hone : (updatesOf info (x.byThread 1)).length ≤ 1)
    (hlog : x.log = front ++ set :: after) (hset : set.thread = 1)
    (hupdate : set.op.updatedList? = some info)
    (hfront : ∀ e ∈ front, e.thread = 0 → e.op.updatedList? = none) :
    updatesOf info x.log = set :: updatesOf info (x.byThread 0) := by
  -- what thread `i` has written before and after
  have hby : ∀ i, x.byThread i = front.filter (fun e => e.thread == i) ++
      ((if set.thread = i then [set] else []) ++ after.filter fun e => e.thread == i) := by
    intro i
    by_cases hi : set.thread = i
    · simp [Logged.byThread, hlog, hi]
    · simp [Logged.byThread, hlog, hi]
  have hself : updatesOf info [set] = [set] := by
    simp [updatesOf, hupdate]
  have hlen := hone
  rw [hby 1, if_pos hset, updatesOf_append, updatesOf_append, hself, List.length_append,
    List.length_append, List.length_singleton] at hlen
  have hnone : ∀ part : List (IvfflatEvent V),
      (updatesOf info (part.filter fun e => e.thread == 1)).length = 0 →
      ∀ e ∈ part, e.thread = 1 → e.op.updatedList? ≠ some info := by
    intro part hzero e he hthread heq
    have hmem : e ∈ updatesOf info (part.filter fun e => e.thread == 1) := by
      simp [updatesOf, he, hthread, heq]
    rw [List.eq_nil_of_length_eq_zero hzero] at hmem
    exact List.not_mem_nil hmem
  have hfrontNil : updatesOf info front = [] := by
    rw [updatesOf, List.filter_eq_nil_iff]
    intro e he
    rcases hthreads e (by simp [hlog, he]) with h0 | h1
    · simp [hfront e he h0]
    · simpa using hnone front (by omega) e he h1
  have hfront0 : updatesOf info (front.filter fun e => e.thread == 0) = [] := by
    apply updatesOf_eq_nil
    intro e he
    obtain ⟨hmem, hthread⟩ := List.mem_filter.mp he
    exact hfront e hmem (by simpa using hthread)
  have hafter : updatesOf info (after.filter fun e => e.thread == 0) = updatesOf info after := by
    rw [updatesOf, List.filter_filter, updatesOf]
    refine List.filter_congr fun e he => ?_
    rcases hthreads e (by simp [hlog, he]) with h0 | h1
    · simp [h0]
    · simp [hnone after (by omega) e he h1]
  have hset0 : set.thread ≠ 0 := by
    rw [hset]
    exact Nat.one_ne_zero
  rw [hby 0, if_neg hset0, List.nil_append, updatesOf_append, hfront0, List.nil_append, hafter,
    hlog, updatesOf_append, hfrontNil, List.nil_append, ← List.singleton_append,
    updatesOf_append, hself]
  rfl

/--
The insert page of the list is in the end what the vacuum has set it to exactly if
the insert found room on the insert page that it had read.
-/
theorem insertPage_eq_vacuum_iff {index : IvfflatIndex V}
    {chains : ListInfo → List BlockNumber} (hindex : WellFormed index chains)
    {ctx : IvfflatContext V D} {value : Option V} {indexed : V} {heaptid : ItemPointer}
    {callback : ItemPointer → Bool} {final : LoggedIndex V}
    (hvalue : formIndexValue ctx value = some indexed)
    (hrun : Turns ivfflatHandler
      ⟨insertBesideVacuum ctx value heaptid callback, Logged.start index⟩
      ⟨fun _ => .ret (), final⟩)
    {info : ListInfo} {p0 v : BlockNumber}
    (hlist : (chosenBy ctx indexed (final.byThread 0)).listInfo = info)
    (hp0 : (chosenBy ctx indexed (final.byThread 0)).insertPage = some p0)
    (hset : SetByVacuum final.log info v) (hlower : v < p0) :
    (final.state.list? info).map IvfflatList.insertPage = some (some v) ↔
      FirstPageHasRoom (final.byThread 0) := by
  let Q : Nat → Unit → List (IvfflatEvent V) → Prop := fun i _ log =>
    match i with
    | 0 => ∀ p0, (chosenBy ctx indexed log).insertPage = some p0 →
        InsertLog index (chosenBy ctx indexed log).listInfo p0 log
    | 1 => (updatedLists log).Nodup
    | _ => log = []
  have hemits : ∀ i, (insertBesideVacuum ctx value heaptid callback i).Emits ivfflatHandler
      (Race index) i (Q i) [] := by
    intro i
    match i with
    | 0 => exact ivfflatinsert_emits ctx hvalue heaptid
    | 1 => exact vacuumListPages_emits callback _ _ _ List.nodup_nil (by simp [updatedLists])
    | i + 2 => rfl
  obtain ⟨hrace, hends⟩ := hrun.ends Race.next hindex.race hemits
  have hthreads : ∀ e ∈ final.log, e.thread = 0 ∨ e.thread = 1 := by
    intro e he
    by_contra hne
    obtain ⟨i, hi⟩ : ∃ i, e.thread = i + 2 := ⟨e.thread - 2, by omega⟩
    have hnil : final.byThread (i + 2) = [] := hends (i + 2)
    have hmem := Logged.mem_byThread.mpr ⟨he, hi⟩
    rw [hnil] at hmem
    exact List.not_mem_nil hmem
  have hinsert : InsertLog index info p0 (final.byThread 0) := hlist ▸ hends 0 p0 hp0
  obtain ⟨before, read, between, set, after, hlog, -, hread, hthread, hop, hbefore⟩ := hset
  have hfront : ∀ e ∈ before ++ read :: between, e.thread = 0 → e.op.updatedList? = none := by
    intro e he h0
    simp only [List.mem_append, List.mem_cons] at he
    rcases he with hmem | rfl | hmem
    · exact hbefore e (by simp [hmem]) h0
    · simp [hread, IvfflatOp.updatedList?]
    · exact hbefore e (by simp [hmem]) h0
  have hupdates : updatesOf info final.log = set :: updatesOf info (final.byThread 0) :=
    updatesOf_eq hthreads (length_updatesOf_le_one (hends 1) info)
      (by simpa using hlog) hthread (by simp [hop, IvfflatOp.updatedList?]) hfront
  obtain ⟨list, hstart⟩ := hinsert.exists_list
  have hfinal : (final.state.list? info).map IvfflatList.insertPage =
      some (insertPageAfter info (some v) (updatesOf info (final.byThread 0))) := by
    rw [hrace.insertPages info, hstart, Option.map_some, ← insertPageAfter_filter]
    change some (insertPageAfter info _ (updatesOf info final.log)) = _
    rw [hupdates, insertPageAfter, List.foldl_cons, hop, IvfflatOp.setInsertPage,
      if_pos rfl, updatedInsertPage_none]
    rfl
  rw [hfinal]
  obtain ⟨reads, first, rest, hshape, hreading, hfirst, hcases⟩ := hinsert.shape
  rw [hshape, firstPageHasRoom_iff hreading hfirst]
  have hreads : updatesOf info (reads ++ first :: rest) = updatesOf info rest := by
    rw [← List.singleton_append, updatesOf_append, updatesOf_append,
      updatesOf_eq_nil fun e he => (hreading e he).2, List.nil_append,
      updatesOf_eq_nil fun e he => ?_, List.nil_append]
    rw [List.mem_singleton.mp he]
    exact updatedList?_of_isPlacement hfirst
  rw [hreads]
  rcases hcases with ⟨hroom, hquiet⟩ | ⟨hfull, placements, update, p1, rfl, hquiet, hlt, hupdate⟩
  · rw [updatesOf_eq_nil hquiet]
    simp [hroom, insertPageAfter]
  · have hlast : updatesOf info [update] = [update] := by
      simp [updatesOf, hupdate, IvfflatOp.updatedList?]
    rw [updatesOf_append, updatesOf_eq_nil hquiet, List.nil_append, hlast]
    have hne : v ≠ p1 := (hlower.trans hlt).ne
    have hafter : insertPageAfter info (some v) [update] = some p1 := by
      simp [insertPageAfter, hupdate, IvfflatOp.setInsertPage, updatedInsertPage, hne, hlt.le]
    rw [hafter]
    simp [hfull, Ne.symm hne]

end Both

/-! ## Two runs -/

section Runs

def twoPages (last : List (Item (IndexTuple Nat))) : IvfflatIndex Nat where
  metapage := ⟨ivfflatMagicNumber, 1, 1⟩
  pages :=
    [.lists ⟨[⟨40, ⟨some 2, some 3, 10⟩⟩], none⟩,
     .entries ⟨[⟨4000, ⟨⟨0, 1⟩, 11⟩⟩, ⟨4000, ⟨⟨0, 2⟩, 9⟩⟩], some 3⟩,
     .entries ⟨last, none⟩]

def halfPage : IvfflatIndex Nat := twoPages [⟨4000, ⟨⟨0, 3⟩, 8⟩⟩]

def fullPage : IvfflatIndex Nat := twoPages [⟨4000, ⟨⟨0, 3⟩, 8⟩⟩, ⟨4000, ⟨⟨0, 4⟩, 12⟩⟩]

theorem halfPage_built :
    Built sampleContext [(some 11, ⟨0, 1⟩), (some 9, ⟨0, 2⟩), (some 8, ⟨0, 3⟩)] halfPage :=
  ⟨1, 40, [10], _, by simp, List.Perm.refl _, by decide, by decide⟩

theorem fullPage_built :
    Built sampleContext [(some 11, ⟨0, 1⟩), (some 9, ⟨0, 2⟩), (some 8, ⟨0, 3⟩),
      (some 12, ⟨0, 4⟩)] fullPage :=
  ⟨1, 40, [10], _, by simp, List.Perm.refl _, by decide, by decide⟩

def lateInsert (index : IvfflatIndex Nat) : Round (ivfflatSignature Nat) (IvfflatIndex Nat) :=
  ⟨insertBesideVacuum sampleContext (some 13) ⟨0, 5⟩ fun tid => tid == ⟨0, 2⟩, Logged.start index⟩

def lateInsertEnd (index : IvfflatIndex Nat) : LoggedIndex Nat :=
  (((lateInsert index).advance ivfflatHandler 0 2).advance ivfflatHandler 1 8).advance
    ivfflatHandler 0 8 |>.logged

theorem turns_lateInsertEnd {index : IvfflatIndex Nat}
    (h0 : ((((lateInsert index).advance ivfflatHandler 0 2).advance ivfflatHandler 1 8).advance
      ivfflatHandler 0 8).programs = fun _ => .ret ()) :
    Turns ivfflatHandler (lateInsert index) ⟨fun _ => .ret (), lateInsertEnd index⟩ := by
  have hturns := ((turns_advance ivfflatHandler 0 2 (lateInsert index)).trans
    (turns_advance ivfflatHandler 1 8 _)).trans (turns_advance ivfflatHandler 0 8 _)
  rw [← h0]
  exact hturns

theorem halfPage_ends : Turns ivfflatHandler (lateInsert halfPage)
    ⟨fun _ => .ret (), lateInsertEnd halfPage⟩ := by
  apply turns_lateInsertEnd
  funext i
  match i with
  | 0 => rfl
  | 1 => rfl
  | i + 2 => rfl

theorem fullPage_ends : Turns ivfflatHandler (lateInsert fullPage)
    ⟨fun _ => .ret (), lateInsertEnd fullPage⟩ := by
  apply turns_lateInsertEnd
  funext i
  match i with
  | 0 => rfl
  | 1 => rfl
  | i + 2 => rfl

theorem halfPage_setByVacuum : SetByVacuum (lateInsertEnd halfPage).log ⟨1, 1⟩ 2 := by
  refine ⟨[_], _, [_, _, _], _, [_], rfl, rfl, rfl, rfl, rfl, ?_⟩
  simp [IvfflatOp.updatedList?]

theorem fullPage_setByVacuum : SetByVacuum (lateInsertEnd fullPage).log ⟨1, 1⟩ 2 := by
  refine ⟨[_], _, [_, _, _], _, [_, _], rfl, rfl, rfl, rfl, rfl, ?_⟩
  simp [IvfflatOp.updatedList?]

/-- The insert finds room on page 3, and page 2 stays the insert page. -/
theorem insertPage_eq_vacuum_half :
    ((lateInsertEnd halfPage).state.list? ⟨1, 1⟩).map IvfflatList.insertPage =
        some (some 2) ∧
      FirstPageHasRoom ((lateInsertEnd halfPage).byThread 0) := by
  obtain ⟨chains, hindex, -⟩ := halfPage_built.wellFormed
  have hvalue : formIndexValue sampleContext (some 13) = some 13 := rfl
  have hp0 : (chosenBy sampleContext 13 ((lateInsertEnd halfPage).byThread 0)).insertPage =
      some 3 := rfl
  have hpage : ((lateInsertEnd halfPage).state.list? ⟨1, 1⟩).map IvfflatList.insertPage =
      some (some 2) := rfl
  exact ⟨hpage, (insertPage_eq_vacuum_iff hindex hvalue halfPage_ends rfl hp0
    halfPage_setByVacuum (by decide)).mp hpage⟩

/-- The insert extends the chain, and its own page 4 replaces page 2. -/
theorem insertPage_overwritten :
    Built sampleContext [(some 11, ⟨0, 1⟩), (some 9, ⟨0, 2⟩), (some 8, ⟨0, 3⟩),
        (some 12, ⟨0, 4⟩)] fullPage ∧
      Turns ivfflatHandler (lateInsert fullPage) ⟨fun _ => .ret (), lateInsertEnd fullPage⟩ ∧
      (chosenBy sampleContext 13 ((lateInsertEnd fullPage).byThread 0)).listInfo = ⟨1, 1⟩ ∧
      (chosenBy sampleContext 13 ((lateInsertEnd fullPage).byThread 0)).insertPage = some 3 ∧
      SetByVacuum (lateInsertEnd fullPage).log ⟨1, 1⟩ 2 ∧
      ((lateInsertEnd fullPage).state.list? ⟨1, 1⟩).map IvfflatList.insertPage = some (some 4) :=
  ⟨fullPage_built, fullPage_ends, rfl, rfl, fullPage_setByVacuum, rfl⟩

end Runs

end PgVector.Ivfflat
