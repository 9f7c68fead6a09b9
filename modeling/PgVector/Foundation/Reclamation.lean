import Mathlib.Data.Set.Insert
import Mathlib.Order.BooleanAlgebra.Set
import Mathlib.Logic.Function.Basic
import Mathlib.Tactic.Common

/-!
# Reclaiming the nodes of a shared graph

Nodes of a graph are emptied, unlinked, deleted, and their addresses are used
again, while writers and readers walk the graph.  The reclaimer never waits for a
node to be unreferenced; it waits, a few times, until every walk under way has
ended.  What it knows at these moments is kept as three sets: the nodes that
walks may not meet any more are `doomed` for the writers and `condemned` for the
readers, and the `deleted` ones are among both.  Once the system is `settled`,
no writer is left that started before the last node was emptied.
-/

namespace PgVector.Foundation

variable {α : Type}

structure Net (α : Type) where
  present : Set α
  emptied : Set α
  deleted : Set α
  names : α → Set α
  entry : Option α

namespace Net

/-- The nodes in use that name an emptied one. -/
def dirty (g : Net α) : Set α := {a | a ∉ g.emptied ∧ ∃ b ∈ g.names a, b ∈ g.emptied}

/-- A walk from the entry does not start at an emptied node, nor next to one. -/
def EntryClean (g : Net α) : Prop := ∀ a, g.entry = some a → a ∉ g.emptied ∧ a ∉ g.dirty

section Update

variable [DecidableEq α]

def relink (g : Net α) (a : α) (s : Set α) : Net α :=
  { g with names := Function.update g.names a s }

/-- A new node, at an address that is free. -/
def place (g : Net α) (a : α) (s : Set α) : Net α where
  present := insert a g.present
  emptied := g.emptied \ {a}
  deleted := g.deleted \ {a}
  names := Function.update g.names a s
  entry := g.entry

def delete (g : Net α) (a : α) : Net α :=
  { g with
    deleted := insert a g.deleted
    names := Function.update g.names a ∅ }

end Update

def setEntry (g : Net α) (entry : Option α) : Net α := { g with entry := entry }

end Net

structure Reclaim (α : Type) where
  net : Net α
  condemned : Set α
  doomed : Set α
  settled : Prop

namespace Reclaim

/-- What every walk depends on. -/
structure Valid (p : Reclaim α) : Prop where
  emptied_present : p.net.emptied ⊆ p.net.present
  doomed_emptied : p.doomed ⊆ p.net.emptied
  condemned_doomed : p.condemned ⊆ p.doomed
  deleted_condemned : p.net.deleted ⊆ p.condemned
  names_present : ∀ a, ∀ b ∈ p.net.names a, b ∈ p.net.present
  names_doomed : ∀ a, a ∉ p.doomed → ∀ b ∈ p.net.names a, b ∉ p.doomed
  names_condemned : ∀ a, a ∉ p.condemned → ∀ b ∈ p.net.names a, b ∉ p.condemned
  names_deleted : ∀ a ∈ p.net.deleted, p.net.names a = ∅
  entry_present : ∀ a, p.net.entry = some a → a ∈ p.net.present
  entry_doomed : ∀ a, p.net.entry = some a → a ∉ p.doomed

theorem Valid.entry_condemned {p : Reclaim α} (hp : p.Valid) {a : α}
    (ha : p.net.entry = some a) : a ∉ p.condemned :=
  fun h => hp.entry_doomed a ha (hp.condemned_doomed h)

/-- A node that a writer may link to. -/
structure Linkable (p : Reclaim α) (b : α) : Prop where
  present : b ∈ p.net.present
  doomed : b ∉ p.doomed
  emptied : p.settled → b ∉ p.net.emptied

/-! ## What a walk under way can rely on -/

structure Stays (writes reads : Prop) (p q : Reclaim α) : Prop where
  present : p.net.present ⊆ q.net.present
  doomed : writes → q.doomed ⊆ p.doomed
  settled : writes → q.settled → p.settled
  emptied : writes → q.settled → q.net.emptied ⊆ p.net.emptied
  dirty : writes → q.settled → q.net.dirty ⊆ p.net.dirty
  condemned : reads → q.condemned ⊆ p.condemned

namespace Stays

variable {writes reads : Prop} {p q r : Reclaim α}

theorem refl (p : Reclaim α) : Stays writes reads p p where
  present := subset_rfl
  doomed := fun _ => subset_rfl
  settled := fun _ h => h
  emptied := fun _ _ => subset_rfl
  dirty := fun _ _ => subset_rfl
  condemned := fun _ => subset_rfl

theorem trans (hpq : Stays writes reads p q) (hqr : Stays writes reads q r) :
    Stays writes reads p r where
  present := hpq.present.trans hqr.present
  doomed := fun hw => (hqr.doomed hw).trans (hpq.doomed hw)
  settled := fun hw hr => hpq.settled hw (hqr.settled hw hr)
  emptied := fun hw hr => (hqr.emptied hw hr).trans (hpq.emptied hw (hqr.settled hw hr))
  dirty := fun hw hr => (hqr.dirty hw hr).trans (hpq.dirty hw (hqr.settled hw hr))
  condemned := fun hr => (hqr.condemned hr).trans (hpq.condemned hr)

theorem weaken {writes' reads' : Prop} (h : Stays writes reads p q)
    (hw : writes' → writes) (hr : reads' → reads) : Stays writes' reads' p q where
  present := h.present
  doomed := fun h' => h.doomed (hw h')
  settled := fun h' => h.settled (hw h')
  emptied := fun h' => h.emptied (hw h')
  dirty := fun h' => h.dirty (hw h')
  condemned := fun h' => h.condemned (hr h')

theorem linkable (h : Stays writes reads p q) (hw : writes) {b : α}
    (hb : p.Linkable b) : q.Linkable b where
  present := h.present hb.present
  doomed := fun hq => hb.doomed (h.doomed hw hq)
  emptied := fun hq hb' => hb.emptied (h.settled hw hq) (h.emptied hw hq hb')

end Stays

/-! ## What the reclaimer can rely on -/

/-- No node is emptied, and none that is in use gets worse. -/
structure Benign (p q : Reclaim α) : Prop where
  present : p.net.present ⊆ q.net.present
  emptied : q.net.emptied ⊆ p.net.emptied
  doomed : q.doomed ⊆ p.doomed
  doomed_kept : ∀ a ∈ p.doomed, a ∈ q.net.emptied → a ∈ q.doomed
  condemned : q.condemned ⊆ p.condemned
  condemned_kept : ∀ a ∈ p.condemned, a ∈ q.net.emptied → a ∈ q.condemned
  settled : q.settled ↔ p.settled
  dirty : p.settled → q.net.dirty ⊆ p.net.dirty
  entry : p.settled → ∀ a, q.net.entry = some a →
    p.net.entry = some a ∨ (a ∉ q.net.emptied ∧ a ∉ q.net.dirty)

namespace Benign

variable {p q r : Reclaim α}

theorem refl (p : Reclaim α) : Benign p p where
  present := subset_rfl
  emptied := subset_rfl
  doomed := subset_rfl
  doomed_kept := fun _ ha _ => ha
  condemned := subset_rfl
  condemned_kept := fun _ ha _ => ha
  settled := Iff.rfl
  dirty := fun _ => subset_rfl
  entry := fun _ _ h => .inl h

theorem trans (hpq : Benign p q) (hqr : Benign q r) : Benign p r where
  present := hpq.present.trans hqr.present
  emptied := hqr.emptied.trans hpq.emptied
  doomed := hqr.doomed.trans hpq.doomed
  doomed_kept := fun a ha hr => hqr.doomed_kept a (hpq.doomed_kept a ha (hqr.emptied hr)) hr
  condemned := hqr.condemned.trans hpq.condemned
  condemned_kept := fun a ha hr =>
    hqr.condemned_kept a (hpq.condemned_kept a ha (hqr.emptied hr)) hr
  settled := hqr.settled.trans hpq.settled
  dirty := fun hp => (hqr.dirty (hpq.settled.mpr hp)).trans (hpq.dirty hp)
  entry := by
    intro hp a ha
    have hq := hpq.settled.mpr hp
    refine (hqr.entry hq a ha).elim (fun hold => ?_) .inr
    exact (hpq.entry hp a hold).imp id fun hclean =>
      ⟨fun h => hclean.1 (hqr.emptied h), fun h => hclean.2 (hqr.dirty hq h)⟩

theorem stays (h : Benign p q) (writes reads : Prop) : Stays writes reads p q where
  present := h.present
  doomed := fun _ => h.doomed
  settled := fun _ => h.settled.mp
  emptied := fun _ _ => h.emptied
  dirty := fun _ hq => h.dirty (h.settled.mp hq)
  condemned := fun _ => h.condemned

theorem entryClean (h : Benign p q) (hp : p.settled) (hclean : p.net.EntryClean) :
    q.net.EntryClean := by
  intro a ha
  refine (h.entry hp a ha).elim (fun hold => ?_) id
  exact ⟨fun h' => (hclean a hold).1 (h.emptied h'), fun h' => (hclean a hold).2 (h.dirty hp h')⟩

end Benign

/-! ## The steps of writers and of the reclaimer -/

/-- The graph changes to `g`; a node that is in use again is no longer doomed. -/
def put (p : Reclaim α) (g : Net α) : Reclaim α where
  net := g
  condemned := p.condemned ∩ g.emptied
  doomed := p.doomed ∩ g.emptied
  settled := p.settled

variable {p : Reclaim α}

theorem put_eq (hp : p.Valid) (g : Net α) (hemptied : g.emptied = p.net.emptied) :
    p.put g = { p with net := g } := by
  have hdoomed : p.doomed ∩ g.emptied = p.doomed := by
    rw [hemptied]
    exact Set.inter_eq_left.mpr hp.doomed_emptied
  have hcondemned : p.condemned ∩ g.emptied = p.condemned := by
    rw [hemptied]
    exact Set.inter_eq_left.mpr (hp.condemned_doomed.trans hp.doomed_emptied)
  rw [put, hdoomed, hcondemned]

section Steps

variable [DecidableEq α] (hp : p.Valid)

include hp

variable {a : α} {s : Set α}

theorem Valid.relink (ha : a ∉ p.net.deleted) (hs : ∀ b ∈ s, b ∈ p.net.names a ∨ p.Linkable b) :
    (p.put (p.net.relink a s)).Valid ∧ Benign p (p.put (p.net.relink a s)) := by
  rw [put_eq hp (p.net.relink a s) rfl]
  -- what is named is named already, or linkable
  have hnames : ∀ c, ∀ b ∈ Function.update p.net.names a s c, b ∈ p.net.names c ∨ p.Linkable b := by
    intro c b hb
    by_cases hc : c = a
    · subst hc
      rw [Function.update_self] at hb
      exact hs b hb
    · rw [Function.update_of_ne hc] at hb
      exact .inl hb
  have hdirty : p.settled → (p.net.relink a s).dirty ⊆ p.net.dirty := by
    rintro hsettled c ⟨hc, b, hb, hempty⟩
    rcases hnames c b hb with hold | hnew
    · exact ⟨hc, b, hold, hempty⟩
    · exact absurd hempty (hnew.emptied hsettled)
  refine ⟨{ hp with
      names_present := ?_
      names_doomed := ?_
      names_condemned := ?_
      names_deleted := ?_ }, ?_⟩
  · intro c b hb
    rcases hnames c b hb with hold | hnew
    · exact hp.names_present c b hold
    · exact hnew.present
  · intro c hc b hb
    rcases hnames c b hb with hold | hnew
    · exact hp.names_doomed c hc b hold
    · exact hnew.doomed
  · intro c hc b hb
    rcases hnames c b hb with hold | hnew
    · exact hp.names_condemned c hc b hold
    · exact fun h => hnew.doomed (hp.condemned_doomed h)
  · intro c hc
    have hne : c ≠ a := fun heq => ha (heq ▸ hc)
    exact (Function.update_of_ne hne s p.net.names).trans (hp.names_deleted c hc)
  · exact { Benign.refl p with
      dirty := hdirty
      entry := fun _ _ h => .inl h }

theorem Valid.place (hs : ∀ b ∈ s, p.Linkable b) :
    (p.put (p.net.place a s)).Valid ∧ Benign p (p.put (p.net.place a s)) := by
  have hother : ∀ {c : α}, c ≠ a → (p.net.place a s).names c = p.net.names c := by
    intro c hc
    simp [Net.place, Function.update_of_ne hc]
  have hself : (p.net.place a s).names a = s := by simp [Net.place]
  have hdirty : p.settled → (p.net.place a s).dirty ⊆ p.net.dirty := by
    rintro hsettled c ⟨hc, b, hb, hempty⟩
    by_cases hca : c = a
    · rw [hca, hself] at hb
      exact absurd hempty.1 ((hs b hb).emptied hsettled)
    · rw [hother hca] at hb
      exact ⟨fun h => hc ⟨h, hca⟩, b, hb, hempty.1⟩
  constructor
  · constructor
    · rintro c ⟨hc, -⟩
      exact .inr (hp.emptied_present hc)
    · exact Set.inter_subset_right
    · exact Set.inter_subset_inter_left _ hp.condemned_doomed
    · rintro c ⟨hc, hca⟩
      have hcon := hp.deleted_condemned hc
      exact ⟨hcon, hp.doomed_emptied (hp.condemned_doomed hcon), hca⟩
    · intro c b hb
      by_cases hc : c = a
      · rw [hc] at hb
        exact .inr (hs b (hself ▸ hb)).present
      · exact .inr (hp.names_present c b (hother hc ▸ hb))
    · rintro c hc b hb ⟨hb', -⟩
      by_cases hca : c = a
      · rw [hca] at hb
        exact (hs b (hself ▸ hb)).doomed hb'
      · refine hp.names_doomed c (fun h => hc ⟨h, hp.doomed_emptied h, hca⟩) b ?_ hb'
        exact hother hca ▸ hb
    · rintro c hc b hb ⟨hb', -⟩
      by_cases hca : c = a
      · rw [hca] at hb
        exact (hs b (hself ▸ hb)).doomed (hp.condemned_doomed hb')
      · refine hp.names_condemned c (fun h => hc ⟨h, ?_, hca⟩) b (hother hca ▸ hb) hb'
        exact hp.doomed_emptied (hp.condemned_doomed h)
    · rintro c ⟨hc, hca⟩
      exact (hother hca).trans (hp.names_deleted c hc)
    · exact fun c hc => .inr (hp.entry_present c hc)
    · exact fun c hc hdoomed => hp.entry_doomed c hc hdoomed.1
  · constructor
    · exact Set.subset_insert a p.net.present
    · exact Set.sdiff_subset
    · exact Set.inter_subset_left
    · exact fun c hc hempty => ⟨hc, hempty⟩
    · exact Set.inter_subset_left
    · exact fun c hc hempty => ⟨hc, hempty⟩
    · exact Iff.rfl
    · exact hdirty
    · exact fun _ _ h => .inl h

omit hp in
theorem linkable_place (hs : ∀ b ∈ s, p.Linkable b) :
    (p.put (p.net.place a s)).Linkable a ∧ (p.settled → a ∉ (p.net.place a s).dirty) := by
  refine ⟨⟨.inl rfl, fun h => h.2.2 rfl, fun _ h => h.2 rfl⟩, ?_⟩
  rintro hsettled ⟨-, b, hb, hempty⟩
  simp only [Net.place, Function.update_self] at hb
  exact (hs b hb).emptied hsettled hempty.1

omit hp in
theorem not_dirty_relink (hs : ∀ b ∈ s, p.Linkable b) (hsettled : p.settled) :
    a ∉ (p.net.relink a s).dirty := by
  rintro ⟨-, b, hb, hempty⟩
  simp only [Net.relink, Function.update_self] at hb
  exact (hs b hb).emptied hsettled hempty

theorem Valid.delete (ha : a ∈ p.condemned) :
    (p.put (p.net.delete a)).Valid ∧ Benign p (p.put (p.net.delete a)) := by
  rw [put_eq hp (p.net.delete a) rfl]
  have hnames : ∀ c, Function.update p.net.names a ∅ c ⊆ p.net.names c := by
    intro c b hb
    by_cases hc : c = a
    · subst hc
      simp at hb
    · rwa [Function.update_of_ne hc] at hb
  have hdirty : (p.net.delete a).dirty ⊆ p.net.dirty := by
    rintro c ⟨hc, b, hb, hempty⟩
    exact ⟨hc, b, hnames c hb, hempty⟩
  refine ⟨{ hp with
      deleted_condemned := ?_
      names_present := ?_
      names_doomed := ?_
      names_condemned := ?_
      names_deleted := ?_ }, ?_⟩
  · exact Set.insert_subset ha hp.deleted_condemned
  · exact fun c b hb => hp.names_present c b (hnames c hb)
  · exact fun c hc b hb => hp.names_doomed c hc b (hnames c hb)
  · exact fun c hc b hb => hp.names_condemned c hc b (hnames c hb)
  · intro c hc
    by_cases hca : c = a
    · subst hca
      exact Function.update_self c ∅ p.net.names
    · have hold : c ∈ p.net.deleted := (Set.mem_insert_iff.mp hc).resolve_left hca
      exact (Function.update_of_ne hca ∅ p.net.names).trans (hp.names_deleted c hold)
  · exact { Benign.refl p with
      dirty := fun _ => hdirty
      entry := fun _ _ h => .inl h }

omit [DecidableEq α] in
theorem Valid.setEntry {entry : Option α}
    (hentry : ∀ a, entry = some a → p.Linkable a ∧ (p.settled → a ∉ p.net.dirty)) :
    (p.put (p.net.setEntry entry)).Valid ∧ Benign p (p.put (p.net.setEntry entry)) := by
  rw [put_eq hp (p.net.setEntry entry) rfl]
  constructor
  · exact { hp with
      entry_present := fun a ha => (hentry a ha).1.present
      entry_doomed := fun a ha => (hentry a ha).1.doomed }
  · refine { Benign.refl p with entry := ?_ }
    intro hsettled a ha
    exact .inr ⟨(hentry a ha).1.emptied hsettled, (hentry a ha).2 hsettled⟩

omit [DecidableEq α] in
theorem Valid.empty {emptied : Set α} (hgrow : p.net.emptied ⊆ emptied)
    (hpresent : emptied ⊆ p.net.present) (writes reads : Prop) :
    Valid { p with net := { p.net with emptied := emptied }, settled := False } ∧
      Stays writes reads p
        { p with net := { p.net with emptied := emptied }, settled := False } := by
  constructor
  · exact { hp with
      emptied_present := hpresent
      doomed_emptied := hp.doomed_emptied.trans hgrow }
  · exact { Stays.refl p with
      settled := fun _ h => h.elim
      emptied := fun _ h => h.elim
      dirty := fun _ h => h.elim }

omit [DecidableEq α] in
theorem Valid.settle (reads : Prop) :
    Valid { p with settled := True } ∧ Stays False reads p { p with settled := True } :=
  ⟨{ hp with }, ⟨subset_rfl, False.elim, False.elim, False.elim, False.elim, fun _ => subset_rfl⟩⟩

omit [DecidableEq α] in
theorem Valid.doom (hdirty : p.net.dirty = ∅) (hentry : p.net.EntryClean)
    (reads : Prop) :
    Valid { p with doomed := p.net.emptied } ∧
      Stays False reads p { p with doomed := p.net.emptied } := by
  constructor
  · refine { hp with
      doomed_emptied := subset_rfl
      condemned_doomed := ?_
      names_doomed := ?_
      entry_doomed := fun a ha => (hentry a ha).1 }
    · exact hp.condemned_doomed.trans hp.doomed_emptied
    · intro a ha b hb hempty
      have hmem : a ∈ p.net.dirty := ⟨ha, b, hb, hempty⟩
      rw [hdirty] at hmem
      exact hmem
  · exact ⟨subset_rfl, False.elim, False.elim, False.elim, False.elim, fun _ => subset_rfl⟩

omit [DecidableEq α] in
theorem Valid.condemn (hdoomed : p.net.emptied ⊆ p.doomed) (writes : Prop) :
    Valid { p with condemned := p.net.emptied } ∧
      Stays writes False p { p with condemned := p.net.emptied } := by
  have heq : p.net.emptied = p.doomed := hdoomed.antisymm hp.doomed_emptied
  constructor
  · refine { hp with
      condemned_doomed := hdoomed
      deleted_condemned := ?_
      names_condemned := ?_ }
    · exact hp.deleted_condemned.trans (hp.condemned_doomed.trans hp.doomed_emptied)
    · rw [heq]
      exact hp.names_doomed
  · exact { (Stays.refl p : Stays writes False p p) with condemned := False.elim }

end Steps

end Reclaim

end PgVector.Foundation
