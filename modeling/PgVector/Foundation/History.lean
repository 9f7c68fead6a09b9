import Mathlib.Data.List.Basic
import Mathlib.Order.Basic
import PgVector.Foundation.Program

/-!
# Histories of a program

A history lists the instructions that a program executed from its start to its
end, with the reply each of them got and a mark of the moment it was executed.
What other programs do in between shows in the replies and in the marks only, so
a fact about every history holds in every interleaving.
-/

namespace PgVector.Foundation

structure Moment (L : Signature) (T : Type) where
  op : L.Op
  reply : L.Res op
  mark : T

namespace Program

variable {L : Signature} {α β S T : Type}

/-- The program ran along `history` and returned the result. -/
inductive Follows : Program L α → List (Moment L T) → α → Prop where
  | ret (a : α) : Follows (.ret a) [] a
  | step {o : L.Op} {k : L.Res o → Program L α} {r : L.Res o} {t : T}
      {history : List (Moment L T)} {a : α} (hk : Follows (k r) history a) :
      Follows (.step o k) (⟨o, r, t⟩ :: history) a

theorem follows_ret_iff {a b : α} {history : List (Moment L T)} :
    (Program.ret a : Program L α).Follows history b ↔ history = [] ∧ b = a := by
  constructor
  · rintro ⟨⟩
    exact ⟨rfl, rfl⟩
  · rintro ⟨rfl, rfl⟩
    exact .ret b

theorem follows_step_iff {o : L.Op} {k : L.Res o → Program L α} {a : α}
    {history : List (Moment L T)} :
    (Program.step o k).Follows history a ↔
      ∃ r t rest, history = ⟨o, r, t⟩ :: rest ∧ (k r).Follows rest a := by
  constructor
  · intro h
    cases h with
    | step hk => exact ⟨_, _, _, rfl, hk⟩
  · rintro ⟨r, t, rest, rfl, hk⟩
    exact .step hk

theorem follows_perform_iff {o : L.Op} {f : L.Res o → Program L β} {b : β}
    {history : List (Moment L T)} :
    (Program.step o .ret >>= f).Follows history b ↔
      ∃ r t rest, history = ⟨o, r, t⟩ :: rest ∧ (f r).Follows rest b :=
  follows_step_iff

variable {p : Program L α}

theorem follows_bind_iff {f : α → Program L β} {b : β} {history : List (Moment L T)} :
    (p >>= f).Follows history b ↔
      ∃ a before after, history = before ++ after ∧ p.Follows before a ∧ (f a).Follows after b := by
  induction p generalizing history with
  | ret a =>
    simp only [ret_bind, follows_ret_iff]
    constructor
    · intro h
      exact ⟨a, [], history, rfl, ⟨rfl, rfl⟩, h⟩
    · rintro ⟨_, _, after, rfl, ⟨rfl, rfl⟩, h⟩
      exact h
  | fail e =>
    rw [fail_bind]
    constructor
    · intro h
      cases h
    · rintro ⟨_, _, _, -, h, -⟩
      cases h
  | step o k ih =>
    simp only [step_bind, follows_step_iff, ih]
    constructor
    · rintro ⟨r, t, _, rfl, a, before, after, rfl, hk, hf⟩
      exact ⟨a, ⟨o, r, t⟩ :: before, after, rfl, ⟨r, t, before, rfl, hk⟩, hf⟩
    · rintro ⟨a, _, after, rfl, ⟨r, t, before, rfl, hk⟩, hf⟩
      exact ⟨r, t, before ++ after, rfl, a, before, after, rfl, hk, hf⟩

theorem follows_bind_ret_iff {f : α → β} {b : β} {history : List (Moment L T)} :
    (p >>= fun a => Program.ret (f a)).Follows history b ↔ ∃ a, p.Follows history a ∧ b = f a := by
  simp [follows_bind_iff, follows_ret_iff]

theorem Follows.unique {history : List (Moment L T)} {a b : α} (ha : p.Follows history a)
    (hb : p.Follows history b) : a = b := by
  induction ha with
  | ret a =>
    cases hb
    rfl
  | step hk ih =>
    cases hb with
    | step hk' => exact ih hk'

theorem Yields.follows {uses : L.Op → Prop} {Q : α → Prop} (hp : p.Yields uses Q)
    {history : List (Moment L T)} {a : α} (h : p.Follows history a) : Q a := by
  induction h with
  | ret a => exact hp
  | step _ ih => exact ih (hp.2 _)

theorem Yields.follows_uses {uses : L.Op → Prop} {Q : α → Prop} (hp : p.Yields uses Q)
    {history : List (Moment L T)} {a : α} (h : p.Follows history a) :
    ∀ m ∈ history, uses m.op := by
  induction h with
  | ret a => simp
  | step _ ih => exact List.forall_mem_cons.mpr ⟨hp.1, ih (hp.2 _)⟩

/-! ## The history of a run -/

/-- What a program does when it runs alone; `mark` shows each state it is in. -/
def history (h : Handler L S) (mark : S → T) : Program L α → S → List (Moment L T)
  | .ret _, _ => []
  | .fail _, _ => []
  | .step o k, s =>
    match h o s with
    | none => []
    | some (r, s') => ⟨o, r, mark s⟩ :: (k r).history h mark s'

variable {h : Handler L S} {mark : S → T}

theorem history_step {o : L.Op} {s s' : S} {r : L.Res o}
    (ho : h o s = some (r, s')) (k : L.Res o → Program L α) :
    (Program.step o k).history h mark s = ⟨o, r, mark s⟩ :: (k r).history h mark s' := by
  rw [history, ho]

theorem follows_history {s t : S} {a : α} (hrun : p.run h s = (.done a, t)) :
    p.Follows (p.history h mark s) a := by
  induction p generalizing s with
  | ret b =>
    cases hrun
    exact .ret _
  | fail e => cases hrun
  | step o k ih =>
    cases ho : h o s with
    | none =>
      rw [run_step, ho] at hrun
      cases hrun
    | some reply =>
      rw [run_step, ho] at hrun
      rw [history_step ho]
      exact .step (ih reply.1 hrun)

theorem mem_history {s : S} {m : Moment L T} (hm : m ∈ p.history h mark s) :
    ∃ s₁ s₂, h m.op s₁ = some (m.reply, s₂) ∧ m.mark = mark s₁ := by
  induction p generalizing s with
  | ret a => cases hm
  | fail e => cases hm
  | step o k ih =>
    cases ho : h o s with
    | none =>
      rw [history, ho] at hm
      cases hm
    | some reply =>
      rw [history_step ho] at hm
      rcases List.mem_cons.mp hm with rfl | hm
      · exact ⟨s, reply.2, ho, rfl⟩
      · exact ih reply.1 hm

section Ordered

variable [Preorder T] {I : S → Prop}
  (hstep : ∀ {o s r s'}, I s → h o s = some (r, s') → I s' ∧ mark s ≤ mark s')

include hstep

theorem history_ordered {p : Program L α} {s t : S} {a : α} (hs : I s)
    (hrun : p.run h s = (.done a, t)) :
    I t ∧ mark s ≤ mark t ∧
      ((p.history h mark s).map Moment.mark).Pairwise (· ≤ ·) ∧
      ∀ m ∈ p.history h mark s, mark s ≤ m.mark ∧ m.mark ≤ mark t := by
  induction p generalizing s with
  | ret b =>
    cases hrun
    exact ⟨hs, le_rfl, List.Pairwise.nil, fun m hm => by cases hm⟩
  | fail e => cases hrun
  | step o k ih =>
    cases ho : h o s with
    | none =>
      rw [run_step, ho] at hrun
      cases hrun
    | some reply =>
      rw [run_step, ho] at hrun
      obtain ⟨hs', hle⟩ := hstep hs ho
      obtain ⟨ht, hlet, hpair, hmem⟩ := ih reply.1 hs' hrun
      rw [history_step ho]
      refine ⟨ht, hle.trans hlet, ?_, ?_⟩
      · rw [List.map_cons, List.pairwise_cons]
        refine ⟨fun x hx => ?_, hpair⟩
        obtain ⟨m, hm, rfl⟩ := List.mem_map.mp hx
        exact hle.trans (hmem m hm).1
      · intro m hm
        rcases List.mem_cons.mp hm with rfl | hm
        · exact ⟨le_rfl, hle.trans hlet⟩
        · exact ⟨hle.trans (hmem m hm).1, (hmem m hm).2⟩

end Ordered

end Program

end PgVector.Foundation
