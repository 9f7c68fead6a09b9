import PgVector.Foundation.Program

/-!
# Two runs side by side

Two programs, possibly over different instructions, are run from their own
states.  They are alike if they end the same way: both return, with related
results in related states, both fail alike, or both wait.  Instructions that
only one of the two executes are taken one side at a time.

Some runs are left out of the comparison: those whose second state ends up in
`excused`, which no instruction can leave.
-/

namespace PgVector.Foundation

/-- Two handlers, the errors they share, and what excuses a difference. -/
structure Comparison (L L' : Signature) (S S' : Type) where
  handler : Handler L S
  handler' : Handler L' S'
  errors : L.Err → L'.Err → Prop
  excused : S' → Prop
  excused_step : ∀ {o s r t}, handler' o s = some (r, t) → excused s → excused t

namespace Program

variable {L L' : Signature} {S S' α β γ δ : Type}

inductive EndAlike (errors : L.Err → L'.Err → Prop) (Q : α → β → S → S' → Prop) :
    Outcome L.Err α × S → Outcome L'.Err β × S' → Prop
  | done {a b s s'} : Q a b s s' → EndAlike errors Q (.done a, s) (.done b, s')
  | failed {e e' s s'} : errors e e' →
      EndAlike errors Q (.failed e, s) (.failed e', s')
  | blocked {s s'} : EndAlike errors Q (.blocked, s) (.blocked, s')

theorem EndAlike.outcome_eq {errors : L.Err → L.Err → Prop}
    {Q : α → α → S → S' → Prop} (herrors : ∀ {e e'}, errors e e' → e = e')
    (hQ : ∀ {a b s s'}, Q a b s s' → a = b) {t : Outcome L.Err α × S}
    {t' : Outcome L.Err α × S'} (h : EndAlike errors Q t t') : t.1 = t'.1 := by
  cases h with
  | done h => exact congrArg Outcome.done (hQ h)
  | failed h => exact congrArg Outcome.failed (herrors h)
  | blocked => rfl

def Alike (C : Comparison L L' S S') (Q : α → β → S → S' → Prop)
    (p : Program L α) (p' : Program L' β) (s : S) (s' : S') : Prop :=
  C.excused (p'.run C.handler' s').2 ∨
    EndAlike C.errors Q (p.run C.handler s) (p'.run C.handler' s')

theorem excused_run (C : Comparison L L' S S') (p : Program L' β) {s : S'}
    (hs : C.excused s) : C.excused (p.run C.handler' s).2 := by
  induction p generalizing s with
  | ret a => exact hs
  | fail e => exact hs
  | step o k ih =>
    rw [run_step]
    split
    · exact hs
    · next r t hexec => exact ih r (C.excused_step hexec hs)

namespace Alike

variable {C : Comparison L L' S S'} {s : S} {s' : S'}

variable {Q : α → β → S → S' → Prop} {p' : Program L' β} {p : Program L α}
  {P : α → β → S → S' → Prop}

theorem excuse (p : Program L α) (p' : Program L' β) (hs : C.excused s') : p.Alike C Q p' s s' :=
  .inl (excused_run C p' hs)

theorem ret {a : α} {b : β} (hQ : Q a b s s') :
    (Program.ret a : Program L α).Alike C Q (.ret b) s s' :=
  .inr (.done hQ)

theorem fail {e : L.Err} {e' : L'.Err} (he : C.errors e e') :
    (Program.fail e : Program L α).Alike C Q (.fail e') s s' :=
  .inr (.failed he)

theorem left {o : L.Op} {k : L.Res o → Program L α} {r : L.Res o} {t : S}
    (ho : C.handler o s = some (r, t)) (hk : (k r).Alike C Q p' t s') :
    (Program.step o k).Alike C Q p' s s' := by
  unfold Alike
  rw [run_step_some ho]
  exact hk

theorem right {o : L'.Op} {k : L'.Res o → Program L' β} {r : L'.Res o} {t : S'}
    (ho : C.handler' o s' = some (r, t)) (hk : p.Alike C Q (k r) s t) :
    p.Alike C Q (.step o k) s s' := by
  unfold Alike
  rw [run_step_some ho]
  exact hk

theorem performLeft {o : L.Op} {f : L.Res o → Program L α} {r : L.Res o} {t : S}
    (ho : C.handler o s = some (r, t)) (hf : (f r).Alike C Q p' t s') :
    (Program.exec o >>= f).Alike C Q p' s s' :=
  left ho hf

theorem bind {Q : γ → δ → S → S' → Prop} {f : α → Program L γ} {f' : β → Program L' δ}
    (hp : p.Alike C P p' s s') (hf : ∀ a b t t', P a b t t' → (f a).Alike C Q (f' b) t t') :
    (p >>= f).Alike C Q (p' >>= f') s s' := by
  unfold Alike
  rw [run_bind, run_bind]
  rcases hp with hexcused | hend
  · -- the difference is excused from where the first half ended
    left
    revert hexcused
    generalize p'.run C.handler' s' = half
    intro hexcused
    obtain ⟨outcome, t⟩ := half
    cases outcome with
    | done b => exact excused_run C (f' b) hexcused
    | failed e => exact hexcused
    | blocked => exact hexcused
  · revert hend
    generalize p.run C.handler s = half
    generalize p'.run C.handler' s' = half'
    intro hend
    cases hend with
    | done hP => exact hf _ _ _ _ hP
    | failed he => exact .inr (.failed he)
    | blocked => exact .inr .blocked

theorem of_returns {P : α → S → Prop} {P' : β → S' → Prop} (hp : p.Returns C.handler s P)
    (hp' : p'.Returns C.handler' s' P') (hQ : ∀ a b t t', P a t → P' b t' → Q a b t t') :
    p.Alike C Q p' s s' := by
  obtain ⟨a, t, hrun, hP⟩ := hp
  obtain ⟨b, t', hrun', hP'⟩ := hp'
  right
  rw [hrun, hrun']
  exact .done (hQ a b t t' hP hP')

theorem returns {P : α → S → Prop} (hp : p.Alike C Q p' s s') (hC : ∀ s', ¬ C.excused s')
    (hreturns : p.Returns C.handler s P) :
    p'.Returns C.handler' s' fun b t' => ∃ a t, P a t ∧ Q a b t t' := by
  obtain ⟨a, t, hrun, hP⟩ := hreturns
  rcases hp with hexcused | hend
  · exact absurd hexcused (hC _)
  · rw [hrun] at hend
    revert hend
    unfold Returns
    generalize p'.run C.handler' s' = r
    intro hend
    cases hend with
    | done hQ => exact ⟨_, _, rfl, a, t, hP, hQ⟩

theorem mono (hp : p.Alike C P p' s s') (hPQ : ∀ a b t t', P a b t t' → Q a b t t') :
    p.Alike C Q p' s s' := by
  have hbind := bind hp fun a b t t' h => ret (L := L) (hPQ a b t t' h)
  rwa [bind_ret, bind_ret] at hbind

end Alike

end Program

end PgVector.Foundation
