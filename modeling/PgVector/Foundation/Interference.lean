import Mathlib.Logic.Relation
import Mathlib.Logic.Function.Basic
import PgVector.Foundation.Program

/-!
# Programs among other programs

A program runs while others change the shared state between its instructions.
A `Discipline` says what it may rely on in the meantime and what its own
instructions guarantee; `Safe` is the weakest precondition of a program under a
discipline.  States are extended with whatever bookkeeping the proof needs:
an instruction determines the shared part of the next state, the proof chooses
the rest.
-/

namespace PgVector.Foundation

structure Discipline (L : Signature) (S X : Type) where
  handler : Handler L S
  shared : X → S
  inv : X → Prop
  rely : X → X → Prop
  guar : X → X → Prop
  /-- The instructions that are executed in a state. -/
  may : X → L.Op → Prop
  allowed : L.Err → X → Prop
  rely_refl : ∀ x, rely x x
  rely_trans : ∀ {x y z}, rely x y → rely y z → rely x z

namespace Program

variable {L : Signature} {S X α β : Type}

def Safe (D : Discipline L S X) : Program L α → (α → X → Prop) → X → Prop
  | .ret a, Q, x => ∀ y, D.rely x y → D.inv y → Q a y
  | .fail e, _, x => ∀ y, D.rely x y → D.inv y → D.allowed e y
  | .step o k, Q, x =>
    ∀ y, D.rely x y → D.inv y → D.may y o →
      ∀ r s, D.handler o (D.shared y) = some (r, s) →
        ∃ z, D.shared z = s ∧ D.inv z ∧ D.guar y z ∧ (k r).Safe D Q z

namespace Safe

variable {D : Discipline L S X}

variable {p : Program L α} {Q : α → X → Prop} {x : X}

theorem stable {y : X} (hp : p.Safe D Q x) (hxy : D.rely x y) : p.Safe D Q y := by
  cases p with
  | ret a => exact fun z hz => hp z (D.rely_trans hxy hz)
  | fail e => exact fun z hz => hp z (D.rely_trans hxy hz)
  | step o k => exact fun z hz => hp z (D.rely_trans hxy hz)

theorem of_inv (hp : ∀ y, D.rely x y → D.inv y → p.Safe D Q y) : p.Safe D Q x := by
  cases p with
  | ret a => exact fun y hxy hy => hp y hxy hy y (D.rely_refl y) hy
  | fail e => exact fun y hxy hy => hp y hxy hy y (D.rely_refl y) hy
  | step o k => exact fun y hxy hy => hp y hxy hy y (D.rely_refl y) hy

theorem mono {P : α → X → Prop} (hp : p.Safe D P x) (hPQ : ∀ a y, D.inv y → P a y → Q a y) :
    p.Safe D Q x := by
  induction p generalizing x with
  | ret a => exact fun y hxy hy => hPQ a y hy (hp y hxy hy)
  | fail e => exact hp
  | step o k ih =>
    intro y hxy hy hmay r s hexec
    obtain ⟨z, hz, hinv, hguar, hk⟩ := hp y hxy hy hmay r s hexec
    exact ⟨z, hz, hinv, hguar, ih r hk⟩

theorem bind {f : α → Program L β} {Q : β → X → Prop}
    (hp : p.Safe D (fun a y => (f a).Safe D Q y) x) : (p >>= f).Safe D Q x := by
  induction p generalizing x with
  | ret a => exact of_inv hp
  | fail e => exact hp
  | step o k ih =>
    intro y hxy hy hmay r s hexec
    obtain ⟨z, hz, hinv, hguar, hk⟩ := hp y hxy hy hmay r s hexec
    exact ⟨z, hz, hinv, hguar, ih r hk⟩

theorem seq {f : α → Program L β} {P : α → X → Prop} {Q : β → X → Prop} (hp : p.Safe D P x)
    (hf : ∀ a y, D.inv y → P a y → (f a).Safe D Q y) : (p >>= f).Safe D Q x :=
  bind (hp.mono hf)

/--
A program is safe if each instruction it may use is, as long as these
instructions and the environment keep `J`.
-/
theorem of_yields {uses : L.Op → Prop} {Q : α → Prop} {J : X → Prop}
    (hrely : ∀ x y, D.rely x y → J x → J y)
    (huses : ∀ x o r s, D.inv x → J x → D.may x o → uses o →
      D.handler o (D.shared x) = some (r, s) →
      ∃ y, D.shared y = s ∧ D.inv y ∧ D.guar x y ∧ J y)
    (hfail : ∀ e x, D.inv x → J x → D.allowed e x) (hp : p.Yields uses Q) (hx : J x) :
    p.Safe D (fun a y => Q a ∧ J y) x := by
  induction p generalizing x with
  | ret a => exact fun y hxy _ => ⟨hp, hrely x y hxy hx⟩
  | fail e => exact fun y hxy hy => hfail e y hy (hrely x y hxy hx)
  | step o k ih =>
    intro y hxy hy hmay r s hexec
    obtain ⟨z, hz, hinv, hguar, hJ⟩ :=
      huses y o r s hy (hrely x y hxy hx) hmay hp.1 hexec
    exact ⟨z, hz, hinv, hguar, ih r (hp.2 r) hJ⟩

end Safe

/-! ## Programs that change no more than their environment may -/

/-- The program is safe, and all it does its environment was allowed to do as well. -/
def Keeps (D : Discipline L S X) (p : Program L α) (Q : α → X → Prop) (x : X) : Prop :=
  p.Safe D (fun a y => D.rely x y ∧ Q a y) x

namespace Keeps

variable {D : Discipline L S X}

variable {Q : α → X → Prop} {x : X} {p : Program L α} {P : α → X → Prop}

theorem ret {a : α} (hQ : ∀ y, D.rely x y → D.inv y → Q a y) : (Program.ret a).Keeps D Q x :=
  fun y hxy hy => ⟨hxy, hQ y hxy hy⟩

theorem fail {e : L.Err} (he : ∀ y, D.allowed e y) : (Program.fail e : Program L α).Keeps D Q x :=
  fun y _ _ => he y

theorem step {o : L.Op} {k : L.Res o → Program L α}
    (h : ∀ y, D.rely x y → D.inv y → D.may y o → ∀ r s,
      D.handler o (D.shared y) = some (r, s) →
      ∃ z, D.shared z = s ∧ D.inv z ∧ D.guar y z ∧ D.rely y z ∧ (k r).Keeps D Q z) :
    (Program.step o k).Keeps D Q x := by
  intro y hxy hy hmay r s hexec
  obtain ⟨z, hz, hinv, hguar, hyz, hk⟩ := h y hxy hy hmay r s hexec
  exact ⟨z, hz, hinv, hguar,
    Safe.mono hk fun _ _ _ hw => ⟨D.rely_trans hxy (D.rely_trans hyz hw.1), hw.2⟩⟩

theorem exec {o : L.Op} {Q : L.Res o → X → Prop}
    (h : ∀ y, D.rely x y → D.inv y → D.may y o → ∀ r s,
      D.handler o (D.shared y) = some (r, s) →
      ∃ z, D.shared z = s ∧ D.inv z ∧ D.guar y z ∧ D.rely y z ∧
        ∀ w, D.rely z w → D.inv w → Q r w) : (Program.exec o).Keeps D Q x := by
  apply step
  intro y hxy hy hmay r s hexec
  obtain ⟨z, hz, hinv, hguar, hyz, hQ⟩ := h y hxy hy hmay r s hexec
  exact ⟨z, hz, hinv, hguar, hyz, ret hQ⟩

theorem mono (hp : p.Keeps D P x) (hPQ : ∀ a y, D.rely x y → D.inv y → P a y → Q a y) :
    p.Keeps D Q x :=
  Safe.mono hp fun a y hy h => ⟨h.1, hPQ a y h.1 hy h.2⟩

theorem bind {f : α → Program L β} {Q : β → X → Prop} (hp : p.Keeps D P x)
    (hf : ∀ a y, D.rely x y → D.inv y → P a y → (f a).Keeps D Q y) : (p >>= f).Keeps D Q x :=
  Safe.seq hp fun a y hy h => Safe.mono (hf a y h.1 hy h.2)
    fun _ _ _ hz => ⟨D.rely_trans h.1 hz.1, hz.2⟩

theorem seq {f : α → Program L β} {Q : β → X → Prop} (hp : p.Keeps D P x)
    (hf : ∀ a y, D.rely x y → D.inv y → P a y → (f a).Safe D Q y) : (p >>= f).Safe D Q x :=
  Safe.seq hp fun a y hy h => hf a y h.1 hy h.2

theorem of_inv (hp : ∀ y, D.rely x y → D.inv y → p.Keeps D Q y) : p.Keeps D Q x :=
  Safe.of_inv fun y hxy hy => Safe.mono (hp y hxy hy) fun _ _ _ hz => ⟨D.rely_trans hxy hz.1, hz.2⟩

end Keeps

/-! ## One program, disturbed by its environment -/

inductive Move (h : Handler L S) (env : S → S → Prop) :
    Program L α × S → Program L α × S → Prop
  | disturb {p s s'} : env s s' → Move h env (p, s) (p, s')
  | execute {o k s r s'} : h o s = some (r, s') →
      Move h env (.step o k, s) (k r, s')

def Reaches (h : Handler L S) (env : S → S → Prop) : Program L α × S → Program L α × S → Prop :=
  Relation.ReflTransGen (Move h env)

theorem Safe.move {D : Discipline L S X} {env : S → S → Prop} (hmay : ∀ x o, D.may x o)
    (henv : ∀ x s, D.inv x → env (D.shared x) s → ∃ y, D.shared y = s ∧ D.inv y ∧ D.rely x y)
    {Q : α → X → Prop} {x : X} {c : Program L α × S} {p : Program L α}
    (hmove : Move D.handler env (p, D.shared x) c) (hx : D.inv x)
    (hp : p.Safe D Q x) :
    ∃ y, D.shared y = c.2 ∧ D.inv y ∧ c.1.Safe D Q y := by
  generalize hc : (p, D.shared x) = start at hmove
  cases hmove with
  | disturb hdisturb =>
    cases hc
    obtain ⟨y, hy, hinv, hrely⟩ := henv x _ hx hdisturb
    exact ⟨y, hy, hinv, hp.stable hrely⟩
  | execute hexec =>
    cases hc
    obtain ⟨y, hy, hinv, -, hk⟩ :=
      hp x (D.rely_refl x) hx (hmay x _) _ _ hexec
    exact ⟨y, hy, hinv, hk⟩

theorem Safe.reaches {D : Discipline L S X} {env : S → S → Prop} (hmay : ∀ x o, D.may x o)
    (henv : ∀ x s, D.inv x → env (D.shared x) s → ∃ y, D.shared y = s ∧ D.inv y ∧ D.rely x y)
    {Q : α → X → Prop} {x : X} {c : Program L α × S} {p : Program L α}
    (hreach : Reaches D.handler env (p, D.shared x) c) (hx : D.inv x)
    (hp : p.Safe D Q x) :
    ∃ y, D.shared y = c.2 ∧ D.inv y ∧ c.1.Safe D Q y := by
  induction hreach with
  | refl => exact ⟨x, rfl, hx, hp⟩
  | @tail mid c _ hmove ih =>
    obtain ⟨y, hy, hinv, hsafe⟩ := ih
    obtain ⟨q, t⟩ := mid
    subst hy
    exact hsafe.move hmay henv hmove hinv

theorem reaches_run (h : Handler L S) (env : S → S → Prop) (p : Program L α)
    {s t : S} {a : α} (hrun : p.run h s = (.done a, t)) :
    Reaches h env (p, s) (.ret a, t) := by
  induction p generalizing s with
  | ret b =>
    obtain ⟨hb, rfl⟩ := Prod.mk.inj hrun
    cases hb
    exact .refl
  | fail e => simp at hrun
  | step o k ih =>
    rw [run_step] at hrun
    split at hrun
    · simp at hrun
    · next r s' hexec => exact .head (.execute hexec) (ih r hrun)

end Program

end PgVector.Foundation
