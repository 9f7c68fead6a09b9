import Mathlib.Logic.Basic

/-!
# Programs over atomic instructions

A program is a tree of instructions: each instruction is executed atomically on
the shared state and its reply selects the rest of the program.  The same tree
is given two readings.  `run` executes it alone, from start to end; a `Pool` of
programs lets any number of them take turns, one instruction at a time.
-/

namespace PgVector.Foundation

/-- The instructions of a language, the type of their replies, and its errors. -/
structure Signature where
  Op : Type
  Res : Op → Type
  Err : Type

inductive Program (L : Signature) (α : Type) where
  | ret (a : α)
  | fail (e : L.Err)
  | step (o : L.Op) (k : L.Res o → Program L α)

/--
The effect of one instruction on the shared state.  `none` means that the
instruction has to wait: a lock it asks for is held in a conflicting mode.
-/
abbrev Handler (L : Signature) (S : Type) :=
  (o : L.Op) → S → Option (L.Res o × S)

inductive Outcome (ε α : Type) where
  | done (a : α)
  | failed (e : ε)
  | blocked
  deriving DecidableEq, Repr

def Outcome.value? {ε α : Type} : Outcome ε α → Option α
  | .done a => some a
  | _ => none

namespace Program

variable {L : Signature} {α β γ S : Type}

def bind : Program L α → (α → Program L β) → Program L β
  | .ret a, f => f a
  | .fail e, _ => .fail e
  | .step o k, f => .step o fun r => (k r).bind f

instance : Monad (Program L) where
  pure := .ret
  bind := bind

def exec (o : L.Op) : Program L (L.Res o) := .step o .ret

@[simp] theorem pure_eq (a : α) : (pure a : Program L α) = .ret a := rfl

@[simp] theorem ret_bind (a : α) (f : α → Program L β) : (Program.ret a >>= f) = f a := rfl

@[simp] theorem fail_bind (e : L.Err) (f : α → Program L β) :
    ((Program.fail e : Program L α) >>= f) = .fail e := rfl

@[simp] theorem step_bind (o : L.Op) (k : L.Res o → Program L α)
    (f : α → Program L β) :
    (Program.step o k >>= f) = .step o fun r => k r >>= f := rfl

@[simp] theorem exec_bind (o : L.Op) (f : L.Res o → Program L β) : (exec o >>= f) = .step o f := rfl

theorem bind_assoc (p : Program L α) (f : α → Program L β)
    (g : β → Program L γ) :
    (p >>= f >>= g) = p >>= fun a => f a >>= g := by
  induction p with
  | ret a => rfl
  | fail e => rfl
  | step o k ih =>
    simp only [step_bind]
    congr 1
    funext r
    exact ih r

theorem bind_ret (p : Program L α) : (p >>= Program.ret) = p := by
  induction p with
  | ret a => rfl
  | fail e => rfl
  | step o k ih =>
    simp only [step_bind]
    congr 1
    funext r
    exact ih r

/-! ## Whatever the replies -/

/--
Whatever the replies, the program executes only instructions in `uses`, and a
result it returns satisfies `Q`.
-/
def Yields (uses : L.Op → Prop) (Q : α → Prop) : Program L α → Prop
  | .ret a => Q a
  | .fail _ => True
  | .step o k => uses o ∧ ∀ r, (k r).Yields uses Q

namespace Yields

variable {uses : L.Op → Prop}

variable {p : Program L α}

theorem mono {P Q : α → Prop} (hp : p.Yields uses P) (hPQ : ∀ a, P a → Q a) : p.Yields uses Q := by
  induction p with
  | ret a => exact hPQ a hp
  | fail e => trivial
  | step o k ih => exact ⟨hp.1, fun r => ih r (hp.2 r)⟩

theorem bind {f : α → Program L β} {P : α → Prop} {Q : β → Prop} (hp : p.Yields uses P)
    (hf : ∀ a, P a → (f a).Yields uses Q) : (p >>= f).Yields uses Q := by
  induction p with
  | ret a => exact hf a hp
  | fail e => trivial
  | step o k ih => exact ⟨hp.1, fun r => ih r (hp.2 r)⟩

theorem uses_mono {uses' : L.Op → Prop} {Q : α → Prop} (hp : p.Yields uses Q)
    (huses : ∀ o, uses o → uses' o) : p.Yields uses' Q := by
  induction p with
  | ret a => exact hp
  | fail e => trivial
  | step o k ih => exact ⟨huses o hp.1, fun r => ih r (hp.2 r)⟩

theorem any (p : Program L α) : p.Yields (fun _ => True) fun _ => True := by
  induction p with
  | ret a => trivial
  | fail e => trivial
  | step o k ih => exact ⟨trivial, ih⟩

theorem exec {o : L.Op} (ho : uses o) : (Program.exec o).Yields uses fun _ => True :=
  ⟨ho, fun _ => trivial⟩

end Yields

/-! ## Sequential execution -/

/-- Execute a program alone.  The state reached is kept when the program fails. -/
def run (h : Handler L S) : Program L α → S → Outcome L.Err α × S
  | .ret a, s => (.done a, s)
  | .fail e, s => (.failed e, s)
  | .step o k, s =>
    match h o s with
    | none => (.blocked, s)
    | some (r, s') => (k r).run h s'

@[simp] theorem run_ret (h : Handler L S) (a : α) (s : S) :
    (Program.ret a : Program L α).run h s = (.done a, s) := rfl

@[simp] theorem run_fail (h : Handler L S) (e : L.Err) (s : S) :
    (Program.fail e : Program L α).run h s = (.failed e, s) := rfl

theorem run_step (h : Handler L S) (o : L.Op) (k : L.Res o → Program L α)
    (s : S) :
    (Program.step o k).run h s =
      match h o s with
      | none => (.blocked, s)
      | some (r, s') => (k r).run h s' := by
  rw [run]

theorem run_step_some {h : Handler L S} {o : L.Op} {s s' : S} {r : L.Res o}
    (ho : h o s = some (r, s')) (k : L.Res o → Program L α) :
    (Program.step o k).run h s = (k r).run h s' := by
  rw [run_step, ho]

theorem run_bind (h : Handler L S) (p : Program L α) (f : α → Program L β)
    (s : S) :
    (p >>= f).run h s =
      match p.run h s with
      | (.done a, s') => (f a).run h s'
      | (.failed e, s') => (.failed e, s')
      | (.blocked, s') => (.blocked, s') := by
  induction p generalizing s with
  | ret a => rfl
  | fail e => rfl
  | step o k ih =>
    simp only [step_bind, run_step]
    cases h o s with
    | none => rfl
    | some reply => exact ih reply.1 reply.2

/--
The program, run from `s`, ends with a result that satisfies `Q`: it neither
fails nor waits.
-/
def Returns (h : Handler L S) (p : Program L α) (s : S) (Q : α → S → Prop) : Prop :=
  ∃ a s', p.run h s = (.done a, s') ∧ Q a s'

namespace Returns

variable {h : Handler L S} {s : S}

variable {Q : α → S → Prop}

theorem ret {a : α} (hq : Q a s) : (Program.ret a : Program L α).Returns h s Q :=
  ⟨a, s, rfl, hq⟩

theorem step {o : L.Op} {k : L.Res o → Program L α} {r : L.Res o} {s' : S}
    (ho : h o s = some (r, s')) (hk : (k r).Returns h s' Q) :
    (Program.step o k).Returns h s Q := by
  obtain ⟨a, t, hrun, hq⟩ := hk
  exact ⟨a, t, by rw [run_step_some ho, hrun], hq⟩

theorem perform {o : L.Op} {f : L.Res o → Program L α} {r : L.Res o} {s' : S}
    (ho : h o s = some (r, s')) (hf : (f r).Returns h s' Q) :
    (Program.exec o >>= f).Returns h s Q :=
  step ho hf

theorem bind {p : Program L α} {f : α → Program L β} {P : α → S → Prop}
    {Q : β → S → Prop} (hp : p.Returns h s P)
    (hf : ∀ a s', P a s' → (f a).Returns h s' Q) :
    (p >>= f).Returns h s Q := by
  obtain ⟨a, s', hrun, hP⟩ := hp
  obtain ⟨b, t, hrun', hQ⟩ := hf a s' hP
  exact ⟨b, t, by rw [run_bind, hrun]; exact hrun', hQ⟩

theorem mono {p : Program L α} {P : α → S → Prop} (hp : p.Returns h s P)
    (hPQ : ∀ a s', P a s' → Q a s') : p.Returns h s Q := by
  obtain ⟨a, s', hrun, hP⟩ := hp
  exact ⟨a, s', hrun, hPQ a s' hP⟩

end Returns

end Program

end PgVector.Foundation
