import Mathlib.Logic.Function.Basic
import Mathlib.Logic.Relation
import PgVector.Foundation.Interleaving

/-!
# Runs with a log

A fixed number of programs take turns, one instruction at a time, and every
instruction is logged with the state it was executed in.  `Emits` is the weakest
precondition of a program for the part of the log it writes: it has to hold
whatever the other programs do to the state in between.
-/

namespace PgVector.Foundation

structure LogEntry (L : Signature) (S : Type) where
  thread : Nat
  before : S
  op : L.Op
  reply : L.Res op

structure Logged (L : Signature) (S : Type) where
  state : S
  log : List (LogEntry L S)

namespace Logged

variable {L : Signature} {S : Type}

def start (s : S) : Logged L S := ⟨s, []⟩

def byThread (x : Logged L S) (i : Nat) : List (LogEntry L S) :=
  x.log.filter fun e => e.thread == i

def next (x : Logged L S) (i : Nat) (o : L.Op) (r : L.Res o) (s : S) : Logged L S :=
  ⟨s, x.log ++ [⟨i, x.state, o, r⟩]⟩

@[simp] theorem byThread_next_self (x : Logged L S) (i : Nat) (o : L.Op) (r : L.Res o)
    (s : S) : (x.next i o r s).byThread i = x.byThread i ++ [⟨i, x.state, o, r⟩] := by
  simp [byThread, next]

theorem byThread_next_of_ne (x : Logged L S) {i j : Nat} (h : i ≠ j) (o : L.Op)
    (r : L.Res o) (s : S) : (x.next i o r s).byThread j = x.byThread j := by
  simp [byThread, next, h]

theorem mem_byThread {x : Logged L S} {i : Nat} {e : LogEntry L S} :
    e ∈ x.byThread i ↔ e ∈ x.log ∧ e.thread = i := by
  simp [byThread]

end Logged

structure Round (L : Signature) (S : Type) where
  programs : Nat → Program L Unit
  logged : Logged L S

inductive Turn {L : Signature} {S : Type} (h : Handler L S) : Round L S → Round L S → Prop
  | run {c : Round L S} (i : Nat) (o : L.Op) (k : L.Res o → Program L Unit) (r : L.Res o)
      (s : S) : c.programs i = .step o k → h o c.logged.state = some (r, s) →
      Turn h c ⟨Function.update c.programs i (k r), c.logged.next i o r s⟩

def Turns {L : Signature} {S : Type} (h : Handler L S) : Round L S → Round L S → Prop :=
  Relation.ReflTransGen (Turn h)

namespace Program

variable {L : Signature} {S α β : Type}

/--
Thread `i`, which has written `log` so far, ends with `Q` of its result and of
what it has written then, as long as all states satisfy `I`.
-/
def Emits (h : Handler L S) (I : Logged L S → Prop) (i : Nat) :
    Program L α → (α → List (LogEntry L S) → Prop) → List (LogEntry L S) → Prop
  | .ret a, Q, log => Q a log
  | .fail _, _, _ => True
  | .step o k, Q, log =>
    ∀ x, I x → x.byThread i = log → ∀ r s, h o x.state = some (r, s) →
      (k r).Emits h I i Q (log ++ [⟨i, x.state, o, r⟩])

namespace Emits

variable {h : Handler L S} {I : Logged L S → Prop} {i : Nat}

variable {p : Program L α} {P : α → List (LogEntry L S) → Prop} {log : List (LogEntry L S)}
  {Q : β → List (LogEntry L S) → Prop}

theorem mono {Q : α → List (LogEntry L S) → Prop} (hp : p.Emits h I i P log)
    (hPQ : ∀ a log, P a log → Q a log) : p.Emits h I i Q log := by
  induction p generalizing log with
  | ret a => exact hPQ a log hp
  | fail e => trivial
  | step o k ih => exact fun x hx hlog r s hexec => ih r (hp x hx hlog r s hexec)

theorem bind {f : α → Program L β} (hp : p.Emits h I i (fun a log => (f a).Emits h I i Q log) log) :
    (p >>= f).Emits h I i Q log := by
  induction p generalizing log with
  | ret a => exact hp
  | fail e => trivial
  | step o k ih => exact fun x hx hlog r s hexec => ih r (hp x hx hlog r s hexec)

theorem seq {f : α → Program L β} (hp : p.Emits h I i P log)
    (hf : ∀ a log, P a log → (f a).Emits h I i Q log) : (p >>= f).Emits h I i Q log :=
  bind (hp.mono hf)

end Emits

end Program

def Round.advance {L : Signature} {S : Type} (h : Handler L S) (i : Nat) :
    Nat → Round L S → Round L S
  | 0, c => c
  | n + 1, c =>
    match c.programs i with
    | .step o k =>
      match h o c.logged.state with
      | none => c
      | some (r, s) =>
        Round.advance h i n ⟨Function.update c.programs i (k r), c.logged.next i o r s⟩
    | _ => c

theorem turns_advance {L : Signature} {S : Type} (h : Handler L S) (i n : Nat)
    (c : Round L S) : Turns h c (c.advance h i n) := by
  induction n generalizing c with
  | zero => exact .refl
  | succ n ih =>
    rw [Round.advance]
    split
    · next o k hi =>
      split
      · exact .refl
      · next r s hexec => exact .head (.run i o k r s hi hexec) (ih _)
    · exact .refl

theorem Turns.emits {L : Signature} {S : Type} {h : Handler L S} {I : Logged L S → Prop}
    {Q : Nat → Unit → List (LogEntry L S) → Prop}
    (hI : ∀ x i o r s, I x → h o x.state = some (r, s) → I (x.next i o r s))
    {c c' : Round L S} (hturns : Turns h c c') (hc : I c.logged)
    (hemits : ∀ i, (c.programs i).Emits h I i (Q i) (c.logged.byThread i)) :
    I c'.logged ∧ ∀ i, (c'.programs i).Emits h I i (Q i) (c'.logged.byThread i) := by
  induction hturns with
  | refl => exact ⟨hc, hemits⟩
  | tail _ hturn ih =>
    obtain ⟨hx, hp⟩ := ih
    cases hturn with
    | run i o k r s hi hexec =>
      refine ⟨hI _ i o r s hx hexec, ?_⟩
      intro j
      by_cases hj : j = i
      · subst hj
        have hstep := hp j
        rw [hi] at hstep
        simpa using hstep _ hx rfl r s hexec
      · simpa [Function.update_of_ne hj, Logged.byThread_next_of_ne _ (Ne.symm hj)] using hp j

theorem Turns.ends {L : Signature} {S : Type} {h : Handler L S} {I : Logged L S → Prop}
    {Q : Nat → Unit → List (LogEntry L S) → Prop}
    (hI : ∀ x i o r s, I x → h o x.state = some (r, s) → I (x.next i o r s))
    {c : Round L S} {x : Logged L S} (hturns : Turns h c ⟨fun _ => .ret (), x⟩)
    (hc : I c.logged)
    (hemits : ∀ i, (c.programs i).Emits h I i (Q i) (c.logged.byThread i)) :
    I x ∧ ∀ i, Q i () (x.byThread i) :=
  hturns.emits hI hc hemits

/-! ## Systems with a log -/

namespace System

variable {L : Signature} {S T : Type}

/-- The same system; the instructions that are executed are logged. -/
def logged (sys : System L S T) : System L (Logged L S) T where
  handler i o x := (sys.handler i o x.state).map fun reply =>
    (reply.1, x.next i o reply.1 reply.2)
  program := sys.program
  starts := sys.starts
  beside := sys.beside
  beside_symm := sys.beside_symm
  may x := sys.may x.state
  aborts := sys.aborts
  finish i t x := { x with state := sys.finish i t x.state }
  abort i t x := { x with state := sys.abort i t x.state }

end System

namespace Pool

variable {L : Signature} {S T : Type}

def startLog (pool : Pool L S T) : Pool L (Logged L S) T := ⟨.start pool.shared, pool.threads⟩

def dropLog (pool : Pool L (Logged L S) T) : Pool L S T := ⟨pool.shared.state, pool.threads⟩

@[simp] theorem dropLog_startLog (pool : Pool L S T) : pool.startLog.dropLog = pool := rfl

end Pool

namespace System

variable {L : Signature} {S T : Type} {sys : System L S T}

theorem Argument.Sound.logged {X : Type} {A : sys.Argument X} (hA : A.Sound)
    {I : Logged L S → Prop}
    (hrun : ∀ {i t x y o r} log, A.inv x → A.guar i t x y →
      sys.handler i o (A.shared x) = some (r, A.shared y) → I ⟨A.shared x, log⟩ →
      I (Logged.next ⟨A.shared x, log⟩ i o r (A.shared y)))
    (hfinish : ∀ {i t x}, I x → I { x with state := sys.finish i t x.state })
    (habort : ∀ {i t x}, I x → I { x with state := sys.abort i t x.state })
    {pool pool' : Pool L (Logged L S) T} {x : X} (h : A.Holds pool.dropLog x)
    (hpool : I pool.shared) (hreach : sys.logged.Reaches pool pool') :
    (∃ y, A.Holds pool'.dropLog y) ∧ I pool'.shared := by
  induction hreach with
  | refl => exact ⟨⟨x, h⟩, hpool⟩
  | @tail current _ _ hstep ih =>
    obtain ⟨⟨y, hy⟩, hI⟩ := ih
    cases hstep with
    | start i t hi ht hbeside => exact ⟨hA.step hy (.start i t hi ht hbeside), hI⟩
    | finish i t hi => exact ⟨hA.step hy (.finish i t hi), hfinish hI⟩
    | abort i t p hi ht => exact ⟨hA.step hy (.abort i t p hi ht), habort hI⟩
    | run i t o k r s hi hmay hexec =>
      obtain ⟨⟨r', s'⟩, hexec', heq⟩ := Option.map_eq_some_iff.mp hexec
      cases heq
      refine ⟨hA.step hy (.run i t o k r' s' hi hmay hexec'), ?_⟩
      have hstate : current.shared.state = A.shared y := hy.shared.symm
      have hmay' : sys.may (A.shared y) t o := hstate ▸ hmay
      rw [hstate] at hexec'
      obtain ⟨z, rfl, -, hguar, -⟩ :=
        hy.safe i t _ hi y (A.rely_refl i t y) hy.inv hmay' r' s' hexec'
      have hcurrent : current.shared = ⟨A.shared y, current.shared.log⟩ := by
        rw [← hstate]
      rw [hcurrent]
      exact hrun current.shared.log hy.inv hguar hexec' (hcurrent ▸ hI)

end System

end PgVector.Foundation
