import PgVector.Foundation.Interference

/-!
# Pools of programs

Programs are started, take turns one instruction at a time, and end: a program
that has returned finishes, and a program can be aborted between two of its
instructions, after an error or because it is interrupted.  An `Argument` gives
every kind of program a discipline; if the programs are safe and the disciplines
fit together, the invariant holds in every pool that is reached.
-/

namespace PgVector.Foundation

structure Pool (L : Signature) (S T : Type) where
  shared : S
  threads : Nat → Option (T × Program L Unit)

/-- The programs that are run in a pool, one for each task of type `T`. -/
structure System (L : Signature) (S T : Type) where
  handler : Nat → Handler L S
  program : T → Program L Unit
  starts : T → Prop
  /-- The tasks that may run beside one another. -/
  beside : T → T → Prop
  beside_symm : ∀ {t t'}, beside t t' → beside t' t
  /-- The instructions that are considered in a state. -/
  may : S → T → L.Op → Prop
  /-- The tasks that can be aborted. -/
  aborts : T → Prop
  finish : Nat → T → S → S
  abort : Nat → T → S → S

namespace Pool

variable {L : Signature} {S T : Type}

def idle (s : S) : Pool L S T := ⟨s, fun _ => none⟩

def only (s : S) (i : Nat) (t : T) (p : Program L Unit) : Pool L S T :=
  ⟨s, Function.update (fun _ => none) i (some (t, p))⟩

theorem only_threads {s : S} {i j : Nat} {t t' : T} {p p' : Program L Unit}
    (h : (only s i t p).threads j = some (t', p')) : j = i ∧ t' = t ∧ p' = p := by
  by_cases hji : j = i
  · subst hji
    have hself : some (t, p) = some (t', p') := by
      simpa only [only, Function.update_self] using h
    cases hself
    exact ⟨rfl, rfl, rfl⟩
  · simp [only, Function.update_of_ne hji] at h

end Pool

namespace System

variable {L : Signature} {S T : Type}

inductive Step (sys : System L S T) : Pool L S T → Pool L S T → Prop
  | start {pool : Pool L S T} (i : Nat) (t : T) :
      pool.threads i = none → sys.starts t →
      (∀ j t' p, pool.threads j = some (t', p) → sys.beside t t') →
      Step sys pool
        { pool with
          threads := Function.update pool.threads i (some (t, sys.program t)) }
  | run {pool : Pool L S T} (i : Nat) (t : T) (o : L.Op)
      (k : L.Res o → Program L Unit) (r : L.Res o) (s : S) :
      pool.threads i = some (t, .step o k) → sys.may pool.shared t o →
      sys.handler i o pool.shared = some (r, s) →
      Step sys pool ⟨s, Function.update pool.threads i (some (t, k r))⟩
  | finish {pool : Pool L S T} (i : Nat) (t : T) :
      pool.threads i = some (t, .ret ()) →
      Step sys pool ⟨sys.finish i t pool.shared, Function.update pool.threads i none⟩
  | abort {pool : Pool L S T} (i : Nat) (t : T) (p : Program L Unit) :
      pool.threads i = some (t, p) → sys.aborts t →
      Step sys pool ⟨sys.abort i t pool.shared, Function.update pool.threads i none⟩

def Reaches (sys : System L S T) : Pool L S T → Pool L S T → Prop :=
  Relation.ReflTransGen sys.Step

variable {pool pool' : Pool L S T} {c : T → Prop}

theorem Reaches.invariant {sys : System L S T} {I : S → Prop}
    (hrun : ∀ i o s r s', I s → sys.handler i o s = some (r, s') → I s')
    (hfinish : ∀ i t s, I s → I (sys.finish i t s)) (habort : ∀ i t s, I s → I (sys.abort i t s))
    (h : sys.Reaches pool pool') (hpool : I pool.shared) : I pool'.shared := by
  induction h with
  | refl => exact hpool
  | tail _ hstep ih =>
    cases hstep with
    | start i t => exact ih
    | run i t o k r s _ _ hexec => exact hrun i o _ r s ih hexec
    | finish i t => exact hfinish i t _ ih
    | abort i t => exact habort i t _ ih

theorem reaches_run {sys : System L S T} (hmay : ∀ s t o, sys.may s t o) {i : Nat} (t : T)
    (p : Program L Unit) {s s' : S} (threads : Nat → Option (T × Program L Unit))
    (hrun : p.run (sys.handler i) s = (.done (), s')) :
    sys.Reaches ⟨s, Function.update threads i (some (t, p))⟩
      ⟨s', Function.update threads i (some (t, .ret ()))⟩ := by
  induction p generalizing s with
  | ret a =>
    obtain ⟨-, rfl⟩ := Prod.mk.inj hrun
    exact .refl
  | fail e => simp at hrun
  | step o k ih =>
    rw [Program.run_step] at hrun
    split at hrun
    · simp at hrun
    · next r s₁ hexec =>
      refine .head (.run i t o k r s₁ ?_ (hmay _ _ _) hexec) ?_
      · exact Function.update_self ..
      · rw [Function.update_idem]
        exact ih r hrun

theorem reaches_alone {sys : System L S T} (hmay : ∀ s t o, sys.may s t o) (i : Nat) (t : T)
    {s s'' : S} (s' : S) (hstart : sys.starts t)
    (hrun : (sys.program t).run (sys.handler i) s = (.done (), s'))
    (hend : sys.finish i t s' = s'') : sys.Reaches (Pool.idle s) (Pool.idle s'') := by
  subst hend
  refine .head (.start i t rfl hstart (by simp [Pool.idle])) ?_
  refine (reaches_run hmay t _ (fun _ => none) hrun).tail ?_
  have hfinish : sys.Step ⟨s', Function.update (fun _ => none) i (some (t, .ret ()))⟩
      ⟨sys.finish i t s', Function.update (Function.update (fun _ => none) i
        (some (t, .ret ()))) i none⟩ :=
    .finish i t (by simp)
  rw [Function.update_idem, Function.update_eq_self] at hfinish
  exact hfinish

/-! ## Runs that are given by their turns -/

inductive Turn (T : Type) where
  | start (i : Nat) (t : T)
  /-- Thread `i` executes `n` instructions, or all it has left. -/
  | run (i n : Nat)

def Turn.tasks : List (Turn T) → List T
  | [] => []
  | .start _ t :: turns => t :: tasks turns
  | .run _ _ :: turns => tasks turns

section Turns

variable (sys : System L S T) [∀ s t o, Decidable (sys.may s t o)]

def advance (i : Nat) : Nat → Pool L S T → Option (Pool L S T)
  | 0, pool => some pool
  | n + 1, pool =>
    match pool.threads i with
    | some (t, .step o k) =>
      if sys.may pool.shared t o then
        (sys.handler i o pool.shared).bind fun reply =>
          advance i n ⟨reply.2, Function.update pool.threads i (some (t, k reply.1))⟩
      else none
    | _ => some pool

def perform : List (Turn T) → Pool L S T → Option (Pool L S T)
  | [], pool => some pool
  | .start i t :: turns, pool =>
    if (pool.threads i).isNone then
      perform turns
        { pool with threads := Function.update pool.threads i (some (t, sys.program t)) }
    else none
  | .run i n :: turns, pool => (sys.advance i n pool).bind (perform turns)

variable {sys}

theorem reaches_advance {i n : Nat} (h : sys.advance i n pool = some pool') :
    sys.Reaches pool pool' ∧
      ∀ j t p, pool'.threads j = some (t, p) → ∃ q, pool.threads j = some (t, q) := by
  induction n generalizing pool with
  | zero =>
    cases h
    exact ⟨.refl, fun _ _ p hj => ⟨p, hj⟩⟩
  | succ n ih =>
    unfold advance at h
    split at h
    · next t o k hi =>
      obtain ⟨hmay, hexec⟩ := Option.ite_none_right_eq_some.mp h
      obtain ⟨⟨r, s⟩, hexec, hrest⟩ := Option.bind_eq_some_iff.mp hexec
      obtain ⟨hreach, hthreads⟩ := ih hrest
      refine ⟨.head (.run i t o k r s hi hmay hexec) hreach, fun j t' p hj => ?_⟩
      obtain ⟨q, hq⟩ := hthreads j t' p hj
      dsimp only at hq
      by_cases hij : j = i
      · subst hij
        rw [Function.update_self] at hq
        cases hq
        exact ⟨_, hi⟩
      · rw [Function.update_of_ne hij] at hq
        exact ⟨q, hq⟩
    · cases h
      exact ⟨.refl, fun _ _ p hj => ⟨p, hj⟩⟩

theorem reaches_perform {turns : List (Turn T)} (hstarts : ∀ t ∈ Turn.tasks turns, sys.starts t)
    (hbeside : (Turn.tasks turns).Pairwise sys.beside)
    (hpool : ∀ j t p, pool.threads j = some (t, p) → ∀ t' ∈ Turn.tasks turns, sys.beside t' t)
    (h : sys.perform turns pool = some pool') : sys.Reaches pool pool' := by
  induction turns generalizing pool with
  | nil =>
    cases h
    exact .refl
  | cons turn turns ih =>
    cases turn with
    | start i t =>
      simp only [Turn.tasks] at hstarts hbeside hpool
      obtain ⟨hfirst, hbeside⟩ := List.pairwise_cons.mp hbeside
      unfold perform at h
      split at h
      · next hnone =>
        refine .head (.start i t (Option.isNone_iff_eq_none.mp hnone)
          (hstarts t (List.mem_cons_self ..))
          fun j t' p hj => hpool j t' p hj t (List.mem_cons_self ..)) ?_
        refine ih (fun t' ht' => hstarts t' (.tail _ ht')) hbeside ?_ h
        intro j t' p hj t'' ht''
        dsimp only at hj
        by_cases hij : j = i
        · subst hij
          rw [Function.update_self] at hj
          cases hj
          exact sys.beside_symm (hfirst t'' ht'')
        · rw [Function.update_of_ne hij] at hj
          exact hpool j t' p hj t'' (.tail _ ht'')
      · cases h
    | run i n =>
      obtain ⟨between, hadvance, hrest⟩ := Option.bind_eq_some_iff.mp h
      obtain ⟨hreach, hthreads⟩ := reaches_advance hadvance
      refine hreach.trans (ih hstarts hbeside (fun j t p hj => ?_) hrest)
      obtain ⟨q, hq⟩ := hthreads j t p hj
      exact hpool j t q hq

variable (sys)

theorem reaches_observed (turns : List (Turn T)) (s : S) {β : Type} (observe : Pool L S T → β)
    (b : β) (hstarts : ∀ t ∈ Turn.tasks turns, sys.starts t)
    (hbeside : (Turn.tasks turns).Pairwise sys.beside)
    (h : (sys.perform turns (Pool.idle s)).map observe = some b) :
    ∃ pool, sys.Reaches (Pool.idle s) pool ∧ observe pool = b := by
  obtain ⟨pool, hperform, hobserve⟩ := Option.map_eq_some_iff.mp h
  exact ⟨pool, reaches_perform hstarts hbeside (by simp [Pool.idle]) hperform, hobserve⟩

end Turns

def error? (i : Nat) (pool : Pool L S T) : Option L.Err :=
  match pool.threads i with
  | some (_, .fail e) => some e
  | _ => none

def returned (i : Nat) (pool : Pool L S T) : Bool :=
  match pool.threads i with
  | some (_, .ret _) => true
  | _ => false

theorem ret_of_returned {i : Nat} {t : T} {p : Program L Unit} (h : returned i pool = true)
    (hi : pool.threads i = some (t, p)) : p = .ret () := by
  unfold returned at h
  rw [hi] at h
  cases p with
  | ret a => rfl
  | fail e => cases h
  | step o k => cases h

theorem threads_of_error? {i : Nat} {e : L.Err} (h : error? i pool = some e) :
    ∃ t, pool.threads i = some (t, .fail e) := by
  unfold error? at h
  split at h
  · next t e' hi =>
    cases h
    exact ⟨t, hi⟩
  · cases h

/-! ## Restricted systems -/

def starting (sys : System L S T) (c : T → Prop) : System L S T :=
  { sys with starts := fun t => sys.starts t ∧ c t }

/-- The tasks of `c` run to their end with nothing beside them. -/
def alone (sys : System L S T) (c : T → Prop) : System L S T :=
  { sys with
    beside := fun t t' => sys.beside t t' ∧ ¬ c t ∧ ¬ c t'
    beside_symm := fun h => ⟨sys.beside_symm h.1, h.2.2, h.2.1⟩
    aborts := fun t => sys.aborts t ∧ ¬ c t }

/-- Instructions are executed only where `I` holds. -/
def assuming (sys : System L S T) (I : S → Prop) : System L S T :=
  { sys with may := fun s t o => sys.may s t o ∧ I s }

theorem Step.of_alone {sys : System L S T} (h : (sys.alone c).Step pool pool') :
    sys.Step pool pool' := by
  cases h with
  | start i t hi ht hbeside => exact .start i t hi ht fun j t' p hj => (hbeside j t' p hj).1
  | run i t o k r s hi hmay hexec => exact .run i t o k r s hi hmay hexec
  | finish i t hi => exact .finish i t hi
  | abort i t p hi ht => exact .abort i t p hi ht.1

theorem Reaches.of_alone {sys : System L S T} (h : (sys.alone c).Reaches pool pool') :
    sys.Reaches pool pool' :=
  Relation.ReflTransGen.mono (fun _ _ hstep => Step.of_alone hstep) _ _ h

theorem Reaches.assuming {sys : System L S T} {I : S → Prop}
    (hI : ∀ between, sys.Reaches pool between → I between.shared) (h : sys.Reaches pool pool') :
    (sys.assuming I).Reaches pool pool' := by
  induction h with
  | refl => exact .refl
  | tail hreach hstep ih =>
    refine ih.tail ?_
    cases hstep with
    | start i t hi ht hbeside => exact .start i t hi ht hbeside
    | run i t o k r s hi hmay hexec => exact .run i t o k r s hi ⟨hmay, hI _ hreach⟩ hexec
    | finish i t hi => exact .finish i t hi
    | abort i t p hi ht => exact .abort i t p hi ht

theorem Step.starting {sys : System L S T} (h : sys.Step pool pool')
    (hothers : ∀ i t p, pool'.threads i = some (t, p) → ¬ c t) :
    (sys.starting fun t => ¬ c t).Step pool pool' := by
  cases h with
  | start i t hi ht hbeside =>
    have hthread : Function.update pool.threads i (some (t, sys.program t)) i =
        some (t, sys.program t) := Function.update_self ..
    exact .start i t hi ⟨ht, hothers i t _ hthread⟩ hbeside
  | run i t o k r s hi hmay hexec => exact .run i t o k r s hi hmay hexec
  | finish i t hi => exact .finish i t hi
  | abort i t p hi ht => exact .abort i t p hi ht

theorem Step.alone_cases {sys : System L S T} (h : (sys.alone c).Step pool pool')
    (hothers : ∀ i t p, pool.threads i = some (t, p) → ¬ c t) :
    (∀ i t p, pool'.threads i = some (t, p) → ¬ c t) ∨
      ∃ i t, c t ∧ sys.starts t ∧ pool' = Pool.only pool.shared i t (sys.program t) := by
  -- the thread that takes the step runs what it ran before
  have hupdate {i : Nat} {next : Option (T × Program L Unit)}
      (hnext : ∀ t p, next = some (t, p) → ¬ c t) (j : Nat) (t : T) (p : Program L Unit)
      (hj : Function.update pool.threads i next j = some (t, p)) : ¬ c t := by
    by_cases hji : j = i
    · subst hji
      rw [Function.update_self] at hj
      exact hnext t p hj
    · rw [Function.update_of_ne hji] at hj
      exact hothers j t p hj
  cases h with
  | start i t hi ht hbeside =>
    by_cases hc : c t
    · refine .inr ⟨i, t, hc, ht, ?_⟩
      have hidle : pool.threads = fun _ => none := by
        funext j
        cases hj : pool.threads j with
        | none => rfl
        | some entry => exact absurd hc (hbeside j entry.1 entry.2 hj).2.1
      rw [hidle]
      rfl
    · refine .inl (hupdate ?_)
      rintro _ _ ⟨⟩
      exact hc
  | run i t o k r s hi =>
    refine .inl (hupdate ?_)
    rintro _ _ ⟨⟩
    exact hothers i t _ hi
  | finish i t hi => exact .inl (hupdate (by simp))
  | abort i t p hi => exact .inl (hupdate (by simp))

/--
The tasks of `c` take turns with the others.  In between, and as long as only the others
run, `P` holds.
-/
theorem Reaches.turns {sys : System L S T} {P : S → Prop}
    {R : Nat → T → Program L Unit → S → Prop}
    (hothers : ∀ s pool, P s → (sys.starting fun t => ¬ c t).Reaches (Pool.idle s) pool →
      P pool.shared) (hstart : ∀ i t s, P s → c t → sys.starts t → R i t (sys.program t) s)
    (hrun : ∀ i t o k s r s', R i t (.step o k) s → sys.may s t o →
      sys.handler i o s = some (r, s') → R i t (k r) s')
    (hfinish : ∀ i t s, R i t (.ret ()) s → P (sys.finish i t s)) {s : S}
    (h : (sys.alone c).Reaches (Pool.idle s) pool) (hs : P s) :
    (P pool.shared ∧ ∀ i t p, pool.threads i = some (t, p) → ¬ c t) ∨
      ∃ i t p s', pool = Pool.only s' i t p ∧ c t ∧ R i t p s' := by
  -- the others have run since the last task of `c`
  have hturns : (∃ s', P s' ∧ (sys.starting fun t => ¬ c t).Reaches (Pool.idle s') pool ∧
        ∀ i t p, pool.threads i = some (t, p) → ¬ c t) ∨
      ∃ i t p s', pool = Pool.only s' i t p ∧ c t ∧ R i t p s' := by
    induction h with
    | refl => exact .inl ⟨s, hs, .refl, by simp [Pool.idle]⟩
    | tail _ hstep ih =>
      rcases ih with ⟨s', hs', hreach, hthreads⟩ | ⟨i, t, p, s', rfl, ht, hR⟩
      · rcases hstep.alone_cases hthreads with hnext | ⟨i, t, ht, hstarts, rfl⟩
        · exact .inl ⟨s', hs', hreach.tail (hstep.of_alone.starting hnext), hnext⟩
        · have hP := hothers s' _ hs' hreach
          exact .inr ⟨i, t, _, _, rfl, ht, hstart i t _ hP ht hstarts⟩
      · cases hstep with
        | start j t' _ _ hbeside =>
          have hi : (Pool.only s' i t p).threads i = some (t, p) := by simp [Pool.only]
          exact absurd ht (hbeside i t p hi).2.2
        | run j t' o k r s₁ hj hmay hexec =>
          obtain ⟨rfl, rfl, rfl⟩ := Pool.only_threads hj
          refine .inr ⟨j, t', k r, s₁, ?_, ht, hrun j t' o k s' r s₁ hR hmay hexec⟩
          simp only [Pool.only, Function.update_idem]
        | finish j t' hj =>
          obtain ⟨rfl, rfl, rfl⟩ := Pool.only_threads hj
          refine .inl ⟨_, hfinish j t' s' hR, ?_, ?_⟩
          · simp only [Pool.only, Function.update_idem, Function.update_eq_self]
            exact .refl
          · simp [Pool.only]
        | abort j t' p' hj haborts =>
          obtain ⟨rfl, rfl, rfl⟩ := Pool.only_threads hj
          exact absurd ht haborts.2
  rcases hturns with ⟨s', hs', hreach, hthreads⟩ | hturn
  · exact .inl ⟨hothers s' pool hs' hreach, hthreads⟩
  · exact .inr hturn

/-! ## Arguments about all tasks -/

/-- A proof about a system: a discipline for each task, on states with bookkeeping. -/
structure Argument (sys : System L S T) (X : Type) where
  shared : X → S
  inv : X → Prop
  rely : Nat → T → X → X → Prop
  allowed : L.Err → Prop
  /-- What holds of a thread that runs nothing. -/
  resting : Nat → X → Prop
  /-- What holds of a thread as long as it runs. -/
  during : Nat → T → X → Prop
  /-- What holds of a thread that has run its program. -/
  post : Nat → T → X → Prop
  rely_refl : ∀ i t x, rely i t x x
  rely_trans : ∀ i t {x y z}, rely i t x y → rely i t y z → rely i t x z
  during_rely : ∀ i t {x y}, rely i t x y → during i t x → during i t y

namespace Argument

variable {sys : System L S T} {X : Type} (A : Argument sys X)

/-- What a change by thread `i` has to look like to all others. -/
structure Unnoticed (i : Nat) (t : T) (x y : X) : Prop where
  rely : ∀ j t', j ≠ i → sys.beside t t' → A.rely j t' x y
  resting : ∀ j, j ≠ i → A.resting j x → A.resting j y

def guar (i : Nat) (t : T) (x y : X) : Prop :=
  A.Unnoticed i t x y ∧ (A.during i t x → A.during i t y)

def discipline (i : Nat) (t : T) : Discipline L S X where
  handler := sys.handler i
  shared := A.shared
  inv := A.inv
  rely := A.rely i t
  guar := A.guar i t
  may x o := sys.may (A.shared x) t o
  allowed e _ := A.allowed e
  rely_refl := A.rely_refl i t
  rely_trans := A.rely_trans i t

/-- What has to be proved about each task. -/
structure Sound : Prop where
  start : ∀ i t x, sys.starts t → A.inv x → A.resting i x → A.during i t x
  program : ∀ i t x, sys.starts t → A.inv x → A.resting i x →
    (sys.program t).Safe (A.discipline i t) (fun _ => A.post i t) x
  finish : ∀ i t x, A.inv x → A.post i t x →
    ∃ y, A.shared y = sys.finish i t (A.shared x) ∧ A.inv y ∧ A.resting i y ∧ A.Unnoticed i t x y
  abort : ∀ i t x, sys.aborts t → A.inv x → A.during i t x →
    ∃ y, A.shared y = sys.abort i t (A.shared x) ∧ A.inv y ∧ A.resting i y ∧ A.Unnoticed i t x y

/-- The state of a pool, seen with bookkeeping `x`. -/
structure Holds (pool : Pool L S T) (x : X) : Prop where
  shared : A.shared x = pool.shared
  inv : A.inv x
  resting : ∀ i, pool.threads i = none → A.resting i x
  safe : ∀ i t p, pool.threads i = some (t, p) → p.Safe (A.discipline i t) (fun _ => A.post i t) x
  during : ∀ i t p, pool.threads i = some (t, p) → A.during i t x
  beside : ∀ i j t t' p p', i ≠ j → pool.threads i = some (t, p) →
    pool.threads j = some (t', p') → sys.beside t t'

variable {A}

theorem holds_idle {x : X} (hx : A.inv x) (hrest : ∀ i, A.resting i x) :
    A.Holds (Pool.idle (A.shared x)) x where
  shared := rfl
  inv := hx
  resting := fun i _ => hrest i
  safe := by simp [Pool.idle]
  during := by simp [Pool.idle]
  beside := by simp [Pool.idle]

variable {pool : Pool L S T}

theorem Holds.update {x y : X} (h : A.Holds pool x) {i : Nat} {t : T} {p : Program L Unit}
    (hi : pool.threads i = some (t, p)) {next : Option (T × Program L Unit)} (hy : A.inv y)
    (hguar : A.Unnoticed i t x y) (hrest : next = none → A.resting i y)
    (hnext : ∀ t' q, next = some (t', q) →
      t' = t ∧ A.during i t y ∧ q.Safe (A.discipline i t) (fun _ => A.post i t) y) :
    A.Holds ⟨A.shared y, Function.update pool.threads i next⟩ y := by
  constructor
  · rfl
  · exact hy
  · intro j hj
    dsimp only at hj
    by_cases hij : j = i
    · subst hij
      rw [Function.update_self] at hj
      exact hrest hj
    · rw [Function.update_of_ne hij] at hj
      exact hguar.resting j hij (h.resting j hj)
  · intro j t' q hj
    dsimp only at hj
    by_cases hij : j = i
    · subst hij
      rw [Function.update_self] at hj
      obtain ⟨rfl, -, hq⟩ := hnext t' q hj
      exact hq
    · rw [Function.update_of_ne hij] at hj
      have hbeside := h.beside i j t t' p q (Ne.symm hij) hi hj
      exact (h.safe j t' q hj).stable (hguar.rely j t' hij hbeside)
  · intro j t' q hj
    dsimp only at hj
    by_cases hij : j = i
    · subst hij
      rw [Function.update_self] at hj
      obtain ⟨rfl, hduring, -⟩ := hnext t' q hj
      exact hduring
    · rw [Function.update_of_ne hij] at hj
      have hbeside := h.beside i j t t' p q (Ne.symm hij) hi hj
      exact A.during_rely j t' (hguar.rely j t' hij hbeside) (h.during j t' q hj)
  · intro j j' t₁ t₂ q₁ q₂ hne hj hj'
    dsimp only at hj hj'
    by_cases hij : j = i
    · subst hij
      rw [Function.update_self] at hj
      rw [Function.update_of_ne (Ne.symm hne)] at hj'
      obtain ⟨rfl, -⟩ := hnext t₁ q₁ hj
      exact h.beside j j' t₁ t₂ p q₂ hne hi hj'
    · rw [Function.update_of_ne hij] at hj
      by_cases hij' : j' = i
      · subst hij'
        rw [Function.update_self] at hj'
        obtain ⟨rfl, -⟩ := hnext t₂ q₂ hj'
        exact h.beside j j' t₁ t₂ q₁ p hne hj hi
      · rw [Function.update_of_ne hij'] at hj'
        exact h.beside j j' t₁ t₂ q₁ q₂ hne hj hj'

theorem Sound.step (hA : A.Sound) {pool' : Pool L S T} {x : X} (h : A.Holds pool x)
    (hstep : sys.Step pool pool') : ∃ y, A.Holds pool' y := by
  cases hstep with
  | start i t hi ht hbeside =>
    refine ⟨x, h.shared, h.inv, ?_, ?_, ?_, ?_⟩
    · intro j hj
      dsimp only at hj
      by_cases hij : j = i
      · subst hij
        simp at hj
      · rw [Function.update_of_ne hij] at hj
        exact h.resting j hj
    · intro j t' q hj
      dsimp only at hj
      by_cases hij : j = i
      · subst hij
        rw [Function.update_self] at hj
        cases hj
        exact hA.program j t x ht h.inv (h.resting j hi)
      · rw [Function.update_of_ne hij] at hj
        exact h.safe j t' q hj
    · intro j t' q hj
      dsimp only at hj
      by_cases hij : j = i
      · subst hij
        rw [Function.update_self] at hj
        cases hj
        exact hA.start j t x ht h.inv (h.resting j hi)
      · rw [Function.update_of_ne hij] at hj
        exact h.during j t' q hj
    · intro j j' t₁ t₂ q₁ q₂ hne hj hj'
      dsimp only at hj hj'
      by_cases hij : j = i
      · subst hij
        rw [Function.update_self] at hj
        rw [Function.update_of_ne (Ne.symm hne)] at hj'
        cases hj
        exact hbeside j' t₂ q₂ hj'
      · rw [Function.update_of_ne hij] at hj
        by_cases hij' : j' = i
        · subst hij'
          rw [Function.update_self] at hj'
          obtain ⟨rfl, rfl⟩ := Prod.mk.inj (Option.some.inj hj')
          exact sys.beside_symm (hbeside j t₁ q₁ hj)
        · rw [Function.update_of_ne hij'] at hj'
          exact h.beside j j' t₁ t₂ q₁ q₂ hne hj hj'
  | run i t o k r s hi hmay hexec =>
    rw [← h.shared] at hmay hexec
    obtain ⟨y, rfl, hy, hguar, hk⟩ := h.safe i t _ hi x (A.rely_refl i t x) h.inv hmay r s hexec
    refine ⟨y, h.update hi hy hguar.1 (by simp) ?_⟩
    intro t' q heq
    cases heq
    exact ⟨rfl, hguar.2 (h.during i t _ hi), hk⟩
  | finish i t hi =>
    have hpost := h.safe i t _ hi x (A.rely_refl i t x) h.inv
    obtain ⟨y, hshared, hy, hrest, hguar⟩ := hA.finish i t x h.inv hpost
    rw [← h.shared, ← hshared]
    exact ⟨y, h.update hi hy hguar (fun _ => hrest) (by simp)⟩
  | abort i t p hi ht =>
    obtain ⟨y, hshared, hy, hrest, hguar⟩ := hA.abort i t x ht h.inv (h.during i t p hi)
    rw [← h.shared, ← hshared]
    exact ⟨y, h.update hi hy hguar (fun _ => hrest) (by simp)⟩

theorem Sound.reaches (hA : A.Sound) {pool' : Pool L S T} {x : X} (h : A.Holds pool x)
    (hreach : sys.Reaches pool pool') : ∃ y, A.Holds pool' y := by
  induction hreach with
  | refl => exact ⟨x, h⟩
  | tail _ hstep ih =>
    obtain ⟨y, hy⟩ := ih
    exact hA.step hy hstep

theorem Holds.allowed {x : X} (h : A.Holds pool x) {i : Nat} {t : T} {e : L.Err}
    (hi : pool.threads i = some (t, .fail e)) : A.allowed e :=
  h.safe i t _ hi x (A.rely_refl i t x) h.inv

end Argument

end System

end PgVector.Foundation
