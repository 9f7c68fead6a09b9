import PgVector.Foundation.Interference

/-!
# Programs over a part of the instructions

A program over some of the instructions of a language is a program of the whole
language.  What is proved about it under a discipline for its own instructions
holds of it there.
-/

namespace PgVector.Foundation

structure Embedding (L L' : Signature) where
  op : L.Op → L'.Op
  reply : (o : L.Op) → L'.Res (op o) → L.Res o
  err : L.Err → L'.Err

def Discipline.comap {L L' : Signature} {S X : Type} (D : Discipline L' S X)
    (e : Embedding L L') : Discipline L S X where
  handler o s := (D.handler (e.op o) s).map fun r => (e.reply o r.1, r.2)
  shared := D.shared
  inv := D.inv
  rely := D.rely
  guar := D.guar
  may x o := D.may x (e.op o)
  allowed err x := D.allowed (e.err err) x
  rely_refl := D.rely_refl
  rely_trans := D.rely_trans

namespace Program

variable {L L' : Signature} {S X α β : Type} (e : Embedding L L')

def embed : Program L α → Program L' α
  | .ret a => .ret a
  | .fail err => .fail (e.err err)
  | .step o k => .step (e.op o) fun r => (k (e.reply o r)).embed

variable {e}

theorem Safe.embed {D : Discipline L' S X} {p : Program L α} {Q : α → X → Prop} {x : X}
    (hp : p.Safe (D.comap e) Q x) : (p.embed e).Safe D Q x := by
  induction p generalizing x with
  | ret a => exact hp
  | fail err => exact hp
  | step o k ih =>
    intro y hxy hy hmay r s hexec
    have hexec' : (D.comap e).handler o (D.shared y) = some (e.reply o r, s) := by
      simp only [Discipline.comap, hexec, Option.map_some]
    obtain ⟨z, hz, hinv, hguar, hk⟩ := hp y hxy hy hmay _ s hexec'
    exact ⟨z, hz, hinv, hguar, ih _ hk⟩

end Program

end PgVector.Foundation
