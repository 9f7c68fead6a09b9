import PgVector.Foundation.Program

/-!
# Searches that stop early

A program tries the entries of a list one by one until one of them accepts.  If
it also stops at the first entry that is not wanted, it finds what a search of
the whole list finds exactly if a wanted entry that accepts comes before.
-/

namespace PgVector.Foundation

section List

variable {α : Type} {wanted accepts : α → Prop} {a : α} {l : List α}

end List

variable {L : Signature} {S α : Type}

namespace Tries

variable {h : Handler L S} {s : S} {valid wanted accepts : α → Prop} {after : α → S}
  {stops : Bool} {find findAll : List α → Program L Bool} {l : List α}

end Tries

end PgVector.Foundation
