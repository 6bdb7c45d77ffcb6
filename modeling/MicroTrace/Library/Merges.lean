import Mathlib.Data.List.Basic
import Mathlib.Logic.Function.Basic

/- A list put together from several, each of them kept in its own order with nothing left out
   and nothing added. -/
namespace Merges
variable {I A : Type} [DecidableEq I]

/-- Some assignment of the elements to the parts gives back every part. -/
def Merge (parts : I → List A) (l : List A) : Prop :=
  ∃ tagged : List (I × A), tagged.map Prod.snd = l ∧
    ∀ i, (tagged.filter fun t => t.1 = i).map Prod.snd = parts i

end Merges
