import Mathlib.Algebra.Order.Group.Defs
import Mathlib.Order.Lattice

/- Values clamped to an interval, and windows of a given width placed in one. -/
namespace Clamping

section Order

variable {A : Type} [LinearOrder A] {v lo hi : A}

/- Where the bounds cross the lower one wins. -/
def clamp (v lo hi : A) : A := max lo (min hi v)

theorem le_clamp : lo ≤ clamp v lo hi := le_max_left lo (min hi v)

theorem clamp_le (ordered : lo ≤ hi) : clamp v lo hi ≤ hi := max_le ordered (min_le_left hi v)

theorem clamp_of_mem (low : lo ≤ v) (high : v ≤ hi) : clamp v lo hi = v := by
  rw [clamp, min_eq_right high, max_eq_right low]

end Order

variable {A : Type} [AddCommGroup A] [LinearOrder A] [IsOrderedAddMonoid A]

theorem placed_iff (v lo hi width : A) :
    clamp v lo (hi - width) + width ≤ hi ↔ width ≤ hi - lo := by
  constructor
  · intro inside
    rw [le_sub_iff_add_le']
    exact le_trans (add_le_add_left le_clamp width) inside
  · intro narrow
    rw [← le_sub_iff_add_le]
    exact clamp_le (le_sub_comm.mp narrow)

end Clamping
