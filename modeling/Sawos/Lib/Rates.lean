import Mathlib.Order.GaloisConnection.Basic
import Mathlib.Algebra.Order.Ring.Nat

/-! # Rates

A counter that counts `p` units in `q` of a finer measure. A time is rounded up to a unit and a unit down to a time,
and the two roundings are adjoint: a unit has come to a time exactly when it is not before the time's unit. -/

namespace Rates

/-- The first unit that is not before `n`. -/
def up (p q n : Nat) : Nat := (n * p + q - 1) / q

/-- The time of the unit `u`. -/
def down (p q u : Nat) : Nat := u * q / p

section
variable {p q : Nat}

theorem up_le_iff (hp : 0 < p) (hq : 0 < q) {n u : Nat} : up p q n ≤ u ↔ n ≤ down p q u := by
  rw [up, down, Nat.le_div_iff_mul_le hp, Nat.div_le_iff_le_mul_add_pred hq, Nat.mul_comm q u]
  omega

theorem gc (hp : 0 < p) (hq : 0 < q) : GaloisConnection (up p q) (down p q) := fun _ _ => up_le_iff hp hq

/-- No unit counts for more than a time that is as fine. -/
theorem up_le_self (hp : 0 < p) (fine : p ≤ q) (n : Nat) : up p q n ≤ n :=
  (up_le_iff hp (Nat.lt_of_lt_of_le hp fine)).mpr
    ((Nat.le_div_iff_mul_le hp).mpr (Nat.mul_le_mul_left n fine))

/-- Whole parts and the rest are scaled on their own. -/
theorem split_div (n c r : Nat) (hq : 0 < q) : n / q * c + (n % q * c + r) / q = (n * c + r) / q := by
  have whole : n * c + r = n % q * c + r + q * (n / q * c) := by
    have parts := congrArg (· * c) (Nat.div_add_mod n q)
    simp only [Nat.add_mul] at parts
    rw [← parts, Nat.mul_assoc]
    omega
  rw [whole, Nat.add_mul_div_left _ _ hq, Nat.add_comm]

/-- A function that goes up, and is cut off at `c` behind `g`, goes up as far as `m`. -/
theorem cut_mono {f : Nat → Nat} {g c m a n : Nat} (mono : Monotone f) (reaches : f (min g m) ≤ c)
    (le : a ≤ n) (bound : n ≤ m) :
    (if g < a then c else f a) ≤ if g < n then c else f n := by
  by_cases above : g < a
  · rw [if_pos above, if_pos (Nat.lt_of_lt_of_le above le)]
  · rw [if_neg above]
    split
    · exact Nat.le_trans (mono (Nat.le_min.mpr ⟨Nat.le_of_not_lt above, Nat.le_trans le bound⟩)) reaches
    · exact mono le

end

end Rates
