import Mathlib.Data.Nat.ModEq
import Mathlib.Data.Set.Card

/-! # Periodic deadlines

The deadlines d, d + i, d + 2i and so on, or d alone where i is zero, and how many of them have passed. -/

namespace Deadlines

/-- How many of the deadlines have passed at `e`. -/
def due (d i e : Nat) : Nat := if e < d then 0 else if i = 0 then 1 else (e - d) / i + 1

section
variable {d i e now c : Nat}

theorem due_before (h : e < d) : due d i e = 0 := if_pos h

theorem due_once (h : d ≤ e) : due d 0 e = 1 := by
  rw [due, if_neg (by omega), if_pos rfl]

theorem due_once_eq_zero : due d 0 e = 0 ↔ e < d := by
  by_cases h : e < d
  · exact iff_of_true (due_before h) h
  · rw [due_once (by omega)]
    omega

theorem due_late (hi : 0 < i) (h : d ≤ e) : due d i e = (e - d) / i + 1 := by
  rw [due, if_neg (by omega), if_neg (by omega)]

theorem lt_due_iff (hi : 0 < i) {k : Nat} : k < due d i e ↔ d + k * i ≤ e := by
  by_cases h : e < d
  · rw [due_before h]
    omega
  · rw [due_late hi (by omega), Nat.lt_succ_iff, Nat.le_div_iff_mul_le hi]
    omega

/-- As many deadlines have passed as there are `k` with d + k · i at most `e`. -/
theorem ncard_due (hi : 0 < i) : Set.ncard {k | d + k * i ≤ e} = due d i e := by
  have range : {k | d + k * i ≤ e} = ↑(Finset.range (due d i e)) := by
    ext k
    simp [lt_due_iff hi]
  rw [range, Set.ncard_coe_finset, Finset.card_range]

/-- When the next deadline is `d + c * i`, `c` have passed before. -/
theorem due_waiting (hi : 0 < i) (passed : c = 0 ∨ d + (c - 1) * i ≤ now) (next : now < d + c * i) :
    due d i now = c := by
  have up : ¬c < due d i now := fun h => absurd ((lt_due_iff hi).mp h) (by omega)
  rcases passed with rfl | passed
  · omega
  · have down := (lt_due_iff (e := now) hi).mpr passed
    omega

/-- The deadlines that have passed since `d + c * i` come on top of the `c` before. -/
theorem due_caught_up (hi : 0 < i) (next : d + c * i ≤ now) : due d i now = c + ((now - (d + c * i)) / i + 1) := by
  rw [due_late hi (by omega)]
  have split : now - d = now - (d + c * i) + c * i := by omega
  rw [split, Nat.add_mul_div_right _ _ hi]
  omega

/-- The deadline after those that have passed is still to come. -/
theorem lt_next (hi : 0 < i) (next : d ≤ now) : now < d + ((now - d) / i + 1) * i := by
  have := Nat.lt_div_mul_add (a := now - d) hi
  rw [Nat.add_mul]
  omega

end

end Deadlines
