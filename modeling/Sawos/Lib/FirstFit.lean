import Mathlib.Order.Lattice
import Mathlib.Data.List.Basic
import Mathlib.Logic.Function.Iterate

/-! # A cursor that jumps over obstacles

Obstacles stand in a list, in any order. Each may block a position, and has a position behind it that a blocked cursor
is moved to. A pass takes a cursor by every obstacle once. The cursor is free when a pass does not move it; before that,
each pass leaves one more obstacle behind for good, so there are at most as many passes as obstacles, however they
stand. -/

/-- Obstacles `β` on a line `α`. -/
structure Course (α β : Type) [LinearOrder α] where
  blocks : β → α → Bool
  behind : β → α
  ahead : ∀ b a, blocks b a = true → a < behind b

namespace Course

variable {α β : Type} [LinearOrder α] {c : Course α β} {l : List β} {b : β} {a v : α} {k : Nat}

/-- Take a cursor by one obstacle. -/
def step (c : Course α β) (a : α) (b : β) : α := if c.blocks b a then c.behind b else a

/-- Take a cursor by every obstacle once. -/
def pass (c : Course α β) (l : List β) (a : α) : α := l.foldl c.step a

/-- How many obstacles a cursor has left behind. -/
def cleared (c : Course α β) (l : List β) (a : α) : Nat := l.countP fun b => decide (c.behind b ≤ a)

theorem le_step : a ≤ c.step a b := by
  unfold step
  split
  · exact le_of_lt (c.ahead b a ‹_›)
  · exact le_refl a

@[simp] theorem pass_nil : c.pass [] a = a := rfl

@[simp] theorem pass_cons : c.pass (b :: l) a = c.pass l (c.step a b) := rfl

theorem le_pass : a ≤ c.pass l a := by
  induction l generalizing a with
  | nil => exact le_refl a
  | cons b l ih => exact le_trans le_step ih

theorem le_passes : a ≤ (c.pass l)^[k] a := by
  induction k generalizing a with
  | zero => exact le_refl a
  | succ k ih => exact le_trans le_pass (Function.iterate_succ_apply (c.pass l) k a ▸ ih)

/-- A pass that does not move the cursor met nothing that blocks it. -/
theorem pass_eq_iff : c.pass l a = a ↔ ∀ b ∈ l, c.blocks b a = false := by
  induction l generalizing a with
  | nil => simp
  | cons b l ih =>
    rw [pass_cons, List.forall_mem_cons]
    rcases blocked : c.blocks b a with _ | _
    · have stays : c.step a b = a := by simp [step, blocked]
      simp [stays, ih]
    · have moved : a < c.pass l (c.step a b) := by
        refine lt_of_lt_of_le ?_ le_pass
        simpa [step, blocked] using c.ahead b a blocked
      simp [ne_of_gt moved]

/-- The first obstacle that moves the cursor blocks it where it was. -/
theorem exists_blocks (moves : c.pass l a ≠ a) : ∃ b ∈ l, c.blocks b a = true ∧ c.behind b ≤ c.pass l a := by
  induction l with
  | nil => exact absurd rfl moves
  | cons b l ih =>
    rw [pass_cons] at moves ⊢
    rcases blocked : c.blocks b a with _ | _
    · have stays : c.step a b = a := by simp [step, blocked]
      rw [stays] at moves ⊢
      obtain ⟨b', mem, blocks, le⟩ := ih moves
      exact ⟨b', List.mem_cons_of_mem b mem, blocks, le⟩
    · have jumps : c.step a b = c.behind b := by simp [step, blocked]
      exact ⟨b, List.mem_cons_self, blocked, jumps ▸ le_pass⟩

theorem countP_lt_countP {p q : β → Bool} (sub : ∀ x ∈ l, p x = true → q x = true) (mem : b ∈ l) (fresh : p b = false)
    (now : q b = true) : l.countP p < l.countP q := by
  obtain ⟨l₁, l₂, rfl⟩ := List.append_of_mem mem
  have before := List.countP_mono_left (l := l₁) fun x hx => sub x (List.mem_append_left _ hx)
  have after := List.countP_mono_left (l := l₂) fun x hx => sub x (List.mem_append_right _ (List.mem_cons_of_mem b hx))
  simp only [List.countP_append, List.countP_cons, fresh, now]
  simp only [Bool.false_eq_true, if_false, if_true]
  omega

/-- A pass that moves the cursor leaves an obstacle behind. -/
theorem cleared_lt (moves : c.pass l a ≠ a) : c.cleared l a < c.cleared l (c.pass l a) := by
  obtain ⟨b, mem, blocks, le⟩ := exists_blocks moves
  refine countP_lt_countP (b := b) (fun x _ hx => ?_) mem ?_ ?_
  · exact decide_eq_true (le_trans (of_decide_eq_true hx) le_pass)
  · exact decide_eq_false (not_le_of_gt (c.ahead b a blocks))
  · exact decide_eq_true le

/-- There are no more passes that move the cursor than there are obstacles. -/
theorem passes_le (moves : ∀ j < k, c.pass l ((c.pass l)^[j] a) ≠ (c.pass l)^[j] a) : k ≤ l.length := by
  have counts : ∀ j ≤ k, j ≤ c.cleared l ((c.pass l)^[j] a) := by
    intro j
    induction j with
    | zero => exact fun _ => Nat.zero_le _
    | succ j ih =>
      intro hj
      have fewer := ih (Nat.le_of_succ_le hj)
      have more := cleared_lt (moves j hj)
      rw [Function.iterate_succ_apply']
      omega
  exact Nat.le_trans (counts k (Nat.le_refl k)) List.countP_le_length

/-- What a pass skips is in front of what an obstacle moves the cursor to that blocks a position no further on. -/
theorem skipped (low : a ≤ v) (high : v < c.pass l a) :
    ∃ b ∈ l, ∃ a', a ≤ a' ∧ a' ≤ v ∧ c.blocks b a' = true ∧ v < c.behind b := by
  induction l generalizing a with
  | nil => exact absurd low (not_le_of_gt high)
  | cons b l ih =>
    rw [pass_cons] at high
    rcases lt_or_ge v (c.step a b) with here | later
    · rcases blocked : c.blocks b a with _ | _
      · have stays : c.step a b = a := by simp [step, blocked]
        exact absurd low (not_le_of_gt (stays ▸ here))
      · have jumps : c.step a b = c.behind b := by simp [step, blocked]
        exact ⟨b, List.mem_cons_self, a, le_refl a, low, blocked, jumps ▸ here⟩
    · obtain ⟨b', mem, a', above, below, blocks, lt⟩ := ih later high
      exact ⟨b', List.mem_cons_of_mem b mem, a', le_trans le_step above, below, blocks, lt⟩

theorem passes_skipped (low : a ≤ v) (high : v < (c.pass l)^[k] a) :
    ∃ b ∈ l, ∃ a', a ≤ a' ∧ a' ≤ v ∧ c.blocks b a' = true ∧ v < c.behind b := by
  induction k generalizing a with
  | zero => exact absurd low (not_le_of_gt high)
  | succ k ih =>
    rw [Function.iterate_succ_apply] at high
    rcases lt_or_ge v (c.pass l a) with here | later
    · exact skipped low here
    · obtain ⟨b, mem, a', above, rest⟩ := ih later high
      exact ⟨b, mem, a', le_trans le_pass above, rest⟩

end Course
