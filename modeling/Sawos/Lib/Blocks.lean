import Sawos.Lib.Spans

/-! # Blocks of consecutive indices

Indices that are numbered through a list of blocks, one block behind the other: which block an index is in, and how far
into it. Blocks that are added at the end leave every index where it is. -/

namespace Blocks
open Spans

section
variable {β γ : Type} (size : β → Nat)

/-- The block that index `i` is in, and its place there. -/
def locate : List β → Nat → Option (Nat × Nat)
  | [], _ => none
  | b :: l, i => if i < size b then some (0, i) else (locate l (i - size b)).map fun x => (x.1 + 1, x.2)

/-- How many indices a list of blocks has. -/
def count (l : List β) : Nat := (l.map size).sum

/-- How many indices come before block `e`. -/
def before (l : List β) (e : Nat) : Nat := count size (l.take e)

variable {size} {size' : γ → Nat} {l m : List β} {l' : List γ} {b : β} {i j k e o : Nat}

@[simp] theorem count_nil : count size [] = 0 := rfl

@[simp] theorem count_cons : count size (b :: l) = size b + count size l := by simp [count]

@[simp] theorem count_append : count size (l ++ m) = count size l + count size m := by simp [count]

@[simp] theorem before_zero : before size l 0 = 0 := rfl

@[simp] theorem before_succ : before size (b :: l) (e + 1) = size b + before size l e := by simp [before]

/-- An index is at place `o` of block `e` exactly when that place has its number. -/
theorem locate_eq_some : locate size l i = some (e, o) ↔ ∃ b, l[e]? = some b ∧ o < size b ∧
    i = before size l e + o := by
  induction l generalizing i e with
  | nil => simp [locate]
  | cons b l ih =>
    rw [locate]
    by_cases here : i < size b
    · rw [if_pos here]
      constructor
      · rintro ⟨⟩
        exact ⟨b, rfl, here, by simp⟩
      · rintro ⟨b', at', inside, rfl⟩
        cases e with
        | zero => simp
        | succ e =>
          rw [before_succ] at here
          omega
    · rw [if_neg here]
      cases e with
      | zero =>
        constructor
        · intro h
          obtain ⟨x, -, same⟩ := Option.map_eq_some_iff.mp h
          cases same
        · rintro ⟨b', at', inside, rfl⟩
          obtain rfl : b = b' := by simpa using at'
          exact absurd (by simpa using inside) here
      | succ e =>
        rw [List.getElem?_cons_succ, before_succ]
        constructor
        · intro h
          obtain ⟨⟨e', o'⟩, found, same⟩ := Option.map_eq_some_iff.mp h
          obtain ⟨rfl, rfl⟩ : e' = e ∧ o' = o := by simpa using same
          obtain ⟨b', at', inside, number⟩ := ih.mp found
          exact ⟨b', at', inside, by omega⟩
        · rintro ⟨b', at', inside, rfl⟩
          rw [ih.mpr ⟨b', at', inside, by omega⟩]
          rfl

/-- The indices that are in a block are those below the count. -/
theorem locate_isSome : (locate size l i).isSome ↔ i < count size l := by
  induction l generalizing i with
  | nil => simp [locate]
  | cons b l ih =>
    rw [locate, count_cons]
    by_cases here : i < size b
    · rw [if_pos here]
      exact iff_of_true rfl (by omega)
    · rw [if_neg here, Option.isSome_map, ih]
      omega

theorem exists_locate (h : i < count size l) : ∃ e o, locate size l i = some (e, o) := by
  obtain ⟨x, found⟩ := Option.isSome_iff_exists.mp (locate_isSome.mpr h)
  exact ⟨x.1, x.2, found⟩

/-- Two indices at the same place are the same. -/
theorem locate_inj (h : locate size l i = some (e, o)) (h' : locate size l j = some (e, o)) : i = j := by
  obtain ⟨-, -, -, rfl⟩ := locate_eq_some.mp h
  obtain ⟨-, -, -, rfl⟩ := locate_eq_some.mp h'
  rfl

theorem locate_append (h : i < count size l) : locate size (l ++ m) i = locate size l i := by
  obtain ⟨e, o, found⟩ := exists_locate h
  rw [found]
  obtain ⟨b, at', inside, number⟩ := locate_eq_some.mp found
  have below : e < l.length := (List.getElem?_eq_some_iff.mp at').1
  refine locate_eq_some.mpr ⟨b, ?_, inside, ?_⟩
  · rwa [List.getElem?_append_left below]
  · rw [number]
    simp [before, List.take_append_of_le_length (Nat.le_of_lt below)]

/-- Blocks of the same sizes have their indices at the same places. -/
theorem locate_congr (h : l.map size = l'.map size') : locate size l i = locate size' l' i := by
  induction l generalizing l' i with
  | nil =>
    obtain rfl : l' = [] := by simpa using h.symm
    rfl
  | cons b l ih =>
    obtain ⟨b', r, rfl⟩ : ∃ b' r, l' = b' :: r := by
      cases l' with
      | nil => cases h
      | cons b' r => exact ⟨b', r, rfl⟩
    obtain ⟨same, rest⟩ : size b = size' b' ∧ l.map size = r.map size' := by simpa using h
    simp only [locate, same, ih rest]

theorem count_mul : count (fun b => size b * k) l = count size l * k := by
  induction l with
  | nil => simp
  | cons b l ih => rw [count_cons, count_cons, ih, Nat.add_mul]

/-- Where every block has `k` indices for one of another list, index `i * k + j` is beside index `i` of that. -/
theorem locate_mul (h : l'.map size' = l.map fun b => size b * k) (hj : j < k) (found : locate size l i = some (e, o)) :
    locate size' l' (i * k + j) = some (e, o * k + j) := by
  rw [locate_congr h]
  obtain ⟨b, at', inside, rfl⟩ := locate_eq_some.mp found
  refine locate_eq_some.mpr ⟨b, at', ?_, ?_⟩
  · have := Nat.mul_le_mul_right k (Nat.succ_le_of_lt inside)
    rw [Nat.succ_mul] at this
    omega
  · rw [Nat.add_mul, Nat.add_assoc]
    exact congrArg (· + (o * k + j)) count_mul.symm

end

/-! ### Cells

A block of `n` cells of `w` bytes from `base` on. -/

section
variable {base n w o o' a : Nat}

theorem cell_apart (h : o ≠ o') : (Span.mk (base + o * w) w).Apart ⟨base + o' * w, w⟩ := by
  rintro a ⟨first, second⟩
  unfold Span.Has Span.top at first second
  dsimp only at first second
  rcases Nat.lt_or_gt_of_ne h with less | less
  · have := Nat.mul_le_mul_right w (Nat.succ_le_of_lt less)
    rw [Nat.succ_mul] at this
    omega
  · have := Nat.mul_le_mul_right w (Nat.succ_le_of_lt less)
    rw [Nat.succ_mul] at this
    omega

end

end Blocks
