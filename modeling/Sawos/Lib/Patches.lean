import Mathlib.Data.List.Pairwise

/-! # Patches of a memory

A patch overwrites a span of addresses. After a list of patches a memory is as it was outside them, and what lies in one
of them is what that one wrote, when no two meet. -/

namespace Patches

/-- New contents for `len` addresses from `base` on. -/
structure Patch (β : Type) where
  base : Nat
  len : Nat
  data : Nat → β

variable {β : Type} {m m' : Nat → β} {c d : Patch β} {l : List (Patch β)} {a : Nat}

def Patch.Has (c : Patch β) (a : Nat) : Prop := c.base ≤ a ∧ a < c.base + c.len

instance (c : Patch β) (a : Nat) : Decidable (c.Has a) := inferInstanceAs (Decidable (_ ∧ _))

def Patch.apply (c : Patch β) (m : Nat → β) : Nat → β := fun a => if c.Has a then c.data (a - c.base) else m a

/-- Two patches do not meet. -/
def Patch.Apart (c d : Patch β) : Prop := c.base + c.len ≤ d.base ∨ d.base + d.len ≤ c.base

/-- A memory after patches, the first first. -/
def patched (m : Nat → β) (l : List (Patch β)) : Nat → β := l.foldl (fun m c => c.apply m) m

theorem Patch.apply_of_has (h : c.Has a) : c.apply m a = c.data (a - c.base) := if_pos h

theorem Patch.apply_of_not (h : ¬c.Has a) : c.apply m a = m a := if_neg h

/-- At one address, only what was there matters. -/
theorem Patch.apply_at (h : m a = m' a) : c.apply m a = c.apply m' a := by
  unfold Patch.apply
  rw [h]

theorem Patch.apply_empty {base : Nat} {data : Nat → β} : (⟨base, 0, data⟩ : Patch β).apply m = m :=
  funext fun _ => Patch.apply_of_not fun h => Nat.not_lt.mpr h.1 h.2

/-- A patch that goes on where another ends goes on with it. -/
theorem Patch.apply_append {base d e : Nat} {data : Nat → β} :
    (⟨base + d, e, fun o => data (d + o)⟩ : Patch β).apply ((⟨base, d, data⟩ : Patch β).apply m) =
    (⟨base, d + e, data⟩ : Patch β).apply m := by
  funext a
  by_cases second : base + d ≤ a ∧ a < base + d + e
  · have whole : base ≤ a ∧ a < base + (d + e) := by omega
    rw [Patch.apply_of_has (c := ⟨base + d, e, fun o => data (d + o)⟩) second,
      Patch.apply_of_has (c := ⟨base, d + e, data⟩) whole]
    exact congrArg data (by simp only; omega)
  rw [Patch.apply_of_not (c := ⟨base + d, e, fun o => data (d + o)⟩) second]
  by_cases first : base ≤ a ∧ a < base + d
  · have whole : base ≤ a ∧ a < base + (d + e) := by omega
    rw [Patch.apply_of_has (c := ⟨base, d, data⟩) first, Patch.apply_of_has (c := ⟨base, d + e, data⟩) whole]
  · have outside : ¬(base ≤ a ∧ a < base + (d + e)) := by omega
    rw [Patch.apply_of_not (c := ⟨base, d, data⟩) first, Patch.apply_of_not (c := ⟨base, d + e, data⟩) outside]

theorem Patch.apply_congr {base len : Nat} {data data' : Nat → β} (same : ∀ o < len, data o = data' o) :
    (⟨base, len, data⟩ : Patch β).apply m = (⟨base, len, data'⟩ : Patch β).apply m := by
  funext a
  by_cases has : base ≤ a ∧ a < base + len
  · rw [Patch.apply_of_has (c := ⟨base, len, data⟩) has, Patch.apply_of_has (c := ⟨base, len, data'⟩) has]
    exact same _ (by simp only; omega)
  · rw [Patch.apply_of_not (c := ⟨base, len, data⟩) has, Patch.apply_of_not (c := ⟨base, len, data'⟩) has]

theorem Patch.Apart.not_has (h : c.Apart d) (hc : c.Has a) : ¬d.Has a := by
  rintro ⟨above, below⟩
  obtain ⟨above', below'⟩ := hc
  rcases h with h | h <;> omega

theorem patched_concat : patched m (l ++ [c]) = c.apply (patched m l) := by
  rw [patched, List.foldl_append]
  rfl

theorem patched_outside (h : ∀ c ∈ l, ¬c.Has a) : patched m l a = m a := by
  induction l generalizing m with
  | nil => rfl
  | cons c l ih =>
    obtain ⟨first, rest⟩ := List.forall_mem_cons.mp h
    exact (ih rest).trans (c.apply_of_not first)

theorem patched_inside (apart : l.Pairwise Patch.Apart) (hc : c ∈ l) (ha : c.Has a) :
    patched m l a = c.data (a - c.base) := by
  induction l generalizing m with
  | nil => cases hc
  | cons d l ih =>
    obtain ⟨first, rest⟩ := List.pairwise_cons.mp apart
    rcases List.mem_cons.mp hc with rfl | later
    · exact (patched_outside fun d hd => (first d hd).not_has ha).trans (c.apply_of_has ha)
    · exact ih rest later

end Patches
