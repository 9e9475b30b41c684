import Mathlib.Data.List.Basic

/-! # Tables of names with generations

A table has entries that are bound or not. Each has a generation, which its next binding is named by, and which moves
on, modulo `m`, whenever the entry is unbound. The log of a table is what was done to it, the latest first. -/

namespace Generations

inductive Op where
  /-- Entry `i` is bound, under generation `g`. -/
  | mint (i g : Nat)
  | unbind (i : Nat)
  deriving DecidableEq

structure Table where
  gen : Nat → Nat
  bound : Nat → Bool
  log : List Op

def Table.empty : Table := ⟨fun _ => 0, fun _ => false, []⟩

/-- How often entry `i` was unbound. -/
def unbinds (i : Nat) (log : List Op) : Nat := log.count (.unbind i)

/-- The generation under which entry `i` was bound last. -/
def lastMint (i : Nat) : List Op → Option Nat
  | [] => none
  | .mint j g :: log => if j = i then some g else lastMint i log
  | .unbind _ :: log => lastMint i log

/-- Bind entry `i`; `b` says whether what it is bound to counts as a binding. -/
def Table.mint (u : Table) (i : Nat) (b : Bool) : Table :=
  ⟨u.gen, fun j => if j = i then b else u.bound j, .mint i (u.gen i) :: u.log⟩

def Table.unbind (m : Nat) (u : Table) (i : Nat) : Table :=
  ⟨fun j => if j = i then (u.gen i + 1) % m else u.gen j, fun j => if j = i then false else u.bound j,
    .unbind i :: u.log⟩

/-- What a table becomes by binding and unbinding entries. -/
inductive Evolves (m : Nat) : Table → Table → Prop
  | refl (t : Table) : Evolves m t t
  | mint {t u : Table} (i : Nat) (b : Bool) : Evolves m t u → Evolves m t (u.mint i b)
  | unbind {t u : Table} (i : Nat) : Evolves m t u → Evolves m t (u.unbind m i)

variable {m i g : Nat} {t u v : Table}

attribute [simp] Evolves.refl

theorem Evolves.trans (h : Evolves m t u) (h' : Evolves m u v) : Evolves m t v := by
  induction h' with
  | refl => exact h
  | mint i b _ ih => exact ih.mint i b
  | unbind i _ ih => exact ih.unbind i

/-- A log only grows. -/
theorem Evolves.log_suffix (h : Evolves m t u) : t.log <:+ u.log := by
  induction h with
  | refl => exact List.suffix_refl _
  | mint _ _ _ ih => exact ih.trans (List.suffix_cons _ _)
  | unbind _ _ ih => exact ih.trans (List.suffix_cons _ _)

/-- Generations stay below `m`. -/
theorem Evolves.narrow (h : Evolves m t u) (pos : 0 < m) (below : ∀ i, t.gen i < m) (i : Nat) : u.gen i < m := by
  induction h with
  | refl => exact below i
  | mint _ _ _ ih => exact ih
  | @unbind u j _ ih =>
    by_cases same : i = j
    · simpa [Table.unbind, same] using Nat.mod_lt _ pos
    · simpa [Table.unbind, same] using ih

@[simp] theorem unbinds_mint {j : Nat} {log : List Op} : unbinds i (.mint j g :: log) = unbinds i log := by
  simp [unbinds]

theorem unbinds_unbind {j : Nat} {log : List Op} :
    unbinds i (.unbind j :: log) = if j = i then unbinds i log + 1 else unbinds i log := by
  by_cases h : j = i
  · simp [unbinds, h]
  · simp [unbinds, h]

/-- While an entry was unbound fewer than `m` times, its generation is how often it was. -/
theorem Evolves.gen_eq (h : Evolves m .empty u) : unbinds i u.log < m → u.gen i = unbinds i u.log := by
  induction h with
  | refl => exact fun _ => rfl
  | mint j b _ ih => simpa [Table.mint] using ih
  | @unbind u j _ ih =>
    intro few
    simp only [Table.unbind, unbinds_unbind] at few ⊢
    by_cases hj : j = i
    · subst hj
      simp only [if_true] at few ⊢
      rw [ih (by omega), Nat.mod_eq_of_lt few]
    · simp only [hj, if_false, Ne.symm hj] at few ⊢
      exact ih few

/-- An entry that is bound was bound last under its generation. -/
theorem Evolves.lastMint_of_bound (h : Evolves m .empty u) (hb : u.bound i = true) :
    lastMint i u.log = some (u.gen i) := by
  induction h with
  | refl => cases hb
  | @mint u j b _ ih =>
    by_cases hj : j = i
    · simp [Table.mint, lastMint, hj]
    · simp only [Table.mint, Ne.symm hj, if_false] at hb
      simp only [Table.mint, lastMint, if_neg hj]
      exact ih hb
  | @unbind u j _ ih =>
    by_cases hj : i = j
    · simp [Table.unbind, hj] at hb
    · simp only [Table.unbind, if_neg hj] at hb ⊢
      exact ih hb

/-- Each binding was under the generation that counts the unbindings before it. -/
theorem Evolves.mint_gen (h : Evolves m .empty u) {l earlier : List Op} (hl : u.log = l ++ .mint i g :: earlier)
    (few : unbinds i u.log < m) : g = unbinds i earlier := by
  induction h generalizing l with
  | refl => simp [Table.empty] at hl
  | @mint u j b hu ih =>
    simp only [Table.mint, unbinds_mint] at few hl
    cases l with
    | nil =>
      simp only [List.nil_append, List.cons.injEq, Op.mint.injEq] at hl
      obtain ⟨⟨rfl, rfl⟩, rfl⟩ := hl
      exact hu.gen_eq few
    | cons x later =>
      simp only [List.cons_append, List.cons.injEq] at hl
      exact ih hl.2 few
  | @unbind u j _ ih =>
    simp only [Table.unbind] at few hl
    cases l with
    | nil => simp at hl
    | cons x later =>
      simp only [List.cons_append, List.cons.injEq] at hl
      refine ih hl.2 ?_
      rw [unbinds_unbind] at few
      split at few <;> omega

/-- A generation that an entry was bound under before it was unbound is not its generation any more. -/
theorem Evolves.gen_ne (h : Evolves m .empty u) {l earlier : List Op} (hl : u.log = l ++ .unbind i :: earlier)
    (hg : .mint i g ∈ earlier) (few : unbinds i u.log < m) : g ≠ u.gen i := by
  obtain ⟨between, oldest, rfl⟩ := List.append_of_mem hg
  have hg' : g = unbinds i oldest := h.mint_gen (l := l ++ .unbind i :: between) (by simp [hl]) few
  rw [hg', h.gen_eq few, hl]
  simp only [unbinds, List.count_append, List.count_cons, beq_self_eq_true, if_true]
  omega

end Generations
