import Mathlib.Data.List.Basic
import Mathlib.Data.List.Nodup

/-! # Lists in slots

A list whose elements are slots, each with a link to the next: what it contains, and what changing one link does to
it. -/

/-- The slots from `h` on, each linked by `next` to the one after it, up to the link `e`. -/
def Chain (next : Nat → Option Nat) : Option Nat → List Nat → Option Nat → Prop
  | h, [], e => h = e
  | h, n :: l, e => h = some n ∧ Chain next (next n) l e

namespace Chain
variable {next next' : Nat → Option Nat} {h e k x : Option Nat} {l m pre suf : List Nat} {n : Nat}

@[simp] theorem nil : Chain next h [] e ↔ h = e := Iff.rfl

@[simp] theorem cons : Chain next h (n :: l) e ↔ h = some n ∧ Chain next (next n) l e := Iff.rfl

theorem append : Chain next h (l ++ m) e ↔ ∃ k, Chain next h l k ∧ Chain next k m e := by
  induction l generalizing h with
  | nil => simp
  | cons n l ih => simp [ih, and_assoc]

theorem congr (same : ∀ n ∈ l, next n = next' n) (c : Chain next h l e) : Chain next' h l e := by
  induction l generalizing h with
  | nil => exact c
  | cons n l ih =>
    obtain ⟨rfl, rest⟩ := c
    refine ⟨rfl, ?_⟩
    rw [← same n List.mem_cons_self]
    exact ih (fun m hm => same m (List.mem_cons_of_mem _ hm)) rest

/-- A head determines its list. -/
theorem unique (c : Chain next h l none) (c' : Chain next h m none) : l = m := by
  induction l generalizing h m with
  | nil =>
    cases m with
    | nil => rfl
    | cons n m =>
      cases c.symm.trans c'.1
  | cons n l ih =>
    cases m with
    | nil => cases c'.symm.trans c.1
    | cons n' m =>
      cases c.1.symm.trans c'.1
      rw [ih c.2 c'.2]

/-- A list that ends has no slot twice. -/
theorem nodup (c : Chain next h l none) : l.Nodup := by
  induction l generalizing h with
  | nil => exact .nil
  | cons n l ih =>
    refine List.nodup_cons.mpr ⟨fun again => ?_, ih c.2⟩
    obtain ⟨a, b, rfl⟩ := List.append_of_mem again
    obtain ⟨k, -, tail⟩ := append.mp c.2
    -- The list after the second occurrence would be the one after the first.
    have same := unique c.2 tail.2
    have := congrArg List.length same
    simp only [List.length_append, List.length_cons] at this
    omega

theorem head_eq (c : Chain next h l none) : h = l.head? := by
  cases l with
  | nil => exact c
  | cons n l => exact c.1

/-- The links after the one behind `prev` is pointed at `x`. -/
def relinked (next : Nat → Option Nat) (prev x : Option Nat) : Nat → Option Nat := fun n =>
  if prev = some n then x else next n

/-- The head after the link behind `prev`, the head itself when there is none, is pointed at `x`. -/
def rehead (h prev x : Option Nat) : Option Nat := if prev = none then x else h

theorem relink (c : Chain next h pre e) (once : pre.Nodup) :
    Chain (relinked next pre.getLast? x) (rehead h pre.getLast? x) pre x := by
  rcases List.eq_nil_or_concat pre with rfl | ⟨front, n, rfl⟩
  · simp [rehead]
  · rw [List.concat_eq_append] at c once ⊢
    obtain ⟨k, head, rfl, -⟩ := append.mp c
    simp only [List.getLast?_append, List.getLast?_singleton, Option.some_or, rehead, reduceCtorEq, if_false]
    refine append.mpr ⟨some n, head.congr fun m hm => ?_, ?_⟩
    · have other : n ≠ m := by
        rintro rfl
        exact (List.nodup_append.mp once).2.2 n hm n (by simp) rfl
      simp [relinked, other]
    · simp [relinked]

/-- The slots behind the one whose link changes keep their list. -/
theorem relink_rest (once : (pre ++ suf).Nodup) {y : Option Nat} (rest : Chain next y suf none) :
    Chain (relinked next pre.getLast? x) y suf none := by
  refine rest.congr fun m hm => ?_
  have other : pre.getLast? ≠ some m := by
    intro last
    have mem := List.mem_of_getLast? last
    exact (List.nodup_append.mp once).2.2 m mem m hm rfl
  simp [relinked, other]

end Chain
