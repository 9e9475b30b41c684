import Sawos.Lib.Spans
import Mathlib.Algebra.Order.Ring.Nat
import Mathlib.Data.Nat.ModEq

/-! # The arena of a program

A bump allocator over the region that the linker reserved. Its arithmetic wraps; only the bound is checked. -/

namespace Sawos.Rt
open Spans

/-- The region of an arena, in words of `w` bits. -/
structure Arena (w : Nat) where
  base : BitVec w
  capacity : BitVec w
  wide : 0 < w
  /-- The linker places the region with as much room again behind it. -/
  room : base.toNat + 2 * capacity.toNat < 2 ^ w

inductive AbortCode where
  | panic | noMemory
  deriving DecidableEq

section
variable {w : Nat} {a : Arena w} {next next' size align addr : BitVec w} {blocks : List Span}

/-- What is left of a call when the machine has stopped is its cursor. -/
abbrev ArenaM (w : Nat) : Type → Type := ExceptT AbortCode (StateM (BitVec w))

/-- Hand out `size` bytes aligned to `align`, or stop the machine. -/
def rtAlloc (a : Arena w) (size align : BitVec w) : ArenaM w (BitVec w) := do
  let step := if align < 1 then 1 else align
  let offset ← get
  let rem := (a.base + offset) % step
  let offset := if rem ≠ 0 then offset + (step - rem) else offset
  if a.capacity < size || a.capacity - size < offset then
    throw .noMemory
  set (offset + size)
  return a.base + offset

def rtDealloc (_addr _size _align : BitVec w) : ArenaM w Unit := return

/-- The cursor of an arena and the blocks it has handed out, before the machine stops. -/
inductive Served (a : Arena w) : BitVec w → List Span → Prop
  | start : Served a 0 []
  | alloc {next next' size align addr : BitVec w} {blocks : List Span} : Served a next blocks →
      (rtAlloc a size align).run next = (.ok addr, next') → Served a next' (⟨addr.toNat, size.toNat⟩ :: blocks)
  | dealloc {next next' size align addr : BitVec w} {blocks : List Span} : Served a next blocks →
      (rtDealloc addr size align).run next = (.ok (), next') → Served a next' blocks

/-- The alignment that a call asks for, at least one. -/
def stepOf (align : BitVec w) : BitVec w := if align < 1 then 1 else align

/-- The first aligned offset from `next` on. -/
def alignedOffset (a : Arena w) (next align : BitVec w) : BitVec w :=
  let rem := (a.base + next) % stepOf align
  if rem ≠ 0 then next + (stepOf align - rem) else next

theorem rtAlloc_run : (rtAlloc a size align).run next =
    if a.capacity < size ∨ a.capacity - size < alignedOffset a next align then (.error .noMemory, next)
    else (.ok (a.base + alignedOffset a next align), alignedOffset a next align + size) := by
  have cond : (a.capacity < size || a.capacity - size < alignedOffset a next align) =
    decide (a.capacity < size ∨ a.capacity - size < alignedOffset a next align) := by simp
  show (if (a.capacity < size || a.capacity - size < alignedOffset a next align) = true then _ else _ :
    ArenaM w (BitVec w)).run next = _
  rw [cond]
  by_cases full : a.capacity < size ∨ a.capacity - size < alignedOffset a next align
  · simp only [full, decide_true, if_true]
    rfl
  · simp only [full, decide_false, if_false]
    rfl

theorem stepOf_pos (a : Arena w) : 0 < (stepOf align).toNat := by
  have one : (1 : BitVec w).toNat = 1 := by simp [Nat.one_mod_two_pow_eq_one.mpr a.wide]
  rw [stepOf]
  split
  · omega
  · rename_i some
    rw [BitVec.lt_def, one] at some
    omega

theorem stepOf_eq (some : align ≠ 0) : stepOf align = align := by
  rw [stepOf, if_neg]
  intro none
  rw [BitVec.lt_def] at none
  have zero : align.toNat = 0 := by
    have : (1 : BitVec w).toNat ≤ 1 := by simp [Nat.mod_le]
    omega
  exact some (BitVec.eq_of_toNat_eq zero)

/-- The padding does not wrap, whatever the alignment. -/
theorem alignedOffset_toNat (fits : next.toNat ≤ a.capacity.toNat) : (alignedOffset a next align).toNat =
    if (a.base.toNat + next.toNat) % (stepOf align).toNat = 0 then next.toNat
    else next.toNat + ((stepOf align).toNat - (a.base.toNat + next.toNat) % (stepOf align).toNat) := by
  have room := a.room
  have pos := @stepOf_pos w align a
  have step : (stepOf align).toNat < 2 ^ w := (stepOf align).isLt
  have sum : (a.base + next).toNat = a.base.toNat + next.toNat := BitVec.toNat_add_of_lt (by omega)
  have rem : ((a.base + next) % stepOf align).toNat = (a.base.toNat + next.toNat) % (stepOf align).toNat := by
    rw [BitVec.toNat_umod, sum]
  have less := Nat.mod_lt (a.base.toNat + next.toNat) pos
  rw [alignedOffset]
  by_cases aligned : (a.base.toNat + next.toNat) % (stepOf align).toNat = 0
  · have none : (a.base + next) % stepOf align = 0 := BitVec.eq_of_toNat_eq (rem.trans aligned)
    simp [none, aligned]
  · have some : (a.base + next) % stepOf align ≠ 0 := fun none => aligned (by rw [← rem, none]; rfl)
    have pad : (stepOf align - (a.base + next) % stepOf align).toNat =
        (stepOf align).toNat - (a.base.toNat + next.toNat) % (stepOf align).toNat := by
      rw [BitVec.toNat_sub_of_le (by rw [BitVec.le_def, rem]; omega), rem]
    -- An alignment above the address is rounded up to itself, and one below it pads less than the address.
    have short : next.toNat + ((stepOf align).toNat - (a.base.toNat + next.toNat) % (stepOf align).toNat) < 2 ^ w := by
      rcases Nat.lt_or_ge (a.base.toNat + next.toNat) (stepOf align).toNat with above | below
      · rw [Nat.mod_eq_of_lt above]
        omega
      · omega
    rw [if_pos some, if_neg aligned, BitVec.toNat_add_of_lt (by rw [pad]; exact short), pad]

theorem dvd_pad (x : Nat) {step : Nat} (pos : 0 < step) : step ∣ x + (step - x % step) := by
  refine ⟨x / step + 1, ?_⟩
  have := Nat.div_add_mod x step
  have := Nat.mod_lt x pos
  rw [Nat.mul_succ]
  omega

theorem dvd_alignedOffset (fits : next.toNat ≤ a.capacity.toNat) :
    (stepOf align).toNat ∣ a.base.toNat + (alignedOffset a next align).toNat := by
  rw [alignedOffset_toNat fits]
  split
  · exact Nat.dvd_of_mod_eq_zero ‹_›
  · rw [← Nat.add_assoc]
    exact dvd_pad _ (stepOf_pos a)

theorem le_alignedOffset (fits : next.toNat ≤ a.capacity.toNat) : next.toNat ≤ (alignedOffset a next align).toNat := by
  rw [alignedOffset_toNat fits]
  split
  · exact Nat.le_refl _
  · exact Nat.le_add_right _ _

/-- What a call answers, when its cursor is in the region. -/
structure Handed (a : Arena w) (next size align addr next' : BitVec w) : Prop where
  aligned : (stepOf align).toNat ∣ addr.toNat
  above : a.base.toNat + next.toNat ≤ addr.toNat
  cursor : addr.toNat + size.toNat = a.base.toNat + next'.toNat
  inside : next'.toNat ≤ a.capacity.toNat

/-- A call hands out a block behind the cursor, or stops the machine and leaves the cursor as it was. -/
theorem rtAlloc_hands (fits : next.toNat ≤ a.capacity.toNat) :
    (rtAlloc a size align).run next = (.error .noMemory, next) ∨
    ∃ addr next', (rtAlloc a size align).run next = (.ok addr, next') ∧ Handed a next size align addr next' := by
  rw [rtAlloc_run]
  split
  · exact Or.inl rfl
  · rename_i enough
    obtain ⟨sized, below⟩ := not_or.mp enough
    rw [BitVec.lt_def, Nat.not_lt] at sized below
    rw [BitVec.toNat_sub_of_le sized] at below
    have room := a.room
    have addr : (a.base + alignedOffset a next align).toNat = a.base.toNat + (alignedOffset a next align).toNat :=
      BitVec.toNat_add_of_lt (by omega)
    have cursor : (alignedOffset a next align + size).toNat = (alignedOffset a next align).toNat + size.toNat :=
      BitVec.toNat_add_of_lt (by omega)
    refine Or.inr ⟨_, _, rfl, ?_, ?_, ?_, ?_⟩
    · exact addr ▸ dvd_alignedOffset fits
    · exact addr ▸ Nat.add_le_add_left (le_alignedOffset fits) _
    · rw [addr, cursor, Nat.add_assoc]
    · rw [cursor]
      omega

/-- The blocks lie in the region, below the cursor, and do not meet. -/
structure Packed (a : Arena w) (next : BitVec w) (blocks : List Span) : Prop where
  cursor : next.toNat ≤ a.capacity.toNat
  below : ∀ b ∈ blocks, a.base.toNat ≤ b.base ∧ b.top ≤ a.base.toNat + next.toNat
  apart : blocks.Pairwise Span.Apart

theorem Packed.apart_of_handed (h : Packed a next blocks) (handed : Handed a next size align addr next') :
    ∀ b ∈ blocks, Span.Apart ⟨addr.toNat, size.toNat⟩ b := by
  rintro b hb byte ⟨⟨above, -⟩, -, below⟩
  have := (h.below b hb).2
  have := handed.above
  simp only at above
  omega

theorem Packed.alloc (h : Packed a next blocks) (call : (rtAlloc a size align).run next = (.ok addr, next')) :
    Packed a next' (⟨addr.toNat, size.toNat⟩ :: blocks) := by
  rcases @rtAlloc_hands w a next size align h.cursor with stops | ⟨addr', next'', ran, handed⟩
  · rw [stops] at call
    cases call
  · rw [ran] at call
    cases call
    have above := handed.above
    have cursor := handed.cursor
    refine ⟨handed.inside, ?_, List.pairwise_cons.mpr ⟨h.apart_of_handed handed, h.apart⟩⟩
    rintro b hb
    rcases List.mem_cons.mp hb with rfl | old
    · simp only [Span.top]
      omega
    · have := h.below b old
      omega

theorem Served.packed (h : Served a next blocks) : Packed a next blocks := by
  induction h with
  | start => exact ⟨by simp, by simp, .nil⟩
  | alloc _ call ih => exact ih.alloc call
  | dealloc _ call ih =>
    cases call
    exact ih

/-- Each call stops the machine and leaves the cursor as it was, or answers a block in the region, aligned as it was
    asked for, that does not meet any other. -/
theorem blocks_are_apart (h : Served a next blocks) (size align : BitVec w) :
    (rtAlloc a size align).run next = (.error .noMemory, next) ∨
    ∃ addr next', (rtAlloc a size align).run next = (.ok addr, next') ∧ (align ≠ 0 → align.toNat ∣ addr.toNat) ∧
      a.base.toNat ≤ addr.toNat ∧ addr.toNat + size.toNat ≤ a.base.toNat + a.capacity.toNat ∧
      ∀ b ∈ blocks, Span.Apart ⟨addr.toNat, size.toNat⟩ b := by
  have packed := h.packed
  rcases @rtAlloc_hands w a next size align packed.cursor with stops | ⟨addr, next', ran, handed⟩
  · exact Or.inl stops
  · have above := handed.above
    have cursor := handed.cursor
    have inside := handed.inside
    refine Or.inr ⟨addr, next', ran, fun some => ?_, by omega, by omega, packed.apart_of_handed handed⟩
    exact stepOf_eq some ▸ handed.aligned

end

/-- An arena of 64 bytes at 16. -/
def smallArena : Arena 32 := ⟨16, 64, by decide, by decide⟩

/-- After a block of three bytes comes one of eight, at the next multiple of eight. -/
theorem blocks_are_apart_small : ∃ addr next', (rtAlloc smallArena 8 8).run 3 = (.ok addr, next') ∧ 8 ∣ addr.toNat ∧
    Span.Apart ⟨addr.toNat, 8⟩ ⟨16, 3⟩ := by
  have call : (rtAlloc smallArena 3 1).run 0 = (.ok 16, 3) := rfl
  have first : Served smallArena 3 [⟨16, 3⟩] := .alloc .start call
  rcases blocks_are_apart first 8 8 with stops | ⟨addr, next', ran, aligned, -, -, apart⟩
  · exact absurd (congrArg (·.1.toBool) stops) (by decide)
  · exact ⟨addr, next', ran, aligned (by decide), apart _ (by simp)⟩

/-- A block that is asked for with the alignment 0 is no multiple of it. -/
theorem zero_is_no_alignment :
    ∃ addr next', Served smallArena 0 [] ∧ (rtAlloc smallArena 8 0).run 0 = (.ok addr, next') ∧
    ¬(0 : BitVec 32).toNat ∣ addr.toNat :=
  ⟨16, 8, .start, by rfl, by decide⟩

end Sawos.Rt
