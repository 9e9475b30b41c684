import Sawos.Kernel.Rules

/-! # The copy door

An address is found in the first row of memory that has it, and a copy stays in that row. -/

namespace Sawos
open Exec

/-- Memory that the copy door finds an address in. -/
def GrantRow.covers (row : GrantRow) (va : Nat) : Bool := !row.device && row.base ≤ va && va < row.top

theorem GrantRow.covers_iff {row : GrantRow} {va : Nat} :
    row.covers va = true ↔ row.device = false ∧ row.base ≤ va ∧ va < row.top := by
  simp [GrantRow.covers, and_assoc]

/-- Row `i` is the first that has the address. -/
def ProcessSlot.Finds (slot : ProcessSlot) (va i : Nat) : Prop :=
  i < slot.grantCount ∧ (slot.grants i).covers va = true ∧ ∀ j < i, (slot.grants j).covers va = false

instance {slot : ProcessSlot} {va i : Nat} : Decidable (slot.Finds va i) := inferInstanceAs (Decidable (_ ∧ _ ∧ _))

section
variable {slot a b : ProcessSlot} {va i : Nat}

theorem ProcessSlot.find_rows [Hal] {row : GrantRow} :
    (slot.rows.find? fun row => !row.device && row.base ≤ va && va < row.top) = some row ↔ ∃ i, slot.Finds va i ∧
      slot.grants i = row := by
  show slot.rows.find? (·.covers va) = some row ↔ _
  rw [ProcessSlot.rows, List.find?_map, Option.map_eq_some_iff]
  simp only [List.find?_range_eq_some, Function.comp_apply, List.mem_range, Bool.not_eq_true', ProcessSlot.Finds]
  constructor
  · rintro ⟨i, ⟨covers, bound, before⟩, same⟩
    exact ⟨i, ⟨bound, covers, before⟩, same⟩
  · rintro ⟨i, ⟨bound, covers, before⟩, same⟩
    exact ⟨i, ⟨covers, bound, before⟩, same⟩

theorem ProcessSlot.Finds.unique {j : Nat} (h : slot.Finds va i) (h' : slot.Finds va j) : i = j := by
  obtain ⟨-, covers, before⟩ := h
  obtain ⟨-, covers', before'⟩ := h'
  rcases Nat.lt_trichotomy i j with less | same | more
  · rw [before' i less] at covers
    cases covers
  · exact same
  · rw [before j more] at covers'
    cases covers'

theorem ProcessSlot.Finds.same (count : a.grantCount = b.grantCount) (rows : a.grants = b.grants) (h : a.Finds va i) :
    b.Finds va i := by
  unfold ProcessSlot.Finds at h ⊢
  rwa [← count, ← rows]

end

section
variable [Hal] {G : Ev → Prop} {n p : Nat} {s : K} {A : Conduct K Ev}

/-- The bytes from `va` on are all in one row of `p`, in that in which `va` is found. -/
structure Reaches (s : K) (p va bytes i : Nat) : Prop where
  found : (s.processes.slot p).Finds va i
  inside : va + bytes ≤ ((s.processes.slot p).grants i).top

/-- Where row `i` has an address. -/
def ProcessSlot.physOf (slot : ProcessSlot) (i va : Nat) : Nat := (slot.grants i).pa + (va - (slot.grants i).base)

theorem wp_translate {va bytes : Nat} {Q : Except FaultReason Nat → K → Prop} (no : ∀ why, Q (.error why) s)
    (yes : ∀ i, Reaches s p va bytes i → (s.processes.slot p).physOf i va < wordModulus →
      Q (.ok ((s.processes.slot p).physOf i va)) s) : wp G n (translateUser p va bytes) Q (.leaving A) s := by
  refine wp_bind.mpr (wp_readProcess.mpr fun _ => ?_)
  split
  · exact wp_pure.mpr (no _)
  rename_i row found
  obtain ⟨i, finds, rfl⟩ := ProcessSlot.find_rows.mp found
  refine wp_ite.mpr ⟨fun _ => wp_pure.mpr (no _), fun long => wp_bind.mpr (wp_addWord.mpr fun fits => wp_pure.mpr ?_)⟩
  refine yes i ⟨finds, ?_⟩ fits
  have := GrantRow.covers_iff.mp finds.2.1
  omega

/-- Reading a process that is there. -/
theorem landsOr_readProcess {W : Stop → Prop} {Q : ProcessSlot → K → Prop} (hp : p < s.processes.cap)
    (h : Q (s.processes.slot p) s) : LandsOr W n (processes.read p) Q s :=
    (lands_read hp h : Lands n (processes.read p) Q s).or

theorem landsOr_addWord {W : Stop → Prop} {a b : Nat} {Q : Nat → K → Prop} (wraps : wordModulus ≤ a + b → W .panic)
    (h : Q (a + b) s) : LandsOr W n (addWord a b) Q s := by
  rcases Nat.lt_or_ge (a + b) wordModulus with fits | long
  · exact (lands_addWord fits h).or
  · rw [addWord, if_neg (Nat.not_lt.mpr long)]
    exact landsOr_halt (wraps long)

theorem landsOr_translate {W : Stop → Prop} {va bytes i : Nat} {Q : Except FaultReason Nat → K → Prop}
    (hp : p < s.processes.cap)
    (h : Reaches s p va bytes i) (wraps : wordModulus ≤ (s.processes.slot p).physOf i va → W .panic)
    (hQ : Q (.ok ((s.processes.slot p).physOf i va)) s) : LandsOr W n (translateUser p va bytes) Q s := by
  have covers := GrantRow.covers_iff.mp h.found.2.1
  have inside := h.inside
  refine landsOr_bind (landsOr_readProcess hp ?_)
  rw [ProcessSlot.find_rows.mpr ⟨i, h.found, rfl⟩]
  dsimp only
  rw [if_neg (by omega)]
  exact landsOr_bind (landsOr_addWord wraps (lands_pure hQ).or)

/-- The checks of a door with these bounds let the bytes from `va` on pass, by row `i`. -/
structure Admits (s : K) (p low high va bytes i : Nat) : Prop extends Reaches s p va bytes i where
  aligned : va % wordBytes = 0
  above : low ≤ va
  below : va < high ∧ va + bytes ≤ high

theorem wp_copyCheck {low high va bytes : Nat} {Q : Option FaultReason → K → Prop} (no : ∀ why, Q (some why) s)
    (yes : ∀ i, Admits s p low high va bytes i → (s.processes.slot p).physOf i va < wordModulus → Q none s) :
    wp G n (copyCheck p va bytes low high) Q (.leaving A) s := by
  refine wp_ite.mpr
    ⟨fun _ => wp_pure.mpr (no _), fun aligned => wp_ite.mpr ⟨fun _ => wp_pure.mpr (no _), fun window => ?_⟩⟩
  simp only [Bool.or_eq_true, decide_eq_true_eq, not_or, Nat.not_lt, Nat.not_le] at window
  obtain ⟨⟨above, below⟩, room⟩ := window
  refine wp_bind.mpr (wp_translate (fun why => wp_pure.mpr (no why)) fun i reaches fits => wp_pure.mpr (yes i ?_ fits))
  exact ⟨reaches, Decidable.not_not.mp aligned, above, below, by omega⟩

theorem landsOr_copyCheck {W : Stop → Prop} {low high va bytes i : Nat} {Q : Option FaultReason → K → Prop}
    (hp : p < s.processes.cap)
    (h : Admits s p low high va bytes i) (wraps : wordModulus ≤ (s.processes.slot p).physOf i va → W .panic)
    (hQ : Q none s) :
    LandsOr W n (copyCheck p va bytes low high) Q s := by
  obtain ⟨reaches, aligned, above, below, room⟩ := h
  unfold copyCheck
  rw [if_neg (by simpa using aligned), if_neg (by simp only [Bool.or_eq_true, decide_eq_true_eq]; omega)]
  exact landsOr_bind (landsOr_translate hp reaches wraps (lands_pure hQ).or)

theorem wp_copyOutCheck {dst bytes : Nat} {Q : Option FaultReason → K → Prop} (no : ∀ why, Q (some why) s)
    (yes : p < s.processes.cap → ∀ i, Admits s p (s.processes.slot p).rwBase (s.processes.slot p).rwTop dst bytes i →
      (s.processes.slot p).physOf i dst < wordModulus → Q none s) :
        wp G n (copyOutCheck p dst bytes) Q (.leaving A) s :=
  wp_bind.mpr (wp_readProcess.mpr fun hp => wp_copyCheck no (yes hp))

theorem wp_copyInCheck {src bytes : Nat} {Q : Option FaultReason → K → Prop} (no : ∀ why, Q (some why) s)
    (yes : p < s.processes.cap → ∀ i, Admits s p (s.processes.slot p).regionBase
      (s.processes.slot p).regionTop src bytes i →
      (s.processes.slot p).physOf i src < wordModulus → Q none s) : wp G n (copyInCheck p src bytes) Q (.leaving A) s :=
  wp_bind.mpr (wp_readProcess.mpr fun hp => wp_copyCheck no (yes hp))

/-- A copy out that is not refused writes to the row in which its address is found, and nowhere else. -/
theorem wp_copiesOut {dst : Nat} {data : List UInt8} {Q : Option FaultReason → K → Prop} (no : ∀ why, Q (some why) s)
    (yes : ∀ i, Admits s p (s.processes.slot p).rwBase (s.processes.slot p).rwTop dst data.length i →
      Q none { s with mem := storeBytes s.mem ((s.processes.slot p).physOf i dst) data }) :
    wp G n (copyOut p dst data) Q (.leaving A) s := by
  refine wp_bind.mpr (wp_copyOutCheck (fun why => wp_pure.mpr (no why)) fun _ i admits _ => ?_)
  refine wp_bind.mpr (wp_translate (fun why => wp_pure.mpr (no why)) fun j reaches _ => ?_)
  rw [reaches.found.unique admits.found]
  exact wp_bind.mpr (wp_modifies.mpr (wp_pure.mpr (yes i admits)))

theorem landsOr_copyOut {W : Stop → Prop} {dst i : Nat} {data : List UInt8} {Q : Option FaultReason → K → Prop}
    (hp : p < s.processes.cap) (h : Admits s p (s.processes.slot p).rwBase (s.processes.slot p).rwTop dst data.length i)
    (wraps : wordModulus ≤ (s.processes.slot p).physOf i dst → W .panic)
    (hQ : Q none { s with mem := storeBytes s.mem ((s.processes.slot p).physOf i dst) data }) :
    LandsOr W n (copyOut p dst data) Q s := by
  refine landsOr_bind (landsOr_bind (landsOr_readProcess hp (landsOr_copyCheck hp h wraps ?_)))
  exact landsOr_bind (landsOr_translate hp h.toReaches wraps (landsOr_bind (lands_modifies (lands_pure hQ).or).or))

/-- A copy in that is not refused reads from the row in which its address is found. -/
theorem wp_copiesIn {src bytes : Nat} {Q : Except FaultReason (List UInt8) → K → Prop} (no : ∀ why, Q (.error why) s)
    (yes : ∀ i, Admits s p (s.processes.slot p).regionBase (s.processes.slot p).regionTop src bytes i →
      Q (.ok (loadBytes s.mem ((s.processes.slot p).physOf i src) bytes)) s) :
    wp G n (copyIn p src bytes) Q (.leaving A) s := by
  refine wp_bind.mpr (wp_copyInCheck (fun why => wp_pure.mpr (no why)) fun _ i admits _ => ?_)
  refine wp_bind.mpr (wp_translate (fun why => wp_pure.mpr (no why)) fun j reaches _ => ?_)
  rw [reaches.found.unique admits.found]
  exact wp_bind.mpr (wp_reads.mpr (wp_pure.mpr (yes i admits)))

theorem landsOr_copyIn {W : Stop → Prop} {src bytes i : Nat} {Q : Except FaultReason (List UInt8) → K → Prop}
    (hp : p < s.processes.cap)
    (h : Admits s p (s.processes.slot p).regionBase (s.processes.slot p).regionTop src bytes i)
    (wraps : wordModulus ≤ (s.processes.slot p).physOf i src → W .panic)
    (hQ : Q (.ok (loadBytes s.mem ((s.processes.slot p).physOf i src) bytes)) s) :
      LandsOr W n (copyIn p src bytes) Q s := by
  refine landsOr_bind (landsOr_bind (landsOr_readProcess hp (landsOr_copyCheck hp h wraps ?_)))
  exact landsOr_bind (landsOr_translate hp h.toReaches wraps (landsOr_bind (lands_reads (lands_pure hQ).or).or))

end

end Sawos
