import Sawos.Kernel.Samples

/-! # Handle words over whole runs

Every table of handles is what minting and unbinding made of an empty one, so a word names an entry only as long as
the entry has not been unbound since the word was minted. -/

namespace Sawos
open Exec Generations

/-! ### Words -/

theorem handleWordIndex_handleWord {i g : Nat} (hi : i < maxHandles) : handleWordIndex (handleWord i g) = i := by
  have low : handleWord i g &&& handleIndexMask = i + 1 := by
    have small : i + 1 < 2 ^ 8 := by unfold maxHandles at hi; omega
    rw [handleWord, handleIndexBits, ← Nat.shiftLeft_add_eq_or_of_lt small, handleIndexMask, Nat.shiftLeft_eq]
    exact (Nat.and_two_pow_sub_one_eq_mod _ 8).trans (by omega)
  simp [handleWordIndex, low]

theorem handleWordGeneration_handleWord {i g : Nat} (hi : i < maxHandles) :
    handleWordGeneration (handleWord i g) = g := by
  have small : i + 1 < 2 ^ 8 := by unfold maxHandles at hi; omega
  rw [handleWordGeneration, handleWord, handleIndexBits, ← Nat.shiftLeft_add_eq_or_of_lt small, Nat.shiftLeft_eq,
    Nat.shiftRight_eq_div_pow]
  omega

/-- A word that has an index is the one of its index and its generation. -/
theorem handleWord_of_index {w : Nat} (hw : handleWordIndex w < maxHandles) :
    handleWord (handleWordIndex w) (handleWordGeneration w) = w := by
  unfold handleWordIndex at hw ⊢
  simp only at hw ⊢
  have mask : w &&& handleIndexMask = w % 2 ^ 8 := Nat.and_two_pow_sub_one_eq_mod w 8
  split at hw
  · exact absurd hw (by omega)
  rename_i byte
  rw [if_neg byte, mask] at *
  have small : w % 2 ^ 8 - 1 + 1 < 2 ^ 8 := by omega
  rw [handleWord, handleWordGeneration, handleIndexBits, ← Nat.shiftLeft_add_eq_or_of_lt small, Nat.shiftLeft_eq,
    Nat.shiftRight_eq_div_pow]
  omega

/-! ### Tables -/

/-- A word names a binding. -/
def ProcessSlot.Resolves (slot : ProcessSlot) (w : Nat) : Prop := (slot.lookup w).objType ≠ .unbound

/-- The word that was minted last for an entry. -/
def ProcessSlot.lastWord (slot : ProcessSlot) (i : Nat) : Option Nat := (lastMint i slot.history).map (handleWord i)

theorem ProcessSlot.resolves_iff {slot : ProcessSlot} {w : Nat} :
    slot.Resolves w ↔ handleWordIndex w < maxHandles ∧ (slot.handles (handleWordIndex w)).objType ≠ .unbound ∧
      (slot.handles (handleWordIndex w)).gen = handleWordGeneration w := by
  unfold ProcessSlot.Resolves ProcessSlot.lookup
  simp only
  split
  · exact iff_of_false (by simp [HandleEntry.unbound]) (by omega)
  · split
    · simp_all [HandleEntry.unbound]
    · split <;> simp_all [HandleEntry.unbound]

section
variable [Hal]

/-- Every table is what came of the one that it was at `start`; no process is in a slot that is not there yet. -/
structure Tabled (start : Nat → Table) (s : K) : Prop where
  evolves : ∀ p, Evolves handleGenerationModulus (start p) (s.processes.slot p).table
  beyond : ∀ p, s.processes.cap ≤ p → s.processes.slot p = .vacant

def tableParts : List Part := [.process .table, .machine .beyond]

section
variable {G : Ev → Prop} {n : Nat} {A : K → Prop} {start : Nat → Table} {s t : K} {p : Nat}

theorem Tabled.agree (h : Agree tableParts s t) (hs : Tabled start s) : Tabled start t := by
  have tables : ∀ p, Evolves handleGenerationModulus (s.processes.slot p).table (t.processes.slot p).table :=
    h (.process .table) (by decide)
  obtain ⟨cap, beyond⟩ : s.processes.cap = t.processes.cap ∧ _ := h (.machine .beyond) (by decide)
  refine ⟨fun p => (hs.evolves p).trans (tables p), fun p hp => ?_⟩
  rw [← beyond p (by omega)]
  exact hs.beyond p (by omega)

theorem Tabled.spares {α : Type} {m : M α} (hm : Spares tableParts m) : Keeps G n A (Tabled start) m :=
  hm.keeps fun _ _ h hs => hs.agree h

theorem Tabled.reclaim : Keeps G n A (Tabled start) (reclaimProcessSlot p) :=
  Tabled.spares (spares_processes fun x => by
    cases x with
    | table => exact .inl fun v => by split <;> simp
    | _ => exact .inr (by decide))

theorem Tabled.bedrock : Bedrock G n A (Tabled start) where
  quiet _ _ := trivial
  about _ _ h hs := hs.agree (h.mono (by decide))
  release _ := Tabled.spares (by simp +decide)
  unmapped _ := Tabled.spares (spares_mappings (by simp +decide))
  reclaim _ := Tabled.reclaim

theorem Tabled.dismantles : Dismantles G n A p (Tabled start) (Tabled start) (Tabled start)
    (Tabled start) (Tabled start) (Tabled start) (Tabled start) where
  enter _ _ := (Tabled.spares (spares_processes (by simp +decide))).leads
  before := Tabled.bedrock.ground
  threads := (Tabled.spares (spares_sweepThreads (by simp +decide) (by decide))).leads
  idle := (Tabled.spares (spares_idle (by decide))).leads
  lines := Tabled.bedrock.sweepLines
  after := Tabled.bedrock.ground
  timers := Tabled.bedrock.sweepTimers
  rows := (Tabled.spares (by simp +decide)).leads
  record := (Tabled.spares (by simp +decide)).leads
  boot := (Tabled.spares (by simp +decide)).leads
  quota := (Tabled.spares (by simp +decide)).leads
  reclaim := Tabled.reclaim

theorem Tabled.upkeep : Steady G n (Tabled start) :=
  .steady .any (fun _ _ h hs => hs.agree (h.mono (by decide))) Tabled.bedrock.serviced
    (fun _ => Tabled.spares (by simp +decide))
    fun _ _ _ _ => Tabled.dismantles.teardown trivial

/-! ### System calls -/

theorem Tabled.donated (d : Donated s t) (hs : Tabled start s) : Tabled start t := by
  have slot : ∀ q, t.processes.slot q = s.processes.slot q := by
    intro q
    rw [d.processes.slot]
    split
    · rename_i new
      exact (hs.beyond q new.1).symm
    · rfl
  refine ⟨fun q => slot q ▸ hs.evolves q, fun q hq => ?_⟩
  have := d.processes.cap
  rw [slot]
  exact hs.beyond q (by omega)

theorem Tabled.placeImage {img : Nat} {dest : LoadRegion} {region : Option Nat} :
    Keeps G n A (Tabled start) (placeImage p img dest region) :=
  Tabled.bedrock.serviced.placeImage fun _ _ _ _ _ _ => Tabled.spares (by simp +decide)

theorem Tabled.grounded : SteadyGrounded G n (Tabled start) :=
  Tabled.upkeep.grounded (fun _ _ h hs => hs.agree (h.mono (by decide)))
    (Tabled.upkeep.devices fun _ _ h hs => hs.agree (h.mono (by decide))) (fun _ _ d hs => hs.donated d)
    (fun _ _ _ _ s hs => Tabled.upkeep.fillProcess (fun _ _ h hs => hs.agree h) (by decide) s hs.1)
    (fun _ _ _ _ => Tabled.upkeep.start (fun _ _ h hs => hs.agree h) (by decide))
    fun _ _ _ _ => Tabled.upkeep.threadCreate (fun _ _ h hs => hs.agree h) (by decide)

/-- The boot starts from empty tables. -/
theorem Tabled.boot : Leads G n A K.Fresh (Tabled fun _ => .empty) loadRootAndEnter := by
  intro s hs
  have slot : ∀ p, s.processes.slot p = .vacant := fun p => by rw [hs.processes]; rfl
  have empty : Tabled (fun _ => .empty) s := ⟨fun p => by rw [slot]; exact .refl _, fun p _ => slot p⟩
  refine boot_leads (I := Tabled fun _ => .empty) (J := Tabled fun _ => .empty) (L := Tabled fun _ => .empty)
    (fun _ => Tabled.placeImage.leads) (Tabled.spares (by simp +decide)).leads (fun _ _ _ _ _ _ => ?_) s empty
  refine (Tabled.spares ?_).leads
  refine .bind (spares_processes (by simp +decide)) fun _ => ?_
  refine .bind (spares_statsClear (by decide)) fun _ => .bind (by simp) fun _ => .bind (by simp +decide) fun _ => ?_
  exact spares_startMain (by decide) (by simp +decide)

theorem Tabled.reachable (h : ReachableWith G s) : Tabled (fun _ => .empty) s :=
  Grounded.reachable (fun _ => Tabled.grounded) (fun _ => Tabled.boot) h

/-- What was done to a table stays in its history. -/
theorem history_grows {s' : K} (h : ReachableWith G s) (later : machine.Later s s') (p : Nat) :
    (s.processes.slot p).history <:+ (s'.processes.slot p).history := by
  have from_here : Tabled (fun q => (s.processes.slot q).table) s :=
    ⟨fun q => .refl _, (Tabled.reachable h).beyond⟩
  have then_there : Tabled (fun q => (s.processes.slot q).table) s' :=
    later.ofPrograms from_here fun _ _ => Tabled.grounded.act fun _ => mortal_any
  exact (then_there.evolves p).log_suffix

/-! ### What a word names -/

/-- The words of a table: each resolves exactly while it is the last of its entry and the entry is bound, different
    bound entries have different words, and what names no entry resolves to nothing. -/
structure Words (slot : ProcessSlot) : Prop where
  resolves : ∀ w, handleWordIndex w < maxHandles →
    (slot.Resolves w ↔ slot.lastWord (handleWordIndex w) = some w ∧
      (slot.handles (handleWordIndex w)).objType ≠ .unbound)
  apart : ∀ i < maxHandles, ∀ j < maxHandles, i ≠ j → (slot.handles i).objType ≠ .unbound →
    (slot.handles j).objType ≠ .unbound → slot.lastWord i ≠ slot.lastWord j
  malformed : ∀ w, maxHandles ≤ handleWordIndex w → slot.lookup w = .unbound 0

omit [Hal] in
theorem words_of_evolves {slot : ProcessSlot} (h : Evolves handleGenerationModulus .empty slot.table) : Words slot := by
  have last : ∀ i, (slot.handles i).objType ≠ .unbound →
    slot.lastWord i = some (handleWord i (slot.handles i).gen) := by
    intro i bound
    have minted := h.lastMint_of_bound (i := i) (by simpa using bound)
    exact congrArg (Option.map (handleWord i)) minted
  refine ⟨fun w hw => ?_, fun i hi j hj hij bi bj => ?_, fun w hw => if_pos hw⟩
  · rw [ProcessSlot.resolves_iff]
    constructor
    · rintro ⟨-, bound, gen⟩
      rw [last _ bound, gen, handleWord_of_index hw]
      exact ⟨rfl, bound⟩
    · rintro ⟨newest, bound⟩
      rw [last _ bound, Option.some.injEq] at newest
      refine ⟨hw, bound, ?_⟩
      rw [← newest, handleWordGeneration_handleWord (newest ▸ hw), newest]
  · rw [last i bi, last j bj]
    intro same
    have index := congrArg handleWordIndex (Option.some.inj same)
    rw [handleWordIndex_handleWord hi, handleWordIndex_handleWord hj] at index
    exact hij index

end

end

section

attribute [local instance] sampleBuild sampleTarget Riscv32.board

end

end Sawos
