import Sawos.Boards.PmpRecord
import Sawos.Kernel.Samples

/-! # What a replay of a reachable record permits -/

namespace Sawos.Pmp
open Exec RiscvPmp

section
variable [Build] [Riscv32.Target]

attribute [local instance] Riscv32.board

variable {s : K} {row : GrantRow}

/-- A row as this board accepts it: at its own address, in order, and a device row a window. -/
structure RowOk (row : GrantRow) : Prop where
  identity : row.pa = row.base
  ordered : row.base ≤ row.top
  bounded : row.top ≤ 2 ^ 32
  accepted : row.device = true → deviceWindowOk row.base (row.top - row.base) = true

/-- Images are loaded where they are linked for, and within the address space. -/
theorem used_linked {dest : LoadRegion} (used : dest.Used) :
    dest.linkBase = dest.base ∧ dest.base + dest.stackLen ≤ dest.top ∧ dest.top ≤ 2 ^ 32 := by
  rcases used with rfl | ⟨region, rfl, room, whole⟩
  · refine ⟨rfl, ?_⟩
    change Riscv32.rootLoadBase Riscv32.Target.machine + Riscv32.rootStackLen ≤
      Riscv32.rootRegionTop Riscv32.Target.machine ∧ Riscv32.rootRegionTop Riscv32.Target.machine ≤ 2 ^ 32
    cases Riscv32.Target.machine <;> decide
  · change Riscv32.rootStackLen < region.len at room
    have fits : region.len ≤ 2 ^ 32 - 1 - region.base := by
      have := of_decide_eq_false whole
      exact Nat.le_of_not_lt this
    refine ⟨rfl, ?_⟩
    change region.base + Riscv32.rootStackLen ≤ region.base + region.len ∧ region.base + region.len ≤ 2 ^ 32
    unfold Riscv32.rootStackLen at *
    omega

omit [Build] in
/-- The window that the root's image may be granted. -/
theorem deviceGrant_ok :
    Riscv32.uartBase Riscv32.Target.machine + 0x1000 ≤ 2 ^ 32 ∧
      deviceWindowOk (Riscv32.uartBase Riscv32.Target.machine)
        (Riscv32.uartBase Riscv32.Target.machine + 0x1000 - Riscv32.uartBase Riscv32.Target.machine) = true := by
  cases Riscv32.Target.machine <;> decide

theorem rowSource_ok (src : RowSource row) : RowOk row := by
  cases src with
  | @segment seg imgLen dest allow region checked memory used fits =>
    obtain ⟨linked, -, -⟩ := used_linked used
    have above := (checkSegment_places checked).1 memory
    have up := le_alignUp (seg.loadAddr + seg.memLen) protGrain
    refine ⟨?_, ?_, Nat.le_of_lt fits, fun h => by cases h⟩
    · simp only
      omega
    · exact Nat.le_trans (Nat.le_add_right _ _) up
  | grant checked device =>
    obtain ⟨base, len⟩ := (checkSegment_places checked).2 device
    refine ⟨rfl, Nat.le_add_right _ _, ?_, fun _ => ?_⟩
    · rw [base, len]
      exact deviceGrant_ok.1
    · rw [base, len]
      exact deviceGrant_ok.2
  | @stack dest _ used =>
    obtain ⟨linked, room, below⟩ := used_linked used
    simp only [LoadRegion.linkTop, linked]
    exact ⟨by simp only; omega, by simp only; omega, by simp only; omega, fun h => by cases h⟩
  | @map cursor base span perms region permits fits placed =>
    refine ⟨rfl, Nat.le_add_right _ _, ?_, fun h => by cases h⟩
    change Riscv32.mapRangeOk Riscv32.Target.machine base (base + span) = true at placed
    change base + span ≤ 2 ^ 32
    simp only [Riscv32.mapRangeOk, Bool.and_eq_true, decide_eq_true_eq] at placed
    have high : Riscv32.ramTop Riscv32.Target.machine ≤ 2 ^ 32 := by cases Riscv32.Target.machine <;> decide
    omega
  | @window cursor base len fits accepted =>
    refine ⟨rfl, Nat.le_add_right _ _, Nat.le_of_lt fits, fun _ => ?_⟩
    change deviceWindowOk base (base + len - base) = true
    rw [Nat.add_sub_cancel_left]
    exact accepted

theorem follows : Follows ImageStands (fun _ : K => True) where
  room := Nat.le_refl 8
  stands _ h := h
  about _ _ _ _ := trivial
  load s p n _ := (wp_loadDomain (G := fun _ => True) (n := n) (p := p) (s := s)).imp fun _ _ _ => trivial
  install _ _ _ _ _ _ _ := trivial
  revoke _ _ _ _ _ _ _ _ := trivial
  clear _ _ _ := trivial

theorem recordOk (h : ReachableWith ImageStands s) (p : Nat) :
    RecordOk (s.processes.slot p).grants (s.processes.slot p).grantCount := by
  obtain ⟨-, records⟩ := Records.reachable follows (fun _ _ => trivial) h
  have ok := fun i hi => rowSource_ok (records.sources p i hi)
  exact ⟨records.few p, fun i hi => (ok i hi).identity, fun i hi => (ok i hi).ordered, fun i hi => (ok i hi).bounded,
    fun i hi => (ok i hi).accepted⟩

/-- After the replay of a record that a process can reach, the unit permits what the record grants exactly when no
    device row is of four bytes, no row hides a permission of a later one, and no entry gives what is not granted. -/
theorem replay_exact_iff {n : Nat} (h : ReachableWith ImageStands s) (p : Nat) :
    wp (fun _ => True) n (loadDomain p) (fun _ t =>
      Exact (s.processes.slot p).grants (s.processes.slot p).grantCount t.prot ↔
        NoSmallWindow (s.processes.slot p).grants (s.processes.slot p).grantCount ∧
          EarliestPrevails (s.processes.slot p).grants (s.processes.slot p).grantCount ∧
          ExcessGranted (s.processes.slot p).grants (s.processes.slot p).grantCount) Exits.stops s :=
  wp_loadDomain.imp fun _ t ht => by
    rw [ht]
    exact (staged_stageRows _ _ (recordOk h p).few).exact_iff (recordOk h p)

end

section

/-- A machine whose root has a device block of a page, as its handle 4. -/
@[reducible] def blockBuild : Build := smallBuild 1 0x20000000 [⟨0x10001000, 0x1000, 1⟩]

@[reducible] def blockTarget : Riscv32.Target := ⟨.virt⟩

attribute [local instance] blockBuild blockTarget Riscv32.board

/-- The rows of the root are laid apart on granules, and the third is a window of eight bytes. -/
def windowLaid (s : K) : Bool :=
  let rows := (s.processes.slot rootProcess).grants
  let all := fun (c : Nat → Bool) => (List.range 3).all c
  decide ((s.processes.slot rootProcess).grantCount = 3) &&
    decide ((rows 2).device = true ∧ (rows 2).base = 0x10001000 ∧ (rows 2).top = 0x10001008) &&
    (all fun i => !(rows i).device ||
      decide ((rows i).top - (rows i).base ≠ 4 ∧ (rows i).perms = segRead ||| segWrite)) &&
    (all fun i => (rows i).device || decide ((rows i).base % 4 = 0 ∧ (rows i).top % 4 = 0)) &&
    (all fun i => all fun j => decide (i = j) || decide ((rows i).top ≤ (rows j).base ∨ (rows j).top ≤ (rows i).base))

theorem laid_of_windowLaid {s : K} (h : windowLaid s = true) : (s.processes.slot rootProcess).grantCount = 3 ∧
    ((s.processes.slot rootProcess).grants 2).device = true ∧
    Laid (s.processes.slot rootProcess).grants (s.processes.slot rootProcess).grantCount := by
  simp only [windowLaid, Bool.and_eq_true, List.all_eq_true, List.mem_range, decide_eq_true_eq, Bool.or_eq_true,
    Bool.not_eq_true'] at h
  obtain ⟨⟨⟨⟨three, device, -, -⟩, windows⟩, grains⟩, apart⟩ := h
  refine ⟨three, device, ?_⟩
  rw [three]
  refine ⟨fun i hi hd => ?_, fun i hi hd => ?_, fun i hi hd => ?_, fun i hi j hj other =>
    (apart i hi j hj).resolve_left other⟩
  · exact ((windows i hi).resolve_left (by simp [hd])).1
  · exact (grains i hi).resolve_left (by simp [hd])
  · exact ((windows i hi).resolve_left (by simp [hd])).2

/-- The root carves a window of eight bytes and maps it: its image, its stack and the window are replayed as they
    are. -/
theorem replay_exact_iff_window : ∃ s : K, Reachable s ∧ (s.processes.slot rootProcess).grantCount = 3 ∧
    ((s.processes.slot rootProcess).grants 2).device = true ∧ wp (fun _ => True) 64 (loadDomain rootProcess)
      (fun _ t => Exact (s.processes.slot rootProcess).grants (s.processes.slot rootProcess).grantCount t.prot)
        Exits.stops s := by
  obtain ⟨s, reached, found⟩ := reachable_of_played (i := [.call 4 0 0 8 0, .call 5 1 2 0 0]) (G := ImageStands)
    (c := windowLaid) (g := standsTest) (by decide +kernel) fun _ => imageStands_of_test
  obtain ⟨three, device, laid⟩ := laid_of_windowLaid found
  refine ⟨s, ⟨reached.choose, reached.choose_spec.1, fun _ _ => trivial⟩, three, device, ?_⟩
  exact (replay_exact_iff reached rootProcess).imp fun _ t exact' => exact'.mpr laid.prevails

/-- After the root's record is loaded, the device register at 0x10001004 may be read. -/
def opened (s : K) : Bool :=
  match loadDomain rootProcess 64 s with
  | .ok _ t _ => t.prot.entries.permits 16 0x10001004 .read
  | _ => false

/-- The root carves a window of four bytes and maps it: the replay opens the four bytes behind it too. -/
theorem small_window_opens_beyond :
    ¬∀ s : K, Reachable s → ∀ p n, wp (fun _ => True) n (loadDomain p)
      (fun _ t => Exact (s.processes.slot p).grants (s.processes.slot p).grantCount t.prot) Exits.stops s := by
  intro all
  obtain ⟨s, reached, found⟩ := reachable_of_played (i := [.call 4 0 0 4 0, .call 5 1 2 0 0]) (G := fun _ => True)
    (c := fun s => opened s &&
      (List.range (s.processes.slot rootProcess).grantCount).all fun i =>
        !decide (((s.processes.slot rootProcess).grants i).base ≤ 0x10001004 ∧
          0x10001004 < ((s.processes.slot rootProcess).grants i).top))
    (g := fun _ => true) (by decide +kernel) fun _ _ => trivial
  rw [Bool.and_eq_true] at found
  obtain ⟨may, uncovered⟩ := found
  have replayed := all s reached rootProcess 64
  unfold wp at replayed
  unfold opened at may
  split at may
  · rename_i t _ h
    rw [h] at replayed
    obtain ⟨i, hi, covered, -⟩ := ((replayed.2 fun _ _ => trivial).permits _ _).mp may
    simp only [List.all_eq_true, List.mem_range] at uncovered
    have := uncovered i hi
    simp only [Bool.not_eq_true', decide_eq_false_iff_not] at this
    exact this covered
  · cases may

end

end Sawos.Pmp
