import Sawos.Boards.Arm64Record
import Sawos.Kernel.Samples

/-! # The kernel on the arm64 board keeps the tables

The tables of every slot stand to its record as long as no row is revoked whose pages another row covers. -/

namespace Sawos.Arm64
open Exec

/-- The tables of a slot, as its record has them: a descriptor is valid where a row covers its page, and is then the
    one of a row that does. -/
def TablesMatch (u : Tables) (p : Nat) (slot : ProcessSlot) : Prop :=
  ∀ d, ∀ i < windowPages d,
    ((u.desc (descAddr p d i)).testBit 0 = true ↔ ∃ r < slot.grantCount, coversPage (slot.grants r) d i) ∧
    ((u.desc (descAddr p d i)).testBit 0 = true →
      ∃ r < slot.grantCount, coversPage (slot.grants r) d i ∧ u.desc (descAddr p d i) = rowDesc (slot.grants r) i)

/-- Two states of the tables have the same descriptors in the set of a slot. -/
def SameSet (q : Nat) (u u' : Tables) : Prop :=
  ∀ d, ∀ i < windowPages d, u'.desc (descAddr q d i) = u.desc (descAddr q d i)

theorem Standing.tablesMatch {u : Tables} {p : Nat} {slot : ProcessSlot}
    (hs : Standing u p slot.grants slot.grantCount) : TablesMatch u p slot := by
  intro d i hi
  by_cases some_covers : ∃ r < slot.grantCount, coversPage (slot.grants r) d i
  · obtain ⟨r, hr, hc, hdesc⟩ := hs.granted d i hi some_covers
    exact ⟨⟨fun _ => some_covers, fun _ => hdesc ▸ rowDesc_valid _ _⟩, fun _ => ⟨r, hr, hc, hdesc⟩⟩
  · have absent := hs.absent d i hi fun r hr hc => some_covers ⟨r, hr, hc⟩
    have invalid : ¬(u.desc (descAddr p d i)).testBit 0 = true := by
      rw [absent]
      decide
    exact ⟨⟨fun h => absurd h invalid, fun h => absurd h some_covers⟩, fun h => absurd h invalid⟩

theorem revoke_frame {u u' : Tables} {p q n r : Nat} {rows : Nat → GrantRow} (hs : Standing u p rows n) (hr : r < n)
    (hu : protUpdate p (rows r).base (rows r).top (rows r).pa 0 (rows r).device u = some u') (hq : q ≠ p) :
    SameSet q u u' :=
  fun _ _ hi => edit_frame (hs.inside r hr) (protUpdate_revoke hu).2 hq hi

theorem clear_frame {u : Tables} {p q : Nat} (hq : q ≠ p) : SameSet q u (protClear p u) :=
  fun _ _ hi => protClear_frame hi hq

section
variable [Build] [Gic]

attribute [local instance] board

variable {s : K} {row : GrantRow}

/-- A row is revoked whose pages no other row of its record covers. -/
def SoleRevoke : Ev → Prop
  | .mark (.revoke p r) s => SoleCover (s.processes.slot p).grants (s.processes.slot p).grantCount r
  | _ => True

/-- The tables of every slot stand to its record. -/
def AllStanding (s : K) : Prop :=
  ∀ p, Standing s.prot p (s.processes.slot p).grants (s.processes.slot p).grantCount

theorem rowSource_installs (src : RowSource row) : row.perms ≠ 0 ∧ row.base ≤ row.top := by
  cases src with
  | segment checked _ _ _ => exact ⟨checkSegment_permits checked, Nat.le_trans (Nat.le_add_right _ _) (le_alignUp _ _)⟩
  | grant checked _ => exact ⟨checkSegment_permits checked, Nat.le_add_right _ _⟩
  | stack _ => exact ⟨Nat.succ_ne_zero 2, Nat.sub_le _ _⟩
  | map permits _ _ => exact ⟨permits, Nat.le_add_right _ _⟩
  | window _ _ => exact ⟨Nat.succ_ne_zero 2, Nat.le_add_right _ _⟩

/-- The other slots' tables stand through an edit of one slot's. -/
theorem AllStanding.edit {u : Tables} {p : Nat} {v : ProcessSlot} (hs : AllStanding s)
    (own : Standing u p v.grants v.grantCount)
    (frame : ∀ q, q ≠ p → SameSet q s.prot u) :
    AllStanding { s with processes := s.processes.set p v, prot := u } := by
  intro q
  by_cases hq : q = p
  · simpa [hq] using own
  · simp only [Slab.set_slot, hq, if_false]
    exact (hs q).frame (fun _ _ => rfl) (frame q hq)

theorem install_frame {u u' : Tables} {p q : Nat} (src : RowSource row)
    (hu : protUpdate p row.base row.top row.pa row.perms row.device u = some u') (hq : q ≠ p) : SameSet q u u' := by
  obtain ⟨permits, ordered⟩ := rowSource_installs src
  obtain ⟨inside, frame⟩ := protUpdate_install hu permits ordered
  exact fun d i hi => edit_frame (fun e j h => (inside e j h).1) frame hq hi

omit [Build] [Gic] in
theorem dropRow_grants {slot : ProcessSlot} {r m : Nat} (hm : m + 1 < slot.grantCount) :
    (slot.dropRow r).grants m = if m < r then slot.grants m else slot.grants (m + 1) := by
  by_cases h : m < r
  · simp [ProcessSlot.dropRow, h, Nat.not_le_of_lt h]
  · simp [ProcessSlot.dropRow, h, hm, Nat.le_of_not_lt h]

theorem follows : Follows (fun e => ImageStands e ∧ SoleRevoke e) AllStanding where
  room := Nat.le_refl 9
  stands _ h := h.1
  about s t same hs p := by
    rw [← same.prot, ← same.count p]
    exact (hs p).frame (fun r hr => (same.rows p r hr).symm) fun _ _ _ => rfl
  load s p n hs := by
    simp only [loadDomain, Column.read, processes, wp_bind, wp_reads, wp_ite, wp_halt]
    refine ⟨fun _ => ?_, fun _ => trivial⟩
    have standing : Hal.protReplayAtSwitch = false := rfl
    simp only [standing, whenever, Bool.false_eq_true, if_false, wp_pure, prot]
    refine wp_bind.mpr (wp_modifies.mpr (wp_modifies.mpr fun q => ?_))
    exact (hs q).frame (fun _ _ => rfl) fun _ _ _ => rfl
  install s p row u src hu hs := by
    refine hs.edit ?_ fun q hq => install_frame src hu hq
    exact (hs p).record (fun r hr => if_neg (Nat.ne_of_lt hr)) (if_pos rfl) hu (rowSource_installs src).1
      (rowSource_installs src).2
  revoke s p r u hr good hu hs := by
    refine hs.edit ?_ fun q hq => revoke_frame (hs p) hr hu hq
    exact (hs p).remove hr good.2 hu fun m hm => dropRow_grants (by omega)
  clear s p hs := hs.edit (standing_clear _ _ _) fun _ hq => clear_frame hq

/-- What the tables are to the records: the set of each slot shows its record, the set of a slot that is free shows
    nothing, and no edit for one slot reaches the set of another. -/
structure Faithful (s : K) : Prop where
  shows : ∀ p, TablesMatch s.prot p (s.processes.slot p)
  free : ∀ p, (s.processes.slot p).state = .free → ∀ d, ∀ i < windowPages d,
    s.prot.desc (descAddr p d i) = descAbsent
  install : ∀ p q row u, q ≠ p → RowSource row →
    protUpdate p row.base row.top row.pa row.perms row.device s.prot = some u → SameSet q s.prot u
  revoke : ∀ p q u, q ≠ p → ∀ r < (s.processes.slot p).grantCount,
    protUpdate p ((s.processes.slot p).grants r).base ((s.processes.slot p).grants r).top
      ((s.processes.slot p).grants r).pa 0 ((s.processes.slot p).grants r).device s.prot = some u → SameSet q s.prot u
  clear : ∀ p q, q ≠ p → SameSet q s.prot (protClear p s.prot)

theorem AllStanding.boot (hs : s.Fresh) : AllStanding s := by
  intro p
  rw [hs.processes, hs.prot]
  exact ⟨fun _ h => absurd h (Nat.not_lt_zero _), fun _ _ _ _ => rfl, fun _ _ _ ⟨_, h, _⟩ =>
    absurd h (Nat.not_lt_zero _)⟩

/-- The tables follow the records through every run in which no row is revoked whose pages another row covers. -/
theorem tables_follow_records (h : ReachableWith (fun e => ImageStands e ∧ SoleRevoke e) s) : Faithful s := by
  obtain ⟨-, records⟩ := Records.reachable follows (fun _ => AllStanding.boot) h
  have standing : AllStanding s := records.unit
  refine ⟨fun p => (standing p).tablesMatch, fun p free d i hi => ?_, fun p q row u hq src hu =>
    install_frame src hu hq, fun p q u hq r hr hu => revoke_frame (standing p) hr hu hq, fun p q hq => clear_frame hq⟩
  have none_left := records.vacant p (by simp) (Or.inl free)
  exact (standing p).absent d i hi fun r hr => absurd hr (by omega)

end

section

/-- A board whose root has a device window of a page, as its handle 4. -/
@[reducible] def windowBuild : Build := smallBuild 2 0x20003000 [⟨0x09010000, 0x1000, 1⟩]

@[reducible] def windowGic : Gic := ⟨32⟩

attribute [local instance] windowBuild windowGic board

/-- The rows that share the record with a revoked one are of the other kind. -/
def otherKindTest : Ev → Bool
  | .mark (.revoke p r) s =>
    let slot := s.processes.slot p
    (List.range slot.grantCount).all fun m => m == r || (slot.grants m).device != (slot.grants r).device
  | _ => true

theorem soleRevoke_of_otherKind {e : Ev} (h : otherKindTest e = true) : SoleRevoke e := by
  cases e with
  | mark point s =>
    cases point with
    | revoke p r =>
      simp only [otherKindTest, List.all_eq_true, List.mem_range, Bool.or_eq_true, beq_iff_eq, bne_iff_ne] at h
      intro m hm hne d i covered covered'
      rcases h m hm with same | kinds
      · exact hne same
      · exact kinds (covered'.1.trans covered.1.symm)
    | _ => trivial
  | _ => trivial

/-- The root maps its window, and unmaps it. -/
theorem tables_follow_records_unmapped :
    ∃ s : K, Faithful s ∧ (s.processes.slot rootProcess).grantCount = 2 ∧
      (s.mappings.slot 0).state = .live := by
  obtain ⟨s, reached, found⟩ := reachable_of_played (i := [.call 4 1 2 0 0, .call 5 0 0 0 0])
    (G := fun e => ImageStands e ∧ SoleRevoke e)
    (c := fun s => (s.processes.slot rootProcess).grantCount == 2 && decide ((s.mappings.slot 0).state = .live))
    (g := fun e => standsTest e && otherKindTest e) (by decide +kernel) fun e h => by
      rw [Bool.and_eq_true] at h
      exact ⟨imageStands_of_test h.1, soleRevoke_of_otherKind h.2⟩
  simp only [Bool.and_eq_true, beq_iff_eq, decide_eq_true_eq] at found
  exact ⟨s, tables_follow_records reached, found⟩

/-- The root maps its window twice and unmaps it once: the row that is left covers a page whose descriptor is absent. -/
theorem window_lost_on_unmap :
    ¬∀ s : K, Reachable s → ∀ p, TablesMatch s.prot p (s.processes.slot p) := by
  intro all
  obtain ⟨s, reached, found⟩ := reachable_of_played (i := [.call 4 1 2 0 0, .call 4 1 2 0 0, .call 5 0 0 0 0])
    (G := fun _ => True)
    (c := fun s => (s.processes.slot rootProcess).grantCount == 3 &&
      ((s.processes.slot rootProcess).grants 2).device &&
      ((s.processes.slot rootProcess).grants 2).base == 0x09010000 &&
      ((s.processes.slot rootProcess).grants 2).top == 0x09011000 && s.prot.desc (descAddr 0 true 16) == descAbsent)
    (g := fun _ => true) (by decide +kernel) fun _ _ => trivial
  simp only [Bool.and_eq_true, beq_iff_eq] at found
  obtain ⟨⟨⟨⟨count, device⟩, base⟩, top⟩, absent⟩ := found
  have covers : coversPage ((s.processes.slot rootProcess).grants 2) true 16 := by
    refine ⟨device, ?_⟩
    rw [base, top]
    exact ⟨by decide, by decide⟩
  have valid := ((all s reached rootProcess true 16 (by decide)).1).mpr ⟨2, by omega, covers⟩
  rw [show descAddr rootProcess true 16 = descAddr 0 true 16 from rfl, absent] at valid
  exact absurd valid (by decide)

end

end Sawos.Arm64
