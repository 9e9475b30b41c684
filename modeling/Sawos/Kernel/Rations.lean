import Sawos.Kernel.Refusals
import Sawos.Kernel.Tended

/-! # Rows that a quota has paid for

The quota of Mappings is at most what the image leaves of the row budget, a row that is installed is charged to it and a
row that is taken out is credited. So a process that has quota left has a row left. -/

namespace Sawos
open Exec

variable [Hal]

/-- The rows of a record fit the budget together with those that the quota of Mappings may still pay for. -/
def ProcessSlot.Rationed (a : ProcessSlot) : Prop :=
  a.quotaLimit .mapping = 0 ∨ a.quotaLimit .mapping ≠ quotaUnlimited ∧ a.quotaLimit .mapping ≤ Hal.grantRowBudget ∧
    a.quotaLimit .mapping + a.grantCount ≤ a.quotaUsed .mapping + Hal.grantRowBudget

/-- The quota pays for the rows of every process. -/
def Rationed (s : K) : Prop := ∀ p, (s.processes.slot p).Rationed

/-- What it is read off. -/
def rationParts : List Part := [.process .ration, .process .limits, .process .grants]

section
variable {a b : ProcessSlot}

/-- Two slots have as many rows, and the same quota of Mappings. -/
structure SameRation (a b : ProcessSlot) : Prop where
  limit : a.quotaLimit .mapping = b.quotaLimit .mapping
  used : a.quotaUsed .mapping = b.quotaUsed .mapping
  count : a.grantCount = b.grantCount

theorem ProcessSlot.Rationed.same (same : SameRation a b) (h : a.Rationed) : b.Rationed := by
  unfold ProcessSlot.Rationed at h ⊢
  rwa [← same.limit, ← same.used, ← same.count]

/-- A row is installed and charged. -/
theorem ProcessSlot.Rationed.charge (h : a.Rationed) (row : GrantRow) :
    ((a.pushRow row).setQuotaUsed .mapping (a.quotaUsed .mapping + 1)).Rationed := by
  rcases h with none | ⟨some', within, paid⟩
  · exact Or.inl none
  · refine Or.inr ⟨some', within, ?_⟩
    show a.quotaLimit .mapping + (a.grantCount + 1) ≤ a.quotaUsed .mapping + 1 + Hal.grantRowBudget
    omega

/-- A row is taken out and credited. -/
theorem ProcessSlot.Rationed.credit (h : a.Rationed) (row : Nat) :
    ((a.dropRow row).setQuotaUsed .mapping (a.quotaUsed .mapping - 1)).Rationed := by
  rcases h with none | ⟨some', within, paid⟩
  · exact Or.inl none
  · refine Or.inr ⟨some', within, ?_⟩
    show a.quotaLimit .mapping + (a.grantCount - 1) ≤ a.quotaUsed .mapping - 1 + Hal.grantRowBudget
    omega

/-- A process that may be charged with a Mapping has a row for it. -/
theorem ProcessSlot.Rationed.room (h : a.Rationed)
    (affords : a.quotaLimit .mapping = quotaUnlimited ∨ a.quotaUsed .mapping + 1 ≤ a.quotaLimit .mapping) :
    a.grantCount < Hal.grantRowBudget := by
  rcases h with none | ⟨limited, within, paid⟩
  · rw [none] at affords
    rcases affords with unlimited | room
    · cases unlimited
    · omega
  · have room := affords.resolve_left limited
    omega

end

section
variable {G : Ev → Prop} {n : Nat} {A : K → Prop} {s t : K} {p : Nat}

theorem agree_ration (same : Agree rationParts s t) (p : Nat) : SameRation (s.processes.slot p) (t.processes.slot p) :=
  ⟨congrFun (same (.process .limits) (by decide) p) .mapping, same (.process .ration) (by decide) p,
    (same (.process .grants) (by decide) p).1⟩

theorem Rationed.agree (same : Agree rationParts s t) (hs : Rationed s) : Rationed t := fun p =>
  (hs p).same (agree_ration same p)

theorem Rationed.spares {α : Type} {m : M α} (hm : Spares rationParts m) : Keeps G n A Rationed m :=
  hm.keeps fun _ _ => Rationed.agree

theorem Rationed.setProcess (hs : Rationed s) {v : ProcessSlot} (here : v.Rationed) :
    Rationed { s with processes := s.processes.set p v } := fun q => by
  by_cases own : q = p
  · simpa [own] using here
  · simpa [own] using hs q

theorem Rationed.bedrock : Bedrock G n A Rationed where
  quiet _ _ := trivial
  about _ _ same := Rationed.agree (same.mono (by decide))
  release _ := Rationed.spares (spares_memoryReleaseIfIdle (by decide))
  unmapped _ := Rationed.spares (spares_mappings (by simp +decide))
  reclaim p s hs := wp_modifyProcess.mpr fun _ => hs.setProcess ((hs p).same (by split <;> exact ⟨rfl, rfl, rfl⟩))

/-- The rows of a process that ends go, and its quota after them. -/
theorem Rationed.clearDomain : Keeps G n A Rationed (clearDomain p) := by
  refine fun s hs => wp_bind.mpr (wp_readProcess.mpr fun _ => wp_bind.mpr (wp_modifyProcess.mpr fun _ => ?_))
  refine Keeps.bind (Rationed.spares (by simp +decide)) (fun _ => ?_) _ (hs.setProcess ?_)
  · refine .bind (Rationed.spares (.countUp fun _ => by simp +decide)) fun _ =>
      Rationed.spares (.bind spares_reads fun _ => .whenever ?_)
    simp +decide
  · refine (hs p).imp_right ?_
    rintro ⟨limited, within, -⟩
    exact ⟨limited, within, Nat.le_trans within (Nat.le_add_left _ _)⟩

theorem Rationed.dismantles : Dismantles G n A p Rationed Rationed Rationed Rationed Rationed Rationed Rationed where
  enter _ _ _ hs := wp_modifyProcess.mpr fun _ => hs.setProcess ((hs p).same ⟨rfl, rfl, rfl⟩)
  before := Rationed.bedrock.ground
  threads := (Rationed.spares (spares_sweepThreads (by simp +decide) (by decide))).leads
  idle := (Rationed.spares (spares_idle (by decide))).leads
  lines := Rationed.bedrock.sweepLines
  after := Rationed.bedrock.ground
  timers := Rationed.bedrock.sweepTimers
  rows := (Rationed.spares (by simp +decide)).leads
  record := Rationed.clearDomain.leads
  boot := (Rationed.spares (by simp +decide)).leads
  quota _ hs := wp_modifyProcess.mpr fun _ => hs.setProcess (Or.inl rfl)
  reclaim := Rationed.bedrock.reclaim p

theorem Rationed.steady : Steady G n Rationed :=
  .steady .any (fun _ _ same => Rationed.agree (same.mono (by decide))) Rationed.bedrock.serviced
    (fun _ => Rationed.spares (by simp +decide)) fun _ _ _ _ => Rationed.dismantles.teardown trivial

/-- The rows of `q` change, and its quota is set right after them. -/
theorem Rationed.settled (hs : Rationed s) {q : Nat} {a : ProcessSlot} {f : Nat → Nat}
    (same : Agree rationParts { s with processes := s.processes.set q a } t)
    (settled : (a.setQuotaUsed .mapping (f (a.quotaUsed .mapping))).Rationed) :
    Rationed { t with
      processes := t.processes.set q
        ((t.processes.slot q).setQuotaUsed .mapping (f ((t.processes.slot q).quotaUsed .mapping))) } := fun o => by
  have ration := agree_ration same o
  by_cases own : o = q
  · subst own
    simp only [Slab.set_slot, if_true] at ration ⊢
    have paid : SameRation (a.setQuotaUsed .mapping (f (a.quotaUsed .mapping)))
        ((t.processes.slot o).setQuotaUsed .mapping (f ((t.processes.slot o).quotaUsed .mapping))) :=
      ⟨ration.limit, congrArg f ration.used, ration.count⟩
    exact settled.same paid
  · simp only [Slab.set_slot, own, if_false] at ration ⊢
    exact (hs o).same ration

/-! ### Rows that come -/

/-- The row that a Mapping is made for is charged before anything else reads the quota. -/
theorem Rationed.mintRow (hs : Rationed s) {q base top pa perms : Nat} {device : Bool} {region : Option Nat} :
    wp G n (mintRow p q base top pa perms device region) (fun _ => Rationed) (.leaving A) s := by
  refine wp_bind.mpr (wp_allocMapping.mpr ?_)
  split
  · exact wp_pure.mpr hs
  refine wp_bind.mpr ((Rationed.spares (spares_mintHandle (by decide) (by decide)) s hs).imp fun _ s₁ hs₁ => ?_)
  refine wp_ite.mpr ⟨fun _ => Rationed.spares (.bind (by simp) fun _ => spares_pure) s₁ hs₁, fun _ => wp_bind.mpr ?_⟩
  refine wp_bind.mpr (wp_readProcess.mpr fun _ =>
    wp_bind.mpr (wp_recordGrantOn (S := rationParts) (by decide) (by decide) ?_))
  refine fun _ s₂ pushed => wp_bind.mpr (wp_spares (S := rationParts) (spares_mappings ?_) fun _ s₃ h₃ => ?_)
  · simp +decide
  refine wp_bind.mpr
    (wp_bind.mpr (wp_readProcess.mpr fun _ => wp_bind.mpr (wp_bump.mpr fun _ => wp_modifyProcess.mpr fun _ => ?_)))
  have charged := hs₁.settled (f := (· + 1)) (pushed.trans h₃) ((hs₁ q).charge ⟨base, top, pa, perms, device, region⟩)
  exact (Rationed.spares (spares_domainChanged (by decide) (by decide)) _ charged).imp fun _ _ h => wp_pure.mpr h

theorem Rationed.installRow (hs : Rationed s) {q base top perms : Nat} {device : Bool} {region : Option Nat} :
    wp G n (installRow p q base top perms device region) (fun _ => Rationed) (.leaving A) s := by
  refine wp_bind.mpr ((Rationed.spares spares_quotaRoom s hs).imp fun _ s₁ hs₁ => ?_)
  refine wp_ite.mpr ⟨fun _ => ?_, fun _ => wp_pure.mpr hs₁⟩
  refine wp_bind.mpr (wp_readProcess.mpr fun _ => wp_bind.mpr ?_)
  refine wp_whenever.mpr ⟨fun _ => wp_fatalKernel.mpr trivial, fun _ => ?_⟩
  refine wp_bind.mpr ((Rationed.spares spares_freeUserVa s₁ hs₁).imp fun _ s₂ hs₂ => ?_)
  exact wp_ite.mpr ⟨fun _ => wp_pure.mpr hs₂, fun _ => wp_ite.mpr ⟨fun _ => wp_pure.mpr hs₂, fun _ => hs₂.mintRow⟩⟩

theorem Rationed.split {r len : Nat} : Keeps G n Rationed Rationed (memorySplit p r len) := by
  have w : Steady G n Rationed := Rationed.steady
  refine .bind (w.spares (by simp)) fun _ => .bind (.whenever (w.faultProcess mortal_any)) fun _ => ?_
  refine .bind (.whenever (w.faultProcess mortal_any)) fun _ => w.create (by simp) fun i => ?_
  refine .bind (Rationed.spares (spares_poolCut (by decide))) fun _ => .bind (w.spares (by simp)) fun _ => ?_
  refine .bind (Rationed.spares (spares_memories ?_)) fun _ => w.spares (by simp +decide)
  simp +decide

theorem Rationed.mapStats {dst c : Nat} : Keeps G n Rationed Rationed (statsRegionMap p dst c) := by
  have w : Steady G n Rationed := Rationed.steady
  refine fun s hs => wp_bind.mpr (w.wp_check mortal_any hs fun _ => ?_)
  refine wp_bind.mpr ((Rationed.spares (spares_copyOut (by decide)) s hs).imp fun _ t ht => ?_)
  exact wp_bind.mpr (w.wp_refuse mortal_any ht fun _ => ht.installRow)

/-! ### Rows that go -/

theorem Rationed.unmap {i : Nat} : Keeps G n Rationed Rationed (mappingUnmap p i) := by
  have w : Steady G n Rationed := Rationed.steady
  intro s hs
  refine wp_bind.mpr (w.wp_mappedRow mortal_any hs fun row _ _ _ => wp_bind.mpr (wp_readMapping.mpr fun _ => ?_))
  generalize (s.mappings.slot i).target = q
  refine wp_bind.mpr (wp_ite.mpr ⟨fun _ => ?_, fun _ => wp_halt.mpr trivial⟩)
  refine wp_bind.mpr (wp_readProcess.mpr fun _ => wp_bind.mpr (wp_mark.mpr fun _ => ?_))
  refine wp_bind.mpr ((Rationed.spares (spares_protUpdate (by decide)) s hs).imp fun _ s₀ hs₀ => ?_)
  refine wp_bind.mpr (wp_modifyProcess.mpr fun _ => ?_)
  refine wp_spares (S := rationParts) (spares_unrefRegionRow (by decide)) fun _ s₁ h₁ => ?_
  refine wp_bind.mpr (wp_spares (S := rationParts) (spares_mappings (by simp +decide)) fun _ s₂ h₂ => ?_)
  refine wp_bind.mpr (wp_modifyProcess.mpr fun _ => ?_)
  have credited := hs₀.settled (f := (· - 1)) (h₁.trans h₂) ((hs₀ q).credit row)
  refine wp_bind.mpr ((Rationed.spares (spares_compactMappingRows (by decide)) _ credited).imp fun _ s₃ hs₃ => ?_)
  exact wp_bind.mpr ((Rationed.spares (by simp +decide) s₃ hs₃).imp fun _ _ h => wp_pure.mpr h)

/-! ### Every step -/

theorem Rationed.donated (d : Donated s t) (hs : Rationed s) : Rationed t := fun q => by
  rw [d.processes.slot]
  split
  · exact Or.inl rfl
  · exact hs q

/-- The record of `p` is filled, and it has no quota yet. -/
def Unpaid (p : Nat) (s : K) : Prop := Rationed s ∧ (s.processes.slot p).quotaLimit .mapping = 0

theorem Unpaid.agree (same : Agree rationParts s t) (hs : Unpaid p s) : Unpaid p t :=
  ⟨hs.1.agree same, (agree_ration same p).limit.symm.trans hs.2⟩

theorem Unpaid.spares {α : Type} {m : M α} (hm : Spares rationParts m) : Keeps G n A (Unpaid p) m :=
  hm.keeps fun _ _ => Unpaid.agree

/-- A record that changes without any quota. -/
theorem Unpaid.setProcess (hs : Unpaid p s) {q : Nat} {v : ProcessSlot} (ration : v.Rationed)
    (limit : q = p → v.quotaLimit .mapping = 0) : Unpaid p { s with processes := s.processes.set q v } := by
  refine ⟨hs.1.setProcess ration, ?_⟩
  by_cases own : p = q
  · simpa [own] using limit own.symm
  · simpa [own] using hs.2

theorem Unpaid.bedrock : Bedrock G n A (Unpaid p) where
  quiet _ _ := trivial
  about _ _ same := Unpaid.agree (same.mono (by decide))
  release _ := Unpaid.spares (spares_memoryReleaseIfIdle (by decide))
  unmapped _ := Unpaid.spares (spares_mappings (by simp +decide))
  reclaim q s hs := wp_modifyProcess.mpr fun _ => by
    refine hs.setProcess ((hs.1 q).same (by split <;> exact ⟨rfl, rfl, rfl⟩)) ?_
    rintro rfl
    split <;> exact hs.2

/-- Rows that an image is placed with are not charged. -/
theorem Unpaid.placeImage {img : Nat} {dest : LoadRegion} {region : Option Nat} :
    Keeps G n A (Unpaid p) (placeImage p img dest region) :=
  Unpaid.bedrock.serviced.placeImage fun _ _ _ _ _ _ s hs => wp_recordGrantOn (S := rationParts) (by decide)
    (by decide) fun _ _ same =>
    (hs.setProcess (v := (s.processes.slot p).pushRow _) (Or.inl hs.2) fun _ => hs.2).agree same

/-- A quota that is what the budget has left, or less. -/
theorem Rationed.installed (hs : Rationed s) {root : Bool} :
    wp G n (installQuotaLimits p root (Hal.grantRowBudget - (s.processes.slot p).grantCount)) (fun _ => Rationed)
      (.leaving A) s := by
  refine wp_modifyProcess.mpr fun _ => hs.setProcess ?_
  have few : (if root then maxMappings else defaultQuota .mapping) < quotaUnlimited := by cases root <;> decide
  unfold ProcessSlot.Rationed
  simp only [if_true]
  generalize (if root then maxMappings else defaultQuota .mapping) = most at few ⊢
  omega

theorem Unpaid.fillProcess {img dst : Nat} {dest : LoadRegion} :
    Leads G n A (Unpaid p) Rationed (fillProcess p img dest dst) := by
  refine fun s hs =>
    wp_bind.mpr ((Unpaid.placeImage s hs).imp fun _ t ht => wp_bind.mpr (wp_reads.mpr (wp_bind.mpr ?_)))
  refine wp_modifyProcess.mpr fun _ => ?_
  refine Keeps.bind (Rationed.spares (spares_statsClear (by decide))) (fun _ u hu => ?_) _
    (ht.1.setProcess ((ht.1 p).same ⟨rfl, rfl, rfl⟩))
  exact wp_bind.mpr (wp_readProcess.mpr fun _ => hu.installed)

theorem Rationed.startProcess {e sp rb rt wb wt : Nat} : Keeps G n A Rationed (startProcess e sp rb rt wb wt) := by
  refine .bind (fun s hs => wp_modifyProcess.mpr fun _ => hs.setProcess ((hs rootProcess).same ⟨rfl, rfl, rfl⟩))
    fun _ => ?_
  refine .bind (Rationed.spares (spares_statsClear (by decide))) fun _ => ?_
  refine fun s hs => wp_bind.mpr (wp_readProcess.mpr fun _ => wp_bind.mpr (hs.installed.imp fun _ => ?_))
  exact Rationed.spares (spares_startMain (by decide) (by simp +decide))

theorem Rationed.grounded : SteadyGrounded G n fun s => Owned none s ∧ Rationed s := by
  have w : Steady G n Rationed := Rationed.steady
  have about : ∀ s t, Agree rationParts s t → Rationed s → Rationed t := fun _ _ => Rationed.agree
  have owned : SteadyGrounded G n (Owned none) := Owned.grounded
  have both : Steady G n fun s => Owned none s ∧ Rationed s := Steady.and owned.toUpkeep w
  exact {
    toUpkeep := both
    split := fun p r len hp => (owned.split p r len hp).and Rationed.split
    map := fun p r i t a hp => (owned.map p r i t a hp).and (w.mapsRegion fun _ _ _ _ _ hs _ _ _ => hs.installRow)
    mapDevice := fun p i t hp => (owned.mapDevice p i t hp).and (w.mapsWindow fun _ _ _ _ hs _ _ _ => hs.installRow)
    mapStats := fun p d c hp => ((owned.mapStats p d c hp).and (Rationed.mapStats.leads)).imp
      (fun _ hs => ⟨⟨hs.1.1, hs.2⟩, hs.1.2⟩) fun _ => id
    unmap := fun p i hp => (owned.unmap p i hp).and Rationed.unmap
    donate := fun p k h hp => (owned.donate p k h hp).and (w.donate (fun _ _ d hs => hs.donated d)
      (fun _ => Rationed.spares (spares_memoryRetireDonated (by decide))) hp)
    processCreate := fun p i m hp => both.processCreate (fun slot img dest dst s hs => by
      have limit := hs.1.1.limits slot (by simp) (fun live => live.1 hs.2) .mapping
      exact ((Owned.fillProcess (A := _)).leads.and Unpaid.fillProcess) s ⟨hs.1.1, hs.1.2, limit⟩) hp
    start := fun p c f t hp => (owned.start p c f t hp).and (w.start about (by decide) hp)
    threadCreate := fun q e sp a s hs => (Owned.threadCreate.and fun s hs =>
      w.threadCreate about (by decide) s ⟨hs, Or.inr mortal_any⟩) s hs.1
    devices := owned.devices.and (w.devices fun _ _ same => Rationed.agree (same.mono (by decide))) }

theorem Rationed.boot : Leads G n A K.Fresh Rationed loadRootAndEnter := fun s hs => by
  have slot : ∀ p, s.processes.slot p = .vacant := fun p => by rw [hs.processes]; rfl
  refine boot_leads (I := Unpaid rootProcess) (J := Unpaid rootProcess) (L := Rationed)
    (fun _ => Unpaid.placeImage.leads)
    (fun t ht => Rationed.spares (by simp +decide) t ht.1) (fun _ _ _ _ _ _ => Rationed.startProcess.leads) s ?_
  exact ⟨fun p => slot p ▸ Or.inl rfl, slot rootProcess ▸ rfl⟩

theorem Rationed.reachable (h : Reachable s) : Rationed s :=
  (Grounded.reachable (fun _ => Rationed.grounded) (fun _ t ht =>
    ((Owned.boot (A := fun _ => False)).and (Rationed.boot (A := fun _ => False)) t ⟨ht, ht⟩).mono
      (fun _ => id) (fun _ _ => id) (fun _ h => h.1) (fun _ => id) fun _ => id) h).2

/-- In every state that is reached the ledger and the record of a process agree: one that may be charged with a
    Mapping has a row for it. -/
theorem Rationed.affords (hs : Rationed s) (affords : s.affords p .mapping 1 = true) :
    (s.processes.slot p).grantCount < Hal.grantRowBudget :=
  (hs p).room (by simpa [K.affords] using affords)

end

end Sawos
