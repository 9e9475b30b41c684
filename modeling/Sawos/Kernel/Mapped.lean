import Sawos.Kernel.Doors

/-! # What a Mapping names

Rows are taken out of the middle of a record, and those behind move down. A Mapping that is left still names the row
that was installed for it, whatever was taken out since, and no row of an image is taken out or moved. -/

namespace Sawos
open Exec

section
variable [Hal]

/-- The row that a live Mapping names is the one that it was made for. -/
def Exact (s : K) : Prop := ∀ m < s.mappings.cap, ∀ r, (s.mappings.slot m).state = .live →
    (s.mappings.slot m).row = some r →
  (s.processes.slot (s.mappings.slot m).target).grants r = (s.mappings.slot m).installed

/-- What it is read off. -/
def exactParts : List Part := [.process .grants, .mapping .row, .machine .slabs]

section
variable {G : Ev → Prop} {n : Nat} {A : K → Prop} {s t : K} {p : Nat}

theorem agree_exact (same : Agree exactParts s t) : s.mappings.cap = t.mappings.cap ∧
    (∀ p, (s.processes.slot p).grants = (t.processes.slot p).grants) ∧ ∀ m,
    (s.mappings.slot m).state = (t.mappings.slot m).state ∧
      (s.mappings.slot m).target = (t.mappings.slot m).target ∧ (s.mappings.slot m).row = (t.mappings.slot m).row ∧
      (s.mappings.slot m).installed = (t.mappings.slot m).installed := by
  have shape : s.shape = t.shape := same (.machine .slabs) (by decide)
  simp only [K.shape, List.cons.injEq, Prod.mk.injEq] at shape
  exact ⟨shape.2.2.2.2.2.2.2.2.2.2.1.1, fun p => (same (.process .grants) (by decide) p).2.1,
    same (.mapping .row) (by decide)⟩

theorem Exact.agree (same : Agree exactParts s t) (hs : Exact s) : Exact t := by
  intro m hm r live row
  obtain ⟨cap, grants, mapping⟩ := agree_exact same
  obtain ⟨state, target, named, installed⟩ := mapping m
  rw [← installed, ← grants, ← target]
  exact hs m (cap ▸ hm) r (state.trans live) (named.trans row)

theorem Exact.spares {α : Type} {m : M α} (hm : Spares exactParts m) : Keeps G n A Exact m :=
  hm.keeps fun _ _ => Exact.agree

/-- A record changes, and no row that a Mapping names does. -/
theorem Exact.setProcess (hs : Exact s) {v : ProcessSlot}
    (rows : ∀ m < s.mappings.cap, ∀ r, (s.mappings.slot m).state = .live →
    (s.mappings.slot m).row = some r → (s.mappings.slot m).target = p → v.grants r = (s.processes.slot p).grants r) :
    Exact { s with processes := s.processes.set p v } := by
  intro m hm r live row
  by_cases own : (s.mappings.slot m).target = p
  · have exact_ := hs m hm r live row
    simp only [Slab.set_slot, own, if_true] at exact_ ⊢
    rw [rows m hm r live row own, exact_]
  · simp only [Slab.set_slot, own, if_false]
    exact hs m hm r live row

theorem Exact.fewer (hs : Exact s) {v : Slab MappingSlot} (hc : v.cap = s.mappings.cap)
    (kept : ∀ m < v.cap, ∀ r, (v.slot m).state = .live → (v.slot m).row = some r → v.slot m = s.mappings.slot m) :
    Exact { s with mappings := v } := by
  intro m hm r live row
  have same := kept m hm r live row
  simp only [same] at live row ⊢
  exact hs m (hc ▸ hm) r live row

theorem Exact.bedrock : Bedrock G n A Exact where
  quiet _ _ := trivial
  about _ _ same := Exact.agree (same.mono (by decide))
  release _ := Exact.spares (spares_memoryReleaseIfIdle (by decide))
  unmapped _ _ hs := wp_modifyMapping.mpr fun _ => hs.fewer rfl (set_rowless fun h => by cases h)
  reclaim _ _ hs := wp_modifyProcess.mpr fun _ => hs.setProcess fun _ _ _ _ _ _ => by split <;> rfl

theorem Exact.sweepMappings : Keeps G n A Exact (sweepMappings p) := fun s hs => wp_sweepMappings.imp fun _ t => by
  rintro ⟨v, rfl, hc, kept⟩
  exact hs.fewer hc fun m hm r live row => (kept m hm r live row).1

/-- What is cleared of a record is the number of its rows. -/
theorem Exact.clearDomain : Keeps G n A Exact (clearDomain p) := by
  refine fun s hs => wp_bind.mpr (wp_readProcess.mpr fun _ => wp_bind.mpr (wp_modifyProcess.mpr fun _ => ?_))
  refine Keeps.bind (Exact.spares (by simp +decide)) (fun _ => ?_) _ (hs.setProcess fun _ _ _ _ _ _ => rfl)
  refine .bind (Exact.spares (.countUp fun _ => by simp +decide)) fun _ =>
    Exact.spares (.bind spares_reads fun _ => .whenever ?_)
  simp +decide

theorem Exact.dismantles : Dismantles G n A p Exact Exact Exact Exact Exact Exact Exact where
  enter _ _ _ hs := wp_modifyProcess.mpr fun _ => hs.setProcess fun _ _ _ _ _ _ => rfl
  before := Exact.bedrock.ground
  threads := (Exact.spares (spares_sweepThreads (by simp +decide) (by decide))).leads
  idle := (Exact.spares (spares_idle (by decide))).leads
  lines := Exact.bedrock.sweepLines
  after := Exact.bedrock.ground
  timers := Exact.bedrock.sweepTimers
  rows := Exact.sweepMappings.leads
  record := Exact.clearDomain.leads
  boot := (Exact.spares (by simp +decide)).leads
  quota := (Exact.spares (by simp +decide)).leads
  reclaim := Exact.bedrock.reclaim p

theorem Exact.steady : Steady G n Exact :=
  .steady .any (fun _ _ same => Exact.agree (same.mono (by decide))) Exact.bedrock.serviced
    (fun _ => Exact.spares (by simp +decide)) fun _ _ _ _ => Exact.dismantles.teardown trivial

/-! ### Rows that come -/

/-- A row goes behind those that Mappings name. -/
theorem Exact.push (hs : Exact s) (named : Named s) (row : GrantRow) :
    Exact { s with processes := s.processes.set p ((s.processes.slot p).pushRow row) } := by
  refine hs.setProcess fun m hm r live row own => ?_
  have inside := named.installed m hm r live row
  rw [own] at inside
  exact if_neg (by omega)

/-- The Mapping that is made for a row names it. -/
theorem Exact.mintRow (hs : Exact s) (named : Named s) {q base top pa perms : Nat} {device : Bool}
    {region : Option Nat} :
    wp G n (mintRow p q base top pa perms device region) (fun _ => Exact) (.leaving A) s := by
  refine wp_bind.mpr (wp_allocMapping.mpr ?_)
  split
  · exact wp_pure.mpr hs
  rename_i m _
  refine wp_bind.mpr (wp_spares (S := tendedRows) (spares_mintHandle (by decide) (by decide)) fun _ s₁ h₁ => ?_)
  have hs₁ := hs.agree (h₁.mono (by decide))
  refine wp_ite.mpr ⟨fun _ => Exact.spares (.bind (by simp) fun _ => spares_pure) s₁ hs₁, fun _ => wp_bind.mpr ?_⟩
  refine wp_bind.mpr (wp_readProcess.mpr fun _ => wp_bind.mpr (wp_recordGrant fun _ s₂ h₂ => ?_))
  have pushed := hs₁.push (p := q) (named.agree (h₁.mono (by decide))) ⟨base, top, pa, perms, device, region⟩
  have hs₂ := pushed.agree (h₂.mono (by decide))
  have rows :
    (s₂.processes.slot q).grants = ((s₁.processes.slot q).pushRow ⟨base, top, pa, perms, device, region⟩).grants := by
    simpa using (agree_record h₂ q).rows.symm
  have made : Exact { s₂ with
      mappings := s₂.mappings.set m
        ⟨.live, p, q, some (s₁.processes.slot q).grantCount, 1, ⟨base, top, pa, perms, device, region⟩⟩ } := by
    intro m' hm r live row
    by_cases own : m' = m
    · simp only [Slab.set_slot, own, if_true, Option.some.injEq] at row ⊢
      rw [rows, ← row]
      exact if_pos rfl
    · simp only [Slab.set_slot, own, if_false] at live row ⊢
      exact hs₂ m' hm r live row
  refine wp_bind.mpr (wp_modifyMapping.mpr fun _ => wp_bind.mpr ?_)
  refine (Exact.spares (spares_quotaCharge (by decide) (by decide)) _ made).imp fun _ s₃ hs₃ => ?_
  exact (Exact.spares (by simp +decide) s₃ hs₃).imp fun _ _ h => wp_pure.mpr h

theorem Exact.installRow (hs : Exact s) (named : Named s) {q base top perms : Nat} {device : Bool}
    {region : Option Nat} :
    wp G n (installRow p q base top perms device region) (fun _ => Exact) (.leaving A) s := by
  refine wp_bind.mpr (wp_spares (S := tendedRows) spares_quotaRoom fun _ s₁ h₁ => ?_)
  refine wp_ite.mpr ⟨fun _ => ?_, fun _ => wp_pure.mpr (hs.agree (h₁.mono (by decide)))⟩
  refine wp_bind.mpr (wp_readProcess.mpr fun _ => wp_bind.mpr ?_)
  refine wp_whenever.mpr ⟨fun _ => wp_fatalKernel.mpr trivial, fun _ => ?_⟩
  refine wp_bind.mpr (wp_spares (S := tendedRows) spares_freeUserVa fun _ s₂ h₂ => ?_)
  have hs₂ := hs.agree ((h₁.trans h₂).mono (by decide))
  refine wp_ite.mpr ⟨fun _ => wp_pure.mpr hs₂, fun _ => wp_ite.mpr ⟨fun _ => wp_pure.mpr hs₂, fun _ => ?_⟩⟩
  exact hs₂.mintRow (named.agree ((h₁.trans h₂).mono (by decide)))

/-- Mappings name rows that are there, and those that they were made for. -/
def Mapped (s : K) : Prop := Tended (fun _ _ => True) none s ∧ Exact s

theorem Mapped.agree (same : Agree tendedRows s t) (hs : Mapped s) : Mapped t :=
  ⟨hs.1.agree (G := fun _ => True) tends_true same, hs.2.agree (same.mono (by decide))⟩

theorem Mapped.spares {α : Type} {m : M α} (hm : Spares tendedRows m) : Keeps G n A Mapped m :=
  hm.keeps fun _ _ => Mapped.agree

theorem Mapped.steady : Steady G n Mapped := (Tended.upkeep tends_true).and Exact.steady

theorem Mapped.split {r len : Nat} : Keeps G n Mapped Mapped (memorySplit p r len) := by
  have w : Steady G n Mapped := Mapped.steady
  refine .bind (w.spares (by simp)) fun _ => .bind (.whenever (w.faultProcess mortal_any)) fun _ => ?_
  refine .bind (.whenever (w.faultProcess mortal_any)) fun _ => w.create (by simp) fun i => ?_
  refine .bind (Mapped.spares (spares_poolCut (by decide))) fun _ => .bind (w.spares (by simp)) fun _ => ?_
  refine .bind (Mapped.spares (spares_memories ?_)) fun _ => w.spares (by simp +decide)
  simp +decide

theorem Mapped.installRow (hs : Mapped s) {q base top perms : Nat} {device : Bool} {region : Option Nat}
    (live : (s.processes.slot q).Lives) :
    wp G n (installRow p q base top perms device region) (fun _ => Mapped) (.leaving A) s := by
  have same : wp G n (Sawos.installRow p q base top perms device region) (fun _ => Exact) (.leaving A) s :=
    hs.2.installRow hs.1.toNamed
  have tended : wp G n (Sawos.installRow p q base top perms device region) (fun _ => Tended (fun _ _ => True) none)
    (.leaving A) s :=
    hs.1.installRow tends_true live
  exact (wp.and tended same).mono (fun _ => id) (fun _ _ => id) (fun _ => And.left)
    (fun _ _ => trivial) fun _ _ => trivial

theorem Mapped.map {r i h a : Nat} : Keeps G n Mapped Mapped (memoryMap p r i h a) :=
  Mapped.steady.mapsRegion fun _ _ _ _ _ hs own _ _ => hs.installRow (lives_of_mapTarget own)

theorem Mapped.mapDevice {i h : Nat} : Keeps G n Mapped Mapped (iomemoryMap p i h) :=
  Mapped.steady.mapsWindow fun _ _ _ _ hs own _ _ => hs.installRow (lives_of_mapTarget own)

theorem Mapped.mapStats {dst c : Nat} :
    Leads G n Mapped (fun s => Mapped s ∧ (s.processes.slot p).Lives) Mapped (statsRegionMap p dst c) := by
  have w : Steady G n Mapped := Mapped.steady
  rintro s ⟨hs, live⟩
  refine wp_bind.mpr (w.wp_check mortal_any hs fun _ => ?_)
  refine wp_bind.mpr (wp_spares (S := tendedRows) (spares_copyOut (by decide)) fun _ t same => ?_)
  have ht := hs.agree same
  exact wp_bind.mpr (w.wp_refuse mortal_any ht fun _ => ht.installRow ((agree_record same p).lives.mp live))

/-! ### Rows that go -/

/-- What a Mapping was made for stays when rows move down. -/
theorem wp_compactInstalled {q row : Nat} : wp G n (compactMappingRows q row)
    (fun _ t => ∀ m < s.mappings.cap, (t.mappings.slot m).installed = (s.mappings.slot m).installed)
    (.leaving A) s := by
  refine wp_bind.mpr (wp_capacity.mpr (wp_eachMapping.imp fun _ t => ?_))
  rintro ⟨v, rfl, -, -, moved⟩ m hm
  show (v.slot m).installed = _
  rw [moved m hm]
  split
  · split <;> rfl
  · rfl

theorem wp_shiftInstalled {i q row : Nat} :
    wp G n (do
        mappings.modify i ({ · with row := none })
        quotaCredit q .mapping
        compactMappingRows q row)
      (fun _ u => ∀ m < s.mappings.cap, (u.mappings.slot m).installed = (s.mappings.slot m).installed)
        (.leaving A) s := by
  refine wp_bind.mpr (wp_modifyMapping.mpr fun _ => ?_)
  refine wp_bind.mpr (wp_spares (S := exactParts) (spares_quotaCredit (by decide) (by decide)) fun _ t same => ?_)
  obtain ⟨cap, -, mapping⟩ := agree_exact same
  refine wp_compactInstalled.imp fun _ u hu m hm => ?_
  rw [hu m (cap ▸ hm), ← (mapping m).2.2.2]
  by_cases own : m = i <;> simp [own]

/-- The row of Mapping `i` is taken out, and the others still name theirs. -/
theorem Exact.shifted (hs : Exact s) (named : Named s) {u : K} {i q row : Nat} (hi : i < s.mappings.cap)
    (live : (s.mappings.slot i).state = .live) (hrow : (s.mappings.slot i).row = some row)
    (ht : (s.mappings.slot i).target = q) (moved : Shifted s u i q row)
    (installed : ∀ m < s.mappings.cap, (u.mappings.slot m).installed = (s.mappings.slot m).installed)
    (dropped : (u.processes.slot q).grants = ((s.processes.slot q).dropRow row).grants)
    (others : ∀ o, o ≠ q → (u.processes.slot o).grants = (s.processes.slot o).grants) : Exact u := by
  intro m hm r hl hr
  obtain ⟨inCap, other, hl₀, target, r₀, hr₀, moved⟩ := moved m hm r hl hr
  have was := hs m inCap r₀ hl₀ hr₀
  have inside := named.installed m inCap r₀ hl₀ hr₀
  rw [installed m inCap, ← was, target]
  by_cases own : (s.mappings.slot m).target = q
  · have apart : r₀ ≠ row := by
      rintro rfl
      exact other (named.apart m inCap i hi r₀ hl₀ live hr₀ hrow (own.trans ht.symm))
    rw [own] at inside ⊢
    rw [dropped]
    simp only [ProcessSlot.dropRow]
    rcases moved with ⟨-, behind, rfl⟩ | ⟨before, rfl⟩
    · rw [if_pos ⟨by omega, by omega⟩, Nat.sub_add_cancel (by omega)]
    · have := before own
      rw [if_neg (by omega)]
  · rw [others _ own]
    rcases moved with ⟨h, -, -⟩ | ⟨-, rfl⟩
    · exact absurd h own
    · rfl

theorem Exact.unmap {i : Nat} : Leads G n Exact (fun s => Exact s ∧ Named s) Exact (mappingUnmap p i) := by
  have w : Steady G n Exact := Exact.steady
  rintro s ⟨hs, named⟩
  refine wp_bind.mpr (w.wp_mappedRow mortal_any hs fun row hi live hrow => wp_bind.mpr (wp_readMapping.mpr fun _ => ?_))
  generalize ht : (s.mappings.slot i).target = q
  refine wp_bind.mpr (wp_ite.mpr ⟨fun _ => ?_, fun _ => wp_halt.mpr trivial⟩)
  refine wp_bind.mpr (wp_readProcess.mpr fun _ => wp_bind.mpr (wp_mark.mpr fun _ => ?_))
  refine wp_bind.mpr (wp_spares (S := tendedRows) (spares_protUpdate (by decide)) fun _ s₀ h₀ => ?_)
  refine wp_bind.mpr (wp_modifyProcess.mpr fun _ => ?_)
  refine wp_spares (S := tendedRows) (spares_unrefRegionRow (by decide)) fun _ s₁ h₁ => ?_
  rw [← bind_assoc, ← bind_assoc, bind_assoc (g := fun _ => compactMappingRows q row)]
  refine wp_bind.mpr
    ((wp_shiftRows.and (wp_shiftInstalled (A := Exact))).mono (fun _ => id) (fun _ s₂ h₂ => ?_) (fun _ => And.left)
    (fun _ => And.left) fun _ => And.left)
  obtain ⟨⟨moved, h₂⟩, installed⟩ := h₂
  have grants : ∀ o, ((s₀.processes.set q ((s₀.processes.slot q).dropRow row)).slot o).grants =
    (s₂.processes.slot o).grants := fun o =>
    (h₁ (.process .grants) (by decide) o).2.1.trans (h₂ (.process .grants) (by decide) o).2.1
  have there : Exact s₂ := by
    refine hs.shifted named hi live hrow ht (fun m hm => ?_) (fun m hm => ?_) ?_ fun o ho => ?_
    · have moved₁ : Shifted s₀ s₂ i q row := fun m hm => Shifted.of_agree (agree_rowParts h₁) moved m hm
      exact Shifted.of_agree (agree_rowParts h₀) moved₁ m hm
    · obtain ⟨cap, -, mapping⟩ := agree_exact (h₀.mono (by decide))
      obtain ⟨cap₁, -, mapping₁⟩ := agree_exact (h₁.mono (by decide))
      have first : (s.mappings.slot m).installed = (s₀.mappings.slot m).installed := (mapping m).2.2.2
      have second : (s₀.mappings.slot m).installed = (s₁.mappings.slot m).installed := (mapping₁ m).2.2.2
      have inCap : m < s₁.mappings.cap := cap₁ ▸ (cap ▸ hm : m < s₀.mappings.cap)
      rw [installed m inCap, ← second, ← first]
    · have dropped := (agree_record h₀ q).dropRow row
      rw [← grants q, dropped.rows]
      simp
    · rw [← grants o, (agree_record h₀ o).rows]
      simp [ho]
  exact wp_bind.mpr ((Exact.spares (by simp +decide) s₂ there).imp fun _ _ h => wp_pure.mpr h)

/-! ### Every step -/

theorem Exact.donated (d : Donated s t) (hs : Mapped s) : Exact t := by
  intro m hm r live row
  obtain ⟨old, kept⟩ := d.mapping live hm
  rw [kept] at live row ⊢
  have exact_ := hs.2 m old r live row
  have inside := hs.1.installed m old r live row
  rw [d.processes.slot]
  split
  · rename_i new
    obtain ⟨-, none⟩ := hs.1.beyond _ new.1
    omega
  · exact exact_

/-- A record that no Mapping names a row of may be filled. -/
def Idling (p : Nat) (s : K) : Prop := Unnamed p s ∧ Exact s

theorem Idling.agree (same : Agree tendedRows s t) (hs : Idling p s) : Idling p t :=
  ⟨hs.1.agree (agree_rowParts same), hs.2.agree (same.mono (by decide))⟩

theorem Idling.bedrock : Bedrock G n A (Idling p) where
  quiet _ _ := trivial
  about _ _ same := Idling.agree (same.mono (by decide))
  release _ := Spares.keeps (S := tendedRows) (spares_memoryReleaseIfIdle (by decide)) fun _ _ => Idling.agree
  unmapped i s hs := wp_modifyMapping.mpr fun _ =>
    have rowless := set_rowless (u := s.mappings) (i := i) (v := .vacant) fun h => by cases h
    ⟨fun m hm r live row => by
      have same := rowless m hm r live row
      simp only [same] at live row ⊢
      exact hs.1 m hm r live row, hs.2.fewer rfl rowless⟩
  reclaim _ _ hs := wp_modifyProcess.mpr fun _ => ⟨hs.1, hs.2.setProcess fun _ _ _ _ _ _ => by split <;> rfl⟩

theorem Idling.push (hs : Idling p s) (row : GrantRow) :
    Idling p { s with processes := s.processes.set p ((s.processes.slot p).pushRow row) } :=
  ⟨hs.1, hs.2.setProcess fun m hm r live named own => absurd own (hs.1 m hm r live named)⟩

theorem Idling.placeImage {img : Nat} {dest : LoadRegion} {region : Option Nat} :
    Keeps G n A (Idling p) (placeImage p img dest region) :=
  Idling.bedrock.serviced.placeImage fun _ _ _ _ _ _ _ hs => wp_recordGrant fun _ _ h =>
    (Idling.push hs _).agree h

theorem Exact.fillProcess {img dst : Nat} {dest : LoadRegion} :
    Leads G n A (fun s => Mapped s ∧ (s.processes.slot p).state = .free) Exact (fillProcess p img dest dst) := by
  rintro s ⟨⟨tended, hs⟩, free⟩
  have idling : Idling p s := ⟨(tended.placing (G := G) tends_true fun live => live.1 free).2, hs⟩
  refine wp_bind.mpr ((Idling.placeImage s idling).imp fun _ t ht => wp_bind.mpr (wp_reads.mpr (wp_bind.mpr ?_)))
  refine wp_modifyProcess.mpr fun _ => Exact.spares ?_ _ (ht.2.setProcess fun _ _ _ _ _ _ => rfl)
  exact .bind (spares_statsClear (by decide)) fun _ => .bind (by simp) fun _ => by simp +decide

theorem Mapped.fillProcess {img dst : Nat} {dest : LoadRegion} :
    Leads G n A (fun s => Mapped s ∧ (s.processes.slot p).state = .free) Mapped (fillProcess p img dest dst) := by
  have tended : Leads G n A _ _ (Sawos.fillProcess p img dest dst) := Tended.fillProcess tends_true
  have both := tended.and (Exact.fillProcess (A := A))
  exact fun s hs => (both s ⟨⟨hs.1.1, hs.2⟩, hs⟩).mono (fun _ => id) (fun _ _ => id) (fun _ => And.left)
    (fun _ => id) fun _ => id

theorem Mapped.grounded : SteadyGrounded G n fun s => Owned none s ∧ Mapped s := by
  have w : Steady G n Exact := Exact.steady
  have w' : Steady G n Mapped := Mapped.steady
  have about : ∀ s t, Agree exactParts s t → Exact s → Exact t := fun _ _ => Exact.agree
  have owned : SteadyGrounded G n (Owned none) := Owned.grounded
  exact {
    toUpkeep := Steady.and owned.toUpkeep w'
    split := fun p r len hp => (owned.split p r len hp).and Mapped.split
    map := fun p r i t a hp => (owned.map p r i t a hp).and Mapped.map
    mapDevice := fun p i t hp => (owned.mapDevice p i t hp).and Mapped.mapDevice
    mapStats := fun p d c hp s hs => ((owned.mapStats p d c hp).and Mapped.mapStats) s
      ⟨⟨hs.1.1, hs.2⟩, hs.1.2, hs.1.1.callerLives hs.2⟩
    unmap := fun p i hp => (owned.unmap p i hp).and (((Tended.unmap tends_true).leads.and Exact.unmap).imp
      (fun _ hs => ⟨hs.1, hs.2, hs.1.toNamed⟩) fun _ => id)
    donate := fun p k h hp => (owned.donate p k h hp).and
      (w'.donate (fun _ _ d hs => ⟨hs.1.donated (G := G) tends_true d, Exact.donated d hs⟩)
      (fun _ => Mapped.spares (spares_memoryRetireDonated (by decide))) hp)
    processCreate := fun p i m hp => (owned.processCreate p i m hp).and
      (w'.processCreate (fun _ _ _ _ => Mapped.fillProcess) hp)
    start := fun p c f t hp => (owned.start p c f t hp).and
      ((Tended.start tends_true).and (w.start about (by decide) hp))
    threadCreate := fun q e sp a s hs => (Owned.threadCreate.and ((Tended.threadCreate tends_true).and fun s hs =>
      w.threadCreate about (by decide) s ⟨hs, Or.inr mortal_any⟩)) s hs.1
    devices := owned.devices.and (w'.devices fun _ _ same => Mapped.agree (same.mono (by decide))) }

theorem Exact.fresh (hs : s.Fresh) : Idling p s := by
  have mapping : ∀ m, (s.mappings.slot m).state ≠ .live := fun m hl => by
    rw [hs.mappings] at hl
    cases hl
  exact ⟨fun m _ r hl => absurd hl (mapping m), fun m _ r hl => absurd hl (mapping m)⟩

theorem Exact.startProcess {e sp rb rt wb wt : Nat} : Keeps G n A Exact (startProcess e sp rb rt wb wt) := by
  refine .bind (fun _ hs => wp_modifyProcess.mpr fun _ => hs.setProcess fun _ _ _ _ _ _ => rfl) fun _ => Exact.spares ?_
  refine .bind (spares_statsClear (by decide)) fun _ => .bind (by simp) fun _ => .bind (by simp +decide) fun _ => ?_
  exact spares_startMain (by decide) (by simp +decide)

theorem Exact.boot : Leads G n A K.Fresh Exact loadRootAndEnter := fun s hs =>
  boot_leads (I := Idling rootProcess) (J := Idling rootProcess) (L := Exact)
    (fun _ => Idling.placeImage.leads) (fun t ht => Exact.spares (by simp +decide) t ht.2)
    (fun _ _ _ _ _ _ => Exact.startProcess.leads) s (Exact.fresh hs)

theorem Mapped.reachable (h : Reachable s) : Mapped s :=
  (Grounded.reachable (fun _ => Mapped.grounded) (fun _ t ht =>
    ((Owned.boot (A := fun _ => False)).and
      ((Tended.boot (A := fun _ => False) tends_true fun _ => trivial).and (Exact.boot (A := fun _ => False))) t
        ⟨ht, ht, ht⟩).mono
      (fun _ => id) (fun _ _ => id) (fun _ h => h.1) (fun _ => id) fun _ => id) h).2

/-- A Mapping that is asked for its base answers the one that it was made with. -/
theorem Mapped.base (hs : Mapped s) {i : Nat} :
    wp G n (mappingBase p i) (fun r _ => r = opValue (s.mappings.slot i).installed.base)
      (.leaving ⟨Mapped, fun _ => True⟩) s := by
  have w : Steady G n Mapped := Mapped.steady
  refine wp_bind.mpr (w.wp_mappedRow mortal_any hs fun row hi live hrow => wp_bind.mpr (wp_readMapping.mpr fun _ => ?_))
  refine wp_bind.mpr (wp_readProcess.mpr fun _ => wp_pure.mpr ?_)
  rw [hs.2 i hi row live hrow]

/-! ### What stays of an image -/

/-- A process lives, with the rows and the window of the image that `w` has. -/
structure Imaged (w a : ProcessSlot) : Prop where
  lives : a.Lives
  image : a.imageRows = w.imageRows
  room : a.imageRows ≤ a.grantCount
  rows : ∀ i < w.imageRows, a.grants i = w.grants i
  window : a.regionBase = w.regionBase ∧ a.regionTop = w.regionTop ∧ a.rwBase = w.rwBase ∧ a.rwTop = w.rwTop

/-- The event does not end `p`. -/
def Outlives (p : Nat) : Ev → Prop
  | .mark (.ends q) _ => q ≠ p
  | _ => True

/-- The same, as a test. -/
def outlivesTest (p : Nat) : Ev → Bool
  | .mark (.ends q) _ => decide (q ≠ p)
  | _ => true

theorem outlives_of_test {e : Ev} (h : outlivesTest p e = true) : Outlives p e := by
  cases e with
  | mark point u =>
    cases point with
    | ends q => exact (of_decide_eq_true h : q ≠ p)
    | _ => trivial
  | _ => trivial

theorem imaged_tends {w : ProcessSlot} : Tends (Outlives p) fun q a => q = p → Imaged w a where
  same q a b same h own := by
    obtain ⟨lives, image, room, rows, window⟩ := h own
    obtain ⟨base, top, rwBase, rwTop⟩ := same.window
    exact ⟨same.lives.mp lives, same.image ▸ image, same.image ▸ same.count ▸ room, same.rows ▸ rows,
      base ▸ top ▸ rwBase ▸ rwTop ▸ window⟩
  push q a row _ _ h own := by
    obtain ⟨lives, image, room, rows, window⟩ := h own
    exact ⟨lives, image, Nat.le_succ_of_le room, fun i hi => (if_neg (by omega)).trans (rows i hi), window⟩
  drop s q r _ behind _ _ h own := by
    obtain ⟨lives, image, room, rows, window⟩ := h own
    refine ⟨lives, image, ?_, fun i hi => ?_, window⟩
    · show (s.processes.slot q).imageRows ≤ (s.processes.slot q).grantCount - 1
      omega
    · simp only [ProcessSlot.dropRow]
      rw [if_neg (by omega), rows i hi]
  dead q a b dead _ h own := absurd (h own).lives dead
  ends s q b good _ _ own := absurd own good
  place n q img dest region s free _ h A := by
    by_cases own : q = p
    · exact absurd free (h own).lives.1
    · have any : Keeps (Outlives p) n A (fun _ => True) (placeImage q img dest region) :=
        (Bedrock.true fun _ _ => trivial).serviced.placeImage fun _ _ _ _ _ _ =>
          keeps_true (fun _ _ => trivial) (by simp +decide)
      exact (any s trivial).imp fun _ _ _ b _ same => absurd same own

theorem Imaged.ahead {h : List Ev} (reached : Reachable s) (live : (s.processes.slot p).Lives)
    (ahead : machine.Ahead s t h)
    (outlives : ∀ e ∈ h, Outlives p e) : Imaged (s.processes.slot p) (t.processes.slot p) := by
  obtain ⟨owned, tended⟩ := Tended.reachable tends_true (fun _ => trivial) reached
  have now : Owned none s ∧ Tended (fun q a => q = p → Imaged (s.processes.slot p) a) none s := by
    refine ⟨owned, tended.toNamed, tended.behind, tended.image, tended.vacant, tended.beyond, fun q _ own => ?_,
      fun q hq => by cases hq⟩
    subst own
    exact ⟨live, rfl, tended.image q (by simp), fun _ _ => rfl, rfl, rfl, rfl, rfl⟩
  exact (ahead.ofPrograms outlives now fun _ _ => (Tended.grounded imaged_tends).act fun _ => mortal_any).2.holds p
    (by simp) rfl

/-- In every state that is reached each live Mapping names the row that was installed for it, behind the rows of the
    image of its target, and no two name one row; so each answers the base that it was made with. While a process is not
    ended its image keeps its rows and its window. -/
theorem mappings_name_their_rows (h : Reachable s) :
    (∀ m < s.mappings.cap, ∀ r, (s.mappings.slot m).state = .live → (s.mappings.slot m).row = some r →
      (s.processes.slot (s.mappings.slot m).target).grants r = (s.mappings.slot m).installed ∧
      (s.processes.slot (s.mappings.slot m).target).imageRows ≤ r ∧
        r < (s.processes.slot (s.mappings.slot m).target).grantCount ∧
      ∀ m' < s.mappings.cap, (s.mappings.slot m').state = .live → (s.mappings.slot m').row = some r →
        (s.mappings.slot m').target = (s.mappings.slot m).target → m' = m) ∧
    (∀ p m n r t tr, mappingBase p m n s = .ok r t tr → r = opValue (s.mappings.slot m).installed.base) ∧
    ∀ p, (s.processes.slot p).Lives → ∀ t es, machine.Ahead s t es → (∀ e ∈ es, Outlives p e) →
      Imaged (s.processes.slot p) (t.processes.slot p) := by
  have mapped := Mapped.reachable h
  have ⟨tended, exact_⟩ := mapped
  refine ⟨fun m hm r live row => ?_, fun p m n r t tr run => (Mapped.base (G := fun _ => True) mapped).ok run,
    fun p live t es ahead outlives => Imaged.ahead h live ahead outlives⟩
  refine ⟨exact_ m hm r live row, tended.behind m hm r live row, tended.installed m hm r live row,
    fun m' hm' live' row' same => ?_⟩
  exact tended.apart m' hm' m hm r live' live row' row same

end

end

section

attribute [local instance] sampleBuild sampleTarget Riscv32.board

/-- The root maps two pages of its memory for itself. -/
def mapsTwo : List Stimulus := [.call 4 0 4096 0 0, .call 6 1 2 3 0, .call 4 0 4096 0 0, .call 8 1 2 3 0]

/-- A live Mapping names row `r` of the root. -/
def namesRow (m r : Nat) (s : K) : Bool :=
  decide (m < s.mappings.cap) && decide ((s.mappings.slot m).state = .live) &&
    decide ((s.mappings.slot m).target = rootProcess) && (s.mappings.slot m).row == some r

/-- The first page is unmapped: the row of the second is the last of three, and still the one that its Mapping names. -/
theorem mappings_name_their_rows_unmapped : ∃ s t : K, namesRow 1 3 s = true ∧ namesRow 1 2 t = true ∧
    (t.processes.slot rootProcess).grants 2 = (t.mappings.slot 1).installed ∧
    Imaged (s.processes.slot rootProcess) (t.processes.slot rootProcess) := by
  obtain ⟨s, t, h, reached, ahead, found⟩ := ahead_of_played (i := mapsTwo) (j := [.call 7 0 0 0 0])
    (c := fun s h t => namesRow 1 3 s && namesRow 1 2 t && h.all (outlivesTest rootProcess) &&
      decide ((s.processes.slot rootProcess).state = .running)) (by decide +kernel)
  simp only [Bool.and_eq_true, List.all_eq_true, decide_eq_true_eq] at found
  obtain ⟨⟨⟨before, after⟩, spared⟩, runs⟩ := found
  have names := after
  simp only [namesRow, Bool.and_eq_true, beq_iff_eq, decide_eq_true_eq] at names
  obtain ⟨⟨⟨inCap, live⟩, target⟩, row⟩ := names
  obtain ⟨rows, -⟩ := mappings_name_their_rows (reached.ahead ahead fun _ _ => trivial)
  obtain ⟨exact_, -⟩ := rows 1 inCap 2 live row
  obtain ⟨-, -, stays⟩ := mappings_name_their_rows reached
  refine ⟨s, t, before, after, target ▸ exact_, stays rootProcess (by simp [ProcessSlot.Lives, runs])
    t h ahead fun e he => ?_⟩
  exact outlives_of_test (spared e he)

end

end Sawos
