import Sawos.Kernel.Records

/-! # What befalls the record of a process

The record of a process is placed with its image; rows are put behind the last one, rows behind those of the image are
taken out, and the record is emptied when the process ends. What these steps keep of a process holds over whole runs. -/

namespace Sawos
open Exec

variable [Hal]

/-- Two slots have the same record and the same image, and both hold a process or neither does. -/
structure SameRecord (a b : ProcessSlot) : Prop where
  count : a.grantCount = b.grantCount
  rows : a.grants = b.grants
  image : a.imageRows = b.imageRows
  window : a.regionBase = b.regionBase ∧ a.regionTop = b.regionTop ∧ a.rwBase = b.rwBase ∧ a.rwTop = b.rwTop
  lives : a.Lives ↔ b.Lives

omit [Hal] in
theorem SameRecord.refl (a : ProcessSlot) : SameRecord a a := ⟨rfl, rfl, rfl, ⟨rfl, rfl, rfl, rfl⟩, Iff.rfl⟩

omit [Hal] in
theorem SameRecord.trans {a b c : ProcessSlot} (h : SameRecord a b) (h' : SameRecord b c) : SameRecord a c := by
  obtain ⟨base, top, rwBase, rwTop⟩ := h.window
  obtain ⟨base', top', rwBase', rwTop'⟩ := h'.window
  exact ⟨h.count.trans h'.count, h.rows.trans h'.rows, h.image.trans h'.image,
    ⟨base.trans base', top.trans top', rwBase.trans rwBase', rwTop.trans rwTop'⟩, h.lives.trans h'.lives⟩

omit [Hal] in
theorem SameRecord.dropRow {a b : ProcessSlot} (h : SameRecord a b) (r : Nat) :
    SameRecord (a.dropRow r) (b.dropRow r) where
  count := congrArg (· - 1) h.count
  rows := by
    simp only [ProcessSlot.dropRow, h.rows, h.count]
  image := h.image
  window := h.window
  lives := h.lives

/-- Slot `b` gets the record of `a` for that of its image, which was placed in `dest` with its writable part from
    `rwBase` on. -/
structure Placed (dest : LoadRegion) (rwBase : Nat) (a b : ProcessSlot) : Prop where
  count : b.grantCount = a.grantCount
  rows : b.grants = a.grants
  image : b.imageRows = a.grantCount
  window : b.regionBase = dest.linkBase ∧ b.regionTop = dest.linkTop ∧ b.rwBase = rwBase ∧ b.rwTop = dest.linkTop

/-- What befalls its record keeps `D` of each process, and `D` says nothing of the dead. -/
structure Tends (G : Ev → Prop) (D : Nat → ProcessSlot → Prop) : Prop where
  same : ∀ p a b, SameRecord a b → D p a → D p b
  push : ∀ p a row, a.Lives → (row.device = false → Hal.mapTargetOk row.base row.top = true) →
    D p a → D p (a.pushRow row)
  drop : ∀ s p r, (s.processes.slot p).Lives → (s.processes.slot p).imageRows ≤ r →
    r < (s.processes.slot p).grantCount → G (.mark (.revoke p r) s) → D p (s.processes.slot p) →
    D p ((s.processes.slot p).dropRow r)
  dead : ∀ p a b, ¬a.Lives → ¬b.Lives → D p a → D p b
  ends : ∀ s p b, G (.mark (.ends p) s) → ¬b.Lives → D p (s.processes.slot p) → D p b
  place : ∀ n p img dest region s, (s.processes.slot p).state = .free → (s.processes.slot p).grantCount = 0 →
    D p (s.processes.slot p) →
    ∀ A : K → Prop, wp G n (placeImage p img dest region)
      (fun rwBase t => ∀ b, Placed dest rwBase (t.processes.slot p) b → D p b) (.leaving A) s

/-- `D` of every process, but for the process `E` that is being built or dismantled; the Mappings name rows behind those
    of images. -/
structure Tended (D : Nat → ProcessSlot → Prop) (E : Option Nat) (s : K) : Prop extends Named s where
  behind : ∀ m < s.mappings.cap, ∀ r, (s.mappings.slot m).state = .live → (s.mappings.slot m).row = some r →
    (s.processes.slot (s.mappings.slot m).target).imageRows ≤ r
  image : ∀ p, some p ≠ E → (s.processes.slot p).imageRows ≤ (s.processes.slot p).grantCount
  vacant : ∀ p, some p ≠ E → ¬(s.processes.slot p).Lives → (s.processes.slot p).grantCount = 0
  beyond : ∀ p, s.processes.cap ≤ p → ¬(s.processes.slot p).Lives ∧ (s.processes.slot p).grantCount = 0
  holds : ∀ p, some p ≠ E → D p (s.processes.slot p)
  ended : ∀ p, some p = E → ¬(s.processes.slot p).Lives ∧ ∀ b : ProcessSlot, ¬b.Lives → D p b

/-- No Mapping names a row of `p`. -/
def Unnamed (p : Nat) (s : K) : Prop :=
  ∀ m < s.mappings.cap, ∀ r, (s.mappings.slot m).state = .live → (s.mappings.slot m).row = some r →
    (s.mappings.slot m).target ≠ p

def tendedRows : List Part := .process .image :: rowParts

section
variable {G : Ev → Prop} {n : Nat} {A : K → Prop} {D : Nat → ProcessSlot → Prop} {E : Option Nat} {s t : K} {p : Nat}

theorem agree_recordOf (h : Agree [.process .grants, .process .image, .process .state] s t) (p : Nat) :
    SameRecord (s.processes.slot p) (t.processes.slot p) := by
  obtain ⟨count, rows, image⟩ := h (.process .grants) (by decide) p
  obtain ⟨-, -, base, top, rwBase, rwTop⟩ := h (.process .image) (by decide) p
  have state : (s.processes.slot p).state = (t.processes.slot p).state := h (.process .state) (by decide) p
  exact ⟨count, rows, image, ⟨base, top, rwBase, rwTop⟩, by simp only [ProcessSlot.Lives, state]⟩

theorem agree_record (h : Agree tendedRows s t) (p : Nat) : SameRecord (s.processes.slot p) (t.processes.slot p) :=
  agree_recordOf (h.mono (by decide)) p

theorem agree_rowParts (h : Agree tendedRows s t) : Agree rowParts s t := h.mono (by decide)

theorem Unnamed.agree (h : Agree rowParts s t) (hs : Unnamed p s) : Unnamed p t := by
  intro m hm r hl hr
  obtain ⟨state, target, row⟩ := agree_mapping h m
  rw [← target]
  exact hs m ((agree_caps h).2 ▸ hm) r (state.trans hl) (row.trans hr)

theorem Tended.agree (d : Tends G D) (h : Agree tendedRows s t) (hs : Tended D E s) : Tended D E t where
  toNamed := hs.toNamed.agree (h.mono (by decide))
  behind m hm r hl hr := by
    obtain ⟨state, target, row⟩ := agree_mapping (agree_rowParts h) m
    rw [← target, ← (agree_record h _).image]
    exact hs.behind m ((agree_caps (agree_rowParts h)).2 ▸ hm) r (state.trans hl) (row.trans hr)
  image p hE := (agree_record h p).image ▸ (agree_record h p).count ▸ hs.image p hE
  vacant p hE dead := (agree_record h p).count ▸ hs.vacant p hE fun live => dead ((agree_record h p).lives.mp live)
  beyond p hp := by
    obtain ⟨dead, none⟩ := hs.beyond p ((agree_caps (agree_rowParts h)).1 ▸ hp)
    exact ⟨fun live => dead ((agree_record h p).lives.mpr live), (agree_record h p).count ▸ none⟩
  holds p hE := d.same p _ _ (agree_record h p) (hs.holds p hE)
  ended p hE := (hs.ended p hE).imp_left fun dead live => dead ((agree_record h p).lives.mpr live)

theorem Tended.spares (d : Tends G D) {α : Type} {m : M α} (hm : Spares tendedRows m) : Keeps G n A (Tended D E) m :=
  hm.keeps fun _ _ h hs => hs.agree d h

/-- The slot of a process changes. -/
theorem Tended.setProcess {E' : Option Nat} (hs : Tended D E s) {v : ProcessSlot} (hp : p < s.processes.cap)
    (named : ∀ m < s.mappings.cap, ∀ r, (s.mappings.slot m).state = .live → (s.mappings.slot m).row = some r →
      (s.mappings.slot m).target = p → v.imageRows ≤ r ∧ r < v.grantCount)
    (other : ∀ q, q ≠ p → (some q = E ↔ some q = E')) (image : some p ≠ E' → v.imageRows ≤ v.grantCount)
    (vacant : some p ≠ E' → ¬v.Lives → v.grantCount = 0) (holds : some p ≠ E' → D p v)
    (ended : some p = E' → ¬v.Lives ∧ ∀ b : ProcessSlot, ¬b.Lives → D p b) :
    Tended D E' { s with processes := s.processes.set p v } := by
  have split : ∀ (P : Nat → ProcessSlot → Prop), (some p ≠ E' → P p v) → (∀ q, some q ≠ E → P q (s.processes.slot q)) →
      ∀ q, some q ≠ E' → P q ((s.processes.set p v).slot q) := by
    intro P here there q hE
    by_cases own : q = p
    · subst own
      simpa using here hE
    · simpa [own] using there q fun h => hE ((other q own).mp h)
  refine ⟨⟨fun m hm r hl hr => ?_, hs.apart⟩, fun m hm r hl hr => ?_,
    split (fun _ a => a.imageRows ≤ a.grantCount) image hs.image,
    split (fun _ a => ¬a.Lives → a.grantCount = 0) vacant hs.vacant, fun q hq => ?_,
      split D holds hs.holds, fun q hq => ?_⟩
  · by_cases own : (s.mappings.slot m).target = p
    · simpa [own] using (named m hm r hl hr own).2
    · simpa [own] using hs.installed m hm r hl hr
  · by_cases own : (s.mappings.slot m).target = p
    · simpa [own] using (named m hm r hl hr own).1
    · simpa [own] using hs.behind m hm r hl hr
  · have own : q ≠ p := by
      rintro rfl
      exact absurd hp (Nat.not_lt.mpr hq)
    simpa [own] using hs.beyond q hq
  · by_cases own : q = p
    · subst own
      simpa using ended hq
    · simpa [own] using hs.ended q ((other q own).mpr hq)

/-- The slot of a process changes, and its record does not. -/
theorem Tended.setRecord {E' : Option Nat} (hs : Tended D E s) {v : ProcessSlot} (hp : p < s.processes.cap)
    (count : v.grantCount = (s.processes.slot p).grantCount) (image : v.imageRows = (s.processes.slot p).imageRows)
    (other : ∀ q, q ≠ p → (some q = E ↔ some q = E')) (here : some p ≠ E' → some p ≠ E)
    (vacant : some p ≠ E' → ¬v.Lives → v.grantCount = 0) (holds : some p ≠ E' → D p v)
    (ended : some p = E' → ¬v.Lives ∧ ∀ b : ProcessSlot, ¬b.Lives → D p b) :
    Tended D E' { s with processes := s.processes.set p v } := by
  refine hs.setProcess hp (fun m hm r hl hr own => ?_) other (fun hE => ?_) vacant holds ended
  · rw [count, image, ← own]
    exact ⟨hs.behind m hm r hl hr, hs.installed m hm r hl hr⟩
  · exact count ▸ image ▸ hs.image p (here hE)

/-- Slots of Mappings that are vacated, or lose their rows. -/
theorem Tended.fewer (hs : Tended D E s) {v : Slab MappingSlot} (hc : v.cap = s.mappings.cap)
    (kept : ∀ m < v.cap, ∀ r, (v.slot m).state = .live → (v.slot m).row = some r → v.slot m = s.mappings.slot m) :
    Tended D E { s with mappings := v } := by
  refine ⟨hs.toNamed.fewer hc kept, fun m hm r hl hr => ?_, hs.image, hs.vacant, hs.beyond, hs.holds, hs.ended⟩
  have same := kept m hm r hl hr
  simp only [same] at hl hr ⊢
  exact hs.behind m (hc ▸ hm) r hl hr

theorem Tended.reclaim (d : Tends G D) : Keeps G n A (Tended D E) (reclaimProcessSlot p) :=
  fun s hs => wp_modifyProcess.mpr fun hp => by
    by_cases gone : (s.processes.slot p).state = .gone ∧ (s.processes.slot p).refs = 0
    · have dead : ¬(s.processes.slot p).Lives := fun live => live.2 gone.1
      have free : ¬{ s.processes.slot p with state := .free }.Lives := fun live => live.1 rfl
      rw [if_pos gone]
      refine hs.setRecord hp rfl rfl (fun _ _ => Iff.rfl) id (fun hE _ => hs.vacant p hE dead)
        (fun hE => ?_) fun hE => ?_
      · exact d.dead p _ _ dead free (hs.holds p hE)
      · exact ⟨free, (hs.ended p hE).2⟩
    · rw [if_neg gone]
      exact hs.setRecord hp rfl rfl (fun _ _ => Iff.rfl) id (hs.vacant p) (hs.holds p) (hs.ended p)

theorem Tended.bedrock (d : Tends G D) : Bedrock G n A (Tended D E) where
  quiet _ _ := trivial
  about _ _ h hs := hs.agree d (h.mono (by decide))
  release _ := Tended.spares d (spares_memoryReleaseIfIdle (by decide))
  unmapped _ _ hs := wp_modifyMapping.mpr fun _ => hs.fewer rfl (set_rowless fun h => by cases h)
  reclaim _ := Tended.reclaim d

/-! ### Rows -/

/-- A row is recorded behind the others, and the Mappings of its region are counted. -/
theorem wp_recordGrantOn {S : List Part} {base top pa perms : Nat} {device : Bool} {region : Option Nat}
    {Q : Unit → K → Prop} (maps : .memory .maps ∉ S) (prot : .machine .prot ∉ S)
    (h : p < s.processes.cap → ∀ t,
      Agree S
        { s with processes :=
          s.processes.set p ((s.processes.slot p).pushRow ⟨base, top, pa, perms, device, region⟩) } t → Q () t) :
    wp G n (recordGrant p base top pa perms device region) Q (.leaving A) s := by
  refine wp_bind.mpr (wp_readProcess.mpr fun hp => ?_)
  refine wp_ite.mpr ⟨fun _ => ?_, fun _ => wp_halt.mpr trivial⟩
  refine wp_bind.mpr (wp_modifyProcess.mpr fun _ => ?_)
  refine wp_bind.mpr (wp_spares (S := S) (spares_refRegionRow maps) fun _ t ht => ?_)
  exact wp_spares (S := S) (spares_protUpdate prot) fun _ u hu => h hp u (ht.trans hu)

theorem wp_recordGrant {base top pa perms : Nat} {device : Bool} {region : Option Nat} {Q : Unit → K → Prop}
    (h : p < s.processes.cap → ∀ t,
      Agree tendedRows
        { s with processes :=
          s.processes.set p ((s.processes.slot p).pushRow ⟨base, top, pa, perms, device, region⟩) } t → Q () t) :
    wp G n (recordGrant p base top pa perms device region) Q (.leaving A) s :=
  wp_recordGrantOn (by decide) (by decide) h

/-- A process that lives gets a row. -/
theorem Tended.push (d : Tends G D) (hs : Tended D none s) (hp : p < s.processes.cap)
    (live : (s.processes.slot p).Lives)
    (row : GrantRow) (target : row.device = false → Hal.mapTargetOk row.base row.top = true) :
      Tended D none { s with processes := s.processes.set p ((s.processes.slot p).pushRow row) } := by
  refine hs.setProcess hp (fun m hm r hl hr own => ?_) (fun _ _ => Iff.rfl)
    (fun hE => Nat.le_succ_of_le (hs.image p hE))
    (fun _ dead => absurd live dead) (fun hE => d.push p _ row live target (hs.holds p hE)) fun h => by cases h
  have there := hs.installed m hm r hl hr
  rw [own] at there
  exact ⟨own ▸ hs.behind m hm r hl hr, Nat.lt_succ_of_lt there⟩

/-- A row is recorded, and a Mapping names it. -/
theorem Tended.mintRow (d : Tends G D) (hs : Tended D none s) {q base top pa perms : Nat} {device : Bool}
    {region : Option Nat} (live : (s.processes.slot q).Lives)
    (target : device = false → Hal.mapTargetOk base top = true) :
    wp G n (mintRow p q base top pa perms device region) (fun _ => Tended D none) (.leaving A) s := by
  refine wp_bind.mpr (wp_allocMapping.mpr ?_)
  split
  · exact wp_pure.mpr hs
  rename_i m _
  refine wp_bind.mpr (wp_spares (S := tendedRows) (spares_mintHandle (by decide) (by decide)) fun h s₁ h₁ => ?_)
  have hs₁ := hs.agree d h₁
  refine wp_ite.mpr ⟨fun _ => ?_, fun _ => wp_bind.mpr ?_⟩
  · exact (Tended.spares d (.bind (by simp) fun _ => spares_pure)).leads s₁ hs₁
  refine wp_bind.mpr (wp_readProcess.mpr fun hq => ?_)
  have live₁ := (agree_record h₁ q).lives.mp live
  refine wp_bind.mpr (wp_recordGrant fun _ s₂ h₂ => ?_)
  have hs₂ := (hs₁.push d hq live₁ ⟨base, top, pa, perms, device, region⟩ target).agree d h₂
  have pushed : SameRecord ((s₁.processes.slot q).pushRow ⟨base, top, pa, perms, device, region⟩)
    (s₂.processes.slot q) := by
    simpa using agree_record h₂ q
  refine wp_bind.mpr (wp_modifyMapping.mpr fun _ => ?_)
  -- No Mapping named the new row before.
  have fresh : ∀ m' < s₂.mappings.cap, ∀ r, (s₂.mappings.slot m').state = .live →
      (s₂.mappings.slot m').row = some r → (s₂.mappings.slot m').target = q → r < (s₁.processes.slot q).grantCount := by
    intro m' hm' r hl hr target
    obtain ⟨state, target', row⟩ := agree_mapping (agree_rowParts h₂) m'
    have there := hs₁.installed m' ((agree_caps (agree_rowParts h₂)).2 ▸ hm') r (state.trans hl) (row.trans hr)
    rwa [show (s₁.mappings.slot m').target = q from target'.trans target] at there
  have named : Tended D none { s₂ with
      mappings := s₂.mappings.set m
        ⟨.live, p, q, some (s₁.processes.slot q).grantCount, 1, ⟨base, top, pa, perms, device, region⟩⟩ } := by
    refine ⟨hs₂.toNamed.add (fun r hr => ?_) fun m' hm' r hl hr hr' ht => ?_, fun m' hm' r hl hr => ?_,
      hs₂.image, hs₂.vacant, hs₂.beyond, hs₂.holds, hs₂.ended⟩
    · rw [← Option.some.inj hr, ← pushed.count]
      exact Nat.lt_succ_self _
    · exact absurd (fresh m' hm' r hl hr ht) (by rw [← Option.some.inj hr']; exact Nat.lt_irrefl _)
    · by_cases own : m' = m
      · simp only [Slab.set_slot, own, if_true, Option.some.injEq] at hr ⊢
        rw [← hr, ← pushed.image]
        exact hs₁.image q (by simp)
      · simp only [Slab.set_slot, own, if_false] at hl hr ⊢
        exact hs₂.behind m' hm' r hl hr
  refine wp_bind.mpr (wp_spares (S := tendedRows) (spares_quotaCharge (by decide) (by decide)) fun _ s₃ h₃ => ?_)
  exact wp_spares (S := tendedRows) (spares_domainChanged (by decide) (by decide)) fun _ s₄ h₄ =>
    wp_pure.mpr (named.agree d (h₃.trans h₄))

theorem Tended.installRow (d : Tends G D) (hs : Tended D none s) {q base top perms : Nat} {device : Bool}
    {region : Option Nat} (live : (s.processes.slot q).Lives) :
    wp G n (installRow p q base top perms device region) (fun _ => Tended D none) (.leaving A) s := by
  refine wp_bind.mpr (wp_spares (S := tendedRows) spares_quotaRoom fun _ s₁ h₁ => ?_)
  refine wp_ite.mpr ⟨fun _ => ?_, fun _ => wp_pure.mpr (hs.agree d h₁)⟩
  refine wp_bind.mpr (wp_readProcess.mpr fun _ => wp_bind.mpr ?_)
  refine wp_whenever.mpr ⟨fun _ => wp_fatalKernel.mpr trivial, fun _ => ?_⟩
  refine wp_bind.mpr (wp_spares (S := tendedRows) spares_freeUserVa fun _ s₂ h₂ => ?_)
  have same := h₁.trans h₂
  refine wp_ite.mpr ⟨fun _ => wp_pure.mpr (hs.agree d same), fun _ => ?_⟩
  refine wp_ite.mpr ⟨fun _ => wp_pure.mpr (hs.agree d same), fun ok => ?_⟩
  refine (hs.agree d same).mintRow d ((agree_record same q).lives.mp live) fun memory => ?_
  simpa [memory] using ok

/-! ### The end of a process -/

theorem Tended.sweepMappings : Leads G n A (Tended D E) (fun s => Tended D E s ∧ Unnamed p s) (sweepMappings p) := by
  refine fun s hs => wp_sweepMappings.imp fun _ t => ?_
  rintro ⟨v, rfl, hc, kept⟩
  exact ⟨hs.fewer hc fun m hm r hl hr => (kept m hm r hl hr).1, fun m hm r hl hr => (kept m hm r hl hr).2⟩

/-- A record is emptied: nothing may name a row of it. -/
theorem Tended.clearDomain (d : Tends G D) :
    Leads G n A (fun s => Tended D (some p) s ∧ Unnamed p s) (Tended D none) (clearDomain p) := by
  rintro s ⟨hs, unnamed⟩
  obtain ⟨dead, ended⟩ := hs.ended p rfl
  refine wp_bind.mpr (wp_readProcess.mpr fun hp => wp_bind.mpr (wp_modifyProcess.mpr fun _ => ?_))
  have cleared : Tended D none
      { s with processes := s.processes.set p { s.processes.slot p with grantCount := 0, imageRows := 0 } } := by
    refine hs.setProcess hp (fun m hm r hl hr own => absurd own (unnamed m hm r hl hr)) (fun q hq => by simp [hq])
      (fun _ => Nat.le_refl 0) (fun _ _ => rfl) (fun _ => ended _ dead) fun h => by cases h
  refine wp_bind.mpr (wp_spares (S := tendedRows) (spares_prot (by decide)) fun _ t ht => ?_)
  refine Leads.bind (J := Tended D none) ?_ (fun _ => ?_) _ (cleared.agree d ht)
  · exact (Tended.spares d (.countUp fun _ => spares_unrefRegionRow (by decide))).leads
  · refine (Tended.spares d (.bind spares_reads fun _ => .whenever ?_)).leads
    simp +decide

theorem Tended.dismantles (d : Tends G D) :
    Dismantles G n A p (fun s => Tended D none s ∧ ∀ b : ProcessSlot, ¬b.Lives → D p b)
      (Tended D none) (Tended D (some p))
      (Tended D (some p)) (Tended D (some p)) (fun s => Tended D (some p) s ∧ Unnamed p s) (Tended D none) where
  enter _ _ s hs := wp_modifyProcess.mpr fun hp => by
    refine hs.1.setRecord hp rfl rfl (fun q hq => by simp [hq]) (by simp) (fun h => absurd rfl h)
      (fun h => absurd rfl h) fun _ => ?_
    exact ⟨by simp [ProcessSlot.Lives], hs.2⟩
  before := (Tended.bedrock d).ground
  threads := (Tended.spares d (spares_sweepThreads (by simp +decide) (by decide))).leads
  idle := (Tended.spares d (spares_idle (by decide))).leads
  lines := (Tended.bedrock d).sweepLines
  after := (Tended.bedrock d).ground
  timers := (Tended.bedrock d).sweepTimers
  rows := Tended.sweepMappings
  record := Tended.clearDomain d
  boot := (Tended.spares d (by simp +decide)).leads
  quota := (Tended.spares d (by simp +decide)).leads
  reclaim := Tended.reclaim d

theorem Tended.upkeep (d : Tends G D) : Steady G n (Tended D none) :=
  .steady .any (fun _ _ h hs => hs.agree d (h.mono (by decide))) (Tended.bedrock d).serviced
    (fun _ => Tended.spares d (spares_loadDomain (by decide) (by decide))) fun _ _ _ _ =>
      (Tended.dismantles d).teardownFrom
        (fun s hs mark => ⟨hs, fun b dead => d.ends s _ b mark dead (hs.holds _ (by simp))⟩) trivial

/-! ### System calls -/

theorem Tended.split (d : Tends G D) {r len : Nat} :
    Keeps G n (Tended D none) (Tended D none) (memorySplit p r len) := by
  have w : Steady G n (Tended D none) := Tended.upkeep d
  refine .bind (w.spares (by simp)) fun _ => .bind (.whenever (w.faultProcess mortal_any)) fun _ => ?_
  refine .bind (.whenever (w.faultProcess mortal_any)) fun _ => w.create (by simp) fun i => ?_
  refine .bind (Tended.spares d (spares_poolCut (by decide))) fun _ => .bind (w.spares (by simp)) fun _ => ?_
  refine .bind (Tended.spares d (spares_memories ?_)) fun _ => w.spares (by simp +decide)
  simp +decide

omit [Hal] in
theorem lives_of_mapTarget {a : ProcessSlot} (h : a.state = .created ∨ a.state = .running) : a.Lives := by
  rcases h with h | h <;> simp [ProcessSlot.Lives, h]

theorem Tended.map (d : Tends G D) {r i h raw : Nat} :
    Keeps G n (Tended D none) (Tended D none) (memoryMap p r i h raw) :=
  Steady.mapsRegion (Tended.upkeep d) fun _ _ _ _ _ hs own _ _ => hs.installRow d (lives_of_mapTarget own)

theorem Tended.mapDevice (d : Tends G D) {i h : Nat} : Keeps G n (Tended D none) (Tended D none) (iomemoryMap p i h) :=
  Steady.mapsWindow (Tended.upkeep d) fun _ _ _ _ hs own _ _ => hs.installRow d (lives_of_mapTarget own)

theorem Tended.mapStats (d : Tends G D) {dst c : Nat} :
    Leads G n (Tended D none) (fun s => Tended D none s ∧ (s.processes.slot p).Lives) (Tended D none)
      (statsRegionMap p dst c) := by
  have w : Steady G n (Tended D none) := Tended.upkeep d
  rintro s ⟨hs, live⟩
  refine wp_bind.mpr (w.wp_check mortal_any hs fun _ => ?_)
  refine wp_bind.mpr (wp_spares (S := tendedRows) (spares_copyOut (by decide)) fun _ s₁ h₁ => ?_)
  have hs₁ := hs.agree d h₁
  exact wp_bind.mpr (w.wp_refuse mortal_any hs₁ fun _ => hs₁.installRow d ((agree_record h₁ p).lives.mp live))

theorem Tended.mappedLives (hs : Tended D none s) {i row : Nat} (hi : i < s.mappings.cap)
    (live : (s.mappings.slot i).state = .live) (hrow : (s.mappings.slot i).row = some row) :
    (s.processes.slot (s.mappings.slot i).target).Lives := by
  by_contra dead
  have there := hs.installed i hi row live hrow
  have none := hs.vacant _ (by simp) dead
  omega

/-- The row that a Mapping names is taken out of the record of a process, and the Mappings follow. -/
theorem Tended.shifted (d : Tends G D) (hs : Tended D none s) {u : K} {i q row : Nat} (hi : i < s.mappings.cap)
    (live : (s.mappings.slot i).state = .live) (hrow : (s.mappings.slot i).row = some row)
    (ht : (s.mappings.slot i).target = q) (moved : Shifted s u i q row) (cap : s.processes.cap = u.processes.cap)
    (dropped : SameRecord ((s.processes.slot q).dropRow row) (u.processes.slot q))
    (others : ∀ o, o ≠ q → SameRecord (s.processes.slot o) (u.processes.slot o))
    (holds : D q ((s.processes.slot q).dropRow row)) : Tended D none u := by
  have there := ht ▸ hs.installed i hi row live hrow
  have behind := ht ▸ hs.behind i hi row live hrow
  have lives := ht ▸ hs.mappedLives hi live hrow
  have named : Named u := hs.toNamed.shifted hi live hrow ht moved dropped.count.symm fun o ho =>
    (others o ho).count.symm
  refine ⟨named, fun m hm r hl hr => ?_, fun o _ => ?_, fun o _ dead => ?_, fun o ho => ?_, fun o _ => ?_,
    fun o h => by cases h⟩
  · obtain ⟨hm₀, -, hl₀, target, r₀, hr₀, moved⟩ := moved m hm r hl hr
    have before := hs.behind m hm₀ r₀ hl₀ hr₀
    rw [target]
    by_cases own : (s.mappings.slot m).target = q
    · rw [own] at before ⊢
      rw [← dropped.image]
      show (s.processes.slot q).imageRows ≤ r
      rcases moved with ⟨-, lt, rfl⟩ | ⟨-, rfl⟩
      · omega
      · exact before
    · rw [← (others _ own).image]
      rcases moved with ⟨h, -, -⟩ | ⟨-, rfl⟩
      · exact absurd h own
      · exact before
  · by_cases own : o = q
    · rw [own, ← dropped.count, ← dropped.image]
      show (s.processes.slot q).imageRows ≤ (s.processes.slot q).grantCount - 1
      omega
    · exact (others o own).count ▸ (others o own).image ▸ hs.image o (by simp)
  · by_cases own : o = q
    · exact absurd (dropped.lives.mp lives) (own ▸ dead)
    · exact (others o own).count ▸ hs.vacant o (by simp) fun live => dead ((others o own).lives.mp live)
  · have old : s.processes.cap ≤ o := by omega
    have own : o ≠ q := by
      rintro rfl
      exact (hs.beyond o old).1 lives
    obtain ⟨dead, none⟩ := hs.beyond o old
    exact ⟨fun live => dead ((others o own).lives.mpr live), (others o own).count ▸ none⟩
  · by_cases own : o = q
    · exact own ▸ d.same q _ _ dropped holds
    · exact d.same o _ _ (others o own) (hs.holds o (by simp))

theorem Tended.unmap (d : Tends G D) {i : Nat} : Keeps G n (Tended D none) (Tended D none) (mappingUnmap p i) := by
  have w : Steady G n (Tended D none) := Tended.upkeep d
  intro s hs
  refine wp_bind.mpr (w.wp_mappedRow mortal_any hs fun row hi live hrow => wp_bind.mpr (wp_readMapping.mpr fun _ => ?_))
  have there := hs.installed i hi row live hrow
  have behind := hs.behind i hi row live hrow
  have lives := hs.mappedLives hi live hrow
  generalize ht : (s.mappings.slot i).target = q at there behind lives ⊢
  refine wp_bind.mpr (wp_ite.mpr ⟨fun _ => ?_, fun _ => wp_halt.mpr trivial⟩)
  refine wp_bind.mpr (wp_readProcess.mpr fun hq => wp_bind.mpr (wp_mark.mpr fun good => ?_))
  have holds := d.drop s q row lives behind there good (hs.holds q (by simp))
  refine wp_bind.mpr (wp_spares (S := tendedRows) (spares_protUpdate (by decide)) fun _ s₀ h₀ => ?_)
  refine wp_bind.mpr (wp_modifyProcess.mpr fun _ => ?_)
  refine wp_spares (S := tendedRows) (spares_unrefRegionRow (by decide)) fun _ s₁ h₁ => ?_
  rw [← bind_assoc, ← bind_assoc, bind_assoc (g := fun _ => compactMappingRows q row)]
  refine wp_bind.mpr (wp_shiftRows.imp fun _ s₂ ⟨shifted, h₂⟩ => ?_)
  have records : Agree [.process .grants, .process .image, .process .state, .machine .slabs] _ s₂ :=
    (h₁.mono (by decide)).trans (h₂.mono (by decide))
  have kept : Tended D none s₂ := by
    refine hs.shifted d hi live hrow ht ?_ ?_ (((agree_record h₀ q).dropRow row).trans ?_)
      (fun o ho => (agree_record h₀ o).trans ?_) holds
    · have moved₁ : Shifted s₀ s₂ i q row := fun m hm => Shifted.of_agree (agree_rowParts h₁) shifted m hm
      exact Shifted.of_agree (agree_rowParts h₀) moved₁
    · have before : s.shape = s₀.shape := h₀ (.machine .slabs) (by decide)
      have shape : s.shape = s₂.shape := before.trans (records (.machine .slabs) (by decide))
      simp only [K.shape, List.cons.injEq, Prod.mk.injEq] at shape
      exact shape.1.1
    · simpa using agree_recordOf (records.mono (by decide)) q
    · simpa [ho] using agree_recordOf (records.mono (by decide)) o
  exact wp_bind.mpr (wp_spares (S := tendedRows) (spares_domainChanged (by decide) (by decide)) fun _ s₃ h₃ =>
    wp_pure.mpr (kept.agree d h₃))

theorem Tended.donated (d : Tends G D) (grown : Donated s t) (hs : Tended D none s) : Tended D none t := by
  have process : ∀ q, t.processes.slot q = s.processes.slot q ∨ s.processes.cap ≤ q ∧ t.processes.slot q = .vacant := by
    intro q
    rw [grown.processes.slot]
    split
    · rename_i new
      exact Or.inr ⟨new.1, rfl⟩
    · exact Or.inl rfl
  have none : ¬ProcessSlot.vacant.Lives := fun live => live.1 rfl
  have count : ∀ q, (t.processes.slot q).grantCount = (s.processes.slot q).grantCount := by
    intro q
    rcases process q with same | ⟨new, fresh⟩
    · rw [same]
    · rw [fresh]
      exact (hs.beyond q new).2.symm
  have named := hs.toNamed.donated grown count
  refine ⟨named, fun m hm r hl hr => ?_, fun q _ => ?_, fun q _ dead => ?_, fun q hq => ?_, fun q _ => ?_,
    fun q h => by cases h⟩
  · rcases process (t.mappings.slot m).target with same | ⟨new, fresh⟩
    · obtain ⟨old, kept⟩ := grown.mapping hl hm
      rw [same, kept]
      rw [kept] at hl hr
      exact hs.behind m old r hl hr
    · have there := named.installed m hm r hl hr
      rw [fresh] at there
      exact absurd there (Nat.not_lt_zero _)
  · rcases process q with same | ⟨new, fresh⟩
    · exact same ▸ hs.image q (by simp)
    · rw [fresh]
      exact Nat.le_refl _
  · rcases process q with same | ⟨new, fresh⟩
    · rw [same] at dead ⊢
      exact hs.vacant q (by simp) dead
    · rw [fresh]
      rfl
  · rcases process q with same | ⟨new, fresh⟩
    · have := grown.processes.cap
      exact same ▸ hs.beyond q (by omega)
    · rw [fresh]
      exact ⟨none, rfl⟩
  · rcases process q with same | ⟨new, fresh⟩
    · exact same ▸ hs.holds q (by simp)
    · rw [fresh]
      exact d.dead q _ _ (hs.beyond q new).1 none (hs.holds q (by simp))

theorem Tended.donate (d : Tends G D) {k h : Nat} : Keeps G n (Tended D none) (Tended D none) (slabDonate p k h) :=
  (Tended.upkeep d).donate (fun _ _ grown hs => hs.donated d grown)
    (fun _ => Tended.spares d (spares_memoryRetireDonated (by decide))) mortal_any

/-- The record of `p` is being placed: no Mapping names a row of it yet. -/
def Placing (D : Nat → ProcessSlot → Prop) (p : Nat) (s : K) : Prop := Tended D (some p) s ∧ Unnamed p s

theorem Placing.bedrock (d : Tends G D) : Bedrock G n A (Placing D p) where
  quiet _ _ := trivial
  about _ _ h hs := ⟨hs.1.agree d (h.mono (by decide)), hs.2.agree (h.mono (by decide))⟩
  release _ := Spares.keeps (S := tendedRows) (spares_memoryReleaseIfIdle (by decide)) fun _ _ h hs =>
    ⟨hs.1.agree d h, hs.2.agree (agree_rowParts h)⟩
  unmapped r s hs := wp_modifyMapping.mpr fun _ =>
    have rowless := set_rowless (u := s.mappings) (i := r) (v := .vacant) fun h => by cases h
    ⟨hs.1.fewer rfl rowless, fun m hm r' hl hr => by
      have same := rowless m hm r' hl hr
      simp only [same] at hl hr ⊢
      exact hs.2 m hm r' hl hr⟩
  reclaim q s hs := wp_modifyProcess.mpr fun hq =>
    ⟨(wp_modifyProcess (G := G) (n := n) (A := A)).mp (Tended.reclaim d (p := q) s hs.1) hq, hs.2⟩

/-- The process that is being placed gets a row. -/
theorem Placing.push (hs : Placing D p s) (hp : p < s.processes.cap) (row : GrantRow) :
    Placing D p { s with processes := s.processes.set p ((s.processes.slot p).pushRow row) } := by
  obtain ⟨tended, unnamed⟩ := hs
  refine ⟨tended.setProcess hp (fun m hm r hl hr own => absurd own (unnamed m hm r hl hr)) (fun _ _ => Iff.rfl)
    (fun h => absurd rfl h) (fun h => absurd rfl h) (fun h => absurd rfl h) fun _ => tended.ended p rfl, unnamed⟩

theorem Placing.placeImage (d : Tends G D) {img : Nat} {dest : LoadRegion} {region : Option Nat} :
    Keeps G n A (Placing D p) (placeImage p img dest region) :=
  (Placing.bedrock d).serviced.placeImage fun _ _ _ _ _ _ _ hs => wp_recordGrant fun hp _ h =>
    have pushed := hs.push hp _
    ⟨pushed.1.agree d h, pushed.2.agree (agree_rowParts h)⟩

/-- A process that is dead may be placed. -/
theorem Tended.placing (d : Tends G D) (hs : Tended D none s) (dead : ¬(s.processes.slot p).Lives) : Placing D p s := by
  have bare := hs.vacant p (by simp) dead
  refine ⟨⟨hs.toNamed, hs.behind, fun q _ => hs.image q (by simp), fun q _ => hs.vacant q (by simp), hs.beyond,
    fun q _ => hs.holds q (by simp), fun q hq => ?_⟩, fun m hm r hl hr own => ?_⟩
  · cases hq
    exact ⟨dead, fun b hb => d.dead p _ b dead hb (hs.holds p (by simp))⟩
  · have there := hs.installed m hm r hl hr
    rw [own] at there
    omega

/-- A process whose record was placed lives from now on. -/
theorem Placing.born (hs : Placing D p s) (hp : p < s.processes.cap) {v : ProcessSlot}
    (image : v.imageRows ≤ v.grantCount)
    (live : v.Lives) (holds : D p v) : Tended D none { s with processes := s.processes.set p v } :=
  hs.1.setProcess hp (fun m hm r hl hr own => absurd own (hs.2 m hm r hl hr)) (fun q hq => by simp [hq])
    (fun _ => image) (fun _ dead => absurd live dead) (fun _ => holds) fun h => by cases h

theorem Tended.fillProcess (d : Tends G D) {img dst : Nat} {dest : LoadRegion} :
    Leads G n A (fun s => Tended D none s ∧ (s.processes.slot p).state = .free) (Tended D none)
      (fillProcess p img dest dst) := by
  rintro s ⟨hs, free⟩
  have dead : ¬(s.processes.slot p).Lives := fun live => live.1 free
  have bare := hs.vacant p (by simp) dead
  have placed := d.place n p img dest (some dst) s free bare (hs.holds p (by simp)) A
  refine wp_bind.mpr
    ((wp.and (Placing.placeImage d s (hs.placing d dead)) placed).mono (fun _ => id) (fun rwBase t ht => ?_)
    (fun _ h => h.1) (fun _ h => trivial) fun _ h => trivial)
  obtain ⟨placing, holds⟩ := ht
  refine wp_bind.mpr (wp_reads.mpr (wp_bind.mpr (wp_modifyProcess.mpr fun hp => ?_)))
  have born := placing.born hp (v := { t.processes.slot p with
      state := .created, entry := (Build.headerAt t.mem img).entry, stackTop := dest.linkTop,
        regionBase := dest.linkBase,
      regionTop := dest.linkTop, rwBase := rwBase, rwTop := dest.linkTop, exitKind := .running, exitCode := 0,
      refs := 1, attachment := none, imageRows := (t.processes.slot p).grantCount }) (Nat.le_refl _)
    (by simp [ProcessSlot.Lives]) (holds _ ⟨rfl, rfl, rfl, rfl, rfl, rfl, rfl⟩)
  refine wp_spares (S := tendedRows) ?_ fun _ _ h => born.agree d h
  exact .bind (spares_statsClear (by decide)) fun _ => .bind (by simp) fun _ => by simp +decide

theorem Tended.processCreate (d : Tends G D) {i m : Nat} :
    Keeps G n (Tended D none) (Tended D none) (processCreate p i m) :=
  (Tended.upkeep d).processCreate (fun _ _ _ _ => Tended.fillProcess d) mortal_any

theorem Tended.threadCreate (d : Tends G D) {e sp a : Nat} :
    Keeps G n (Tended D none) (Tended D none) (threadCreate p e sp a) := by
  have w : Steady G n (Tended D none) := Tended.upkeep d
  refine .bind (w.spares (by simp)) fun _ => .bind (.whenever (w.faultProcess mortal_any)) fun _ =>
    w.create (by simp) fun i => ?_
  refine .bind (w.spares (by simp +decide)) fun _ => .bind (Tended.spares d (spares_threads ?_)) fun _ => ?_
  · simp +decide
  · exact w.spares (by simp +decide)

/-- A process that was created runs: its record stays. -/
theorem Tended.start (d : Tends G D) {c form tag : Nat} :
    Keeps G n (Tended D none) (Tended D none) (processStart p c form tag) := by
  have w : Steady G n (Tended D none) := Tended.upkeep d
  unfold Sawos.processStart
  split
  · exact w.faultProcess mortal_any
  intro s hs
  refine wp_bind.mpr (wp_readProcess.mpr fun hc => wp_bind.mpr (w.wp_check mortal_any hs fun created => ?_))
  have live : (s.processes.slot c).Lives := lives_of_mapTarget (.inl (by simpa using created))
  refine wp_bind.mpr (wp_spares (S := tendedRows) spares_quotaRoom fun _ s₁ h₁ => ?_)
  refine wp_ite.mpr ⟨fun _ => wp_bind.mpr ?_, fun _ => wp_pure.mpr (hs.agree d h₁)⟩
  refine wp_spares (S := tendedRows) spares_allocThread fun found s₂ h₂ => ?_
  have same₂ := h₁.trans h₂
  split
  · exact wp_pure.mpr (hs.agree d same₂)
  refine wp_bind.mpr (wp_spares (S := tendedRows) ?_ fun word s₃ h₃ => ?_)
  · unfold bootWord
    split
    · exact spares_pure
    · exact .bind (spares_bootHandleTake (by decide)) fun _ => spares_pure
  have same₃ := same₂.trans h₃
  split
  · exact w.faultProcess mortal_any s₃ (hs.agree d same₃)
  refine wp_bind.mpr (wp_spares (S := tendedRows) (spares_frameInit (by decide)) fun _ s₄ h₄ => ?_)
  refine wp_bind.mpr (wp_spares (S := tendedRows) (spares_threads ?_) fun _ s₅ h₅ => ?_)
  · simp +decide
  refine wp_bind.mpr (wp_spares (S := tendedRows) (spares_quotaCharge (by decide) (by decide)) fun _ s₆ h₆ => ?_)
  refine wp_bind.mpr (wp_spares (S := tendedRows) (by simp +decide) fun _ s₇ h₇ => ?_)
  have same := (((same₃.trans h₄).trans h₅).trans h₆).trans h₇
  have hs₇ := hs.agree d same
  have live₇ := (agree_record same c).lives.mp live
  refine wp_bind.mpr (wp_modifyProcess.mpr fun hc => wp_pure.mpr ?_)
  have running : { s₇.processes.slot c with state := .running }.Lives := by simp [ProcessSlot.Lives]
  refine hs₇.setRecord hc rfl rfl (fun _ _ => Iff.rfl) id (fun _ dead => absurd running dead)
    (fun _ => ?_) fun h => by cases h
  exact d.same c (s₇.processes.slot c) _ ⟨rfl, rfl, rfl, ⟨rfl, rfl, rfl, rfl⟩, iff_of_true live₇ running⟩
    (hs₇.holds c (by simp))

/-! ### The boot, and whole runs -/

theorem Tended.fresh (hs : s.Fresh) (vacant : ∀ p, D p .vacant) : Tended D none s := by
  have slot : ∀ p, s.processes.slot p = .vacant := fun p => by rw [hs.processes]; rfl
  have mapping : ∀ m, (s.mappings.slot m).state ≠ .live := fun m hl => by
    rw [hs.mappings] at hl
    cases hl
  refine ⟨⟨fun m _ r hl => absurd hl (mapping m), fun m _ _ _ r hl => absurd hl (mapping m)⟩, fun m _ r hl =>
    absurd hl (mapping m), fun p _ => ?_, fun p _ _ => ?_, fun p _ => ?_, fun p _ => ?_, fun p h => by cases h⟩
  · rw [slot]
    exact Nat.le_refl _
  · rw [slot]
    rfl
  · rw [slot]
    exact ⟨fun live => live.1 rfl, rfl⟩
  · exact slot p ▸ vacant p

theorem Tended.startProcess (d : Tends G D) {e sp rwBase : Nat} {dest : LoadRegion} :
    Leads G n A (fun s => Placing D rootProcess s ∧ ∀ b, Placed dest rwBase (s.processes.slot rootProcess) b →
      D rootProcess b) (Tended D none) (startProcess e sp dest.linkBase dest.linkTop rwBase dest.linkTop) := by
  rintro s ⟨placing, holds⟩
  refine wp_bind.mpr (wp_modifyProcess.mpr fun hp => ?_)
  have born := placing.born hp (v := { s.processes.slot rootProcess with
    state := .running, entry := e, stackTop := sp, regionBase := dest.linkBase, regionTop :=
      dest.linkTop, rwBase := rwBase,
    rwTop := dest.linkTop, exitKind := .running, exitCode := 0, refs := 0,
    imageRows := (s.processes.slot rootProcess).grantCount }) (Nat.le_refl _) (by simp [ProcessSlot.Lives])
    (holds _ ⟨rfl, rfl, rfl, rfl, rfl, rfl, rfl⟩)
  refine wp_spares (S := tendedRows) ?_ fun _ _ h => born.agree d h
  refine .bind (spares_statsClear (by decide)) fun _ => .bind (by simp) fun _ => .bind (by simp +decide) fun _ => ?_
  exact spares_startMain (by decide) (by simp +decide)

theorem Tended.boot (d : Tends G D) (vacant : ∀ p, D p .vacant) :
    Leads G n A K.Fresh (Tended D none) loadRootAndEnter := by
  intro s hs
  have fresh : Tended D none s := Tended.fresh hs vacant
  have slot : s.processes.slot rootProcess = .vacant := by rw [hs.processes]; rfl
  refine wp_bind.mpr (wp_whenever.mpr ⟨fun _ => wp_halt.mpr trivial, fun _ => wp_bind.mpr (wp_reads.mpr ?_)⟩)
  refine wp_bind.mpr (wp_whenever.mpr ⟨fun _ => wp_halt.mpr trivial, fun _ => wp_bind.mpr (wp_reads.mpr ?_)⟩)
  have image : Keeps G n A (Placing D rootProcess) (placeImage rootProcess Build.payloadStart rootRegion none) :=
    Placing.placeImage d
  have placing := image s (fresh.placing d (slot ▸ fun live => live.1 rfl))
  have placed := d.place n rootProcess Build.payloadStart rootRegion none s (slot ▸ rfl) (slot ▸ rfl)
    (fresh.holds _ (by simp)) A
  refine wp_bind.mpr
    ((wp.and placing placed).mono (fun _ => id) (fun rwBase t ht => ?_) (fun _ h => h.1) (fun _ _ => trivial)
    fun _ _ => trivial)
  refine wp_bind.mpr (wp_spares (S := tendedRows) (spares_loadDomain (by decide) (by decide)) fun _ u h => ?_)
  have same := agree_record h rootProcess
  refine Tended.startProcess d u ⟨⟨ht.1.1.agree d h, ht.1.2.agree (agree_rowParts h)⟩, fun b hb => ht.2 b ?_⟩
  exact ⟨hb.count.trans same.count.symm, hb.rows.trans same.rows.symm, hb.image.trans same.count.symm, hb.window⟩

/-- The records as they are at a boundary, beside what the threads and the processes say about each other. -/
theorem Tended.grounded (d : Tends G D) : SteadyGrounded G n fun s => Owned none s ∧ Tended D none s where
  toUpkeep := Owned.upkeep.and (Tended.upkeep d)
  split p r len hp := (Owned.grounded.split p r len hp).and (Tended.split d)
  map p r i t a hp := (Owned.grounded.map p r i t a hp).and (Tended.map d)
  mapDevice p i t hp := (Owned.grounded.mapDevice p i t hp).and (Tended.mapDevice d)
  mapStats p dst c hp := by
    rintro s ⟨⟨owned, tended⟩, calls⟩
    exact ((Owned.grounded.mapStats p dst c hp).and (Tended.mapStats d)) s
      ⟨⟨owned, calls⟩, tended, owned.callerLives calls⟩
  unmap p i hp := (Owned.grounded.unmap p i hp).and (Tended.unmap d)
  donate p k h hp := (Owned.grounded.donate p k h hp).and (Tended.donate d)
  processCreate p i m hp := (Owned.grounded.processCreate p i m hp).and (Tended.processCreate d)
  start p c form t hp := (Owned.grounded.start p c form t hp).and (Tended.start d)
  threadCreate q e sp a s hs := (Owned.threadCreate.and (Tended.threadCreate d)) s hs.1
  devices := (Owned.upkeep.and (Tended.upkeep d)).devices fun _ _ same hs =>
    ⟨hs.1.agree (same.mono (by decide)), hs.2.agree d (same.mono (by decide))⟩

/-- What is kept of every process from the boot on holds in every state that a run reaches. -/
theorem Tended.reachable (d : Tends G D) (vacant : ∀ p, D p .vacant) (h : ReachableWith G s) :
    Owned none s ∧ Tended D none s :=
  Grounded.reachable (fun _ => Tended.grounded d) (fun _ s hs =>
    ((Owned.boot (A := fun _ => False)).and (Tended.boot (A := fun _ => False) d vacant) s ⟨hs, hs⟩).mono (fun _ => id)
      (fun _ _ => id) (fun _ h => h.1) (fun _ => id) fun _ => id) h

end

end Sawos
