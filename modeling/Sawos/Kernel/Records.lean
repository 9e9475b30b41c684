import Sawos.Kernel.Owners

/-! # Grant records

Where the rows of the records come from, which rows the Mappings name, and that what a protection unit holds follows
the records, for every unit whose operations follow one edit of a record each. -/

namespace Sawos
open Exec

variable [Hal]

/-- A destination that images are loaded at: the root's, or a child's in a region. -/
def LoadRegion.Used (dest : LoadRegion) : Prop :=
  dest = rootRegion ∨ ∃ region : MemorySlot,
    dest = childRegion region ∧ Hal.rootStackLen < region.len ∧ regionWraps region.base region.len = false

/-- The rows that the kernel makes: a segment, its device grant or the stack of an image, and what a region of memory
    or of devices is mapped by. -/
inductive RowSource : GrantRow → Prop
  | segment {seg : SosimgSeg} {imgLen : Nat} {dest : LoadRegion} {allow : Bool} {region : Option Nat}
      (checked : checkSegment seg imgLen dest allow = none) (memory : seg.isDeviceGrant = false) (used : dest.Used)
      (fits : alignUp (seg.loadAddr + seg.memLen) Hal.protGrain < wordModulus) :
      RowSource ⟨seg.loadAddr, alignUp (seg.loadAddr + seg.memLen) Hal.protGrain,
        dest.base + (seg.loadAddr - dest.linkBase), seg.flags, false, region⟩
  | grant {seg : SosimgSeg} {imgLen : Nat} {dest : LoadRegion} {allow : Bool}
      (checked : checkSegment seg imgLen dest allow = none) (device : seg.isDeviceGrant = true) :
      RowSource ⟨seg.loadAddr, seg.loadAddr + seg.memLen, seg.loadAddr, seg.flags, true, none⟩
  | stack {dest : LoadRegion} {region : Option Nat} (used : dest.Used) :
      RowSource ⟨dest.linkTop - dest.stackLen, dest.linkTop, dest.top - dest.stackLen, segRead ||| segWrite, false,
        region⟩
  | map {cursor base span perms : Nat} {region : Option Nat} (permits : perms ≠ 0)
      (fits : span ≤ wordMax - Hal.mapPlace cursor base false)
      (placed : Hal.mapTargetOk (Hal.mapPlace cursor base false) (Hal.mapPlace cursor base false + span) = true) :
      RowSource ⟨Hal.mapPlace cursor base false, Hal.mapPlace cursor base false + span, base, perms, false, region⟩
  | window {cursor base len : Nat} (fits : base + len < wordModulus) (accepted : Hal.deviceWindowOk base len = true) :
      RowSource ⟨Hal.mapPlace cursor base true, Hal.mapPlace cursor base true + len, base, segRead ||| segWrite, true,
        none⟩

/-- The image that is placed still passes the checks that it passed before the placement began. -/
def ImageStands : Ev → Prop
  | .mark (.placing imgBase dest i) s =>
    i < (Build.headerAt s.mem imgBase).segCount ∧
      ∃ imgLen allow, validateImage s.mem imgBase imgLen dest allow = none
  | _ => True

/-- Two states have the same records and the same protection unit. -/
structure SameRecords (s t : K) : Prop where
  prot : s.prot = t.prot
  count : ∀ p, (s.processes.slot p).grantCount = (t.processes.slot p).grantCount
  rows : ∀ p, ∀ i < (s.processes.slot p).grantCount, (s.processes.slot p).grants i = (t.processes.slot p).grants i

/-- `T` says how the protection unit stands to the records, and one edit of both at a time keeps it. -/
structure Follows (G : Ev → Prop) (T : K → Prop) : Prop where
  room : Hal.maxRootSegments + 1 ≤ Hal.grantRowBudget
  stands : ∀ e, G e → ImageStands e
  about : ∀ s t, SameRecords s t → T s → T t
  load : ∀ s p n, T s → wp (fun _ => True) n (loadDomain p) (fun _ t => T t) Exits.stops s
  install : ∀ s p row u, RowSource row →
    Hal.protUpdate p row.base row.top row.pa row.perms row.device s.prot = some u → T s →
    T { s with processes := s.processes.set p ((s.processes.slot p).pushRow row), prot := u }
  revoke : ∀ s p r u, r < (s.processes.slot p).grantCount → G (.mark (.revoke p r) s) →
    Hal.protUpdate p ((s.processes.slot p).grants r).base ((s.processes.slot p).grants r).top
      ((s.processes.slot p).grants r).pa 0 ((s.processes.slot p).grants r).device s.prot = some u → T s →
    T { s with processes := s.processes.set p ((s.processes.slot p).dropRow r), prot := u }
  clear : ∀ s p, T s →
    T { s with
      processes := s.processes.set p { s.processes.slot p with grantCount := 0, imageRows := 0 },
      prot := Hal.protClear p s.prot }

/-- The records are as the kernel builds them: a slot that holds no process has no rows, except for the process `E`
    that is being built or dismantled, and the protection unit stands to the records as `T` says. -/
structure Rows (T : K → Prop) (E : Option Nat) (s : K) : Prop where
  sources : ∀ p, ∀ i < (s.processes.slot p).grantCount, RowSource ((s.processes.slot p).grants i)
  few : ∀ p, (s.processes.slot p).grantCount ≤ Hal.grantRowBudget
  vacant : ∀ p, some p ≠ E → (s.processes.slot p).state = .free ∨ (s.processes.slot p).state = .gone →
    (s.processes.slot p).grantCount = 0
  beyond : ∀ p, s.processes.cap ≤ p → (s.processes.slot p).state = .free ∧ (s.processes.slot p).grantCount = 0
  unit : T s

/-- The Mappings name rows that are there, no two the same. -/
structure Named (s : K) : Prop where
  installed : ∀ m < s.mappings.cap, ∀ r, (s.mappings.slot m).state = .live → (s.mappings.slot m).row = some r →
    r < (s.processes.slot (s.mappings.slot m).target).grantCount
  apart : ∀ m < s.mappings.cap, ∀ m' < s.mappings.cap, ∀ r, (s.mappings.slot m).state = .live →
    (s.mappings.slot m').state = .live → (s.mappings.slot m).row = some r → (s.mappings.slot m').row = some r →
    (s.mappings.slot m).target = (s.mappings.slot m').target → m = m'

structure Records (T : K → Prop) (E : Option Nat) (s : K) : Prop extends Rows T E s, Named s

/-- What the rows and the Mappings are read off. -/
def rowParts : List Part := [.process .grants, .process .state, .mapping .row, .machine .slabs]

def recordParts : List Part := .machine .prot :: rowParts

section
variable {G : Ev → Prop} {n : Nat} {A T : K → Prop} {E : Option Nat} {s t : K}

theorem agree_grants (h : Agree rowParts s t) (p : Nat) :
    (s.processes.slot p).grantCount = (t.processes.slot p).grantCount ∧
      (s.processes.slot p).grants = (t.processes.slot p).grants :=
  have same := h (.process .grants) (by decide) p
  ⟨same.1, same.2.1⟩

theorem agree_processState (h : Agree rowParts s t) (p : Nat) :
    (s.processes.slot p).state = (t.processes.slot p).state :=
  h (.process .state) (by decide) p

theorem agree_mapping (h : Agree rowParts s t) (m : Nat) :
    (s.mappings.slot m).state = (t.mappings.slot m).state ∧ (s.mappings.slot m).target = (t.mappings.slot m).target ∧
      (s.mappings.slot m).row = (t.mappings.slot m).row :=
  have same := h (.mapping .row) (by decide) m
  ⟨same.1, same.2.1, same.2.2.1⟩

theorem agree_caps (h : Agree rowParts s t) :
    s.processes.cap = t.processes.cap ∧ s.mappings.cap = t.mappings.cap := by
  have shape : s.shape = t.shape := h (.machine .slabs) (by decide)
  simp only [K.shape, List.cons.injEq, Prod.mk.injEq] at shape
  exact ⟨shape.1.1, shape.2.2.2.2.2.2.2.2.2.2.1.1⟩

theorem agree_rows (h : Agree recordParts s t) : Agree rowParts s t := fun x hx => h x (List.mem_cons_of_mem _ hx)

theorem agree_prot (h : Agree recordParts s t) : s.prot = t.prot := h (.machine .prot) (by decide)

theorem agree_sameRecords (h : Agree recordParts s t) : SameRecords s t :=
  have rows := agree_grants (agree_rows h)
  ⟨agree_prot h, fun p => (rows p).1, fun p i _ => by rw [(rows p).2]⟩

theorem Named.agree (h : Agree [.process .grants, .mapping .row, .machine .slabs] s t) (hs : Named s) : Named t := by
  have count : ∀ p, (s.processes.slot p).grantCount = (t.processes.slot p).grantCount := fun p =>
    (h (.process .grants) (by decide) p).1
  have mapping : ∀ m, (s.mappings.slot m).state = (t.mappings.slot m).state ∧
      (s.mappings.slot m).target = (t.mappings.slot m).target ∧ (s.mappings.slot m).row = (t.mappings.slot m).row :=
    fun m => have same := h (.mapping .row) (by decide) m; ⟨same.1, same.2.1, same.2.2.1⟩
  have shape : s.shape = t.shape := h (.machine .slabs) (by decide)
  simp only [K.shape, List.cons.injEq, Prod.mk.injEq] at shape
  have cap := shape.2.2.2.2.2.2.2.2.2.2.1.1
  refine ⟨fun m hm r hl hr => ?_, fun m hm m' hm' r hl hl' hr hr' ht => ?_⟩
  · obtain ⟨st, tg, rw'⟩ := mapping m
    rw [← tg, ← count]
    exact hs.installed m (cap ▸ hm) r (st.trans hl) (rw'.trans hr)
  · obtain ⟨st, tg, rw'⟩ := mapping m
    obtain ⟨st', tg', rw''⟩ := mapping m'
    exact hs.apart m (cap ▸ hm) m' (cap ▸ hm') r (st.trans hl) (st'.trans hl') (rw'.trans hr) (rw''.trans hr')
      (by rw [tg, tg', ht])

/-- Slots that are vacated, or lose their rows. -/
theorem Named.fewer (hs : Named s) {v : Slab MappingSlot} (hc : v.cap = s.mappings.cap)
    (kept : ∀ m < v.cap, ∀ r, (v.slot m).state = .live → (v.slot m).row = some r → v.slot m = s.mappings.slot m) :
    Named { s with mappings := v } := by
  refine ⟨fun m hm r hl hr => ?_, fun m hm m' hm' r hl hl' hr hr' ht => ?_⟩
  · have same := kept m hm r hl hr
    simp only [same] at hl hr ⊢
    exact hs.installed m (hc ▸ hm) r hl hr
  · have same := kept m hm r hl hr
    have same' := kept m' hm' r hl' hr'
    simp only [same, same'] at hl hl' hr hr' ht
    exact hs.apart m (hc ▸ hm) m' (hc ▸ hm') r hl hl' hr hr' ht

/-- A Mapping that names a row that no other names. -/
theorem Named.add (hs : Named s) {m : Nat} {v : MappingSlot}
    (there : ∀ r, v.row = some r → r < (s.processes.slot v.target).grantCount)
    (fresh : ∀ m' < s.mappings.cap, ∀ r, (s.mappings.slot m').state = .live → (s.mappings.slot m').row = some r →
      v.row = some r → (s.mappings.slot m').target ≠ v.target) : Named { s with mappings := s.mappings.set m v } := by
  refine ⟨fun m' hm' r hl hr => ?_, fun m' hm' m'' hm'' r hl hl' hr hr' ht => ?_⟩
  · by_cases hmm : m' = m
    · simp only [Slab.set_slot, hmm, if_true] at hr ⊢
      exact there r hr
    · simp only [Slab.set_slot, hmm, if_false] at hl hr ⊢
      exact hs.installed m' hm' r hl hr
  · by_cases hmm : m' = m <;> by_cases hmm' : m'' = m
    · rw [hmm, hmm']
    · simp only [Slab.set_slot, hmm, hmm', if_true, if_false] at hl' hr hr' ht
      exact absurd ht.symm (fresh m'' hm'' r hl' hr' hr)
    · simp only [Slab.set_slot, hmm, hmm', if_true, if_false] at hl hr hr' ht
      exact absurd ht (fresh m' hm' r hl hr hr')
    · simp only [Slab.set_slot, hmm, hmm', if_false] at hl hl' hr hr' ht
      exact hs.apart m' hm' m'' hm'' r hl hl' hr hr' ht

/-- A live Mapping was there before a donation. -/
theorem Donated.mapping (d : Donated s t) {m : Nat} (hl : (t.mappings.slot m).state = .live) (hm : m < t.mappings.cap) :
    m < s.mappings.cap ∧ t.mappings.slot m = s.mappings.slot m := by
  rw [d.mappings.slot] at hl ⊢
  split at hl
  · cases hl
  · rename_i old
    exact ⟨by omega, if_neg old⟩

theorem Named.donated (hs : Named s) (d : Donated s t)
    (count : ∀ p, (t.processes.slot p).grantCount = (s.processes.slot p).grantCount) : Named t := by
  refine ⟨fun m hm r hl hr => ?_, fun m hm m' hm' r hl hl' hr hr' ht => ?_⟩
  · obtain ⟨old, kept⟩ := d.mapping hl hm
    rw [kept] at hl hr ⊢
    rw [count]
    exact hs.installed m old r hl hr
  · obtain ⟨old, kept⟩ := d.mapping hl hm
    obtain ⟨old', kept'⟩ := d.mapping hl' hm'
    rw [kept] at hl hr ht
    rw [kept'] at hl' hr' ht
    exact hs.apart m old m' old' r hl hl' hr hr' ht

/-- The rows stay, and the protection unit stands to them. -/
theorem Rows.carry (h : Agree [.process .grants, .process .state, .machine .slabs] s t) (hs : Rows T E s) (unit : T t) :
    Rows T E t := by
  have grants : ∀ p, (s.processes.slot p).grantCount = (t.processes.slot p).grantCount ∧
      (s.processes.slot p).grants = (t.processes.slot p).grants :=
    fun p => have same := h (.process .grants) (by decide) p; ⟨same.1, same.2.1⟩
  have state : ∀ p, (s.processes.slot p).state = (t.processes.slot p).state := h (.process .state) (by decide)
  have shape : s.shape = t.shape := h (.machine .slabs) (by decide)
  simp only [K.shape, List.cons.injEq, Prod.mk.injEq] at shape
  refine ⟨fun p i hi => ?_, fun p => ?_, fun p hp hst => ?_, fun p hp => ?_, unit⟩
  · rw [← (grants p).2]
    exact hs.sources p i (by rwa [(grants p).1])
  · exact (grants p).1 ▸ hs.few p
  · rw [← state p] at hst
    exact (grants p).1 ▸ hs.vacant p hp hst
  · rw [← state p, ← (grants p).1]
    exact hs.beyond p (by rwa [shape.1.1])

/-- The rows and the Mappings stay, and the protection unit stands to them. -/
theorem Records.carry (h : Agree rowParts s t) (hs : Records T E s) (unit : T t) : Records T E t :=
  ⟨hs.toRows.carry (h.mono (by decide)) unit, hs.toNamed.agree (h.mono (by decide))⟩

theorem Records.agree (f : Follows G T) (h : Agree recordParts s t) (hs : Records T E s) : Records T E t :=
  hs.carry (agree_rows h) (f.about s t (agree_sameRecords h) hs.unit)

theorem Records.spares (f : Follows G T) {α : Type} {m : M α} (hm : Spares recordParts m) :
    Keeps G n A (Records T E) m :=
  hm.keeps fun _ _ h hs => hs.agree f h

/-- The Mappings change, and the records with them. -/
theorem Records.setMappings (f : Follows G T) (hs : Records T E s) {v : Slab MappingSlot}
    (named : Named { s with mappings := v }) : Records T E { s with mappings := v } :=
  ⟨⟨hs.sources, hs.few, hs.vacant, hs.beyond, f.about s _ ⟨rfl, fun _ => rfl, fun _ _ _ => rfl⟩ hs.unit⟩, named⟩

omit [Hal] in
/-- A slot that is vacated, or loses its row, names no row. -/
theorem set_rowless {u : Slab MappingSlot} {i : Nat} {v : MappingSlot} (hv : v.state = .live → v.row = none) :
    ∀ m < (u.set i v).cap, ∀ r, ((u.set i v).slot m).state = .live → ((u.set i v).slot m).row = some r →
      (u.set i v).slot m = u.slot m := by
  intro m _ r hl hr
  by_cases hm : m = i
  · simp only [Slab.set_slot, hm, if_true] at hl hr
    rw [hv hl] at hr
    cases hr
  · simp [hm]

theorem Records.setMapping (f : Follows G T) (hs : Records T E s) {i : Nat} {v : MappingSlot}
    (hv : v.state = .live → v.row = none) : Records T E { s with mappings := s.mappings.set i v } :=
  hs.setMappings f (hs.toNamed.fewer rfl (set_rowless hv))

/-- A record may be filled from now on. -/
theorem Records.filling (hs : Records T none s) : Records T E s :=
  ⟨⟨hs.sources, hs.few, fun p _ => hs.vacant p (by simp), hs.beyond, hs.unit⟩, hs.installed, hs.apart⟩

theorem Records.vacateMapping (f : Follows G T) {i : Nat} : Keeps G n A (Records T E) (mappings.write i .vacant) :=
  fun _ hs => wp_modifyMapping.mpr fun _ => hs.setMapping f fun h => by cases h

/-- A slot whose record stays, and whose state is one in which it may. -/
theorem Records.setProcess (f : Follows G T) {E' : Option Nat} (hs : Records T E s) {p : Nat} {v : ProcessSlot}
    (hp : p < s.processes.cap) (hc : v.grantCount = (s.processes.slot p).grantCount)
    (hg : v.grants = (s.processes.slot p).grants) (hE : ∀ q, q ≠ p → some q ≠ E' → some q ≠ E)
    (hv : some p ≠ E' → v.state = .free ∨ v.state = .gone → v.grantCount = 0) :
    Records T E' { s with processes := s.processes.set p v } := by
  have count : ∀ q, ((s.processes.set p v).slot q).grantCount = (s.processes.slot q).grantCount := by
    intro q
    by_cases hq : q = p <;> simp [hq, hc]
  have rows : ∀ q, ((s.processes.set p v).slot q).grants = (s.processes.slot q).grants := by
    intro q
    by_cases hq : q = p <;> simp [hq, hg]
  refine ⟨⟨fun q i hi => ?_, fun q => ?_, fun q hq hst => ?_, fun q hq => ?_,
    f.about s _ ⟨rfl, fun q => (count q).symm, fun q i _ => by rw [rows q]⟩ hs.unit⟩, fun m hm r hl hr => ?_, hs.apart⟩
  · rw [rows q]
    exact hs.sources q i (by rwa [count q] at hi)
  · exact count q ▸ hs.few q
  · by_cases hqp : q = p
    · subst hqp
      simp only [Slab.set_slot, if_true] at hst ⊢
      exact hv hq hst
    · simp only [Slab.set_slot, hqp, if_false] at hst ⊢
      exact hs.vacant q (hE q hqp hq) hst
  · have hqp : q ≠ p := by
      rintro rfl
      exact absurd hp (Nat.not_lt.mpr hq)
    simp only [Slab.set_slot, hqp, if_false]
    exact hs.beyond q hq
  · exact count _ ▸ hs.installed m hm r hl hr

theorem Records.reclaim (f : Follows G T) {p : Nat} : Keeps G n A (Records T E) (reclaimProcessSlot p) :=
  fun s hs => wp_modifyProcess.mpr fun hp => by
    by_cases gone : (s.processes.slot p).state = .gone ∧ (s.processes.slot p).refs = 0
    · rw [if_pos gone]
      exact hs.setProcess f hp rfl rfl (fun _ _ => id) fun hE _ => hs.vacant p hE (Or.inr gone.1)
    · rw [if_neg gone]
      exact hs.setProcess f hp rfl rfl (fun _ _ => id) fun hE => hs.vacant p hE

theorem Records.bedrock (f : Follows G T) : Bedrock G n A (Records T E) where
  quiet _ _ := trivial
  about s t h hs := hs.agree f (h.mono (by decide))
  release _ := Records.spares f (spares_memoryReleaseIfIdle (by decide))
  unmapped _ := Records.vacateMapping f
  reclaim _ := Records.reclaim f

/-! ### Edits -/

theorem agree_setProt (h : Agree recordParts s t) (u : Hal.Prot) :
    Agree recordParts { s with prot := u } { t with prot := u } := by
  intro x hx
  cases x with
  | machine x =>
    cases x with
    | prot => rfl
    | _ => exact h _ hx
  | _ x => exact h _ hx

/-- A row is put behind the others of a record, and installed. -/
theorem Records.push (f : Follows G T) (hs : Records T E s) {p : Nat} {row : GrantRow} {u : Hal.Prot}
    (src : RowSource row) (few : (s.processes.slot p).grantCount < Hal.grantRowBudget) (hp : p < s.processes.cap)
    (own : some p = E ∨ (s.processes.slot p).state ≠ .free ∧ (s.processes.slot p).state ≠ .gone)
    (hu : Hal.protUpdate p row.base row.top row.pa row.perms row.device s.prot = some u) :
    Records T E { s with processes := s.processes.set p ((s.processes.slot p).pushRow row), prot := u } := by
  have grows : ∀ q, (s.processes.slot q).grantCount ≤
      ((s.processes.set p ((s.processes.slot p).pushRow row)).slot q).grantCount := by
    intro q
    by_cases hq : q = p <;> simp [hq, ProcessSlot.pushRow]
  refine ⟨⟨fun q i hi => ?_, fun q => ?_, fun q hq hst => ?_, fun q hq => ?_, f.install s p row u src hu hs.unit⟩,
    fun m hm r hl hr => ?_, hs.apart⟩
  · by_cases hq : q = p
    · simp only [Slab.set_slot, hq, if_true, ProcessSlot.pushRow] at hi ⊢
      by_cases last : i = (s.processes.slot p).grantCount
      · rwa [if_pos last]
      · rw [if_neg last]
        exact hs.sources p i (by omega)
    · simp only [Slab.set_slot, hq, if_false] at hi ⊢
      exact hs.sources q i hi
  · by_cases hq : q = p
    · simp only [Slab.set_slot, hq, if_true, ProcessSlot.pushRow]
      omega
    · simp only [Slab.set_slot, hq, if_false]
      exact hs.few q
  · by_cases hqp : q = p
    · subst hqp
      simp only [Slab.set_slot, if_true, ProcessSlot.pushRow] at hst
      rcases own with hE | ⟨hf, hg⟩
      · exact absurd hE hq
      · exact absurd hst (by simp [hf, hg])
    · simp only [Slab.set_slot, hqp, if_false] at hst ⊢
      exact hs.vacant q hq hst
  · have hqp : q ≠ p := by
      rintro rfl
      exact absurd hp (Nat.not_lt.mpr hq)
    simp only [Slab.set_slot, hqp, if_false]
    exact hs.beyond q hq
  · exact Nat.lt_of_lt_of_le (hs.installed m hm r hl hr) (grows _)

/-- Recording a row: what else the records and the Mappings say stays. -/
theorem Records.recordGrant (f : Follows G T) (hs : Records T E s) {p base top pa perms : Nat} {device : Bool}
    {region : Option Nat} (src : RowSource ⟨base, top, pa, perms, device, region⟩)
    (few : (s.processes.slot p).grantCount < Hal.grantRowBudget)
    (own : some p = E ∨ (s.processes.slot p).state ≠ .free ∧ (s.processes.slot p).state ≠ .gone) :
    wp G n (recordGrant p base top pa perms device region)
      (fun _ t => Records T E t ∧ Agree [.process .state, .mapping .row, .machine .slabs] s t ∧
        (t.processes.slot p).grantCount = (s.processes.slot p).grantCount + 1) (.leaving A) s := by
  refine wp_bind.mpr (wp_readProcess.mpr fun hp => ?_)
  refine wp_ite.mpr ⟨fun _ => ?_, fun _ => wp_halt.mpr trivial⟩
  refine wp_bind.mpr (wp_modifyProcess.mpr fun _ => ?_)
  refine wp_bind.mpr (wp_spares (S := recordParts) (spares_refRegionRow (by decide)) fun _ t ht => ?_)
  refine wp_protTry.mpr fun u hu => ?_
  rw [← agree_prot ht] at hu
  have kept := agree_setProt ht u
  refine ⟨(hs.push f src few hp own hu).agree f kept, fun x hx => ?_, ?_⟩
  · refine Parts.trans x _ _ _ ?_ (kept x ?_)
    · simp only [List.mem_cons, List.not_mem_nil, or_false] at hx
      rcases hx with rfl | rfl | rfl
      · intro q
        by_cases hq : q = p <;> simp [hq, ProcessSlot.pushRow]
      · exact fun _ => ⟨rfl, rfl, rfl, rfl⟩
      · rfl
    · revert x
      decide
  · rw [← (agree_grants (agree_rows kept) p).1]
    simp [ProcessSlot.pushRow]

/-- A record is emptied: nothing may name a row of it. -/
theorem Records.clearDomain (f : Follows G T) {p : Nat} :
    Leads G n A
      (fun s => Records T (some p) s ∧ ∀ m < s.mappings.cap, ∀ r, (s.mappings.slot m).state = .live →
        (s.mappings.slot m).row = some r → (s.mappings.slot m).target ≠ p)
      (Records T none) (clearDomain p) := by
  rintro s ⟨hs, unnamed⟩
  refine wp_bind.mpr (wp_readProcess.mpr fun hp => ?_)
  refine wp_bind.mpr (wp_modifyProcess.mpr fun _ => ?_)
  refine wp_bind.mpr (wp_prot.mpr ?_)
  have cleared : Records T none { s with
      processes := s.processes.set p { s.processes.slot p with grantCount := 0, imageRows := 0 },
      prot := Hal.protClear p s.prot } := by
    refine ⟨⟨fun q i hi => ?_, fun q => ?_, fun q _ hst => ?_, fun q hq => ?_, f.clear s p hs.unit⟩,
      fun m hm r hl hr => ?_, hs.apart⟩
    · by_cases hq : q = p
      · simp [hq] at hi
      · simp only [Slab.set_slot, hq, if_false] at hi ⊢
        exact hs.sources q i hi
    · by_cases hq : q = p
      · simp [hq]
      · simp only [Slab.set_slot, hq, if_false]
        exact hs.few q
    · by_cases hq : q = p
      · simp [hq]
      · simp only [Slab.set_slot, hq, if_false] at hst ⊢
        exact hs.vacant q (by simpa using hq) hst
    · have hqp : q ≠ p := by
        rintro rfl
        exact absurd hp (Nat.not_lt.mpr hq)
      simp only [Slab.set_slot, hqp, if_false]
      exact hs.beyond q hq
    · simp only [Slab.set_slot, unnamed m hm r hl hr, if_false]
      exact hs.installed m hm r hl hr
  refine (Leads.bind (J := Records T none) ?_ fun _ => ?_) _ cleared
  · exact (Records.spares f (.countUp fun _ => spares_unrefRegionRow (by decide))).leads
  · refine (Records.spares f (.bind spares_reads fun _ => .whenever ?_)).leads
    simp +decide

/-- Rewriting every Mapping in turn. -/
theorem wp_eachMapping {g : MappingSlot → MappingSlot} {s : K} :
    wp G n (countUp (fun i => mappings.modify i g) s.mappings.cap 0)
      (fun _ t => ∃ v : Slab MappingSlot, t = { s with mappings := v } ∧ v.cap = s.mappings.cap ∧
        v.extents = s.mappings.extents ∧ ∀ m < s.mappings.cap, v.slot m = g (s.mappings.slot m)) (.leaving A) s := by
  let done (i : Nat) (t : K) : Prop := ∃ v : Slab MappingSlot, t = { s with mappings := v } ∧
    v.cap = s.mappings.cap ∧ v.extents = s.mappings.extents ∧
    ∀ m, v.slot m = if m < i then g (s.mappings.slot m) else s.mappings.slot m
  refine (wp_countUp (I := done) ⟨s.mappings, rfl, rfl, rfl, fun m => by simp⟩ ?_).imp fun _ t ht => ?_
  · rintro j t _ _ ⟨v, rfl, hc, he, hv⟩
    refine wp_modifyMapping.mpr fun _ => ⟨v.set j (g (v.slot j)), rfl, hc, he, fun m => ?_⟩
    by_cases hm : m = j
    · simp [hm, hv]
    · have split : m < j + 1 ↔ m < j := by omega
      simp [hm, hv, split]
  · obtain ⟨v, rfl, hc, he, hv⟩ := ht
    exact ⟨v, rfl, hc, he, fun m hm => by simp [hv, hm]⟩

/-- What is left of the Mappings: those that neither belong to `p` nor name a row of it are as they were. -/
theorem wp_sweepMappings {p : Nat} :
    wp G n (sweepMappings p)
      (fun _ t => ∃ v : Slab MappingSlot, t = { s with mappings := v } ∧ v.cap = s.mappings.cap ∧
        ∀ m < v.cap, ∀ r, (v.slot m).state = .live → (v.slot m).row = some r →
          v.slot m = s.mappings.slot m ∧ (v.slot m).target ≠ p) (.leaving A) s := by
  refine wp_bind.mpr (wp_capacity.mpr (wp_eachMapping.imp fun _ t => ?_))
  rintro ⟨v, rfl, hc, -, hv⟩
  refine ⟨v, rfl, hc, fun m hm r hl hr => ?_⟩
  rw [hv m (hc ▸ hm)] at hl hr ⊢
  split at hl
  · rename_i free
    rw [free] at hl
    cases hl
  · rename_i live
    rw [if_neg live] at hr ⊢
    split at hl
    · cases hl
    · rename_i other
      rw [if_neg other] at hr ⊢
      by_cases target : (s.mappings.slot m).target = p
      · rw [if_pos target] at hr
        cases hr
      · rw [if_neg target]
        exact ⟨rfl, target⟩

theorem Records.sweepMappings (f : Follows G T) {p : Nat} :
    Leads G n A (Records T E)
      (fun s => Records T E s ∧ ∀ m < s.mappings.cap, ∀ r, (s.mappings.slot m).state = .live →
        (s.mappings.slot m).row = some r → (s.mappings.slot m).target ≠ p) (sweepMappings p) := by
  refine fun s hs => wp_sweepMappings.imp fun _ t => ?_
  rintro ⟨v, rfl, hc, kept⟩
  exact ⟨hs.setMappings f (hs.toNamed.fewer hc fun m hm r hl hr => (kept m hm r hl hr).1),
    fun m hm r hl hr => (kept m hm r hl hr).2⟩

theorem Records.dismantles (f : Follows G T) {p : Nat} :
    Dismantles G n A p (Records T none) (Records T none) (Records T (some p)) (Records T (some p)) (Records T (some p))
      (fun s => Records T (some p) s ∧ ∀ m < s.mappings.cap, ∀ r, (s.mappings.slot m).state = .live →
        (s.mappings.slot m).row = some r → (s.mappings.slot m).target ≠ p) (Records T none) where
  enter _ _ s hs := wp_modifyProcess.mpr fun hp =>
    hs.setProcess f hp rfl rfl (fun q _ _ => by simp) fun h => absurd rfl h
  before := (Records.bedrock f).ground
  threads := (Records.spares f (spares_sweepThreads (by simp +decide) (by decide))).leads
  idle := (Records.spares f (spares_idle (by decide))).leads
  lines := (Records.bedrock f).sweepLines
  after := (Records.bedrock f).ground
  timers := (Records.bedrock f).sweepTimers
  rows := Records.sweepMappings f
  record := Records.clearDomain f
  boot := (Records.spares f (by simp +decide)).leads
  quota := (Records.spares f (by simp +decide)).leads
  reclaim := Records.reclaim f

theorem Records.load (f : Follows G T) {p : Nat} : Keeps G n A (Records T E) (loadDomain p) := by
  intro s hs
  have spared : Spares rowParts (loadDomain p) := spares_loadDomain (by decide) (by decide)
  refine (wp.and (spared n s) (f.load s p n hs.unit)).mono ?_ ?_ ?_ ?_ ?_
  · exact fun _ _ => trivial
  · exact fun _ t ht => hs.carry ht.1 ht.2
  · exact fun _ h => h.1.elim
  · exact fun _ _ => trivial
  · exact fun _ _ => trivial

theorem Records.upkeep (f : Follows G T) : Steady G n (Records T none) :=
  .steady .any (fun _ _ h hs => hs.agree f (h.mono (by decide))) (Records.bedrock f).serviced (fun _ => Records.load f)
    fun _ _ _ _ => (Records.dismantles f).teardown trivial

/-! ### System calls -/

theorem Records.split (f : Follows G T) {p r len : Nat} :
    Keeps G n (Records T none) (Records T none) (memorySplit p r len) := by
  have w : Steady G n (Records T none) := Records.upkeep f
  refine .bind (w.spares (by simp)) fun _ => .bind (.whenever (w.faultProcess mortal_any)) fun _ => ?_
  refine .bind (.whenever (w.faultProcess mortal_any)) fun _ => w.create (by simp) fun i => ?_
  refine .bind (Records.spares f (spares_poolCut (by decide))) fun _ => .bind (w.spares (by simp)) fun _ => ?_
  refine .bind (Records.spares f (spares_memories ?_)) fun _ => w.spares (by simp +decide)
  simp +decide

theorem Records.domainChanged (f : Follows G T) {p : Nat} : Keeps G n A (Records T E) (domainChanged p) :=
  .bind (Records.spares f (by simp)) fun _ => .whenever (Records.load f)

/-- A row is recorded, and a Mapping names it. -/
theorem Records.mintRow (f : Follows G T) (hs : Records T none s) {p t base top pa perms : Nat} {device : Bool}
    {region : Option Nat} (src : RowSource ⟨base, top, pa, perms, device, region⟩)
    (few : (s.processes.slot t).grantCount < Hal.grantRowBudget)
    (own : (s.processes.slot t).state ≠ .free ∧ (s.processes.slot t).state ≠ .gone) :
    wp G n (mintRow p t base top pa perms device region) (fun _ => Records T none) (.leaving A) s := by
  refine wp_bind.mpr (wp_allocMapping.mpr ?_)
  split
  · exact wp_pure.mpr hs
  rename_i m _
  refine wp_bind.mpr (wp_spares (S := recordParts) (spares_mintHandle (by decide) (by decide)) fun h s₁ h₁ => ?_)
  have hs₁ := hs.agree f h₁
  refine wp_ite.mpr ⟨fun _ => ?_, fun _ => wp_bind.mpr ?_⟩
  · exact (Records.spares f (.bind (by simp) fun _ => spares_pure)).leads s₁ hs₁
  refine wp_bind.mpr (wp_readProcess.mpr fun _ => ?_)
  have count := (agree_grants (agree_rows h₁) t).1
  have state := agree_processState (agree_rows h₁) t
  refine wp_bind.mpr ((hs₁.recordGrant f src (count ▸ few) (Or.inr (state ▸ own))).imp fun _ s₂ h₂ => ?_)
  obtain ⟨hs₂, kept, pushed⟩ := h₂
  have old : ∀ m', (s₁.mappings.slot m').state = (s₂.mappings.slot m').state ∧
      (s₁.mappings.slot m').target = (s₂.mappings.slot m').target ∧
      (s₁.mappings.slot m').row = (s₂.mappings.slot m').row :=
    fun m' => have same := kept (.mapping .row) (by decide) m'; ⟨same.1, same.2.1, same.2.2.1⟩
  have cap : s₁.mappings.cap = s₂.mappings.cap := by
    have shape : s₁.shape = s₂.shape := kept (.machine .slabs) (by decide)
    simp only [K.shape, List.cons.injEq, Prod.mk.injEq] at shape
    exact shape.2.2.2.2.2.2.2.2.2.2.1.1
  -- No Mapping named the new row before.
  have fresh : ∀ m' < s₂.mappings.cap, ∀ r, (s₂.mappings.slot m').state = .live →
      (s₂.mappings.slot m').row = some r → (s₂.mappings.slot m').target = t →
      r < (s₁.processes.slot t).grantCount := by
    intro m' hm' r hl hr ht
    have := hs₁.installed m' (cap ▸ hm') r ((old m').1.trans hl) ((old m').2.2.trans hr)
    rwa [(old m').2.1, ht] at this
  refine wp_bind.mpr (wp_modifyMapping.mpr fun hm => ?_)
  have named : Records T none { s₂ with
      mappings := s₂.mappings.set m
        ⟨.live, p, t, some (s₁.processes.slot t).grantCount, 1, ⟨base, top, pa, perms, device, region⟩⟩ } := by
    refine hs₂.setMappings f (hs₂.toNamed.add (fun r hr => ?_) fun m' hm' r hl hr hr' ht => ?_)
    · rw [← Option.some.inj hr]
      exact pushed ▸ Nat.lt_succ_self _
    · exact absurd (fresh m' hm' r hl hr ht) (by rw [← Option.some.inj hr']; omega)
  refine wp_bind.mpr (wp_spares (S := recordParts) (spares_quotaCharge (by decide) (by decide)) fun _ s₃ h₃ => ?_)
  exact (Records.domainChanged f s₃ (named.agree f h₃)).imp fun _ s₄ hs₄ => wp_pure.mpr hs₄

theorem Records.installRow (f : Follows G T) (hs : Records T none s) {p t base top perms : Nat} {device : Bool}
    {region : Option Nat} (own : (s.processes.slot t).state = .created ∨ (s.processes.slot t).state = .running)
    (src : ∀ cursor, top - base ≤ wordMax - Hal.mapPlace cursor base device →
      (device = false → Hal.mapTargetOk (Hal.mapPlace cursor base device)
        (Hal.mapPlace cursor base device + (top - base)) = true) →
      RowSource ⟨Hal.mapPlace cursor base device, Hal.mapPlace cursor base device + (top - base), base, perms, device,
        region⟩) :
    wp G n (installRow p t base top perms device region) (fun _ => Records T none) (.leaving A) s := by
  refine wp_bind.mpr (wp_spares (S := recordParts) spares_quotaRoom fun _ s₁ h₁ => ?_)
  have hs₁ := hs.agree f h₁
  refine wp_ite.mpr ⟨fun _ => ?_, fun _ => wp_pure.mpr hs₁⟩
  refine wp_bind.mpr (wp_readProcess.mpr fun _ => wp_bind.mpr ?_)
  refine wp_whenever.mpr ⟨fun _ => wp_fatalKernel.mpr trivial, fun room => ?_⟩
  refine wp_bind.mpr (wp_spares (S := recordParts) spares_freeUserVa fun cursor s₂ h₂ => ?_)
  have hs₂ := hs₁.agree f h₂
  refine wp_ite.mpr ⟨fun _ => wp_pure.mpr hs₂, fun fits => ?_⟩
  refine wp_ite.mpr ⟨fun _ => wp_pure.mpr hs₂, fun placed => ?_⟩
  have source := src cursor (Nat.le_of_not_lt fits) fun hd => by simpa [hd] using placed
  have few : (s₂.processes.slot t).grantCount < Hal.grantRowBudget := by
    rw [← (agree_grants (agree_rows h₂) t).1]
    simpa using room
  have live : (s₂.processes.slot t).state ≠ .free ∧ (s₂.processes.slot t).state ≠ .gone := by
    rw [← agree_processState (agree_rows h₂) t, ← agree_processState (agree_rows h₁) t]
    rcases own with h | h <;> simp [h]
  exact hs₂.mintRow f source few live

omit [Hal] in
theorem grantPerms_ne_zero {raw : Nat} (mask : raw &&& mapAccessMask = raw) (nonzero : raw ≠ 0) :
    grantPerms raw ≠ 0 := by
  have bound : raw ≤ 7 := mask ▸ Nat.and_le_right
  have all : ∀ r ≤ 7, r ≠ 0 → grantPerms r ≠ 0 := by decide
  exact all raw bound nonzero

/-- Mapping a region is installing a row of it in the record of a process that lives. -/
theorem Steady.mapsRegion {I : K → Prop} (w : Steady G n I) {p r i h raw : Nat}
    (install : ∀ s t base top access, I s → (s.processes.slot t).state = .created ∨
      (s.processes.slot t).state = .running → access &&& mapAccessMask = access → access ≠ 0 →
      wp G n (installRow p t base top (grantPerms access) false (some i)) (fun _ => I) (.leaving I) s) :
    Keeps G n I I (memoryMap p r i h raw) := by
  intro s hs
  refine wp_bind.mpr (w.wp_mapTarget mortal_any hs fun t _ own => ?_)
  refine wp_bind.mpr (w.wp_mapAccess mortal_any hs fun mask nonzero => ?_)
  refine wp_bind.mpr (wp_whenever.mpr ⟨fun _ => w.wp_require mortal_any hs fun _ => ?_, fun _ => ?_⟩)
  all_goals
    refine wp_bind.mpr (wp_readMemory.mpr fun _ => wp_bind.mpr (w.wp_check mortal_any hs fun _ => ?_))
    refine wp_bind.mpr (w.wp_check mortal_any hs fun _ => wp_bind.mpr (wp_alignUpWord.mpr fun _ => ?_))
    exact wp_bind.mpr (w.wp_check mortal_any hs fun _ => install s t _ _ _ hs own mask nonzero)

theorem Steady.mapsWindow {I : K → Prop} (w : Steady G n I) {p i h : Nat}
    (install : ∀ s t base len, I s → (s.processes.slot t).state = .created ∨ (s.processes.slot t).state = .running →
      Hal.deviceWindowOk base len = true → base + len < wordModulus →
      wp G n (installRow p t base (base + len) (segRead ||| segWrite) true none) (fun _ => I) (.leaving I) s) :
    Keeps G n I I (iomemoryMap p i h) := by
  intro s hs
  refine wp_bind.mpr (w.wp_mapTarget mortal_any hs fun t _ own => wp_bind.mpr (wp_readIoMemory.mpr fun _ => ?_))
  refine wp_bind.mpr (w.wp_check mortal_any hs fun accepted => wp_bind.mpr (wp_addWord.mpr fun fits => ?_))
  exact install s t _ _ hs own (by simpa using accepted) fits

theorem Records.map (f : Follows G T) {p r i h raw : Nat} :
    Keeps G n (Records T none) (Records T none) (memoryMap p r i h raw) :=
  Steady.mapsRegion (Records.upkeep f) fun _ _ _ _ _ hs own mask nonzero => hs.installRow f own fun _ fits placed =>
    .map (grantPerms_ne_zero mask nonzero) fits (placed rfl)

theorem Records.mapDevice (f : Follows G T) {p i h : Nat} :
    Keeps G n (Records T none) (Records T none) (iomemoryMap p i h) :=
  Steady.mapsWindow (Records.upkeep f) fun _ _ _ _ hs own accepted fits => hs.installRow f own fun _ _ _ => by
    rw [Nat.add_sub_cancel_left]
    exact .window fits accepted

/-- The stats page, for a process that lives. -/
theorem Records.mapStats (f : Follows G T) {p d c : Nat} :
    Leads G n (Records T none) (fun s => Records T none s ∧ (s.processes.slot p).Lives) (Records T none)
      (statsRegionMap p d c) := by
  have w : Steady G n (Records T none) := Records.upkeep f
  rintro s ⟨hs, live⟩
  refine wp_bind.mpr (w.wp_check mortal_any hs fun _ => ?_)
  refine wp_bind.mpr (wp_spares (S := recordParts) (spares_copyOut (by decide)) fun refused s₁ h₁ => ?_)
  have hs₁ := hs.agree f h₁
  refine wp_bind.mpr (w.wp_refuse mortal_any hs₁ fun _ => hs₁.installRow f ?_ fun cursor fits placed => ?_)
  · rw [← agree_processState (agree_rows h₁) p]
    obtain ⟨hf, hg⟩ := live
    cases hst : (s.processes.slot p).state <;> simp_all
  · exact .map (by decide) fits (placed rfl)

/-- The rows of a record after the removal of row `r`. -/
theorem Rows.drop (f : Follows G T) (hs : Rows T E s) {p r : Nat} {u : Hal.Prot} (hp : p < s.processes.cap)
    (hr : r < (s.processes.slot p).grantCount) (good : G (.mark (.revoke p r) s))
    (hu : Hal.protUpdate p ((s.processes.slot p).grants r).base ((s.processes.slot p).grants r).top
      ((s.processes.slot p).grants r).pa 0 ((s.processes.slot p).grants r).device s.prot = some u) :
    Rows T E { s with processes := s.processes.set p ((s.processes.slot p).dropRow r), prot := u } := by
  refine ⟨fun q i hi => ?_, fun q => ?_, fun q hE hst => ?_, fun q hq => ?_, f.revoke s p r u hr good hu hs.unit⟩
  · by_cases hq : q = p
    · simp only [Slab.set_slot, hq, if_true, ProcessSlot.dropRow] at hi ⊢
      split
      · exact hs.sources p (i + 1) (by omega)
      · exact hs.sources p i (by omega)
    · simp only [Slab.set_slot, hq, if_false] at hi ⊢
      exact hs.sources q i hi
  · have := hs.few q
    by_cases hq : q = p
    · simp only [Slab.set_slot, hq, if_true, ProcessSlot.dropRow]
      have := hs.few p
      omega
    · simpa [hq] using hs.few q
  · by_cases hq : q = p
    · subst hq
      simp only [Slab.set_slot, if_true, ProcessSlot.dropRow] at hst ⊢
      have := hs.vacant q hE hst
      omega
    · simp only [Slab.set_slot, hq, if_false] at hst ⊢
      exact hs.vacant q hE hst
  · have hqp : q ≠ p := by
      rintro rfl
      exact absurd hp (Nat.not_lt.mpr hq)
    simp only [Slab.set_slot, hqp, if_false]
    exact hs.beyond q hq

theorem agree_setMappings {v : Slab MappingSlot} (hc : v.cap = s.mappings.cap) (he : v.extents = s.mappings.extents) :
    Agree [.machine .prot, .process .grants, .process .image, .process .state, .machine .slabs] s
      { s with mappings := v } := by
  intro x hx
  simp only [List.mem_cons, List.not_mem_nil, or_false] at hx
  rcases hx with rfl | rfl | rfl | rfl | rfl
  · rfl
  · exact fun _ => ⟨rfl, rfl, rfl⟩
  · exact fun _ => ⟨rfl, rfl, rfl, rfl, rfl, rfl⟩
  · exact fun _ => rfl
  · simp [Parts.same, Part.same, K.shape, hc, he]

/-- Where a Mapping's row goes when row `removed` of `target` is taken out: the rows behind it move down. -/
theorem wp_compactMappingRows {target removed : Nat} {s : K} :
    wp G n (compactMappingRows target removed)
      (fun _ t => ∃ v : Slab MappingSlot, t = { s with mappings := v } ∧ v.cap = s.mappings.cap ∧
        v.extents = s.mappings.extents ∧ ∀ m < v.cap, (v.slot m).state = (s.mappings.slot m).state ∧
          (v.slot m).target = (s.mappings.slot m).target ∧ ∀ r, (v.slot m).state = .live → (v.slot m).row = some r →
            ∃ row, (s.mappings.slot m).row = some row ∧
              ((s.mappings.slot m).target = target ∧ removed < row ∧ r = row - 1 ∨
                ((s.mappings.slot m).target = target → row ≤ removed) ∧ r = row)) (.leaving A) s := by
  refine wp_bind.mpr (wp_capacity.mpr (wp_eachMapping.imp fun _ t => ?_))
  rintro ⟨v, rfl, hc, he, hv⟩
  refine ⟨v, rfl, hc, he, fun m hm => ?_⟩
  rw [hv m (hc ▸ hm)]
  cases hrow : (s.mappings.slot m).row with
  | none => simp [hrow]
  | some row =>
    by_cases moved : (s.mappings.slot m).state = .live ∧ (s.mappings.slot m).target = target ∧ removed < row
    · simp only [if_pos moved]
      exact ⟨trivial, trivial, fun r _ hr => ⟨row, rfl, Or.inl ⟨moved.2.1, moved.2.2, (Option.some.inj hr).symm⟩⟩⟩
    · simp only [if_neg moved]
      refine ⟨trivial, trivial, fun r hl hr => ⟨row, rfl, Or.inr ⟨fun h => ?_, ?_⟩⟩⟩
      · exact Nat.le_of_not_lt fun lt => moved ⟨hl, h, lt⟩
      · exact (Option.some.inj (hrow.symm.trans hr)).symm

/-- What a Mapping with a row was before row `row` of `t`, which Mapping `i` named, was taken out. -/
def Shifted (s u : K) (i t row : Nat) : Prop :=
  ∀ m < u.mappings.cap, ∀ r, (u.mappings.slot m).state = .live → (u.mappings.slot m).row = some r →
    m < s.mappings.cap ∧ m ≠ i ∧ (s.mappings.slot m).state = .live ∧
      (u.mappings.slot m).target = (s.mappings.slot m).target ∧ ∃ r₀, (s.mappings.slot m).row = some r₀ ∧
        ((s.mappings.slot m).target = t ∧ row < r₀ ∧ r = r₀ - 1 ∨
          ((s.mappings.slot m).target = t → r₀ ≤ row) ∧ r = r₀)

theorem Shifted.of_agree {u : K} {i q row : Nat} (h : Agree rowParts s t) (shifted : Shifted t u i q row) :
    Shifted s u i q row := by
  intro m hm r hl hr
  obtain ⟨inCap, other, live, target, r₀, hr₀, moved⟩ := shifted m hm r hl hr
  obtain ⟨state, target', row'⟩ := agree_mapping h m
  rw [← target'] at moved
  exact ⟨(agree_caps h).2 ▸ inCap, other, state.trans live, target.trans target'.symm, r₀, row'.trans hr₀, moved⟩

/-- The Mappings follow when a row is taken out. -/
theorem wp_shiftRows {i q row : Nat} :
    wp G n (do
        mappings.modify i ({ · with row := none })
        quotaCredit q .mapping
        compactMappingRows q row)
      (fun _ u => Shifted s u i q row ∧
        Agree [.machine .prot, .process .grants, .process .image, .process .state, .machine .slabs] s u)
          (.leaving A) s := by
  refine wp_bind.mpr (wp_modifyMapping.mpr fun _ => ?_)
  refine wp_bind.mpr
    (wp_spares (S := .process .image :: recordParts) (spares_quotaCredit (by decide) (by decide)) fun _ s₂ h₂ => ?_)
  have rows₂ : Agree rowParts _ s₂ := h₂.mono (by decide)
  refine wp_compactMappingRows.imp fun _ _ => ?_
  rintro ⟨v, rfl, hc, he, hv⟩
  have detached : Agree [.machine .prot, .process .grants, .process .image, .process .state, .machine .slabs] s
      { s with mappings := s.mappings.set i { s.mappings.slot i with row := none } } := agree_setMappings rfl rfl
  refine ⟨fun m hm r hl hr => ?_, (detached.trans (h₂.mono (by decide))).trans (agree_setMappings hc he)⟩
  have cap : s.mappings.cap = s₂.mappings.cap := (agree_caps rows₂).2
  have inCap : m < s.mappings.cap := cap ▸ hc ▸ hm
  have was := agree_mapping rows₂ m
  obtain ⟨state, target, moved⟩ := hv m hm
  obtain ⟨r₀, hr₀, moved⟩ := moved r hl hr
  rw [state] at hl
  have other : m ≠ i := by
    rintro rfl
    rw [← was.2.2] at hr₀
    simp at hr₀
  simp only [Slab.set_slot, other, if_false] at was
  rw [← was.2.1] at moved
  exact ⟨inCap, other, was.1.trans hl, target.trans was.2.1.symm, r₀, was.2.2.trans hr₀, moved⟩

/-- When the row that a Mapping names is taken out, the Mappings that are left name rows that are there. -/
theorem Named.shifted {u : K} {i q row : Nat} (hs : Named s) (hi : i < s.mappings.cap)
    (live : (s.mappings.slot i).state = .live) (hrow : (s.mappings.slot i).row = some row)
    (ht : (s.mappings.slot i).target = q) (h : Shifted s u i q row)
    (dropped : (u.processes.slot q).grantCount = (s.processes.slot q).grantCount - 1)
    (kept : ∀ p, p ≠ q → (u.processes.slot p).grantCount = (s.processes.slot p).grantCount) : Named u := by
  have distinct : ∀ m < s.mappings.cap, m ≠ i → (s.mappings.slot m).state = .live →
      (s.mappings.slot m).target = q → (s.mappings.slot m).row ≠ some row := by
    intro m hm hmi hl own same
    exact hmi (hs.apart m hm i hi row hl live same hrow (own.trans ht.symm))
  refine ⟨fun m hm r hl hr => ?_, fun m hm m' hm' r hl hl' hr₁ hr₁' htt => ?_⟩
  · obtain ⟨hm₀, hmi, hl₀, htarget, r₀, hr₀, moved⟩ := h m hm r hl hr
    have bound := hs.installed m hm₀ r₀ hl₀ hr₀
    rw [htarget]
    by_cases own : (s.mappings.slot m).target = q
    · have other : r₀ ≠ row := fun same => distinct m hm₀ hmi hl₀ own (same ▸ hr₀)
      rw [own] at bound ⊢
      rcases moved with ⟨-, h, rfl⟩ | ⟨h, rfl⟩
      · omega
      · have := h own
        have room := hs.installed i hi row live hrow
        rw [ht] at room
        omega
    · rw [kept _ own]
      rcases moved with ⟨h, -, -⟩ | ⟨-, rfl⟩
      · exact absurd h own
      · exact bound
  · obtain ⟨hm₀, hmi, hl₀, htarget, r₀, hr₀, moved⟩ := h m hm r hl hr₁
    obtain ⟨hm₀', hmi', hl₀', htarget', r₀', hr₀', moved'⟩ := h m' hm' r hl' hr₁'
    have sameTarget : (s.mappings.slot m).target = (s.mappings.slot m').target := by
      rw [← htarget, ← htarget', htt]
    have sameRow : r₀ = r₀' := by
      have other : (s.mappings.slot m).target = q → r₀ ≠ row := fun own same =>
        distinct m hm₀ hmi hl₀ own (same ▸ hr₀)
      have other' : (s.mappings.slot m').target = q → r₀' ≠ row := fun own same =>
        distinct m' hm₀' hmi' hl₀' own (same ▸ hr₀')
      rw [sameTarget] at moved other
      rcases moved with ⟨own, h, h'⟩ | ⟨h, h'⟩ <;> rcases moved' with ⟨own', k, k'⟩ | ⟨k, k'⟩
      · omega
      · have := k own
        have := other' own
        omega
      · have := h own'
        have := other own'
        omega
      · omega
    exact hs.apart m hm₀ m' hm₀' r₀ hl₀ hl₀' hr₀ (sameRow ▸ hr₀') sameTarget

theorem Records.unmap (f : Follows G T) {p i : Nat} :
    Keeps G n (Records T none) (Records T none) (mappingUnmap p i) := by
  have w : Steady G n (Records T none) := Records.upkeep f
  intro s hs
  refine wp_bind.mpr (w.wp_mappedRow mortal_any hs fun row hi live hrow => wp_bind.mpr (wp_readMapping.mpr fun _ => ?_))
  have hr := hs.installed i hi row live hrow
  generalize ht : (s.mappings.slot i).target = t at hr ⊢
  refine wp_bind.mpr (wp_ite.mpr ⟨fun _ => ?_, fun _ => wp_halt.mpr trivial⟩)
  refine wp_bind.mpr (wp_readProcess.mpr fun hp => wp_bind.mpr (wp_mark.mpr fun good => ?_))
  refine wp_bind.mpr (wp_protTry.mpr fun u hu => wp_bind.mpr (wp_modifyProcess.mpr fun _ => ?_))
  have dropped := hs.toRows.drop f hp hr good hu
  refine wp_spares (S := recordParts) (spares_unrefRegionRow (by decide)) fun _ s₁ h₁ => ?_
  rw [← bind_assoc, ← bind_assoc, bind_assoc (g := fun _ => compactMappingRows t row)]
  refine wp_bind.mpr (wp_shiftRows.imp fun _ s₂ ⟨shifted, h₂⟩ => ?_)
  have kept : Agree [.machine .prot, .process .grants, .process .state, .machine .slabs] _ s₂ :=
    (h₁.mono (by decide)).trans (h₂.mono (by decide))
  have grants := fun q => kept (.process .grants) (by decide) q
  have same : SameRecords _ s₂ :=
    ⟨kept (.machine .prot) (by decide), fun q => (grants q).1, fun q j _ => by rw [(grants q).2.1]⟩
  have rows := dropped.carry (kept.mono (by decide)) (f.about _ _ same dropped.unit)
  have named : Named s₂ := by
    refine hs.shifted hi live hrow ht (fun m hm => ?_) ?_ fun q hq => ?_
    · exact Shifted.of_agree (h₁.mono (by decide)) shifted m hm
    · simpa [ProcessSlot.dropRow] using (grants t).1.symm
    · simpa [hq] using (grants q).1.symm
  refine wp_bind.mpr ((Records.domainChanged f _ ⟨rows, named⟩).imp fun _ s₄ hs₄ => wp_pure.mpr hs₄)

theorem Records.donated (f : Follows G T) (d : Donated s t) (hs : Records T none s) : Records T none t := by
  have process : ∀ q, (t.processes.slot q).grantCount = (s.processes.slot q).grantCount ∧
      ((t.processes.slot q).grants = (s.processes.slot q).grants ∨ (s.processes.slot q).grantCount = 0) ∧
      ((t.processes.slot q).state = (s.processes.slot q).state) := by
    intro q
    rw [d.processes.slot]
    split
    · rename_i new
      obtain ⟨free, none⟩ := hs.beyond q new.1
      exact ⟨none.symm, Or.inr none, free.symm⟩
    · exact ⟨rfl, Or.inl rfl, rfl⟩
  have same : SameRecords s t := by
    refine ⟨d.rest .prot (by decide) (by decide), fun q => (process q).1.symm, fun q i hi => ?_⟩
    rcases (process q).2.1 with h | h
    · rw [h]
    · omega
  refine ⟨⟨fun q i hi => ?_, fun q => ?_, fun q hE hst => ?_, fun q hq => ?_, f.about s t same hs.unit⟩,
    hs.toNamed.donated d fun q => (process q).1⟩
  · rw [(process q).1] at hi
    rw [← same.rows q i hi]
    exact hs.sources q i hi
  · exact (process q).1 ▸ hs.few q
  · rw [(process q).2.2] at hst
    exact (process q).1 ▸ hs.vacant q hE hst
  · have := d.processes.cap
    rw [(process q).1, (process q).2.2]
    exact hs.beyond q (by omega)

theorem Records.donate (f : Follows G T) {p k h : Nat} :
    Keeps G n (Records T none) (Records T none) (slabDonate p k h) :=
  (Records.upkeep f).donate (fun _ _ d hs => hs.donated f d)
    (fun _ => Records.spares f (spares_memoryRetireDonated (by decide)))
    mortal_any

/-! ### Images -/

/-- The record of `p` is being filled, and has `k` rows. -/
def Filling (T : K → Prop) (p k : Nat) (s : K) : Prop :=
  Records T (some p) s ∧ (s.processes.slot p).grantCount = k

theorem Filling.agree (f : Follows G T) {p k : Nat} (h : Agree recordParts s t) (hs : Filling T p k s) :
    Filling T p k t :=
  ⟨hs.1.agree f h, (agree_grants (agree_rows h) p).1 ▸ hs.2⟩

theorem Filling.bedrock (f : Follows G T) {p k : Nat} : Bedrock G n A (Filling T p k) where
  quiet _ _ := trivial
  about s t h hs := hs.agree f (h.mono (by decide))
  release _ := (spares_memoryReleaseIfIdle (by decide)).keeps fun _ _ h hs => hs.agree f h
  unmapped _ _ hs := wp_modifyMapping.mpr fun _ => ⟨hs.1.setMapping f (fun h => by cases h), hs.2⟩
  reclaim q s hs := wp_modifyProcess.mpr fun hq => by
    have kept := (wp_modifyProcess (G := G) (n := n) (A := A)).mp (Records.reclaim f (p := q) s hs.1) hq
    refine ⟨kept, ?_⟩
    rw [← hs.2]
    by_cases hp : p = q
    · simp only [hp, Slab.set_slot, if_true]
      split <;> rfl
    · simp [hp]

theorem Filling.recordGrant (f : Follows G T) {p k base top pa perms : Nat} {device : Bool} {region : Option Nat}
    (hs : Filling T p k s) (src : RowSource ⟨base, top, pa, perms, device, region⟩) (room : k < Hal.grantRowBudget) :
    wp G n (recordGrant p base top pa perms device region) (fun _ => Filling T p (k + 1)) (.leaving A) s :=
  (hs.1.recordGrant f src (hs.2 ▸ room) (Or.inl rfl)).imp fun _ _ ⟨kept, _, count⟩ => ⟨kept, hs.2 ▸ count⟩

omit [Hal] in
theorem refusal_eq_none {α : Type} {c : Prop} [Decidable c] {why : α} {rest : Option α} :
    (if c then some why else rest) = none ↔ ¬c ∧ rest = none := by
  by_cases h : c <;> simp [h]

/-- What a segment that passed is. -/
structure SosimgSeg.Checked (seg : SosimgSeg) (imgLen : Nat) (dest : LoadRegion) (allow : Bool) : Prop where
  file : seg.fileOff ≤ imgLen ∧ seg.fileLen ≤ imgLen - seg.fileOff
  covers : seg.memCoversFile = true
  perms : seg.hasSanePerms = true
  device : seg.isDeviceGrant = true → allow = true ∧ seg.loadAddr = Hal.deviceGrantBase ∧
    seg.memLen = Hal.deviceGrantLen
  memory : seg.isDeviceGrant = false → dest.linkBase ≤ seg.loadAddr ∧ seg.loadAddr ≤ dest.linkTop - dest.stackLen ∧
    seg.memLen ≤ dest.linkTop - dest.stackLen - seg.loadAddr

theorem checked_of_checkSegment {seg : SosimgSeg} {imgLen : Nat} {dest : LoadRegion} {allow : Bool}
    (h : checkSegment seg imgLen dest allow = none) : seg.Checked imgLen dest allow := by
  simp only [checkSegment, refusal_eq_none, Bool.not_eq_true, Bool.not_eq_false'] at h
  obtain ⟨-, past, runs, covers, perms, rest⟩ := h
  refine ⟨⟨by omega, by omega⟩, covers, perms, fun device => ?_, fun memory => ?_⟩
  · rw [if_pos device] at rest
    cases allow with
    | false => cases rest
    | true =>
      simp only [if_true, checkDeviceGrant, refusal_eq_none, ne_eq, Decidable.not_not] at rest
      exact ⟨rfl, rest.2.1, rest.2.2.1⟩
  · rw [if_neg (by simp [memory])] at rest
    simp only [refusal_eq_none] at rest
    obtain ⟨below, -, above, outruns, -⟩ := rest
    exact ⟨by omega, by omega, by omega⟩

/-- An image that passed has its segment table in its bytes, not more segments than a process may have, and each of them
    passed. -/
theorem validateImage_checks {mem : Nat → UInt8} {base len : Nat} {dest : LoadRegion} {allow : Bool}
    (h : validateImage mem base len dest allow = none) :
    Build.headerLen + (Build.headerAt mem base).segCount * Build.segLen ≤ len ∧
      (Build.headerAt mem base).segCount ≤ Hal.maxRootSegments ∧ ∀ i < (Build.headerAt mem base).segCount,
        checkSegment (Build.segAt mem (base + Build.headerLen + i * Build.segLen)) len dest allow = none := by
  simp only [validateImage, refusal_eq_none] at h
  obtain ⟨header, -, -, -, -, few, table, -, rest⟩ := h
  split at rest
  · cases rest
  rename_i passed
  refine ⟨by omega, Nat.le_of_not_lt few, fun i hi => ?_⟩
  rw [List.findSome?_eq_none_iff] at passed
  exact passed _ (List.mem_map.mpr ⟨i, List.mem_range.mpr hi, rfl⟩)

theorem checkSegment_permits {seg : SosimgSeg} {imgLen : Nat} {dest : LoadRegion} {allow : Bool}
    (h : checkSegment seg imgLen dest allow = none) : seg.flags ≠ 0 :=
  seg.sane (checked_of_checkSegment h).perms

/-- A memory segment that passed does not begin below its region, and a device grant that passed is the board's. -/
theorem checkSegment_places {seg : SosimgSeg} {imgLen : Nat} {dest : LoadRegion} {allow : Bool}
    (h : checkSegment seg imgLen dest allow = none) :
    (seg.isDeviceGrant = false → dest.linkBase ≤ seg.loadAddr) ∧
      (seg.isDeviceGrant = true → seg.loadAddr = Hal.deviceGrantBase ∧ seg.memLen = Hal.deviceGrantLen) :=
  ⟨fun memory => ((checked_of_checkSegment h).memory memory).1, fun device =>
    ((checked_of_checkSegment h).device device).2⟩

/-- A segment that passed becomes one row. -/
theorem Filling.placeSegment (f : Follows G T) {p k img imgLen rw : Nat} {dest : LoadRegion} {region : Option Nat}
    {seg : SosimgSeg} {allow : Bool} (hs : Filling T p k s) (room : k < Hal.grantRowBudget) (used : dest.Used)
    (checked : checkSegment seg imgLen dest allow = none) :
    wp G n (placeSegment p img dest region seg rw) (fun _ => Filling T p (k + 1)) (.leaving A) s := by
  refine wp_ite.mpr ⟨fun device => ?_, fun memory => ?_⟩
  · refine wp_bind.mpr (wp_addWord.mpr fun _ => wp_bind.mpr ?_)
    exact (hs.recordGrant f (.grant checked device) room).imp fun _ _ h => wp_pure.mpr h
  have g : Serviced G n A (Filling T p k) := (Filling.bedrock f).serviced
  refine wp_bind.mpr (wp_bind.mpr (wp_subWord.mpr fun _ => wp_addWord.mpr fun _ => ?_))
  refine wp_bind.mpr (wp_addWord.mpr fun _ => wp_bind.mpr ((g.longCopy s hs).imp fun _ s₁ hs₁ => ?_))
  refine wp_bind.mpr (wp_addWord.mpr fun _ => wp_bind.mpr (wp_subWord.mpr fun _ => ?_))
  refine wp_bind.mpr ((g.longZero s₁ hs₁).imp fun _ s₂ hs₂ => ?_)
  refine wp_bind.mpr (wp_addWord.mpr fun _ => wp_bind.mpr (wp_alignUpWord.mpr fun fits => wp_bind.mpr ?_))
  have src : RowSource ⟨seg.loadAddr, alignUp (seg.loadAddr + seg.memLen) Hal.protGrain,
      dest.base + (seg.loadAddr - dest.linkBase), seg.flags, false, region⟩ :=
    .segment checked (by simpa using memory) used fits
  exact (hs₂.recordGrant f src room).imp fun _ _ h => wp_pure.mpr h

/-- An image that stands fills a record. -/
theorem Filling.placeImage (f : Follows G T) {p img : Nat} {dest : LoadRegion} {region : Option Nat}
    (used : dest.Used) : Leads G n A (Filling T p 0) (Records T (some p)) (placeImage p img dest region) := by
  intro s hs
  have budget := f.room
  refine wp_bind.mpr (wp_mark.mpr fun good => wp_bind.mpr (wp_reads.mpr ?_))
  obtain ⟨-, _, _, valid⟩ := f.stands _ good
  have few := (validateImage_checks valid).2.1
  refine wp_bind.mpr (wp_loop (I := fun (at' : Nat × Nat) t => Filling T p at'.1 t ∧ at'.1 ≤ Hal.maxRootSegments)
    ?_ ⟨hs, Nat.zero_le _⟩)
  rintro ⟨i, rwBase⟩ t ⟨ht, hi⟩
  refine wp_ite.mpr ⟨fun more => ?_, fun _ => wp_pure.mpr ?_⟩
  · refine wp_bind.mpr (wp_mark.mpr fun good' => wp_bind.mpr (wp_reads.mpr (wp_bind.mpr ?_)))
    obtain ⟨inside, imgLen, allow, valid'⟩ := f.stands _ good'
    have checked := (validateImage_checks valid').2.2 i inside
    exact (ht.placeSegment f (by omega) used checked).imp fun _ _ h => wp_pure.mpr ⟨h, by omega⟩
  · refine wp_bind.mpr ((ht.recordGrant f (.stack used) (by omega)).imp fun _ _ h => wp_pure.mpr h.1)

theorem Records.fillProcess (f : Follows G T) {slot img dst : Nat} {dest : LoadRegion} (used : dest.Used) :
    Leads G n A (Filling T slot 0) (Records T none) (fillProcess slot img dest dst) := by
  refine (Filling.placeImage f used).bind fun _ s hs => wp_bind.mpr (wp_reads.mpr ?_)
  refine wp_bind.mpr (wp_modifyProcess.mpr fun hp => ?_)
  refine wp_spares (S := recordParts) ?_ fun _ _ h => Records.agree f h (hs.setProcess f hp ?_ ?_ ?_ ?_)
  · exact .bind (spares_statsClear (by decide)) fun _ => .bind (by simp) fun _ => by simp +decide
  · rfl
  · rfl
  · exact fun q hq _ h => hq (Option.some.inj h)
  · intro _ h
    simp at h

theorem imageFits_room {img dst : MemorySlot} (h : imageFits img dst = true) :
    Hal.rootStackLen < dst.len ∧ regionWraps dst.base dst.len = false := by
  simp only [imageFits, Bool.and_eq_true, Bool.not_eq_true', decide_eq_true_eq] at h
  exact ⟨h.1.2, h.1.1.2⟩

theorem Records.processCreate (f : Follows G T) {p i m : Nat} :
    Keeps G n (Records T none) (Records T none) (processCreate p i m) := by
  have w : Steady G n (Records T none) := Records.upkeep f
  intro s hs
  refine wp_bind.mpr (w.wp_memoryArg mortal_any hs fun _ _ => wp_bind.mpr (w.wp_memoryArg mortal_any hs fun _ _ => ?_))
  refine wp_bind.mpr (wp_readMemory.mpr fun _ => wp_bind.mpr (wp_readMemory.mpr fun _ => ?_))
  refine wp_ite.mpr ⟨fun _ => wp_pure.mpr hs, fun fits => wp_bind.mpr (wp_reads.mpr ?_)⟩
  refine wp_ite.mpr ⟨fun _ => wp_pure.mpr hs, fun _ => wp_bind.mpr (wp_reads.mpr ?_)⟩
  split
  · exact wp_pure.mpr hs
  rename_i slot found
  refine wp_bind.mpr (wp_spares (S := recordParts) (spares_mintHandle (by decide) (by decide)) fun _ s₁ h₁ => ?_)
  have hs₁ := hs.agree f h₁
  refine wp_ite.mpr ⟨fun _ => ?_, fun _ => wp_bind.mpr ?_⟩
  · exact (Records.spares f (.bind (by simp) fun _ => spares_pure)).leads s₁ hs₁
  refine (Records.fillProcess f (Or.inr ⟨_, rfl, ?_⟩) s₁ ⟨hs₁.filling, ?_⟩).imp fun _ _ h => wp_pure.mpr h
  · exact imageFits_room (by simpa using fits)
  · have free := List.find?_some found
    refine hs₁.vacant slot (by simp) (Or.inl ?_)
    rw [← agree_processState (agree_rows h₁) slot]
    simpa using free

theorem Records.threadCreate (f : Follows G T) {p e sp a : Nat} :
    Keeps G n (Records T none) (Records T none) (threadCreate p e sp a) := by
  have w : Steady G n (Records T none) := Records.upkeep f
  refine .bind (w.spares (by simp)) fun _ => .bind (.whenever (w.faultProcess mortal_any)) fun _ =>
    w.create (by simp) fun i => ?_
  refine .bind (w.spares (by simp +decide)) fun _ => .bind (Records.spares f (spares_threads ?_)) fun _ => ?_
  · simp +decide
  · exact w.spares (by simp +decide)

theorem Records.start (f : Follows G T) {p c form tag : Nat} :
    Keeps G n (Records T none) (Records T none) (processStart p c form tag) := by
  have w : Steady G n (Records T none) := Records.upkeep f
  unfold Sawos.processStart
  split
  · exact w.faultProcess mortal_any
  refine .bind (w.spares (by simp)) fun _ => .bind (.whenever (w.faultProcess mortal_any)) fun _ =>
    .bind (w.spares (by simp)) fun _ => ?_
  refine .ite (.bind (w.spares (by simp)) fun found => ?_) keeps_pure
  split
  · exact keeps_pure
  refine .bind (Records.spares f ?_) fun word => ?_
  · unfold bootWord
    split
    · exact spares_pure
    · exact .bind (spares_bootHandleTake (by decide)) fun _ => spares_pure
  split
  · exact w.faultProcess mortal_any
  refine .bind (w.spares (by simp +decide)) fun _ => .bind (Records.spares f (spares_threads ?_)) fun _ => ?_
  · simp +decide
  refine .bind (w.spares (by simp +decide)) fun _ => .bind (Records.spares f (by simp +decide)) fun _ => ?_
  intro s hs
  refine wp_bind.mpr (wp_modifyProcess.mpr fun hc => wp_pure.mpr ?_)
  exact hs.setProcess f hc rfl rfl (fun _ _ => id) fun _ h => by simp at h

theorem Records.fresh (hs : s.Fresh) (unit : T s) : Records T none s := by
  have slot : ∀ p, s.processes.slot p = .vacant := fun p => by rw [hs.processes]; rfl
  have mapping : ∀ m, s.mappings.slot m = .vacant := fun m => by rw [hs.mappings]; rfl
  refine ⟨⟨fun p i hi => ?_, fun p => ?_, fun p _ _ => ?_, fun p _ => ?_, unit⟩, fun m _ r hl _ => ?_,
    fun m _ m' _ r hl _ _ _ _ => ?_⟩
  · rw [slot] at hi
    cases hi
  · rw [slot]
    exact Nat.zero_le _
  · rw [slot]
    rfl
  · rw [slot]
    exact ⟨rfl, rfl⟩
  · rw [mapping] at hl
    cases hl
  · rw [mapping] at hl
    cases hl

/-- The boot makes the root process, whose record is placed before it runs. -/
theorem Records.startProcess (f : Follows G T) {e sp rb rt wb wt : Nat} :
    Leads G n A (Records T (some rootProcess)) (Records T none) (startProcess e sp rb rt wb wt) := by
  intro s hs
  refine wp_bind.mpr (wp_modifyProcess.mpr fun hp => ?_)
  refine wp_spares (S := recordParts) ?_ fun _ _ h => Records.agree f h (hs.setProcess f hp ?_ ?_ ?_ ?_)
  · refine .bind (spares_statsClear (by decide)) fun _ => .bind (by simp) fun _ => .bind (by simp +decide) fun _ => ?_
    exact spares_startMain (by decide) (by simp +decide)
  · rfl
  · rfl
  · exact fun q hq _ h => hq (Option.some.inj h)
  · intro _ h
    simp at h

theorem Records.boot (f : Follows G T) (unit : ∀ s : K, s.Fresh → T s) :
    Leads G n A K.Fresh (Records T none) loadRootAndEnter := by
  intro s hs
  have bare : Records T none s := Records.fresh hs (unit s hs)
  refine boot_leads (I := Filling T rootProcess 0) (J := Records T (some rootProcess))
    (L := Records T (some rootProcess))
    (fun _ => Filling.placeImage f (Or.inl rfl)) (Records.load f).leads (fun _ _ _ _ _ _ => Records.startProcess f) s
    ⟨bare.filling, ?_⟩
  rw [hs.processes]
  rfl

/-- The records as they are at a boundary, beside what the threads and the processes say about each other. -/
theorem Records.grounded (f : Follows G T) : SteadyGrounded G n fun s => Owned none s ∧ Records T none s where
  toUpkeep := Owned.upkeep.and (Records.upkeep f)
  split p r len hp := (Owned.grounded.split p r len hp).and (Records.split f)
  map p r i t a hp := (Owned.grounded.map p r i t a hp).and (Records.map f)
  mapDevice p i t hp := (Owned.grounded.mapDevice p i t hp).and (Records.mapDevice f)
  mapStats p d c hp := by
    rintro s ⟨⟨owned, records⟩, calls⟩
    exact ((Owned.grounded.mapStats p d c hp).and (Records.mapStats f)) s
      ⟨⟨owned, calls⟩, records, owned.callerLives calls⟩
  unmap p i hp := (Owned.grounded.unmap p i hp).and (Records.unmap f)
  donate p k h hp := (Owned.grounded.donate p k h hp).and (Records.donate f)
  processCreate p i m hp := (Owned.grounded.processCreate p i m hp).and (Records.processCreate f)
  start p c form t hp := (Owned.grounded.start p c form t hp).and (Records.start f)
  threadCreate q e sp a s hs := (Owned.threadCreate.and (Records.threadCreate f)) s hs.1
  devices := (Owned.upkeep.and (Records.upkeep f)).devices fun _ _ same hs =>
    ⟨hs.1.agree (same.mono (by decide)), hs.2.agree f (same.mono (by decide))⟩

/-- The records hold in every state that a run reaches. -/
theorem Records.reachable (f : Follows G T) (unit : ∀ s : K, s.Fresh → T s) (h : ReachableWith G s) :
    Owned none s ∧ Records T none s :=
  Grounded.reachable (fun _ => Records.grounded f) (fun _ s hs =>
    ((Owned.boot (A := fun _ => False)).and (Records.boot (A := fun _ => False) f unit) s ⟨hs, hs⟩).mono (fun _ => id)
      (fun _ _ => id) (fun _ h => h.1) (fun _ => id) fun _ => id) h

end

end Sawos
