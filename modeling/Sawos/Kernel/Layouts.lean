import Sawos.Kernel.Doors

/-! # Copies and the rights of a process

The door checks a copy out against a window that was computed when the image was placed, and any memory row will do
for it. What it writes is writable to the process when its image has what is read-only below what is writable. -/

namespace Sawos
open Exec

/-- Memory that may be read. -/
def GrantRow.Reads (row : GrantRow) : Prop := row.device = false → row.perms &&& segRead ≠ 0

/-- Memory that may be written. -/
def GrantRow.Writes (row : GrantRow) : Prop := row.device = false ∧ row.perms &&& segWrite ≠ 0

/-- Memory that may not be written ends below `va`. -/
def GrantRow.SortsBelow (row : GrantRow) (va : Nat) : Prop := row.device = false →
    row.perms &&& segWrite = 0 → row.top ≤ va

/-- What the rows of a record that is built say of where its writable part begins. -/
structure Laid (limit rwBase : Nat) (slot : ProcessSlot) : Prop where
  reads : ∀ i < slot.grantCount, (slot.grants i).Reads
  below : ∀ i < slot.grantCount, (slot.grants i).SortsBelow rwBase
  start : rwBase = limit ∨ ∃ i < slot.grantCount, (slot.grants i).Writes ∧ (slot.grants i).base = rwBase

section
variable [Hal]

section
variable {slot : ProcessSlot} {row : GrantRow} {limit rwBase va : Nat}

omit [Hal] in
theorem ProcessSlot.forall_pushRow {P : GrantRow → Prop} (old : ∀ i < slot.grantCount, P (slot.grants i))
    (new : P row) :
    ∀ i < (slot.pushRow row).grantCount, P ((slot.pushRow row).grants i) := by
  intro i hi
  rcases Nat.lt_succ_iff_lt_or_eq.mp hi with less | last
  · rw [show (slot.pushRow row).grants i = slot.grants i from if_neg (Nat.ne_of_lt less)]
    exact old i less
  · rwa [show (slot.pushRow row).grants i = row from if_pos last]

omit [Hal] in
/-- A row that leaves the writable part as it is. -/
theorem Laid.push (h : Laid limit rwBase slot) (reads : row.Reads) (below : row.SortsBelow rwBase) :
    Laid limit rwBase (slot.pushRow row) := by
  refine ⟨ProcessSlot.forall_pushRow h.reads reads, ProcessSlot.forall_pushRow
    (P := (·.SortsBelow rwBase)) h.below below, ?_⟩
  rcases h.start with bottom | ⟨i, hi, there⟩
  · exact Or.inl bottom
  · refine Or.inr ⟨i, Nat.lt_succ_of_lt hi, ?_⟩
    rwa [show (slot.pushRow row).grants i = slot.grants i from if_neg (Nat.ne_of_lt hi)]

omit [Hal] in
/-- A writable row with which the writable part begins. -/
theorem Laid.lower (h : Laid limit rwBase slot) (reads : row.Reads) (writes : row.Writes) (base : row.base = va)
    (below : ∀ i < slot.grantCount, (slot.grants i).SortsBelow va) : Laid limit va (slot.pushRow row) := by
  refine ⟨ProcessSlot.forall_pushRow h.reads reads,
    ProcessSlot.forall_pushRow (P := (·.SortsBelow va)) below fun _ only => absurd only writes.2, ?_⟩
  refine Or.inr ⟨slot.grantCount, Nat.lt_succ_self _, ?_⟩
  rw [show (slot.pushRow row).grants slot.grantCount = row from if_pos rfl]
  exact ⟨writes, base⟩

end

/-- Where the row of a segment ends. -/
def SosimgSeg.rowTop (seg : SosimgSeg) : Nat := alignUp (seg.loadAddr + seg.memLen) Hal.protGrain

/-- A memory segment is readable; if it is read-only it ends below the stack, at `limit`, and below each writable row of
    the record, and if it is writable it begins above each read-only row. -/
structure SosimgSeg.Sorts (seg : SosimgSeg) (limit : Nat) (slot : ProcessSlot) : Prop where
  reads : seg.flags &&& segRead ≠ 0
  stack : seg.flags &&& segWrite = 0 → seg.rowTop ≤ limit
  below : seg.flags &&& segWrite = 0 → ∀ i < slot.grantCount, (slot.grants i).Writes → seg.rowTop ≤ (slot.grants i).base
  above : seg.flags &&& segWrite ≠ 0 → ∀ i < slot.grantCount, (slot.grants i).SortsBelow seg.loadAddr

/-- The segment that the loader is about to read sorts with the record that is built: that of a slot that is free. -/
def Ordered : Ev → Prop
  | .mark (.placing imgBase dest i) s =>
    let seg := Build.segAt s.mem (imgBase + Build.headerLen + i * Build.segLen)
    seg.isDeviceGrant = false → ∀ p < s.processes.cap, (s.processes.slot p).state = .free →
      seg.Sorts (dest.linkTop - dest.stackLen) (s.processes.slot p)
  | _ => True

/-! ### The image -/

section
variable {G : Ev → Prop} {n p limit rwBase : Nat} {A : K → Prop} {s t : K}

/-- The record of `p`, in a slot that is free, is as it was in `s`. -/
structure Still (p : Nat) (s t : K) : Prop where
  cap : t.processes.cap = s.processes.cap
  free : (t.processes.slot p).state = .free
  record : SameRecord (s.processes.slot p) (t.processes.slot p)

theorem Still.agree {u : K} (h : Agree tendedRows t u) (hs : Still p s t) : Still p s u where
  cap := (agree_caps (agree_rowParts h)).1 ▸ hs.cap
  free := (agree_processState (agree_rowParts h) p) ▸ hs.free
  record := hs.record.trans (agree_record h p)

theorem Still.bedrock : Bedrock G n A (Still p s) where
  quiet _ _ := trivial
  about _ _ h hs := hs.agree (h.mono (by decide))
  release _ := Spares.keeps (S := tendedRows) (spares_memoryReleaseIfIdle (by decide)) fun _ _ h hs => hs.agree h
  unmapped _ t hs := wp_modifyMapping.mpr fun _ => ⟨hs.cap, hs.free, hs.record⟩
  reclaim q t hs := wp_modifyProcess.mpr fun hq => by
    by_cases own : q = p
    · subst own
      rw [if_neg fun gone => by rw [hs.free] at gone; cases gone.1]
      exact ⟨hs.cap, by simpa using hs.free, by simpa using hs.record⟩
    · exact ⟨hs.cap, by simpa [Ne.symm own] using hs.free, by simpa [Ne.symm own] using hs.record⟩

omit [Hal] in
theorem SameRecord.pushRow {a b : ProcessSlot} (h : SameRecord a b) (row : GrantRow) :
    SameRecord (a.pushRow row) (b.pushRow row) where
  count := congrArg (· + 1) h.count
  rows := by
    simp only [ProcessSlot.pushRow, h.rows, h.count]
  image := h.image
  window := h.window
  lives := h.lives

/-- `L` stays with the record that is built, and with where its writable part begins, as the rows of an image are put
    behind each other. -/
structure Lays (G : Ev → Prop) (p img : Nat) (dest : LoadRegion) (region : Option Nat)
    (L : Nat → ProcessSlot → Prop) : Prop where
  same : ∀ rw a b, SameRecord a b → L rw a → L rw b
  device : ∀ rw a (seg : SosimgSeg), L rw a →
    L rw (a.pushRow ⟨seg.loadAddr, seg.loadAddr + seg.memLen, seg.loadAddr, seg.flags, true, none⟩)
  memory : ∀ rw s i pa, G (.mark (.placing img dest i) s) → p < s.processes.cap → (s.processes.slot p).state = .free →
    L rw (s.processes.slot p) → ∀ seg : SosimgSeg, Build.segAt s.mem (img + Build.headerLen + i * Build.segLen) = seg →
    seg.isDeviceGrant = false → seg.rowTop < wordModulus →
    L (if seg.flags &&& segWrite ≠ 0 && seg.loadAddr < rw then seg.loadAddr else rw)
      ((s.processes.slot p).pushRow ⟨seg.loadAddr, seg.rowTop, pa, seg.flags, false, region⟩)
  stack : ∀ rw a, L rw a →
    L rw (a.pushRow ⟨dest.linkTop - dest.stackLen, dest.linkTop, dest.top - dest.stackLen,
      segRead ||| segWrite, false, region⟩)

section
variable {L : Nat → ProcessSlot → Prop} {img : Nat} {dest : LoadRegion} {region : Option Nat}

/-- A row is recorded in the record that is built. -/
theorem Lays.recordGrant (l : Lays G p img dest region L) {base top pa perms : Nat} {device : Bool} {own : Option Nat}
    (free : (s.processes.slot p).state = .free)
    (h : p < s.processes.cap → L rwBase ((s.processes.slot p).pushRow ⟨base, top, pa, perms, device, own⟩)) :
    wp G n (recordGrant p base top pa perms device own)
      (fun _ t => (t.processes.slot p).state = .free ∧ L rwBase (t.processes.slot p)) (.leaving A) s := by
  refine wp_recordGrant fun hp t agree => ⟨?_, ?_⟩
  · rw [← agree_processState (agree_rowParts agree) p]
    simpa [ProcessSlot.pushRow] using free
  · refine l.same _ _ _ ?_ (h hp)
    simpa using agree_record agree p

/-- A segment is placed. -/
theorem Lays.placeSegment (l : Lays G p img dest region L) {i : Nat} (good : G (.mark (.placing img dest i) s))
    (free : (s.processes.slot p).state = .free) (laid : L rwBase (s.processes.slot p)) {seg : SosimgSeg}
    (there : Build.segAt s.mem (img + Build.headerLen + i * Build.segLen) = seg) :
    wp G n (placeSegment p img dest region seg rwBase)
      (fun rw t => (t.processes.slot p).state = .free ∧ L rw (t.processes.slot p)) (.leaving A) s := by
  refine wp_ite.mpr ⟨fun device => ?_, fun memory => ?_⟩
  · refine wp_bind.mpr (wp_addWord.mpr fun _ => wp_bind.mpr ?_)
    exact (l.recordGrant free fun _ => l.device rwBase _ seg laid).imp fun _ _ h => wp_pure.mpr h
  have g : Serviced G n A (Still p s) := Still.bedrock.serviced
  refine wp_bind.mpr (wp_bind.mpr (wp_subWord.mpr fun _ => wp_addWord.mpr fun _ => ?_))
  refine wp_bind.mpr (wp_addWord.mpr fun _ => wp_bind.mpr ((g.longCopy s ⟨rfl, free, .refl _⟩).imp fun _ s₁ hs₁ => ?_))
  refine wp_bind.mpr (wp_addWord.mpr fun _ => wp_bind.mpr (wp_subWord.mpr fun _ => ?_))
  refine wp_bind.mpr ((g.longZero s₁ hs₁).imp fun _ s₂ hs₂ => ?_)
  refine wp_bind.mpr (wp_addWord.mpr fun _ => wp_bind.mpr (wp_alignUpWord.mpr fun fits => wp_bind.mpr ?_))
  refine (l.recordGrant hs₂.free fun hp => ?_).imp fun _ _ h => wp_pure.mpr h
  refine l.same _ _ _ (hs₂.record.pushRow _) ?_
  exact l.memory rwBase s i _ good (hs₂.cap ▸ hp) free laid seg there (by simpa using memory) fits

/-- An image is placed. -/
theorem Lays.placeImage (l : Lays G p img dest region L) (free : (s.processes.slot p).state = .free)
    (first : L (dest.linkTop - dest.stackLen) (s.processes.slot p)) :
    wp G n (placeImage p img dest region) (fun rw t => (t.processes.slot p).state = .free ∧ L rw (t.processes.slot p))
      (.leaving A) s := by
  refine wp_bind.mpr (wp_mark.mpr fun _ => wp_bind.mpr (wp_reads.mpr (wp_bind.mpr ?_)))
  refine wp_loop (I := fun (at' : Nat × Nat) t => (t.processes.slot p).state = .free ∧
    L at'.2 (t.processes.slot p)) ?_ ⟨free, first⟩
  rintro ⟨i, rwBase⟩ t ⟨vacant, laid⟩
  refine wp_ite.mpr ⟨fun _ => ?_, fun _ => wp_pure.mpr ?_⟩
  · refine wp_bind.mpr (wp_mark.mpr fun good => wp_bind.mpr (wp_reads.mpr (wp_bind.mpr ?_)))
    exact (l.placeSegment good vacant laid rfl).imp fun _ _ h => wp_pure.mpr h
  · exact wp_bind.mpr ((l.recordGrant vacant fun _ => l.stack rwBase _ laid).imp fun _ _ h => wp_pure.mpr h)

end

/-- The record of `p` is being built, with its writable part from `rwBase` on. -/
structure Laying (p limit rwBase : Nat) (s : K) : Prop where
  free : (s.processes.slot p).state = .free
  laid : Laid limit rwBase (s.processes.slot p)

omit [Hal] in
theorem Laid.same {a b : ProcessSlot} (same : SameRecord a b) (h : Laid limit rwBase a) : Laid limit rwBase b := by
  obtain ⟨reads, below, start⟩ := h
  rw [same.rows, same.count] at reads below start
  exact ⟨reads, below, start⟩

omit [Hal] in
theorem stack_permits : (segRead ||| segWrite) &&& segRead ≠ 0 ∧ (segRead ||| segWrite) &&& segWrite ≠ 0 := by decide

/-- Segments that sort with the record lay it. -/
theorem ordered_lays {img : Nat} {dest : LoadRegion} {region : Option Nat} :
    Lays Ordered p img dest region (Laid (dest.linkTop - dest.stackLen)) where
  same _ _ _ same h := h.same same
  device _ _ _ h := h.push (fun no => by cases no) fun no => by cases no
  memory rwBase s i pa good hp free laid seg there memory _ := by
    subst there
    obtain ⟨reads, stack, below, above⟩ := good memory p hp free
    split
    · rename_i lower
      simp only [Bool.and_eq_true, decide_eq_true_eq] at lower
      exact laid.lower (fun _ => reads) ⟨rfl, lower.1⟩ rfl (above lower.1)
    · refine laid.push (fun _ => reads) fun _ only => ?_
      rcases laid.start with bottom | ⟨j, hj, writes, base⟩
      · exact bottom ▸ stack only
      · exact base ▸ below only j hj writes
  stack _ _ h := h.push (fun _ => stack_permits.1) fun _ only => absurd only stack_permits.2

/-- An image whose segments sort is placed. -/
theorem Laying.placeImage {img : Nat} {dest : LoadRegion} {region : Option Nat}
    (free : (s.processes.slot p).state = .free) (bare : (s.processes.slot p).grantCount = 0) :
    wp Ordered n (placeImage p img dest region) (fun rw => Laying p (dest.linkTop - dest.stackLen) rw)
      (.leaving A) s := by
  have first : Laid (dest.linkTop - dest.stackLen) (dest.linkTop - dest.stackLen) (s.processes.slot p) := by
    refine ⟨fun i hi => ?_, fun i hi => ?_, Or.inl rfl⟩ <;> exact absurd (bare ▸ hi) (Nat.not_lt_zero i)
  exact (ordered_lays.placeImage free first).imp fun _ _ h => ⟨h.1, h.2⟩

end

/-! ### Runs -/

/-- The rows of the image of a process that lives may be read, and what of them may not be written is below its writable
    part. -/
structure Sorted (a : ProcessSlot) : Prop where
  image : a.imageRows ≤ a.grantCount
  reads : ∀ i < a.imageRows, (a.grants i).Reads
  below : ∀ i < a.imageRows, (a.grants i).SortsBelow a.rwBase

theorem sorted_tends : Tends Ordered fun _ a => a.Lives → Sorted a where
  same _ a b same h live := by
    obtain ⟨image, reads, below⟩ := h (same.lives.mpr live)
    rw [same.rows, same.image] at reads below
    rw [same.image, same.count] at image
    exact ⟨image, reads, same.window.2.2.1 ▸ below⟩
  push _ a row live _ h _ := by
    obtain ⟨image, reads, below⟩ := h live
    have old : ∀ i < a.imageRows, (a.pushRow row).grants i = a.grants i := fun i hi => if_neg (by omega)
    refine ⟨Nat.le_succ_of_le image, fun i hi => ?_, fun i hi => ?_⟩
    · exact (old i hi).symm ▸ reads i hi
    · exact (old i hi).symm ▸ below i hi
  drop s p r live behind bound _ h _ := by
    obtain ⟨image, reads, below⟩ := h live
    have old : ∀ i < (s.processes.slot p).imageRows,
      ((s.processes.slot p).dropRow r).grants i = (s.processes.slot p).grants i :=
      fun i hi => if_neg (by omega)
    refine ⟨Nat.le_pred_of_lt (Nat.lt_of_le_of_lt behind bound), fun i hi => ?_, fun i hi => ?_⟩
    · exact (old i hi).symm ▸ reads i hi
    · exact (old i hi).symm ▸ below i hi
  dead _ _ _ _ dead _ live := absurd live dead
  ends _ _ _ _ dead _ live := absurd live dead
  place n p img dest region s free bare _ A := by
    refine (Laying.placeImage free bare).imp fun rwBase t ht b placed _ => ?_
    obtain ⟨reads, below, -⟩ := ht.laid
    rw [← placed.rows, ← placed.image] at reads below
    exact ⟨Nat.le_of_eq (placed.image.trans placed.count.symm), reads, placed.window.2.2.1.symm ▸ below⟩

/-- What is mapped behind the image in a window of the process gives the right that the window is for. -/
structure ProcessSlot.MapsApart (a : ProcessSlot) : Prop where
  writes : ∀ i, a.imageRows ≤ i → i < a.grantCount → (a.grants i).device = false → (a.grants i).perms &&& segWrite = 0 →
    (a.grants i).top ≤ a.rwBase ∨ a.rwTop ≤ (a.grants i).base
  reads : ∀ i, a.imageRows ≤ i → i < a.grantCount → (a.grants i).device = false → (a.grants i).perms &&& segRead = 0 →
    (a.grants i).top ≤ a.regionBase ∨ a.regionTop ≤ (a.grants i).base

/-- Row `i` of `p` is memory, has the bytes from `va` on, and gives the right. -/
structure Permits (s : K) (p va bytes right i : Nat) : Prop where
  row : i < (s.processes.slot p).grantCount
  memory : ((s.processes.slot p).grants i).device = false
  right : ((s.processes.slot p).grants i).perms &&& right ≠ 0
  inside : ((s.processes.slot p).grants i).base ≤ va ∧ va + bytes ≤ ((s.processes.slot p).grants i).top

section
variable {s : K} {p va bytes i : Nat}

/-- A row that admits a range of the window permits it, unless it is a row without the right that has no part of the
    window. -/
theorem Admits.permits {low high right : Nat} (h : Admits s p low high va bytes i)
    (outside : ((s.processes.slot p).grants i).device = false → ((s.processes.slot p).grants i).perms &&& right = 0 →
      ((s.processes.slot p).grants i).top ≤ low ∨ high ≤ ((s.processes.slot p).grants i).base) :
        Permits s p va bytes right i := by
  obtain ⟨memory, base, top⟩ := GrantRow.covers_iff.mp h.found.2.1
  refine ⟨h.found.1, memory, fun without => ?_, base, h.inside⟩
  have above := h.above
  have below := h.below.1
  rcases outside memory without with under | above' <;> omega

/-- What the kernel writes for a process the process may write, and what it reads the process may read, in every run
    whose images sort, when what is mapped behind the image keeps to the windows. -/
theorem copies_keep_to_rights (reached : ReachableWith Ordered s) (maps : (s.processes.slot p).MapsApart) (n : Nat) :
    (∀ dst data, wp (fun _ => True) n (copyOut p dst data) (fun r t => r.isSome ∧ t = s ∨ r = none ∧
      ∃ i, Permits s p dst data.length segWrite i ∧
        t = { s with mem := storeBytes s.mem ((s.processes.slot p).physOf i dst) data })
      Unasked s) ∧
    ∀ src bytes, wp (fun _ => True) n (copyIn p src bytes) (fun r t => t = s ∧ ((∃ why, r = .error why) ∨
      ∃ i, Permits s p src bytes segRead i ∧ r = .ok (loadBytes s.mem ((s.processes.slot p).physOf i src) bytes)))
        Unasked s := by
  obtain ⟨-, tended⟩ := Tended.reachable sorted_tends (fun _ live => absurd rfl live.1) reached
  have sorted : ∀ {va i}, (s.processes.slot p).Finds va i → Sorted (s.processes.slot p) := by
    intro va i found
    refine tended.holds p (by simp) (Classical.byContradiction fun dead => ?_)
    exact absurd (tended.vacant p (by simp) dead ▸ found.1) (Nat.not_lt_zero _)
  refine ⟨fun dst data => ?_, fun src bytes => ?_⟩
  · refine wp_copiesOut (fun why => Or.inl ⟨rfl, rfl⟩) fun i admits =>
      Or.inr ⟨rfl, i, admits.permits fun memory only => ?_, rfl⟩
    rcases Nat.lt_or_ge i (s.processes.slot p).imageRows with image | mapped
    · exact Or.inl ((sorted admits.found).below i image memory only)
    · exact maps.writes i mapped admits.found.1 memory only
  · refine wp_copiesIn (fun why => ⟨rfl, Or.inl ⟨why, rfl⟩⟩) fun i admits =>
      ⟨rfl, Or.inr ⟨i, admits.permits fun memory none => ?_, rfl⟩⟩
    rcases Nat.lt_or_ge i (s.processes.slot p).imageRows with image | mapped
    · exact absurd none ((sorted admits.found).reads i image memory)
    · exact maps.reads i mapped admits.found.1 memory none

end

end

section

/-- What the kernel writes at `va` for the root. -/
def rootCopies [Hal] (va : Nat) (s : K) : Bool :=
  match copyOut rootProcess va [1, 2, 3, 4] 64 s with
  | .ok none t _ => decide (t.mem va = 1)
  | _ => false

theorem runs_of_rootCopies [Hal] {va : Nat} {s : K} (h : rootCopies va s = true) :
    ∃ t tr, copyOut rootProcess va [1, 2, 3, 4] 64 s = .ok none t tr ∧ t.mem va = 1 := by
  unfold rootCopies at h
  split at h
  · exact ⟨_, _, ‹_›, of_decide_eq_true h⟩
  · cases h

section

/-- A build whose root image is a page of code and, above it, a page to write, with memory to map. -/
@[reducible] def orderedBuild : Build := smallBuild 1 0x20001000 [⟨0x80400000, 0x10000, 0⟩]

attribute [local instance] orderedBuild sampleTarget Riscv32.board

instance {row : GrantRow} : Decidable row.Writes := inferInstanceAs (Decidable (_ ∧ _))

instance {row : GrantRow} {va : Nat} : Decidable (row.SortsBelow va) := inferInstanceAs (Decidable (_ → _ → _))

instance {seg : SosimgSeg} {limit : Nat} {slot : ProcessSlot} : Decidable (seg.Sorts limit slot) :=
  decidable_of_iff (seg.flags &&& segRead ≠ 0 ∧ (seg.flags &&& segWrite = 0 → seg.rowTop ≤ limit) ∧
    (seg.flags &&& segWrite = 0 → ∀ i < slot.grantCount, (slot.grants i).Writes → seg.rowTop ≤ (slot.grants i).base) ∧
    (seg.flags &&& segWrite ≠ 0 → ∀ i < slot.grantCount, (slot.grants i).SortsBelow seg.loadAddr))
    ⟨fun ⟨reads, stack, below, above⟩ => ⟨reads, stack, below, above⟩, fun ⟨reads, stack, below, above⟩ =>
      ⟨reads, stack, below, above⟩⟩

/-- That a segment sorts, as a test. -/
def orderedTest : Ev → Bool
  | .mark (.placing imgBase dest i) s =>
    decide ((Build.segAt s.mem (imgBase + Build.headerLen + i * Build.segLen)).isDeviceGrant = false →
      ∀ p < s.processes.cap, (s.processes.slot p).state = .free →
        (Build.segAt s.mem (imgBase + Build.headerLen + i * Build.segLen)).Sorts (dest.linkTop - dest.stackLen)
          (s.processes.slot p))
  | _ => true

theorem ordered_of_test {e : Ev} (h : orderedTest e = true) : Ordered e := by
  cases e with
  | mark point s =>
    cases point with
    | placing imgBase dest i => exact of_decide_eq_true (p := _ → _) h
    | _ => trivial
  | _ => trivial

/-- The last row of the root is mapped behind its image, above what it writes, and may only be read. -/
def mapsToRead (s : K) : Prop :=
  let slot := s.processes.slot rootProcess
  slot.imageRows + 1 = slot.grantCount ∧ (slot.grants slot.imageRows).perms = segRead ∧
    slot.rwTop ≤ (slot.grants slot.imageRows).base

/-- With its code below what it writes, and memory mapped for reading above it, the root gets what it asks for into
    memory that it may write. -/
theorem copies_keep_to_rights_ordered : ∃ (s t : K) (i : Nat), Reachable s ∧ mapsToRead s ∧
    Permits s rootProcess 0x80201000 4 segWrite i ∧ t.mem 0x80201000 = 1 ∧
    t = { s with mem := storeBytes s.mem ((s.processes.slot rootProcess).physOf i 0x80201000) [1, 2, 3, 4] } := by
  obtain ⟨s, ⟨h, run, good⟩, found⟩ := reachable_of_played (i := [.call 4 1 2 1 0]) (G := Ordered) (g := orderedTest)
    (c := fun s =>
      let slot := s.processes.slot rootProcess
      rootCopies 0x80201000 s && decide (slot.imageRows + 1 = slot.grantCount ∧
        (slot.grants slot.imageRows).perms = segRead ∧ slot.rwTop ≤ (slot.grants slot.imageRows).base))
    (by decide +kernel) fun _ => ordered_of_test
  simp only [Bool.and_eq_true, decide_eq_true_eq] at found
  obtain ⟨copies, one, reads, above⟩ := found
  have only : ∀ i, (s.processes.slot rootProcess).imageRows ≤ i → i < (s.processes.slot rootProcess).grantCount →
      i = (s.processes.slot rootProcess).imageRows := fun i low high => by omega
  have maps : (s.processes.slot rootProcess).MapsApart := by
    refine ⟨fun i low high _ _ => ?_, fun i low high _ without => ?_⟩ <;> obtain rfl := only i low high
    · exact Or.inr above
    · rw [reads] at without
      cases without
  obtain ⟨t, tr, ran, there⟩ := runs_of_rootCopies copies
  have kept := ((copies_keep_to_rights ⟨h, run, good⟩ maps 64).1 _ _).ok ran
  rcases kept with ⟨refused, -⟩ | ⟨-, i, permits, wrote⟩
  · cases refused
  · exact ⟨s, t, i, ⟨h, run, fun _ _ => trivial⟩, ⟨one, reads, above⟩, permits, there, wrote⟩

end

section

/-- A build whose root image is a page of code and, below it, a page to write. -/
@[reducible] def upsideDownBuild : Build := smallBuild 1 0x20002000 []

attribute [local instance] upsideDownBuild sampleTarget Riscv32.board

/-- No row of the root with the address may be written. -/
def readOnly (va : Nat) (s : K) : Bool :=
  (s.processes.slot rootProcess).rows.all fun row => !row.covers va || decide (row.perms &&& segWrite = 0)

/-- With its code above what it writes, the root gets what it asks for into its code. -/
theorem code_is_written : ∃ s : K, Reachable s ∧
    (∃ t tr, copyOut rootProcess 0x80201000 [1, 2, 3, 4] 64 s = .ok none t tr ∧ t.mem 0x80201000 = 1) ∧
    ∀ row ∈ (s.processes.slot rootProcess).rows, row.covers 0x80201000 = true → row.perms &&& segWrite = 0 := by
  obtain ⟨s, reached, found⟩ := reachable_of_played (i := []) (G := fun _ => True) (g := fun _ => true)
    (c := fun s => rootCopies 0x80201000 s && readOnly 0x80201000 s) (by decide +kernel) fun _ _ => trivial
  simp only [Bool.and_eq_true, readOnly, List.all_eq_true, Bool.or_eq_true, Bool.not_eq_true',
    decide_eq_true_eq] at found
  obtain ⟨copies, only⟩ := found
  refine ⟨s, reached, runs_of_rootCopies copies, fun row mem covers => ?_⟩
  rcases only row mem with no | yes
  · rw [covers] at no
    cases no
  · exact yes

end

end

end Sawos
