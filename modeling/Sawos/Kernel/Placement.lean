import Sawos.Kernel.Layouts
import Sawos.Kernel.Links
import Sawos.Lib.Patches

/-! # What the loader places

An image that was accepted is patched into its region, segment by segment, and each segment gets its row. -/

namespace Sawos
open Exec Patches

section
variable [Hal]

/-! ### Moving bytes -/

section
variable {G : Ev → Prop} {n : Nat} {A : K → Prop} {s t : K} {W : Nat → Prop}

/-- The interrupt controller has no line to answer. -/
def Calm (polls : List Nat) : Prop := ∀ line ∈ polls, line = Hal.irqNone

/-- No interrupt comes, or none that writes in `W`. -/
def Safe (G : Ev → Prop) (W : Nat → Prop) (s : K) : Prop := Calm s.polls ∨ ∀ e, G e → Misses W e

theorem calm_tail {polls : List Nat} (calm : Calm polls) : Calm polls.tail ∧ polls.headD Hal.irqNone = Hal.irqNone := by
  cases polls with
  | nil => exact ⟨calm, rfl⟩
  | cons line rest => exact ⟨fun line' mem => calm line' (List.mem_cons_of_mem _ mem), calm line List.mem_cons_self⟩

theorem like_polls {l : List Nat} : Like W s { s with polls := l } :=
  ⟨agree_machine rfl (by simp +decide [K.shape]), fun _ _ => rfl⟩

theorem Backed.polls {l : List Nat} (h : Backed s) : Backed { s with polls := l } :=
  h.agree (agree_machine rfl (by simp +decide [K.shape]))

/-- The look for an interrupt between two strides. -/
theorem wp_preemptPoint (backed : Backed s) (safe : Safe G W s) :
    wp G n preemptPoint (fun _ t => Sheltered W s t ∧ Safe G W t) (.leaving A) s := by
  rcases safe with calm | aside
  · obtain ⟨rest, none⟩ := calm_tail calm
    refine wp_bind.mpr (wp_reads.mpr (wp_ite.mpr ⟨fun _ => wp_pure.mpr ⟨.refl backed, Or.inl calm⟩, fun _ => ?_⟩))
    refine wp_bind.mpr (wp_bind.mpr (wp_reads.mpr (wp_bind.mpr (wp_modifies.mpr (wp_pure.mpr ?_)))))
    rw [none]
    refine wp_whenever.mpr
      ⟨fun some => absurd rfl (of_decide_eq_true some), fun _ => ⟨⟨backed.polls, like_polls⟩, Or.inl rest⟩⟩
  · exact ((Sheltered.service aside).preemptPoint s (.refl backed)).imp fun _ _ ht => ⟨ht, Or.inr aside⟩

/-- On `W` the memory is `mem`, and nothing else has changed since `s` but what an interrupt may change. -/
structure Rewritten (G : Ev → Prop) (W : Nat → Prop) (s : K) (mem : Nat → UInt8) (t : K) : Prop where
  backed : Backed t
  safe : Safe G W t
  parts : Agree shelteredParts s t
  mem : ∀ b, W b → t.mem b = mem b

/-- A mover does in strides what it does in one go. -/
theorem wp_inStrides {len : Nat} {w : Nat → Nat → (Nat → UInt8) → Nat → UInt8} {g : Nat → Nat → UInt8}
    (backed : Backed s) (safe : Safe G W s) (first : g 0 = s.mem)
    (step : ∀ d c m, d + c ≤ len → (∀ b, W b → m b = g d b) → ∀ b, W b → w d c m b = g (d + c) b) :
    wp G n (inStrides (fun d c => modifies fun s => { s with mem := w d c s.mem }) len)
      (fun _ => Rewritten G W s (g len)) (.leaving A) s := by
  refine wp_loop (I := fun d t => d ≤ len ∧ Rewritten G W s (g d) t) ?_
    ⟨Nat.zero_le _, backed, safe, .refl s, fun _ _ => first ▸ rfl⟩
  rintro d t ⟨bound, h⟩
  refine wp_ite.mpr ⟨fun more => ?_, fun done => wp_pure.mpr ?_⟩
  · have fits : d + min (len - d) preemptStride ≤ len := by omega
    have wrote : Agree (backedParts ++ shelteredParts) t { t with mem := w d (min (len - d) preemptStride) t.mem } :=
      agree_mem (by decide)
    refine wp_bind.mpr (wp_modifies.mpr (wp_bind.mpr ?_))
    refine (wp_preemptPoint (h.backed.agree (wrote.mono (by decide))) h.safe).imp fun _ u ⟨⟨backed', like⟩, safe'⟩ =>
      wp_pure.mpr ?_
    refine ⟨fits, backed', safe', (h.parts.trans (wrote.mono (by decide))).trans like.parts, fun b hb => ?_⟩
    exact (like.mem b hb).trans (step d _ t.mem fits h.mem b hb)
  · obtain rfl : d = len := by omega
    exact h

omit [Hal] in
/-- A copy between ranges that do not meet. -/
theorem copyBytes_eq {m : Nat → UInt8} {dst src len : Nat} (apart : src + len ≤ dst ∨ dst + len ≤ src) :
    copyBytes m dst src len = (⟨dst, len, fun o => m (src + o)⟩ : Patch UInt8).apply m := by
  funext a
  by_cases has : dst ≤ a ∧ a < dst + len
  · rw [Patch.apply_of_has (c := ⟨dst, len, fun o => m (src + o)⟩) has, copyBytes, if_pos has]
    split
    · rw [Nat.mod_eq_of_lt (by omega)]
    · rfl
  · rw [Patch.apply_of_not (c := ⟨dst, len, fun o => m (src + o)⟩) has, copyBytes, if_neg has]

theorem wp_longCopy {dst src len : Nat} (backed : Backed s) (safe : Safe G W s)
    (apart : src + len ≤ dst ∨ dst + len ≤ src) (source : ∀ o < len, W (src + o)) : wp G n (longCopy dst src len)
      (fun _ => Rewritten G W s ((⟨dst, len, fun o => s.mem (src + o)⟩ : Patch UInt8).apply s.mem)) (.leaving A) s := by
  refine wp_inStrides (w := fun d c m => copyBytes m (dst + d) (src + d) c)
    (g := fun d => (⟨dst, d, fun o => s.mem (src + o)⟩ : Patch UInt8).apply s.mem) backed safe Patch.apply_empty
    fun d c m bound same b hb => ?_
  rw [copyBytes_eq (by omega), ← Patch.apply_append, Patch.apply_at (same b hb)]
  refine congrFun (Patch.apply_congr fun o ho => ?_) b
  -- What is still to be copied was not written to.
  rw [Nat.add_assoc, same _ (source (d + o) (by omega)),
    Patch.apply_of_not (by rintro ⟨above, below⟩; simp only at *; omega)]

theorem wp_longZero {dst len : Nat} (backed : Backed s) (safe : Safe G W s) :
    wp G n (longZero dst len) (fun _ => Rewritten G W s ((⟨dst, len, fun _ => 0⟩ : Patch UInt8).apply s.mem))
      (.leaving A) s := by
  refine wp_inStrides (w := fun d c m => zeroBytes m (dst + d) c)
    (g := fun d => (⟨dst, d, fun _ => 0⟩ : Patch UInt8).apply s.mem)
    backed safe Patch.apply_empty fun d c m _ same b hb => ?_
  rw [← Patch.apply_append]
  exact Patch.apply_at (c := ⟨dst + d, c, fun _ => 0⟩) (same b hb)

end

/-! ### Segments -/

/-- What a segment writes in its region: its bytes in the image, and zeroes behind them. -/
def SosimgSeg.patch (seg : SosimgSeg) (dest : LoadRegion) (imgBase : Nat) (mem : Nat → UInt8) : Patch UInt8 :=
  ⟨dest.base + (seg.loadAddr - dest.linkBase), seg.memLen, fun o => if o < seg.fileLen then
    mem (imgBase + seg.fileOff + o) else 0⟩

/-- The row that a segment gets. -/
def SosimgSeg.row (seg : SosimgSeg) (dest : LoadRegion) (region : Option Nat) : GrantRow :=
  if seg.isDeviceGrant then ⟨seg.loadAddr, seg.loadAddr + seg.memLen, seg.loadAddr, seg.flags, true, none⟩
  else ⟨seg.loadAddr, seg.rowTop, dest.base + (seg.loadAddr - dest.linkBase), seg.flags, false, region⟩

/-- The patches of the segments that are memory. -/
def patchesOf (dest : LoadRegion) (imgBase : Nat) (mem : Nat → UInt8) (segs : List SosimgSeg) : List (Patch UInt8) :=
  (segs.filter (!·.isDeviceGrant)).map (·.patch dest imgBase mem)

/-- A memory segment that passed has its bytes in the image and its place in the region. -/
structure SosimgSeg.Passed (seg : SosimgSeg) (imgLen : Nat) (dest : LoadRegion) : Prop where
  file : seg.fileOff + seg.fileLen ≤ imgLen
  covers : seg.fileLen ≤ seg.memLen
  low : dest.linkBase ≤ seg.loadAddr
  high : seg.loadAddr + seg.memLen ≤ dest.linkTop - dest.stackLen

theorem passed_of_checkSegment {seg : SosimgSeg} {imgLen : Nat} {dest : LoadRegion} {allow : Bool}
    (h : checkSegment seg imgLen dest allow = none) (memory : seg.isDeviceGrant = false) : seg.Passed imgLen dest := by
  have checked := checked_of_checkSegment h
  have covers : seg.fileLen ≤ seg.memLen := of_decide_eq_true checked.covers
  obtain ⟨start, runs⟩ := checked.file
  obtain ⟨low, limit, room⟩ := checked.memory memory
  exact ⟨by omega, covers, low, by omega⟩

omit [Hal] in
/-- What it writes is in the region, below the stack. -/
theorem SosimgSeg.Passed.inside {seg : SosimgSeg} {imgLen imgBase a : Nat} {dest : LoadRegion} {mem : Nat → UInt8}
    (h : seg.Passed imgLen dest) (has : (seg.patch dest imgBase mem).Has a) :
      dest.base ≤ a ∧ a < dest.top - dest.stackLen := by
  obtain ⟨above, below⟩ : dest.base + (seg.loadAddr - dest.linkBase) ≤ a ∧
    a < dest.base + (seg.loadAddr - dest.linkBase) + seg.memLen := has
  have low := h.low
  have high := h.high
  simp only [LoadRegion.linkTop] at high
  omega

section
variable {G : Ev → Prop} {n p imgBase imgLen : Nat} {A : K → Prop} {s t : K} {dest : LoadRegion} {region : Option Nat}
  {segs : List SosimgSeg} {seg : SosimgSeg} {W : Nat → Prop}

/-- From `s` to `t`, these segments were placed, as far as `W` goes. -/
structure Places (G : Ev → Prop) (W : Nat → Prop) (s : K) (p imgBase : Nat) (dest : LoadRegion) (region : Option Nat)
    (segs : List SosimgSeg) (t : K) : Prop where
  backed : Backed t
  safe : Safe G W t
  mem : ∀ b, W b → t.mem b = patched s.mem (patchesOf dest imgBase s.mem segs) b
  rows : (t.processes.slot p).rows = (s.processes.slot p).rows ++ segs.map (·.row dest region)

/-- What is not in the region was not written. -/
theorem Places.outside (h : Places G W s p imgBase dest region segs t)
    (passed : ∀ seg ∈ segs, seg.isDeviceGrant = false → seg.Passed imgLen dest) {a : Nat} (inW : W a)
    (out : ¬(dest.base ≤ a ∧ a < dest.top - dest.stackLen)) : t.mem a = s.mem a := by
  rw [h.mem a inW]
  refine patched_outside fun c hc has => out ?_
  obtain ⟨seg, mem, rfl⟩ := List.mem_map.mp hc
  obtain ⟨mem, memory⟩ := List.mem_filter.mp mem
  exact (passed seg mem (by simpa using memory)).inside has

omit [Hal] in
theorem rows_same {a b : ProcessSlot} (count : a.grantCount = b.grantCount) (rows : a.grants = b.grants) :
    b.rows = a.rows := by
  rw [ProcessSlot.rows, ProcessSlot.rows, count, rows]

omit [Hal] in
theorem rows_pushRow {a : ProcessSlot} {row : GrantRow} : (a.pushRow row).rows = a.rows ++ [row] := by
  have last : (a.pushRow row).grants a.grantCount = row := if_pos rfl
  have old : (List.range a.grantCount).map (a.pushRow row).grants = (List.range a.grantCount).map a.grants :=
    List.map_congr_left fun i hi => if_neg (Nat.ne_of_lt (List.mem_range.mp hi))
  show (List.range (a.grantCount + 1)).map (a.pushRow row).grants = _
  rw [List.range_succ, List.map_append, old, List.map_singleton, last]
  rfl

theorem rows_agree (same : Agree shelteredParts s t) : (t.processes.slot p).rows = (s.processes.slot p).rows := by
  obtain ⟨count, grants, -⟩ := same (.process .grants) (by decide) p
  exact rows_same count grants

/-- A row is recorded, and nothing is written. -/
theorem wp_recordRow {base top pa perms : Nat} {device : Bool} {row : Option Nat} {Q : Unit → K → Prop}
    (backed : Backed s) (safe : Safe G W s) (h : ∀ t, Backed t → Safe G W t → t.mem = s.mem →
      (t.processes.slot p).rows = (s.processes.slot p).rows ++ [⟨base, top, pa, perms, device, row⟩] → Q () t) :
    wp G n (recordGrant p base top pa perms device row) Q (.leaving A) s := by
  have others : Spares (.machine .mem :: .machine .environment :: backedParts)
    (recordGrant p base top pa perms device row) :=
    spares_recordGrant (by decide)
  have pushed : wp G n (recordGrant p base top pa perms device row) (fun _ t =>
      (t.processes.slot p).rows = (s.processes.slot p).rows ++ [⟨base, top, pa, perms, device, row⟩])
        (.leaving A) s := by
    refine wp_bind.mpr (wp_readProcess.mpr fun hp => wp_ite.mpr ⟨fun _ => ?_, fun _ => wp_halt.mpr trivial⟩)
    refine wp_bind.mpr (wp_modifyProcess.mpr fun _ => ?_)
    refine wp_bind.mpr (wp_spares (S := [.process .grants]) (spares_refRegionRow (by decide)) fun _ t ht => ?_)
    refine wp_spares (S := [.process .grants]) (spares_protUpdate (by decide)) fun _ u hu => ?_
    obtain ⟨count, grants, -⟩ := (ht.trans hu) (.process .grants) (by decide) p
    rw [rows_same count grants]
    simp [rows_pushRow]
  refine (pushed.and (others.wp (A := ⟨A, fun _ => True⟩) (fun _ _ => trivial) n s)).mono
    (fun _ => id) (fun _ t ht => ?_) (fun _ => And.left) (fun _ _ => trivial) fun _ _ => trivial
  obtain ⟨rows, same⟩ := ht
  have polls : s.polls = t.polls := (same (.machine .environment) (by decide)).1
  exact h t (backed.agree (same.mono (by decide))) (safe.imp_left fun calm => polls ▸ calm)
    (same (.machine .mem) (by decide)).symm rows

omit [Hal] in
theorem patchesOf_concat {mem : Nat → UInt8} (memory : seg.isDeviceGrant = false) :
    patchesOf dest imgBase mem (segs ++ [seg]) = patchesOf dest imgBase mem segs ++ [seg.patch dest imgBase mem] := by
  simp [patchesOf, List.filter_append, memory]

omit [Hal] in
theorem patchesOf_device {mem : Nat → UInt8} (device : seg.isDeviceGrant = true) :
    patchesOf dest imgBase mem (segs ++ [seg]) = patchesOf dest imgBase mem segs := by
  simp [patchesOf, List.filter_append, device]

omit [Hal] in
/-- The bytes that are copied and those that are cleared are one patch. -/
theorem patch_split {mem mem' : Nat → UInt8} (covers : seg.fileLen ≤ seg.memLen)
    (same : ∀ o < seg.fileLen, mem' (imgBase + seg.fileOff + o) = mem (imgBase + seg.fileOff + o)) :
    (⟨dest.base + (seg.loadAddr - dest.linkBase) + seg.fileLen, seg.memLen - seg.fileLen, fun _ => 0⟩ :
      Patch UInt8).apply
      ((⟨dest.base + (seg.loadAddr - dest.linkBase), seg.fileLen, fun o => mem' (imgBase + seg.fileOff + o)⟩ :
        Patch UInt8).apply mem') =
    (seg.patch dest imgBase mem).apply mem' := by
  have file : (⟨dest.base + (seg.loadAddr - dest.linkBase), seg.fileLen, fun o => mem' (imgBase + seg.fileOff + o)⟩ :
    Patch UInt8).apply mem' =
      (⟨dest.base + (seg.loadAddr - dest.linkBase), seg.fileLen, (seg.patch dest imgBase mem).data⟩ :
        Patch UInt8).apply mem' :=
    Patch.apply_congr fun o ho => (same o ho).trans (if_pos ho).symm
  have zero : ∀ m : Nat → UInt8,
      (⟨dest.base + (seg.loadAddr - dest.linkBase) + seg.fileLen, seg.memLen - seg.fileLen, fun _ => 0⟩ :
        Patch UInt8).apply m =
      (⟨dest.base + (seg.loadAddr - dest.linkBase) + seg.fileLen, seg.memLen - seg.fileLen,
        fun o => (seg.patch dest imgBase mem).data (seg.fileLen + o)⟩ : Patch UInt8).apply m :=
    fun m => Patch.apply_congr fun o _ => (if_neg (by omega)).symm
  rw [file, zero, Patch.apply_append, Nat.add_sub_cancel' covers]
  rfl

/-- A segment that passed is placed. -/
theorem Places.placeSegment {rw' : Nat} (h : Places G W s p imgBase dest region segs t)
    (passed : ∀ seg ∈ segs, seg.isDeviceGrant = false → seg.Passed imgLen dest)
    (here : seg.isDeviceGrant = false → seg.Passed imgLen dest)
    (apart : imgBase + imgLen ≤ dest.base ∨ dest.top ≤ imgBase) (image : ∀ o < imgLen, W (imgBase + o)) :
    wp G n (placeSegment p imgBase dest region seg rw') (fun _ => Places G W s p imgBase dest region (segs ++ [seg]))
      (.leaving A) t := by
  refine wp_ite.mpr ⟨fun device => ?_, fun memory => ?_⟩
  · refine wp_bind.mpr
      (wp_addWord.mpr fun _ => wp_bind.mpr (wp_recordRow h.backed h.safe fun u backed safe mem rows => wp_pure.mpr ?_))
    refine ⟨backed, safe, ?_, ?_⟩
    · rw [mem, patchesOf_device device]
      exact h.mem
    · rw [rows, h.rows, List.append_assoc, List.map_append, List.map_singleton, SosimgSeg.row, if_pos device]
  have memory' : seg.isDeviceGrant = false := by simpa using memory
  obtain ⟨file, covers, low, high⟩ := here memory'
  -- The source is in the image, and the image is not in the region.
  have within : ∀ o < seg.fileLen, W (imgBase + seg.fileOff + o) := fun o ho => by
    rw [Nat.add_assoc]
    exact image _ (by omega)
  have source : ∀ o < seg.fileLen, t.mem (imgBase + seg.fileOff + o) = s.mem (imgBase + seg.fileOff + o) :=
    fun o ho => h.outside passed (within o ho) (by omega)
  have clear : imgBase + seg.fileOff + seg.fileLen ≤ dest.base + (seg.loadAddr - dest.linkBase) ∨
      dest.base + (seg.loadAddr - dest.linkBase) + seg.fileLen ≤ imgBase + seg.fileOff := by
    simp only [LoadRegion.linkTop] at high
    omega
  refine wp_bind.mpr (wp_bind.mpr (wp_subWord.mpr fun _ => wp_addWord.mpr fun _ => ?_))
  refine wp_bind.mpr (wp_addWord.mpr fun _ =>
    wp_bind.mpr ((wp_longCopy h.backed h.safe clear within).imp fun _ u copied => ?_))
  refine wp_bind.mpr (wp_addWord.mpr fun _ => wp_bind.mpr (wp_subWord.mpr fun _ => ?_))
  refine wp_bind.mpr ((wp_longZero copied.backed copied.safe).imp fun _ v zeroed => ?_)
  refine wp_bind.mpr (wp_addWord.mpr fun _ => wp_bind.mpr (wp_alignUpWord.mpr fun fits => wp_bind.mpr ?_))
  refine wp_recordRow zeroed.backed zeroed.safe fun x backed safe mem rows =>
    wp_pure.mpr ⟨backed, safe, fun b hb => ?_, ?_⟩
  · rw [mem, patchesOf_concat memory', patched_concat, zeroed.mem b hb, Patch.apply_at (copied.mem b hb)]
    exact (congrFun (patch_split covers source) b).trans (Patch.apply_at (h.mem b hb))
  · rw [rows, rows_agree zeroed.parts, rows_agree copied.parts, h.rows, List.append_assoc,
      List.map_append, List.map_singleton, SosimgSeg.row, if_neg (by simp [memory'])]
    rfl

/-- A segment record is read from its own bytes. -/
def ReadsBytes : Prop :=
  ∀ (m m' : Nat → UInt8) (a : Nat), (∀ i < Build.segLen, m (a + i) = m' (a + i)) → Build.segAt m a = Build.segAt m' a

/-- The segments of the image at `imgBase`. -/
def segsOf (mem : Nat → UInt8) (imgBase : Nat) : List SosimgSeg :=
  imageSegs mem imgBase (Build.headerAt mem imgBase).segCount

theorem passed_of_validateImage {mem : Nat → UInt8} {allow : Bool}
    (h : validateImage mem imgBase imgLen dest allow = none) :
    ∀ seg ∈ segsOf mem imgBase, seg.isDeviceGrant = false → seg.Passed imgLen dest := by
  intro seg hseg memory
  obtain ⟨i, hi, rfl⟩ := List.mem_map.mp hseg
  exact passed_of_checkSegment ((validateImage_checks h).2.2 i (List.mem_range.mp hi)) memory

/-- The row of the stack. -/
def LoadRegion.stackRow (dest : LoadRegion) (region : Option Nat) : GrantRow :=
  ⟨dest.linkTop - dest.stackLen, dest.linkTop, dest.top - dest.stackLen, segRead ||| segWrite, false, region⟩

/-- An image that passed is placed: its memory is patched with its segments, and they and the stack get rows. -/
theorem wp_placeImage {allow : Bool} (reads : ReadsBytes) (valid : validateImage s.mem imgBase imgLen dest allow = none)
    (backed : Backed s) (safe : Safe G W s) (apart : imgBase + imgLen ≤ dest.base ∨ dest.top ≤ imgBase)
    (image : ∀ o < imgLen, W (imgBase + o)) :
    wp G n (placeImage p imgBase dest region) (fun _ t =>
      (∀ b, W b → t.mem b = patched s.mem (patchesOf dest imgBase s.mem (segsOf s.mem imgBase)) b) ∧
      (t.processes.slot p).rows = (s.processes.slot p).rows ++
        ((segsOf s.mem imgBase).map (·.row dest region) ++ [dest.stackRow region]))
      (.leaving A) s := by
  have passed := passed_of_validateImage valid
  have fits := (validateImage_checks valid).1
  refine wp_bind.mpr (wp_mark.mpr fun _ => wp_bind.mpr (wp_reads.mpr (wp_bind.mpr ?_)))
  refine wp_loop (I := fun (at' : Nat × Nat) t => at'.1 ≤ (Build.headerAt s.mem imgBase).segCount ∧
    Places G W s p imgBase dest region ((segsOf s.mem imgBase).take at'.1) t) ?_
      ⟨Nat.zero_le _, backed, safe, fun _ _ => rfl, by simp⟩
  rintro ⟨i, rw'⟩ t ⟨bound, ht⟩
  have some' : ∀ seg ∈ (segsOf s.mem imgBase).take i, seg.isDeviceGrant = false → seg.Passed imgLen dest :=
    fun seg hseg => passed seg (List.mem_of_mem_take hseg)
  refine wp_ite.mpr ⟨fun more => ?_, fun done => wp_pure.mpr ?_⟩
  · refine wp_bind.mpr (wp_mark.mpr fun _ => wp_bind.mpr (wp_reads.mpr (wp_bind.mpr ?_)))
    have within : (i + 1) * Build.segLen ≤ (Build.headerAt s.mem imgBase).segCount * Build.segLen :=
      Nat.mul_le_mul_right _ more
    rw [Nat.add_one_mul] at within
    have there : i < (segsOf s.mem imgBase).length := by simpa [segsOf, imageSegs] using more
    -- The segment table is in the image, which is as it was.
    have same : Build.segAt t.mem (imgBase + Build.headerLen + i * Build.segLen) = (segsOf s.mem imgBase)[i] := by
      rw [reads t.mem s.mem _ fun j hj => ?_]
      · simp [segsOf, imageSegs]
      · refine ht.outside some' ?_ (by omega)
        rw [Nat.add_assoc, Nat.add_assoc]
        exact image _ (by omega)
    rw [same]
    have here := passed _ (List.getElem_mem there)
    refine (ht.placeSegment some' here apart image).imp fun _ u hu => wp_pure.mpr ⟨more, ?_⟩
    rwa [List.take_succ_eq_append_getElem there]
  · obtain rfl : i = (Build.headerAt s.mem imgBase).segCount := by omega
    have all : (segsOf s.mem imgBase).take (Build.headerAt s.mem imgBase).segCount = segsOf s.mem imgBase :=
      List.take_of_length_le (by simp [segsOf, imageSegs])
    rw [all] at ht
    refine wp_bind.mpr (wp_recordRow ht.backed ht.safe fun u _ _ mem rows =>
      wp_pure.mpr ⟨fun b hb => mem ▸ ht.mem b hb, ?_⟩)
    rw [rows, ht.rows, List.append_assoc]
    rfl

end

/-! ### Accepted images -/

omit [Hal] in
theorem alignUp_le {v w k : Nat} (le : v ≤ w) (whole : w % 2 ^ k = 0) : alignUp v (2 ^ k) ≤ w := by
  simp only [alignUp, Nat.and_two_pow_sub_one_eq_mod]
  split
  · exact le
  · rename_i rest
    have lower := Nat.div_add_mod v (2 ^ k)
    have upper := Nat.div_add_mod w (2 ^ k)
    have less : v / 2 ^ k < w / 2 ^ k := by
      refine Nat.lt_of_not_le fun more => ?_
      have := Nat.mul_le_mul_left (2 ^ k) more
      omega
    have next := Nat.mul_le_mul_left (2 ^ k) (Nat.succ_le_of_lt less)
    rw [Nat.mul_succ] at next
    omega

omit [Hal] in
theorem alignUp_mod (v k : Nat) : alignUp v (2 ^ k) % 2 ^ k = 0 := by
  simp only [alignUp, Nat.and_two_pow_sub_one_eq_mod]
  split
  · assumption
  · have rest := Nat.mod_lt v (Nat.two_pow_pos k)
    have parts := Nat.div_add_mod v (2 ^ k)
    have whole : v + (2 ^ k - v % 2 ^ k) = 2 ^ k * (v / 2 ^ k + 1) := by
      rw [Nat.mul_succ]
      omega
    rw [whole, Nat.mul_mod_right]

omit [Hal] in
theorem alignUp_of_mod {v k : Nat} (whole : v % 2 ^ k = 0) : alignUp v (2 ^ k) = v := by
  simp [alignUp, Nat.and_two_pow_sub_one_eq_mod, whole]

omit [Hal] in
theorem alignUp_mono {v w k : Nat} (le : v ≤ w) : alignUp v (2 ^ k) ≤ alignUp w (2 ^ k) :=
  alignUp_le (Nat.le_trans le (le_alignUp w (2 ^ k))) (alignUp_mod w k)

theorem SosimgSeg.le_rowTop (seg : SosimgSeg) : seg.loadAddr ≤ seg.rowTop :=
  Nat.le_trans (Nat.le_add_right _ _) (le_alignUp _ _)

/-- Two rows have no user address and no byte of memory in common. -/
def GrantRow.Clear (a b : GrantRow) : Prop :=
  (a.top ≤ b.base ∨ b.top ≤ a.base) ∧ (a.pa + (a.top - a.base) ≤ b.pa ∨ b.pa + (b.top - b.base) ≤ a.pa)

/-- The rows of the segments that are memory, and of the stack. -/
def memoryRows (dest : LoadRegion) (region : Option Nat) (segs : List SosimgSeg) : List GrantRow :=
  (segs.filter (!·.isDeviceGrant)).map (·.row dest region) ++ [dest.stackRow region]

/-- The bytes of an image, and those of its region below the stack. -/
def Loads (imgBase imgLen : Nat) (dest : LoadRegion) (b : Nat) : Prop :=
  (imgBase ≤ b ∧ b < imgBase + imgLen) ∨ (dest.base ≤ b ∧ b < dest.top - dest.stackLen)

/-- From `s` to `t`, while `tr` was told, the image at `imgBase` was placed in its region, and its rows put behind the
    others of `p`. -/
structure Placement (s : K) (p imgBase : Nat) (dest : LoadRegion) (region : Option Nat)
    (tr : List Ev) (t : K) : Prop where
  /-- Nothing is written outside the region or in the stack, but records of threads that were moved. -/
  contained : ∀ a, ¬(dest.base ≤ a ∧ a < dest.top - dest.stackLen) → t.mem a = s.mem a ∨ ∃ e ∈ tr, Rouses a e
  /-- Segments that do not meet are in memory as they are in the image, with zeroes behind. -/
  whole : ((segsOf s.mem imgBase).filter (!·.isDeviceGrant)).Pairwise (fun a b =>
      a.loadAddr + a.memLen ≤ b.loadAddr ∨ b.loadAddr + b.memLen ≤ a.loadAddr) →
    ∀ seg ∈ segsOf s.mem imgBase, seg.isDeviceGrant = false → ∀ o < seg.memLen,
      t.mem (dest.base + (seg.loadAddr - dest.linkBase) + o) = if o < seg.fileLen then
        s.mem (imgBase + seg.fileOff + o) else 0
  rows : (t.processes.slot p).rows =
    (s.processes.slot p).rows ++ ((segsOf s.mem imgBase).map (·.row dest region) ++ [dest.stackRow region])
  /-- The rows of memory are in the region and in its link range, when the stack has a grain of protection or ends
      with one. -/
  inside : Hal.protGrain ≤ dest.stackLen ∨ dest.linkTop % Hal.protGrain = 0 →
    ∀ row ∈ memoryRows dest region (segsOf s.mem imgBase),
    (dest.linkBase ≤ row.base ∧ row.top ≤ dest.linkTop) ∧ dest.base ≤ row.pa ∧ row.pa + (row.top - row.base) ≤ dest.top
  /-- Rows of different rights do not meet, when the segments, up to the end of their grains, and the stack do not. -/
  apart : ((segsOf s.mem imgBase).filter (!·.isDeviceGrant)).Pairwise (fun a b =>
      a.flags ≠ b.flags → a.rowTop ≤ b.loadAddr ∨ b.rowTop ≤ a.loadAddr) →
    (∀ seg ∈ segsOf s.mem imgBase, seg.isDeviceGrant = false → seg.flags ≠ segRead ||| segWrite →
      seg.rowTop ≤ dest.linkTop - dest.stackLen) →
    (memoryRows dest region (segsOf s.mem imgBase)).Pairwise fun a b => a.perms ≠ b.perms → a.Clear b

section
variable {G : Ev → Prop} {n p imgBase imgLen : Nat} {A : K → Prop} {s t : K} {dest : LoadRegion} {region : Option Nat}
  {segs : List SosimgSeg} {allow : Bool}

omit [Hal] in
theorem pairwise_patches {mem : Nat → UInt8} (passed : ∀ seg ∈ segs, seg.isDeviceGrant = false → seg.Passed imgLen dest)
    (apart : (segs.filter (!·.isDeviceGrant)).Pairwise fun a b => a.loadAddr + a.memLen ≤ b.loadAddr ∨
      b.loadAddr + b.memLen ≤ a.loadAddr) :
    (patchesOf dest imgBase mem segs).Pairwise Patch.Apart := by
  refine List.pairwise_map.mpr (apart.imp_of_mem fun {a b} ha hb clear => ?_)
  have low : ∀ {c}, c ∈ segs.filter (!·.isDeviceGrant) → dest.linkBase ≤ c.loadAddr := fun hc => by
    obtain ⟨mem, memory⟩ := List.mem_filter.mp hc
    exact (passed _ mem (by simpa using memory)).low
  have := low ha
  have := low hb
  simp only [Patch.Apart, SosimgSeg.patch]
  omega

/-- A memory row of the image is that of a segment that passed, or of the stack. -/
theorem mem_memoryRows {row : GrantRow} (passed : ∀ seg ∈ segs, seg.isDeviceGrant = false → seg.Passed imgLen dest)
    (h : row ∈ memoryRows dest region segs) :
    (∃ seg : SosimgSeg, seg.Passed imgLen dest ∧
      row = ⟨seg.loadAddr, seg.rowTop, dest.base + (seg.loadAddr - dest.linkBase), seg.flags, false, region⟩) ∨
      row = dest.stackRow region := by
  rcases List.mem_append.mp h with image | stack
  · obtain ⟨seg, hseg, rfl⟩ := List.mem_map.mp image
    obtain ⟨mem, memory⟩ := List.mem_filter.mp hseg
    have memory' : seg.isDeviceGrant = false := by simpa using memory
    exact Or.inl ⟨seg, passed seg mem memory', by rw [SosimgSeg.row, if_neg (by simp [memory'])]⟩
  · exact Or.inr (List.mem_singleton.mp stack)

omit [Hal] in
theorem alignUp_lt {v align : Nat} (pos : 0 < align) : alignUp v align < v + align := by
  simp only [alignUp]
  split <;> omega

theorem rows_inside (passed : ∀ seg ∈ segs, seg.isDeviceGrant = false → seg.Passed imgLen dest)
    (room : dest.base + dest.stackLen ≤ dest.top)
    (grain : Hal.protGrain ≤ dest.stackLen ∨ dest.linkTop % Hal.protGrain = 0) : ∀ row ∈ memoryRows dest region segs,
    (dest.linkBase ≤ row.base ∧ row.top ≤ dest.linkTop) ∧ dest.base ≤ row.pa ∧
      row.pa + (row.top - row.base) ≤ dest.top := by
  intro row hrow
  obtain ⟨k, pow⟩ := Hal.protGrain_pow
  rcases mem_memoryRows passed hrow with ⟨seg, ⟨-, -, low, high⟩, rfl⟩ | rfl
  · have top : seg.rowTop ≤ dest.linkTop := by
      rw [SosimgSeg.rowTop]
      rcases grain with stack | whole
      · have := alignUp_lt (v := seg.loadAddr + seg.memLen) (pow ▸ Nat.two_pow_pos k : 0 < Hal.protGrain)
        simp only [LoadRegion.linkTop] at high ⊢
        omega
      · rw [pow]
        exact alignUp_le (by omega) (pow ▸ whole)
    have above := seg.le_rowTop
    simp only [LoadRegion.linkTop] at top ⊢
    omega
  · simp only [LoadRegion.stackRow, LoadRegion.linkTop]
    omega

theorem rows_apart (passed : ∀ seg ∈ segs, seg.isDeviceGrant = false → seg.Passed imgLen dest)
    (room : dest.base + dest.stackLen ≤ dest.top)
    (apart : (segs.filter (!·.isDeviceGrant)).Pairwise fun a b => a.flags ≠ b.flags → a.rowTop ≤ b.loadAddr ∨
      b.rowTop ≤ a.loadAddr)
    (stack : ∀ seg ∈ segs, seg.isDeviceGrant = false → seg.flags ≠ segRead ||| segWrite →
      seg.rowTop ≤ dest.linkTop - dest.stackLen) :
    (memoryRows dest region segs).Pairwise fun a b => a.perms ≠ b.perms → a.Clear b := by
  have each : ∀ {seg}, seg ∈ segs.filter (!·.isDeviceGrant) → seg ∈ segs ∧ seg.isDeviceGrant = false := fun h => by
    obtain ⟨mem, memory⟩ := List.mem_filter.mp h
    exact ⟨mem, by simpa using memory⟩
  refine List.pairwise_append.mpr ⟨List.pairwise_map.mpr (apart.imp_of_mem fun {a b} ha hb clear => ?_),
    List.pairwise_singleton .., ?_⟩
  · obtain ⟨ha, memory⟩ := each ha
    obtain ⟨hb, memory'⟩ := each hb
    have low := (passed a ha memory).low
    have low' := (passed b hb memory').low
    have above := a.le_rowTop
    have above' := b.le_rowTop
    simp only [SosimgSeg.row, memory, memory', GrantRow.Clear]
    intro differ
    have := clear differ
    simp only [Bool.false_eq_true, if_false]
    omega
  · intro row hrow row' hrow' differ
    obtain ⟨a, ha, rfl⟩ := List.mem_map.mp hrow
    obtain ⟨ha, memory⟩ := each ha
    obtain rfl := List.mem_singleton.mp hrow'
    have low := (passed a ha memory).low
    have above := a.le_rowTop
    simp only [SosimgSeg.row, memory, GrantRow.Clear, LoadRegion.stackRow] at differ ⊢
    have below := stack a ha memory (by simpa using differ)
    simp only [LoadRegion.linkTop] at below ⊢
    simp only [Bool.false_eq_true, if_false]
    omega

/-- An image that passed ends below its stack, which ends where its region does. -/
theorem validateImage_room {mem : Nat → UInt8} (h : validateImage mem imgBase imgLen dest allow = none) :
    dest.base + dest.stackLen ≤ dest.top := by
  simp only [validateImage, refusal_eq_none] at h
  obtain ⟨-, -, -, -, -, -, -, -, rest⟩ := h
  split at rest
  · cases rest
  simp only [refusal_eq_none, Bool.or_eq_true, decide_eq_true_eq, not_or, Nat.not_lt, LoadRegion.linkTop] at rest
  have above := of_decide_eq_false (Bool.eq_false_iff.mpr rest.1.2)
  omega

/-- What the segments are patched with is a placement. -/
theorem Placement.of_patched {tr : List Ev} (valid : validateImage s.mem imgBase imgLen dest allow = none)
    (mem : ∀ a, t.mem a = patched s.mem (patchesOf dest imgBase s.mem (segsOf s.mem imgBase)) a ∨
      ¬(dest.base ≤ a ∧ a < dest.top - dest.stackLen) ∧ ∃ e ∈ tr, Rouses a e)
    (rows : (t.processes.slot p).rows =
      (s.processes.slot p).rows ++ ((segsOf s.mem imgBase).map (·.row dest region) ++ [dest.stackRow region])) :
    Placement s p imgBase dest region tr t := by
  have passed := passed_of_validateImage valid
  have room := validateImage_room valid
  refine ⟨fun a out => ?_, fun clear seg hseg memory o ho => ?_, rows, rows_inside passed room, rows_apart passed room⟩
  · refine (mem a).imp (fun same => same.trans (patched_outside fun c hc has => out ?_)) And.right
    obtain ⟨seg, hseg, rfl⟩ := List.mem_map.mp hc
    obtain ⟨hseg, memory⟩ := List.mem_filter.mp hseg
    exact (passed seg hseg (by simpa using memory)).inside has
  · have here : seg.patch dest imgBase s.mem ∈ patchesOf dest imgBase s.mem (segsOf s.mem imgBase) :=
      List.mem_map_of_mem (List.mem_filter.mpr ⟨hseg, by simp [memory]⟩)
    have has : (seg.patch dest imgBase s.mem).Has (dest.base + (seg.loadAddr - dest.linkBase) + o) :=
      ⟨Nat.le_add_right _ _, Nat.add_lt_add_left ho _⟩
    have within := (passed seg hseg memory).inside has
    rw [(mem _).resolve_right fun out => out.1 within, patched_inside (pairwise_patches passed clear) here has]
    simp only [SosimgSeg.patch, Nat.add_sub_cancel_left]

/-- While threads are moved whose records are elsewhere, an image that passed is placed. -/
theorem placeImage_places {n : Nat} {r : Nat} {tr : List Ev} (reads : ReadsBytes)
    (valid : validateImage s.mem imgBase imgLen dest allow = none) (backed : Backed s)
    (apart : imgBase + imgLen ≤ dest.base ∨ dest.top ≤ imgBase)
    (run : placeImage p imgBase dest region n s = .ok r t tr) (aside : ∀ e ∈ tr, Misses (Loads imgBase imgLen dest) e) :
    Placement s p imgBase dest region tr t := by
  -- Nothing of `W` is written by an interrupt, as long as `W` is of the image, of the region, or in no record.
  have kept : ∀ W, (∀ o < imgLen, W (imgBase + o)) → (∀ e ∈ tr, Misses W e) →
      (∀ b, W b → t.mem b = patched s.mem (patchesOf dest imgBase s.mem (segsOf s.mem imgBase)) b) ∧
      (t.processes.slot p).rows =
        (s.processes.slot p).rows ++ ((segsOf s.mem imgBase).map (·.row dest region) ++ [dest.stackRow region]) := by
    intro W image out
    have placed : wp (Misses W) n (placeImage p imgBase dest region) _ _ s :=
      wp_placeImage (A := fun _ => False) reads valid backed (Or.inr fun _ => id) apart image
    rw [Exec.wp, run] at placed
    exact placed.2 out
  have image : ∀ o < imgLen, Loads imgBase imgLen dest (imgBase + o) := fun o ho =>
    Or.inl ⟨Nat.le_add_right _ _, Nat.add_lt_add_left ho _⟩
  refine Placement.of_patched valid (fun a => ?_) (kept _ image aside).2
  by_cases roused : ∃ e ∈ tr, Rouses a e
  · by_cases within : dest.base ≤ a ∧ a < dest.top - dest.stackLen
    · exact Or.inl ((kept _ image aside).1 a (Or.inr within))
    · exact Or.inr ⟨within, roused⟩
  · refine Or.inl
      ((kept (fun b => Loads imgBase imgLen dest b ∨ b = a) (fun o ho => Or.inl (image o ho)) fun e he b hb => ?_).1 a
        (Or.inr rfl))
    rcases hb with loads | rfl
    · exact aside e he b loads
    · exact fun rouses => roused ⟨e, he, rouses⟩

/-- A device grant that passed is the board's window, and only the boot has it. -/
theorem windows_of_validateImage (valid : validateImage s.mem imgBase imgLen dest allow = none) :
    ∀ seg ∈ segsOf s.mem imgBase, seg.isDeviceGrant = true →
      allow = true ∧ seg.loadAddr = Hal.deviceGrantBase ∧ seg.memLen = Hal.deviceGrantLen := by
  intro seg hseg device
  obtain ⟨i, hi, rfl⟩ := List.mem_map.mp hseg
  exact (checked_of_checkSegment ((validateImage_checks valid).2.2 i (List.mem_range.mp hi))).device device

/-! ### Placement returns -/

/-- What keeps the placement of an image of these segments from stopping the machine: the slots are there, the record,
    the counters, the words and the protection unit take its rows, and a run has rounds enough. -/
structure Placeable (s : K) (p imgBase imgLen : Nat) (dest : LoadRegion) (region : Option Nat) (n : Nat) : Prop where
  slot : p < s.processes.cap
  counts : ∀ r, region = some r → r < s.memories.cap ∧
    (s.memories.slot r).maps + ((segsOf s.mem imgBase).length + 1) ≤ 0xFFFF
  record : (s.processes.slot p).grantCount + ((segsOf s.mem imgBase).length + 1) ≤ maxGrantRows
  words : imgBase + imgLen < wordModulus ∧ dest.top < wordModulus ∧ alignUp dest.linkTop Hal.protGrain < wordModulus ∧
    Hal.deviceGrantBase + Hal.deviceGrantLen < wordModulus
  taken : ∀ row ∈ (segsOf s.mem imgBase).map (·.row dest region) ++ [dest.stackRow region], ∀ u : Hal.Prot,
    (Hal.protUpdate p row.base row.top row.pa row.perms row.device u).isSome = true
  rounds : (segsOf s.mem imgBase).length < n ∧ ∀ seg ∈ segsOf s.mem imgBase, seg.memLen < n

/-- There is room for `k` rows more, and no interrupt comes. -/
structure RoomFor (p : Nat) (region : Option Nat) (k : Nat) (t : K) : Prop where
  calm : Calm t.polls
  slot : p < t.processes.cap
  counts : ∀ r, region = some r → r < t.memories.cap ∧ (t.memories.slot r).maps + k ≤ 0xFFFF
  record : (t.processes.slot p).grantCount + k ≤ maxGrantRows

theorem lands_inStrides {len : Nat} {w : Nat → Nat → (Nat → UInt8) → Nat → UInt8} {Q : Unit → K → Prop}
    (calm : Calm s.polls) (enough : len < n) (hQ : ∀ m l, Calm l → Q () { s with mem := m, polls := l }) :
    Lands n (inStrides (fun d c => modifies fun s => { s with mem := w d c s.mem }) len) Q s := by
  refine lands_loop (m := len) (I := fun m d t => m = len - d ∧ ∃ b l, Calm l ∧ t = { s with mem := b, polls := l }) ?_
    ⟨rfl, s.mem, s.polls, calm, rfl⟩ enough
  rintro m d _ ⟨rfl, b, l, hl, rfl⟩
  by_cases more : d < len
  · rw [if_pos more]
    have less : len - (d + min (len - d) preemptStride) < len - d := by
      simp only [preemptStride]
      omega
    refine lands_bind (lands_modifies (lands_bind (lands_bind (lands_reads ?_))))
    obtain ⟨rest, none⟩ := calm_tail hl
    split
    · exact lands_pure (lands_pure ⟨_, less, rfl, _, l, hl, rfl⟩)
    · refine lands_bind (lands_bind (lands_reads (lands_bind (lands_modifies (lands_pure ?_)))))
      refine lands_whenever (fun some => absurd none (of_decide_eq_true some)) fun _ => ?_
      exact lands_pure ⟨_, less, rfl, _, l.tail, rest, rfl⟩
  · rw [if_neg more]
    exact lands_pure (hQ b l hl)

theorem lands_longCopy {dst src len : Nat} {Q : Unit → K → Prop} (calm : Calm s.polls) (enough : len < n)
    (hQ : ∀ m l, Calm l → Q () { s with mem := m, polls := l }) : Lands n (longCopy dst src len) Q s :=
  lands_inStrides (w := fun d c m => copyBytes m (dst + d) (src + d) c) calm enough hQ

theorem lands_longZero {dst len : Nat} {Q : Unit → K → Prop} (calm : Calm s.polls) (enough : len < n)
    (hQ : ∀ m l, Calm l → Q () { s with mem := m, polls := l }) : Lands n (longZero dst len) Q s :=
  lands_inStrides (w := fun d c m => zeroBytes m (dst + d) c) calm enough hQ

theorem RoomFor.recordGrant {base top pa perms k : Nat} {device : Bool} {own : Option Nat}
    (h : RoomFor p region (k + 1) s)
    (same : own = none ∨ own = region)
    (taken : ∀ u : Hal.Prot, (Hal.protUpdate p base top pa perms device u).isSome = true) :
    Lands n (recordGrant p base top pa perms device own) (fun _ => RoomFor p region k) s := by
  have record := h.record
  have pushed : ∀ t : K, t.processes = s.processes.set p
    ((s.processes.slot p).pushRow ⟨base, top, pa, perms, device, own⟩) →
      t.polls = s.polls → (∀ r, region = some r → r < t.memories.cap ∧ (t.memories.slot r).maps + k ≤ 0xFFFF) →
      Lands n (protUpdate p base top pa perms device) (fun _ => RoomFor p region k) t := by
    intro t processes polls counts
    obtain ⟨u, hu⟩ := Option.isSome_iff_exists.mp (taken t.prot)
    refine lands_bind (lands_reads ?_)
    rw [hu]
    refine lands_modifies ⟨polls ▸ h.calm, processes ▸ h.slot, counts, ?_⟩
    have count : (t.processes.slot p).grantCount = (s.processes.slot p).grantCount + 1 := by
      simp [processes, ProcessSlot.pushRow]
    show (t.processes.slot p).grantCount + k ≤ maxGrantRows
    omega
  refine lands_bind (lands_read (c := processes) h.slot ?_)
  have few : (s.processes.slot p).grantCount < maxGrantRows := by omega
  rw [if_pos (show ((processes.get s).slot p).grantCount < maxGrantRows from few)]
  refine lands_bind (lands_modify (c := processes) h.slot (lands_bind ?_))
  have fewer : ∀ r, region = some r → r < s.memories.cap ∧ (s.memories.slot r).maps + k ≤ 0xFFFF := fun r hr => by
    obtain ⟨inCap, counts⟩ := h.counts r hr
    exact ⟨inCap, by omega⟩
  rcases same with rfl | rfl
  · exact lands_pure (pushed _ rfl rfl fewer)
  cases own with
  | none => exact lands_pure (pushed _ rfl rfl fewer)
  | some r =>
    obtain ⟨inCap, counts⟩ := h.counts r rfl
    refine lands_bind (lands_read (c := memories) inCap ?_)
    have less : (s.memories.slot r).maps < 0xFFFF := by omega
    show Lands n (bump (s.memories.slot r).maps >>= _) _ _
    rw [bump, if_pos less]
    refine lands_bind (lands_pure (lands_modify (c := memories) inCap (pushed _ rfl rfl ?_)))
    rintro r' ⟨⟩
    refine ⟨inCap, ?_⟩
    simp only [memories, Slab.set_slot, if_pos]
    omega

/-- A segment that passed is placed, and the machine goes on. -/
theorem RoomFor.placeSegment {k rw' : Nat} {seg : SosimgSeg} (h : RoomFor p region (k + 1) s)
    (here : seg.isDeviceGrant = false → seg.Passed imgLen dest)
    (window : seg.isDeviceGrant = true → seg.loadAddr = Hal.deviceGrantBase ∧ seg.memLen = Hal.deviceGrantLen)
    (words : imgBase + imgLen < wordModulus ∧ dest.top < wordModulus ∧
      alignUp dest.linkTop Hal.protGrain < wordModulus ∧
      Hal.deviceGrantBase + Hal.deviceGrantLen < wordModulus) (room : dest.base + dest.stackLen ≤ dest.top)
    (taken : ∀ u : Hal.Prot,
      (Hal.protUpdate p (seg.row dest region).base (seg.row dest region).top (seg.row dest region).pa
      (seg.row dest region).perms (seg.row dest region).device u).isSome = true) (enough : seg.memLen < n) :
    Lands n (placeSegment p imgBase dest region seg rw') (fun _ => RoomFor p region k) s := by
  obtain ⟨image, top, link, device⟩ := words
  unfold Sawos.placeSegment
  by_cases grant : seg.isDeviceGrant = true
  · rw [if_pos grant]
    rw [SosimgSeg.row, if_pos grant] at taken
    obtain ⟨at', len⟩ := window grant
    refine lands_bind
      (lands_addWord (by omega) (lands_bind ((h.recordGrant (Or.inl rfl) taken).imp fun _ _ ht => lands_pure ht)))
  have memory : seg.isDeviceGrant = false := by simpa using grant
  rw [if_neg grant]
  rw [SosimgSeg.row, if_neg grant] at taken
  obtain ⟨file, covers, low, high⟩ := here memory
  obtain ⟨g, pow⟩ := Hal.protGrain_pow
  have rounded : seg.rowTop ≤ alignUp dest.linkTop Hal.protGrain := by
    rw [SosimgSeg.rowTop, pow]
    exact alignUp_mono (by omega)
  have whole := le_alignUp (seg.loadAddr + seg.memLen) Hal.protGrain
  have ends : seg.loadAddr + seg.memLen < wordModulus := by
    rw [SosimgSeg.rowTop] at rounded
    omega
  have pa : dest.base + (seg.loadAddr - dest.linkBase) + seg.memLen < wordModulus := by
    simp only [LoadRegion.linkTop] at high
    omega
  refine lands_bind (lands_bind (lands_subWord low (lands_addWord (by omega) ?_)))
  refine lands_bind (lands_addWord (by omega) (lands_bind (lands_longCopy h.calm (by omega) fun m l hl => ?_)))
  refine lands_bind (lands_addWord (by omega) (lands_bind (lands_subWord covers ?_)))
  refine lands_bind (lands_longZero hl (by omega) fun m' l' hl' => ?_)
  refine lands_bind
    (lands_addWord ends (lands_bind (lands_alignUpWord (by rw [SosimgSeg.rowTop] at rounded; omega) (lands_bind ?_))))
  have still : RoomFor p region (k + 1) { s with mem := m', polls := l' } := ⟨hl', h.slot, h.counts, h.record⟩
  exact (still.recordGrant (Or.inr rfl) taken).imp fun _ _ ht => lands_pure ht

/-- While no interrupt comes, an image that passed and fits is placed. -/
theorem placeImage_returns {n : Nat} (reads : ReadsBytes)
    (valid : validateImage s.mem imgBase imgLen dest allow = none) (backed : Backed s)
    (apart : imgBase + imgLen ≤ dest.base ∨ dest.top ≤ imgBase) (calm : Calm s.polls)
    (fits : Placeable s p imgBase imgLen dest region n) :
    Lands n (placeImage p imgBase dest region) (fun _ => Placement s p imgBase dest region []) s := by
  have passed := passed_of_validateImage valid
  have windows := windows_of_validateImage valid
  have table := (validateImage_checks valid).1
  have safe : Safe (fun _ => True) (fun _ => True) s := Or.inl calm
  have image : ∀ o < imgLen, (fun _ => True) (imgBase + o) := fun _ _ => trivial
  have all : (segsOf s.mem imgBase).length = (Build.headerAt s.mem imgBase).segCount := by simp [segsOf, imageSegs]
  have returns : Lands n (placeImage p imgBase dest region) (fun _ _ => True) s := by
    refine lands_bind (lands_emits (lands_bind (lands_reads (lands_bind ?_))))
    refine lands_loop (m := (segsOf s.mem imgBase).length) (I := fun m (at' : Nat × Nat) t =>
      m + at'.1 = (segsOf s.mem imgBase).length ∧ RoomFor p region (m + 1) t ∧
      Places (fun _ => True) (fun _ => True) s p imgBase dest region ((segsOf s.mem imgBase).take at'.1) t) ?_
      ⟨rfl, ⟨calm, fits.slot, fits.counts, fits.record⟩, backed, safe, fun _ _ => rfl, by simp⟩ fits.rounds.1
    rintro m ⟨i, rw'⟩ t ⟨rest, ht, placed⟩
    have some' : ∀ seg ∈ (segsOf s.mem imgBase).take i, seg.isDeviceGrant = false → seg.Passed imgLen dest :=
      fun seg hseg => passed seg (List.mem_of_mem_take hseg)
    cases m with
    | zero =>
      have done : ¬i < (Build.headerAt s.mem imgBase).segCount := by simp only at rest; omega
      dsimp only
      rw [if_neg done]
      refine lands_pure (lands_bind ((ht.recordGrant (k := 0) (Or.inr rfl) ?_).imp fun _ _ _ => lands_pure trivial))
      exact fits.taken _ (List.mem_append_right _ (List.mem_singleton_self _))
    | succ m =>
      have there : i < (segsOf s.mem imgBase).length := by simp only at rest; omega
      have more : i < (Build.headerAt s.mem imgBase).segCount := all ▸ there
      have within : (i + 1) * Build.segLen ≤ (Build.headerAt s.mem imgBase).segCount * Build.segLen :=
        Nat.mul_le_mul_right _ more
      rw [Nat.add_one_mul] at within
      have same : Build.segAt t.mem (imgBase + Build.headerLen + i * Build.segLen) = (segsOf s.mem imgBase)[i] := by
        rw [reads t.mem s.mem _ fun j hj => placed.outside some' trivial (by omega)]
        simp [segsOf, imageSegs]
      have mem := List.getElem_mem there
      dsimp only
      rw [if_pos more]
      refine lands_bind (lands_emits (lands_bind (lands_reads (lands_bind ?_))))
      rw [same]
      have lands : Lands n (placeSegment p imgBase dest region _ rw') _ t :=
        ht.placeSegment (passed _ mem) (fun device => (windows _ mem device).2) fits.words (validateImage_room valid)
          (fits.taken _ (List.mem_append_left _ (List.mem_map_of_mem mem))) (fits.rounds.2 _ mem)
      refine (lands.and_wp (placed.placeSegment some' (passed _ mem) apart image (A := fun _ => False) (n := n))).imp
        fun _ u ⟨hu, placed'⟩ => lands_pure ⟨m, Nat.lt_succ_self m, ?_, hu, ?_⟩
      · simp only at rest ⊢
        omega
      · show Places _ _ s p imgBase dest region ((segsOf s.mem imgBase).take (i + 1)) u
        rwa [List.take_succ_eq_append_getElem there]
  refine returns.of_wp
    ((wp_placeImage (A := fun _ => False) reads valid backed safe apart image).imp fun _ t ⟨mem, rows⟩ => ?_)
  exact Placement.of_patched valid (fun a => Or.inl (mem a trivial)) rows

/-- The memory that a handle of `p` names. -/
def K.named (s : K) (p h : Nat) : MemorySlot := s.memories.slot ((s.processes.slot p).lookup h).target

/-- A handle of `p` names a region. -/
def K.NamesMemory (s : K) (p h : Nat) : Prop :=
  ((s.processes.slot p).lookup h).objType = .memory ∧ ((s.processes.slot p).lookup h).target < s.memories.cap

theorem lands_memoryArg {n h : Nat} {Q : Nat → K → Prop} (hp : p < s.processes.cap) (named : s.NamesMemory p h)
    (hQ : Q ((s.processes.slot p).lookup h).target s) : Lands n (memoryArg p h) Q s := by
  refine lands_bind (lands_bind (lands_read (c := processes) hp (lands_pure ?_)))
  rw [if_pos (show (((processes.get s).slot p).lookup h).objType = .memory from named.1)]
  exact lands_pure hQ

/-- A creation whose image does not pass is answered so, and nothing has changed. -/
theorem processCreate_refused {n i m : Nat} (hp : p < s.processes.cap) (image : s.NamesMemory p i)
    (memory : s.NamesMemory p m) (refused : imageFits (s.named p i) (s.named p m) = false ∨
      (validateImage s.mem (s.named p i).base (s.named p i).len (childRegion (s.named p m)) false).isSome = true) :
    Lands n (processCreate p i m) (fun r t => r = opStatus .badImage ∧ t = s) s := by
  refine lands_bind (lands_memoryArg hp image (lands_bind (lands_memoryArg hp memory ?_)))
  refine lands_bind (lands_read (c := memories) image.2 (lands_bind (lands_read (c := memories) memory.2 ?_)))
  show Lands n (if !imageFits (s.named p i) (s.named p m) then _ else _) _ s
  rcases refused with apart | bad
  · rw [apart]
    exact lands_pure ⟨rfl, rfl⟩
  by_cases fits : imageFits (s.named p i) (s.named p m) = true
  · rw [fits]
    refine lands_bind (lands_reads ?_)
    split
    · exact lands_pure ⟨rfl, rfl⟩
    · exact absurd bad ‹_›
  · rw [Bool.eq_false_iff.mpr fits]
    exact lands_pure ⟨rfl, rfl⟩

/-- The boot of an image that does not pass stops the machine before anything has happened. -/
theorem boot_refused (ends : Build.payloadStart ≤ Build.payloadEnd)
    (refused : (validateImage s.mem Build.payloadStart (Build.payloadEnd - Build.payloadStart)
      rootRegion true).isSome = true) :
    loadRootAndEnter n s = .stop .fatalImage [] := by
  simp [loadRootAndEnter, whenever, bind, Exec.bind, reads, halt, Outcome.after, pure, Exec.pure,
    Nat.not_lt.mpr ends, refused]

end

end

section

/-- Each record of a thread that is moved is apart from the image and its region. -/
def recordsAside [Hal] (imgBase imgLen : Nat) (dest : LoadRegion) : Ev → Bool
  | .mark (.move i) s =>
    let thread := s.threads.slot i
    let slot := s.processes.slot thread.process
    (List.range slot.grantCount).all fun j => !decide (slot.Finds thread.waitBuf j) ||
      decide ((slot.physOf j thread.waitBuf + waitMetaEndBytes ≤ imgBase ∨
        imgBase + imgLen ≤ slot.physOf j thread.waitBuf) ∧
        (slot.physOf j thread.waitBuf + waitMetaEndBytes ≤ dest.base ∨ dest.top ≤ slot.physOf j thread.waitBuf))
  | _ => true

theorem misses_of_records [Hal] {imgBase imgLen : Nat} {dest : LoadRegion} {e : Ev}
    (h : recordsAside imgBase imgLen dest e = true) :
    Misses (Loads imgBase imgLen dest) e := by
  intro b loads rouses
  cases e with
  | mark point s =>
    cases point with
    | move i =>
      obtain ⟨j, admits, low, high⟩ := rouses
      have there := List.all_eq_true.mp h j (List.mem_range.mpr admits.found.1)
      simp only [Bool.or_eq_true, Bool.not_eq_true', decide_eq_false_iff_not, decide_eq_true_eq] at there
      obtain ⟨image, region⟩ := there.resolve_left fun none => none admits.found
      rcases loads with inImage | inRegion <;> omega
    | _ => exact rouses
  | _ => exact rouses

attribute [local instance] pairBuild sampleTarget Riscv32.board

/-- The root's second region, as a child has it. -/
def twoRegion : LoadRegion := ⟨0x80500000, 0x80510000, Hal.rootStackLen, 0x80500000⟩

/-- Two pages of flash are an image for it, and the line 10 is told of while it is placed. -/
def placesTwo (s : K) : Bool :=
  decide (childRegion (s.memories.slot 1) = twoRegion) &&
    (validateImage s.mem 0x20005000 4096 twoRegion false).isNone &&
    match placeImage 1 0x20005000 twoRegion (some 1) 64 { s with polls := [10] } with
    | .ok _ t tr => tr.all (recordsAside 0x20005000 4096 twoRegion) &&
      decide (t.mem 0x80200800 = 1 ∧ t.mem 0x80501001 = 6 ∧ t.mem 0x80501002 = 0)
    | _ => false

/-- What their placement asks of the machine. -/
def roomForTwo (s : K) : Bool :=
  decide (1 < s.processes.cap ∧ 1 < s.memories.cap ∧ (s.memories.slot 1).maps + 3 ≤ 0xFFFF ∧
    (s.processes.slot 1).grantCount + 3 ≤ maxGrantRows ∧ (segsOf s.mem 0x20005000).length = 2) &&
  (segsOf s.mem 0x20005000).all (fun seg => decide (seg.memLen < 5000)) &&
  ((segsOf s.mem 0x20005000).map (·.row twoRegion (some 1)) ++ [twoRegion.stackRow (some 1)]).all fun row =>
    decide (row.pa = row.base)

theorem placeable_two {s : K} (h : roomForTwo s = true) : Placeable s 1 0x20005000 4096 twoRegion (some 1) 5000 := by
  simp only [roomForTwo, Bool.and_eq_true, decide_eq_true_eq, List.all_eq_true] at h
  obtain ⟨⟨⟨slot, inCap, maps, count, two⟩, pages⟩, rows⟩ := h
  refine ⟨slot, ?_, by rw [two]; exact count, by decide, fun row hrow u => ?_, by rw [two]; decide, pages⟩
  · rintro r ⟨⟩
    exact ⟨inCap, by rw [two]; exact maps⟩
  · rw [show Hal.protUpdate 1 row.base row.top row.pa row.perms row.device u = some u from if_pos (rows row hrow)]
    rfl

/-- The root's second region, which is empty, is no image for a child in its first. -/
def refusesEmpty (s : K) : Bool :=
  decide (rootProcess < s.processes.cap ∧ ((s.processes.slot rootProcess).lookup 4).objType = .memory ∧
    ((s.processes.slot rootProcess).lookup 5).objType = .memory ∧
    ((s.processes.slot rootProcess).lookup 4).target < s.memories.cap ∧
    ((s.processes.slot rootProcess).lookup 5).target < s.memories.cap ∧
    imageFits (s.named rootProcess 5) (s.named rootProcess 4) = false)

/-- The machine before its boot, with nothing in its flash. -/
def K.erased : K := { K.zero with mem := fun _ => 0 }

end

section

/-- A build whose root image has a page of code, a page to write at the same place, a device window, and a byte behind
    the page, and whose root has what it needs to make a child. -/
@[reducible] def looseBuild : Build := smallBuild 1 0x20004000 [⟨0x80400000, 0x1000, 0⟩, ⟨0x80500000, 0x10000, 0⟩]

attribute [local instance] looseBuild sampleTarget Riscv32.board

/-- A device row that is not in the region, and rows of different permissions from the same byte on. -/
structure LooseRows (rows : List GrantRow) (dest : LoadRegion) : Prop where
  device : ∃ row ∈ rows, ¬(dest.base ≤ row.pa ∧ row.pa < dest.top)
  rights : ∃ a ∈ rows, ∃ b ∈ rows, a.perms ≠ b.perms ∧ a.pa = b.pa

instance {rows : List GrantRow} {dest : LoadRegion} : Decidable (LooseRows rows dest) :=
  decidable_of_iff ((∃ row ∈ rows, ¬(dest.base ≤ row.pa ∧ row.pa < dest.top)) ∧ ∃ a ∈ rows, ∃ b ∈ rows,
    a.perms ≠ b.perms ∧ a.pa = b.pa)
    ⟨fun ⟨device, rights⟩ => ⟨device, rights⟩, fun ⟨device, rights⟩ => ⟨device, rights⟩⟩

/-- A child waits for the line 10 in the memory that its root will make a second child in. -/
def waitingChild : List Stimulus :=
  [.call 1 4 4 5 0, .call 6 6 10 0 0, .call 6 5 0 0 0, .call 6 7 0 0 0, .call 3 3 0 0 0, .call 2 0 1 9 0,
    .call 2 2 0x80500000 256 0]

/-- Where the segments of the image at `imgBase` are to go, and where their bytes lie. -/
def segBytes [Build] (mem : Nat → UInt8) (imgBase : Nat) : List (Nat × Nat × Nat × Nat) :=
  (segsOf mem imgBase).map fun seg => (seg.loadAddr, seg.fileOff, seg.fileLen, seg.memLen)

/-- The root's first segment has its bytes cleared by the second, which begins where it does. -/
def clearsItself (s : K) : Bool :=
  decide (LooseRows (s.processes.slot rootProcess).rows rootRegion ∧
    (segBytes s.mem Build.payloadStart)[0]? = some (rootRegion.base, 120, 4, 4096) ∧
    s.mem (Build.payloadStart + 120) = 0x73 ∧ s.mem rootRegion.base = 0)

/-- A child's first byte is not the one its image has for it. -/
def toldOver (s t : K) : Bool :=
  decide ((s.processes.slot 2).state = .free ∧ (t.processes.slot 2).state = .created ∧
    segBytes s.mem 0x80400000 = [(0x80500000, 48, 4, 4096)] ∧ s.mem (0x80400000 + 48) = 0x73 ∧ t.mem 0x80500000 = 9)

end

end Sawos
