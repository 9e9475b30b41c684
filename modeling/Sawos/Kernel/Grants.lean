import Sawos.Kernel.Ledger
import Sawos.Kernel.Records

/-! # Rows and the regions they open

A row of memory is installed for a region, which counts the rows that name it and is there as long as one does. So the
bytes that a row opens stay the region's own, unless a piece is cut off a region that rows name. -/

namespace Sawos
open Exec Spans

section
variable [Hal]

/-- The bytes from `pa` to `top` are those of the row, which may end a granule past the end of the region. -/
def MemorySlot.Holds (m : MemorySlot) (row : GrantRow) : Prop :=
  m.base ≤ row.pa ∧ row.pa + (row.top - row.base) ≤ alignUp (m.base + m.len) Hal.protGrain

/-- What a row opens: the bytes of the live region that it was installed for, or a device; of memory that is no
    region's, only what the root was loaded into and the page of the statistics. -/
def Entitled (s : K) (row : GrantRow) : Prop :=
  match row.region with
  | some r => r < s.memories.cap ∧ (s.memories.slot r).state = .live ∧ (s.memories.slot r).Holds row
  | none => row.device = true ∨
      (rootRegion.base ≤ row.pa ∧ row.pa + (row.top - row.base) ≤ rootRegion.top) ∨
      row.pa = Build.statsRegionBase ∧ row.top - row.base = Build.statsRegionLen

/-- How many rows of a record name region `r`. -/
def ProcessSlot.naming (slot : ProcessSlot) (r : Nat) : Nat := (slot.rows.map GrantRow.region).count (some r)

/-- How many rows of all records do. -/
def K.naming (s : K) (r : Nat) : Nat := ((List.range s.processes.cap).map fun p => (s.processes.slot p).naming r).sum

/-- Every row opens what it may, and every region counts the rows that name it, with those of `owed` that were taken out
    and are still counted. -/
structure Granted (owed : List (Option Nat)) (s : K) : Prop where
  entitled : ∀ p, ∀ i < (s.processes.slot p).grantCount, Entitled s ((s.processes.slot p).grants i)
  beyond : ∀ p, s.processes.cap ≤ p → (s.processes.slot p).grantCount = 0
  owes : ∀ r, some r ∈ owed → r < s.memories.cap ∧ (s.memories.slot r).state = .live
  counted : ∀ r < s.memories.cap, (s.memories.slot r).maps = s.naming r + owed.count (some r)

/-- No byte is cut off the front of a region that rows name. -/
def CutsLoose : Ev → Prop
  | .mark (.cut r) s => (s.memories.slot r).maps = 0
  | _ => True

def heldParts : List Part := [.process .grants, .memory .region, .memory .maps, .machine .slabs]

section
variable {s t u : K} {owed : List (Option Nat)} {r i p : Nat}

theorem naming_pos : 0 < s.naming r ↔ ∃ p < s.processes.cap, ∃ i < (s.processes.slot p).grantCount,
    ((s.processes.slot p).grants i).region = some r := by
  unfold K.naming ProcessSlot.naming ProcessSlot.rows
  rw [List.sum_pos_iff_exists_pos_nat]
  simp only [List.mem_map, List.mem_range, List.map_map]
  constructor
  · rintro ⟨x, ⟨p, hp, rfl⟩, pos⟩
    obtain ⟨i, hi, named⟩ := List.mem_map.mp (List.count_pos_iff.mp pos)
    exact ⟨p, hp, i, List.mem_range.mp hi, named⟩
  · rintro ⟨p, hp, i, hi, named⟩
    exact ⟨_, ⟨p, hp, rfl⟩, List.count_pos_iff.mpr (List.mem_map.mpr ⟨i, List.mem_range.mpr hi, named⟩)⟩

/-- A row that names a region is counted by it. -/
theorem Granted.maps_pos (h : Granted owed s) (hi : i < (s.processes.slot p).grantCount)
    (named : ((s.processes.slot p).grants i).region = some r) : 0 < (s.memories.slot r).maps := by
  have entitled := h.entitled p i hi
  rw [Entitled, named] at entitled
  have inCap : p < s.processes.cap := Classical.byContradiction fun out => by
    have := h.beyond p (Nat.le_of_not_lt out)
    omega
  have := naming_pos.mpr ⟨p, inCap, i, hi, named⟩
  have := h.counted r entitled.1
  omega

/-- A region that counts a row is live. -/
theorem Granted.live (h : Granted owed s) (hr : r < s.memories.cap) (mapped : (s.memories.slot r).maps ≠ 0) :
    (s.memories.slot r).state = .live := by
  have counted := h.counted r hr
  rcases Nat.eq_zero_or_pos (s.naming r) with none | some
  · exact (h.owes r (List.count_pos_iff.mp (by omega))).2
  · obtain ⟨p, -, i, hi, named⟩ := naming_pos.mp some
    have entitled := h.entitled p i hi
    rw [Entitled, named] at entitled
    exact entitled.2.1

theorem agree_held (h : Agree heldParts s t) : t.memories.cap = s.memories.cap ∧ t.processes.cap = s.processes.cap ∧
    (∀ p, (t.processes.slot p).grantCount = (s.processes.slot p).grantCount ∧
      (t.processes.slot p).grants = (s.processes.slot p).grants) ∧
    ∀ i, (t.memories.slot i).state = (s.memories.slot i).state ∧ (t.memories.slot i).base = (s.memories.slot i).base ∧
      (t.memories.slot i).len = (s.memories.slot i).len ∧ (t.memories.slot i).maps = (s.memories.slot i).maps := by
  have shape : s.shape = t.shape := h (.machine .slabs) (by decide)
  simp only [K.shape, List.cons.injEq, Prod.mk.injEq] at shape
  refine ⟨shape.2.2.2.2.2.2.2.1.1.symm, shape.1.1.symm, fun p => ?_, fun i => ?_⟩
  · obtain ⟨count, rows, -⟩ := h (.process .grants) (by decide) p
    exact ⟨count.symm, rows.symm⟩
  · obtain ⟨state, base, len, -⟩ := h (.memory .region) (by decide) i
    exact ⟨state.symm, base.symm, len.symm, (h (.memory .maps) (by decide) i).symm⟩

/-- The same rows are there, and no region that a row names has lost a byte. -/
structure Unmoved (s t : K) : Prop where
  memories : t.memories.cap = s.memories.cap
  processes : t.processes.cap = s.processes.cap
  rows : ∀ p, (t.processes.slot p).grantCount = (s.processes.slot p).grantCount ∧
    (t.processes.slot p).grants = (s.processes.slot p).grants
  slots : ∀ i, (t.memories.slot i).state = (s.memories.slot i).state ∧
    (t.memories.slot i).maps = (s.memories.slot i).maps
  extents : ∀ i, (s.memories.slot i).maps ≠ 0 → (t.memories.slot i).base ≤ (s.memories.slot i).base ∧
    (t.memories.slot i).base + (t.memories.slot i).len = (s.memories.slot i).base + (s.memories.slot i).len

theorem Unmoved.agree (same : Agree heldParts s t) : Unmoved s t := by
  obtain ⟨memories, processes, rows, slots⟩ := agree_held same
  refine ⟨memories, processes, rows, fun i => ⟨(slots i).1, (slots i).2.2.2⟩, fun i _ => ?_⟩
  obtain ⟨-, base, len, -⟩ := slots i
  rw [base, len]
  exact ⟨Nat.le_refl _, rfl⟩

theorem Unmoved.refl (s : K) : Unmoved s s := .agree (.refl s)

theorem Unmoved.trans (h : Unmoved s t) (h' : Unmoved t u) : Unmoved s u where
  memories := h'.memories.trans h.memories
  processes := h'.processes.trans h.processes
  rows p := ⟨(h'.rows p).1.trans (h.rows p).1, (h'.rows p).2.trans (h.rows p).2⟩
  slots i := ⟨(h'.slots i).1.trans (h.slots i).1, (h'.slots i).2.trans (h.slots i).2⟩
  extents i mapped := by
    obtain ⟨low, top⟩ := h.extents i mapped
    obtain ⟨low', top'⟩ := h'.extents i ((h.slots i).2 ▸ mapped)
    exact ⟨low'.trans low, top'.trans top⟩

/-- A slot whose extent grows at the front, or that no row names. -/
theorem Unmoved.set {v : MemorySlot} (state : v.state = (s.memories.slot i).state)
    (maps : v.maps = (s.memories.slot i).maps)
    (extent : (s.memories.slot i).maps ≠ 0 → v.base ≤ (s.memories.slot i).base ∧
      v.base + v.len = (s.memories.slot i).base + (s.memories.slot i).len) :
    Unmoved s { s with memories := s.memories.set i v } where
  memories := rfl
  processes := rfl
  rows _ := ⟨rfl, rfl⟩
  slots j := by by_cases own : j = i <;> simp [own, state, maps]
  extents j mapped := by
    by_cases own : j = i
    · subst own
      simpa using extent mapped
    · simp [own]

theorem K.naming_congr (cap : t.processes.cap = s.processes.cap) (rows : ∀ p, (t.processes.slot p).grantCount =
    (s.processes.slot p).grantCount ∧ (t.processes.slot p).grants = (s.processes.slot p).grants) :
      t.naming r = s.naming r := by
  unfold K.naming ProcessSlot.naming ProcessSlot.rows
  rw [cap]
  congr 1
  exact List.map_congr_left fun p _ => by rw [(rows p).1, (rows p).2]

theorem Granted.unmoved (h : Granted owed s) (kept : Unmoved s t) : Granted owed t where
  entitled p i hi := by
    obtain ⟨count, rows⟩ := kept.rows p
    rw [count] at hi
    rw [rows]
    have entitled := h.entitled p i hi
    rcases named : ((s.processes.slot p).grants i).region with _ | r
    · rwa [Entitled, named] at entitled ⊢
    · have mapped := h.maps_pos hi named
      rw [Entitled, named] at entitled ⊢
      obtain ⟨inCap, live, low, high⟩ := entitled
      obtain ⟨front, top⟩ := kept.extents r (by omega)
      exact ⟨kept.memories ▸ inCap, (kept.slots r).1 ▸ live, front.trans low, top ▸ high⟩
  beyond p hp := (kept.rows p).1 ▸ h.beyond p (kept.processes ▸ hp)
  owes r hr := by
    rw [kept.memories, (kept.slots r).1]
    exact h.owes r hr
  counted r hr := by
    rw [(kept.slots r).2, K.naming_congr kept.processes kept.rows]
    exact h.counted r (kept.memories ▸ hr)

theorem Granted.agree (same : Agree heldParts s t) (h : Granted owed s) : Granted owed t := h.unmoved (.agree same)

/-- A slot that no row names is free to be used for another region. -/
theorem Granted.replace (h : Granted owed s) {v : MemorySlot} (before : (s.memories.slot i).maps = 0)
    (after : v.maps = 0) :
    Granted owed { s with memories := s.memories.set i v } := by
  have unnamed : ∀ r p j, j < (s.processes.slot p).grantCount →
    ((s.processes.slot p).grants j).region = some r → r ≠ i := by
    rintro r p j hj named rfl
    have := h.maps_pos hj named
    omega
  have unowed : ∀ r, r < s.memories.cap → some r ∈ owed → r ≠ i := by
    rintro r hr owes rfl
    have := h.counted r hr
    have := List.count_pos_iff.mpr owes
    omega
  refine ⟨fun p j hj => ?_, h.beyond, fun r hr => ?_, fun r hr => ?_⟩
  · have entitled := h.entitled p j hj
    rcases named : ((s.processes.slot p).grants j).region with _ | r
    · rwa [Entitled, named] at entitled ⊢
    · rw [Entitled, named] at entitled ⊢
      simpa [unnamed r p j hj named] using entitled
  · have owes := h.owes r hr
    simpa [unowed r owes.1 hr] using owes
  · have counted := h.counted r hr
    by_cases own : r = i
    · subst own
      simp only [Slab.set_slot, if_true, after]
      exact before.symm.trans counted
    · simp only [Slab.set_slot, own, if_false]
      exact counted

end

/-! ### What the pools do to the regions -/

section
variable {s₀ s t : K} {G : Ev → Prop} {n : Nat} {A : Conduct K Ev} {owed : List (Option Nat)} {r i p : Nat}

theorem Unmoved.spares {α : Type} {m : M α} (quiet : ∀ e : Ev, e.quiet → A.emitted e) (hm : Spares heldParts m) :
    Keeps G n A (Unmoved s₀) m := hm.keepsQuietly (fun _ _ same h => h.trans (.agree same)) quiet

theorem spares_listLink {a b : Option Nat} : Spares heldParts (poolLink r a b) := by
  unfold poolLink
  cases a with
  | none => exact spares_memories (by simp +decide)
  | some m => exact spares_freeRanges (by simp +decide)

theorem spares_listFree : Spares heldParts (freeFreeRange i) := by
  unfold freeFreeRange
  exact spares_freeRanges (by simp +decide)

theorem spares_listLend {len : Nat} : Spares heldParts (lend r len) :=
  .bind spares_read fun _ => .bind (by simp) fun _ => spares_memories (by simp +decide)

/-- The free list changes, and the region it is the list of does not. -/
theorem spares_listCut {len : Nat} : Spares heldParts (poolCutRange r len) := by
  refine .bind spares_read fun region => .loop fun at' => ?_
  split
  · exact spares_pure
  · refine .bind spares_read fun range => .ite ?_ spares_pure
    refine .bind (by simp) fun _ => .bind (spares_freeRanges (by simp +decide)) fun _ => ?_
    exact .bind (.whenever (.bind spares_listLink fun _ => spares_listFree)) fun _ =>
      .bind spares_listLend fun _ => spares_pure

theorem spares_listInsert {base len : Nat} : Spares heldParts (poolInsertRange r base len) := by
  have before : ∀ prev b l, Spares heldParts (poolJoinBefore prev b l) := fun prev b l => by
    unfold poolJoinBefore
    split
    · exact spares_pure
    · refine .bind spares_read fun _ => .bind (by simp) fun _ => .ite (.bind (by simp) fun _ => ?_) spares_pure
      exact .bind (spares_freeRanges (by simp +decide)) fun _ => spares_pure
  have after : ∀ into next b l, Spares heldParts (poolJoinAfter into next b l) := fun into next b l => by
    unfold poolJoinAfter
    split
    · exact spares_pure
    · refine .bind spares_read fun _ => .bind (by simp) fun _ => .ite ?_ spares_pure
      split
      · refine .bind (by simp) fun _ => ?_
        exact .bind (spares_freeRanges (by simp +decide)) fun _ => spares_pure
      · refine .bind (by simp) fun _ => .bind (spares_freeRanges (by simp +decide)) fun _ => ?_
        exact .bind spares_listFree fun _ => spares_pure
  refine .bind spares_poolNeighbours fun at' => .bind (before _ _ _) fun into => .bind (after _ _ _ _) fun _ =>
    .ite spares_pure ?_
  refine .bind (by simp) fun found => ?_
  split
  · exact .bind spares_read fun _ => .bind (by simp) fun _ => spares_memories (by simp +decide)
  · exact .bind (spares_freeRanges (by simp +decide)) fun _ => spares_listLink

theorem spares_listDrop : Spares heldParts (poolDropNodes r) := by
  refine .bind spares_read fun _ => .bind (.loop fun cur => ?_) fun _ => spares_memories (by simp +decide)
  split
  · exact spares_pure
  · exact .bind spares_read fun _ => .bind spares_listFree fun _ => spares_pure

/-- The frontier moves down to where its last free range begins. -/
theorem Unmoved.fold (quiet : ∀ e : Ev, e.quiet → A.emitted e) : Keeps G n A (Unmoved s₀) (poolFoldFrontier r) := by
  intro s hs
  refine wp_bind.mpr (wp_readMemory.mpr fun _ => ?_)
  refine wp_loop (I := fun _ t => t = s) ?_ rfl
  rintro ⟨prev, cur⟩ s rfl
  cases cur with
  | none => exact wp_pure.mpr hs
  | some m =>
    refine wp_bind.mpr (wp_readFreeRange.mpr fun _ => ?_)
    cases next : (s.freeRanges.slot m).next with
    | some k => exact wp_pure.mpr rfl
    | none =>
      refine wp_bind.mpr (wp_addWord.mpr fun _ => wp_ite.mpr ⟨fun reaches => ?_, fun _ => wp_pure.mpr hs⟩)
      refine wp_bind.mpr (wp_addWord.mpr fun _ => wp_bind.mpr (wp_modifyMemory.mpr fun _ => ?_))
      have grown : Unmoved s { s with memories := s.memories.set r { s.memories.slot r with
          base := (s.freeRanges.slot m).base, len := (s.memories.slot r).len + (s.freeRanges.slot m).len } } :=
        .set rfl rfl fun _ => ⟨by simp only; omega, by simp only; omega⟩
      refine wp_bind.mpr ((Unmoved.spares quiet spares_listLink _ (hs.trans grown)).imp fun _ u hu => ?_)
      exact wp_bind.mpr ((Unmoved.spares quiet spares_listFree u hu).imp fun _ v hv => wp_pure.mpr hv)

theorem Unmoved.giveBack (quiet : ∀ e : Ev, e.quiet → A.emitted e) {slot root : Nat} {region : MemorySlot} :
    Keeps G n A (Unmoved s₀) (memoryGiveBack slot root region) := by
  refine .ite (Unmoved.spares quiet spares_listDrop) (.ite keeps_pure ?_)
  refine .bind (Unmoved.spares quiet spares_read) fun _ =>
    .bind (.whenever (Unmoved.spares quiet (by simp))) fun _ => ?_
  refine .bind (.whenever (Unmoved.spares quiet (by simp))) fun _ =>
    .bind (Unmoved.spares quiet (spares_memories ?_)) fun _ => ?_
  · simp +decide
  · exact .bind (Unmoved.spares quiet spares_listInsert) fun _ => Unmoved.fold quiet

/-- What is cut off a region is cut off one that no row names, or comes from its free ranges. -/
theorem Unmoved.cut (quiet : ∀ e : Ev, e.quiet → A.emitted e) (loose : ∀ e, G e → CutsLoose e) {len : Nat} :
    Keeps G n A (Unmoved s₀) (poolCut r len) := by
  have front : ∀ root, Keeps G n A (Unmoved s₀) (poolCutFront r len root) := by
    intro root s hs
    refine wp_bind.mpr (wp_readMemory.mpr fun _ => wp_bind.mpr (wp_emits.mpr ⟨quiet _ (by simp), fun good => ?_⟩))
    have unmapped : (s.memories.slot r).maps = 0 := loose _ good
    refine wp_ite.mpr ⟨fun _ => wp_fatalKernel.mpr trivial, fun _ => wp_bind.mpr (wp_addWord.mpr fun _ => ?_)⟩
    refine wp_bind.mpr (wp_modifyMemory.mpr fun _ => ?_)
    refine Keeps.bind (.whenever (Unmoved.spares quiet spares_listLend)) (fun _ => keeps_pure) _
      (hs.trans (.set rfl rfl fun mapped => ?_))
    exact absurd unmapped mapped
  refine .bind (Unmoved.spares quiet spares_read) fun region =>
    .ite (.bind (Unmoved.spares quiet spares_listCut) fun found => ?_) (front false)
  cases found with
  | some base => exact keeps_pure
  | none => exact front true

end


/-! ### Counting -/

section
variable {s t : K} {G : Ev → Prop} {n : Nat} {A : K → Prop} {owed : List (Option Nat)} {row : GrantRow} {r i p : Nat}
  {region : Option Nat}

theorem Granted.spares {α : Type} {m : M α} (hm : Spares heldParts m) : Keeps G n A (Granted owed) m :=
  hm.keeps fun _ _ => Granted.agree

theorem Granted.release : Keeps G n A (Granted owed) (memoryReleaseIfIdle r) := by
  refine .recur fun again hagain slot s hs => wp_bind.mpr (wp_readMemory.mpr fun _ => ?_)
  refine wp_ite.mpr ⟨fun _ => wp_pure.mpr hs, fun busy => ?_⟩
  have idle : (s.memories.slot slot).maps = 0 := by
    simp only [Bool.or_eq_true, decide_eq_true_eq, not_or, not_not, ne_eq] at busy
    exact busy.2
  rcases (s.memories.slot slot).root with _ | root
  · exact wp_halt.mpr trivial
  refine wp_ite.mpr ⟨fun _ => wp_pure.mpr hs, fun _ => wp_bind.mpr ?_⟩
  refine (Unmoved.giveBack (fun _ _ => trivial) s (.refl s)).imp fun _ t ht =>
    wp_bind.mpr (wp_modifyMemory.mpr fun _ => ?_)
  have vacated := (hs.unmoved ht).replace (i := slot) (v := .vacant) ((ht.slots slot).2.trans idle) rfl
  exact Keeps.bind (Granted.spares (by simp +decide)) (fun _ => .whenever (hagain root)) _ vacated

theorem Entitled.recount {m : Nat} (h : Entitled s row) :
    Entitled { s with memories := s.memories.set r { s.memories.slot r with maps := m } } row := by
  rcases named : row.region with _ | r'
  · rwa [Entitled, named] at h ⊢
  · rw [Entitled, named] at h ⊢
    by_cases own : r' = r
    · subst own
      simpa [MemorySlot.Holds] using h
    · simpa [own] using h

/-- The count of a region changes, and with it what is owed. -/
theorem Granted.recount {m : Nat} {owed' : List (Option Nat)} (hs : Granted owed s)
    (owes : ∀ r, some r ∈ owed' → r < s.memories.cap ∧ (s.memories.slot r).state = .live)
    (count : m + owed.count (some r) = (s.memories.slot r).maps + owed'.count (some r))
    (others : ∀ r', r' ≠ r → owed'.count (some r') = owed.count (some r')) :
    Granted owed' { s with memories := s.memories.set r { s.memories.slot r with maps := m } } := by
  refine ⟨fun q i hi => (hs.entitled q i hi).recount, hs.beyond, fun r' hr => ?_, fun r' hr => ?_⟩
  · have owes := owes r' hr
    by_cases own : r' = r
    · subst own
      simpa using owes
    · simpa [own] using owes
  · have counted := hs.counted r' hr
    by_cases own : r' = r
    · subst own
      simp only [Slab.set_slot, if_true]
      show m = s.naming r' + _
      omega
    · simp only [Slab.set_slot, own, if_false, others r' own]
      exact counted

/-- A row that was taken out is counted no more. -/
theorem Granted.unref : Leads G n A (Granted (region :: owed)) (Granted owed) (unrefRegionRow region) := by
  intro s hs
  have owes : ∀ r, some r ∈ owed → r < s.memories.cap ∧ (s.memories.slot r).state = .live := fun r hr =>
    hs.owes r (List.mem_cons_of_mem _ hr)
  cases region with
  | none => exact wp_pure.mpr ⟨hs.entitled, hs.beyond, owes, fun r hr => by simpa using hs.counted r hr⟩
  | some r =>
    refine wp_bind.mpr (wp_readMemory.mpr fun _ =>
      wp_bind.mpr (wp_whenever.mpr ⟨fun _ => wp_fatalKernel.mpr trivial, fun mapped => ?_⟩))
    refine wp_bind.mpr (wp_modifyMemory.mpr fun _ => Granted.release _ (hs.recount owes ?_ fun r' hr => ?_))
    · have := of_decide_eq_false mapped
      rw [List.count_cons_self]
      omega
    · rw [List.count_cons_of_ne (by simpa using Ne.symm hr)]

/-- One record changes, and what its rows lose is owed. -/
theorem Granted.setProcess {owed' : List (Option Nat)} {v : ProcessSlot} (hs : Granted owed s)
    (hp : p < s.processes.cap) (entitled : ∀ i < v.grantCount, Entitled s (v.grants i))
    (owes : ∀ r, some r ∈ owed' → r < s.memories.cap ∧ (s.memories.slot r).state = .live)
    (count : ∀ r, v.naming r + owed'.count (some r) = (s.processes.slot p).naming r + owed.count (some r)) :
    Granted owed' { s with processes := s.processes.set p v } := by
  refine ⟨fun q i hi => ?_, fun q hq => ?_, owes, fun r hr => ?_⟩
  · by_cases own : q = p
    · simp only [Slab.set_slot, own, if_true] at hi ⊢
      exact entitled i hi
    · simp only [Slab.set_slot, own, if_false] at hi ⊢
      exact hs.entitled q i hi
  · have own : q ≠ p := by
      rintro rfl
      exact absurd hp (Nat.not_lt.mpr hq)
    simpa [own] using hs.beyond q hq
  · have counted := hs.counted r hr
    have changed := sum_range_change (f := fun q => (s.processes.slot q).naming r)
      (g := fun q => ((s.processes.set p v).slot q).naming r) hp fun q hq => by simp [hq]
    have own : (s.processes.set p v).slot p = v := by simp
    simp only [own] at changed
    have := count r
    unfold K.naming at counted ⊢
    show (s.memories.slot r).maps = ((List.range s.processes.cap).map fun q =>
      ((s.processes.set p v).slot q).naming r).sum + _
    omega

/-- A slot whose record stays. -/
theorem Granted.sameRows {v : ProcessSlot} (hs : Granted owed s) (hp : p < s.processes.cap)
    (rows : v.grantCount = (s.processes.slot p).grantCount ∧ v.grants = (s.processes.slot p).grants) :
    Granted owed { s with processes := s.processes.set p v } := by
  obtain ⟨count, grants⟩ := rows
  refine hs.setProcess hp (fun i hi => ?_) hs.owes fun r => ?_
  · rw [grants]
    exact hs.entitled p i (count ▸ hi)
  · rw [ProcessSlot.naming, rows_same count.symm grants.symm]
    rfl

/-- The rows of a record that was emptied are counted no more, one after the other. -/
theorem Granted.unrefAll {f : Nat → Option Nat} {k : Nat} :
    Leads G n A (Granted ((List.range k).map f)) (Granted []) (countUp (fun i => unrefRegionRow (f i)) k 0) := by
  intro s hs
  refine (wp_countUp (I := fun j => Granted (((List.range k).map f).drop j)) (by simpa using hs)
    fun j t _ hj ht => ?_).imp
    fun _ t ht => ?_
  · rw [Nat.zero_add] at hj
    rw [List.drop_eq_getElem_cons (by simpa using hj)] at ht
    simp only [List.getElem_map, List.getElem_range] at ht
    exact Granted.unref t ht
  · rwa [Nat.zero_add, List.drop_of_length_le (by simp)] at ht

theorem Granted.clearDomain : Keeps G n A (Granted []) (clearDomain p) := by
  intro s hs
  refine wp_bind.mpr (wp_readProcess.mpr fun hp => wp_bind.mpr (wp_modifyProcess.mpr fun _ => ?_))
  let region (i : Nat) : Option Nat := ((s.processes.slot p).grants i).region
  have cleared : Granted ((List.range (s.processes.slot p).grantCount).map region) { s with
      processes := s.processes.set p { s.processes.slot p with grantCount := 0, imageRows := 0 } } := by
    refine hs.setProcess hp (fun i hi => absurd hi (Nat.not_lt_zero i)) (fun r hr => ?_) fun r => ?_
    · obtain ⟨i, hi, named⟩ := List.mem_map.mp hr
      have entitled := hs.entitled p i (List.mem_range.mp hi)
      rw [Entitled, show ((s.processes.slot p).grants i).region = some r from named] at entitled
      exact ⟨entitled.1, entitled.2.1⟩
    · simp only [ProcessSlot.naming, ProcessSlot.rows, List.map_map, List.range_zero, List.map_nil,
        List.count_nil, Nat.zero_add, Nat.add_zero]
      rfl
  refine wp_bind.mpr ((Granted.spares (by simp +decide) _ cleared).imp fun _ t ht => wp_bind.mpr ?_)
  refine (Granted.unrefAll (f := region) t ht).imp fun _ u hu => ?_
  refine Granted.spares (m := do
    whenever ((← reads K.lastProtProcess) = some p) (modifies ({ · with lastProtProcess := none }))) ?_ u hu
  refine .bind spares_reads fun _ => .whenever (spares_machine (fun _ => rfl) ?_)
  simp +decide [K.shape]

theorem Granted.reclaim : Keeps G n A (Granted owed) (reclaimProcessSlot p) :=
    fun _ hs => wp_modifyProcess.mpr fun hp => by
  split
  · exact hs.sameRows hp ⟨rfl, rfl⟩
  · exact hs.sameRows hp ⟨rfl, rfl⟩

theorem Granted.bedrock : Bedrock G n A (Granted owed) where
  quiet _ _ := trivial
  about _ _ same := Granted.agree (same.mono (by decide))
  release _ := Granted.release
  unmapped _ := Granted.spares (spares_mappings (by simp +decide))
  reclaim _ := Granted.reclaim

theorem Granted.dismantles : Dismantles G n A p (Granted []) (Granted []) (Granted []) (Granted [])
    (Granted []) (Granted []) (Granted []) where
  enter _ _ := fun _ hs => wp_modifyProcess.mpr fun hp => hs.sameRows hp ⟨rfl, rfl⟩
  before := Granted.bedrock.ground
  threads := (Granted.spares (spares_sweepThreads (by simp +decide) (by decide))).leads
  idle := (Granted.spares (spares_idle (by decide))).leads
  lines := Granted.bedrock.sweepLines
  after := Granted.bedrock.ground
  timers := Granted.bedrock.sweepTimers
  rows := (Granted.spares (by simp +decide)).leads
  record := Granted.clearDomain.leads
  boot := (Granted.spares (by simp +decide)).leads
  quota := (Granted.spares (by simp +decide)).leads
  reclaim := Granted.reclaim

theorem Granted.steady : Steady G n (Granted []) :=
  .steady .any (fun _ _ same => Granted.agree (same.mono (by decide))) Granted.bedrock.serviced
    (fun _ => Granted.spares (by simp +decide)) fun _ _ _ _ => Granted.dismantles.teardown trivial

/-- A row that opens what it may is put behind the others, and its region counts it. -/
theorem Granted.recordGrant {base top pa perms : Nat} {device : Bool} (hs : Granted [] s)
    (may : Entitled s ⟨base, top, pa, perms, device, region⟩) :
    wp G n (recordGrant p base top pa perms device region) (fun _ => Granted []) (.leaving A) s := by
  refine wp_bind.mpr (wp_readProcess.mpr fun hp => wp_ite.mpr ⟨fun _ => ?_, fun _ => wp_halt.mpr trivial⟩)
  refine wp_bind.mpr (wp_modifyProcess.mpr fun _ => ?_)
  let v := (s.processes.slot p).pushRow ⟨base, top, pa, perms, device, region⟩
  have naming : ∀ r, v.naming r = (s.processes.slot p).naming r + [region].count (some r) := fun r => by
    rw [ProcessSlot.naming, rows_pushRow, List.map_append, List.count_append]
    rfl
  have entitled : ∀ i < v.grantCount, Entitled s (v.grants i) := by
    intro i hi
    simp only [v, ProcessSlot.pushRow] at hi ⊢
    split
    · exact may
    · exact hs.entitled p i (by omega)
  cases region with
  | none =>
    have pushed : Granted [] _ := hs.setProcess (v := v) hp entitled (by simp) fun r => by rw [naming]; simp
    exact wp_bind.mpr (wp_pure.mpr (Granted.spares (by simp +decide) _ pushed))
  | some r =>
    obtain ⟨inCap, live, -⟩ := may
    have single : ∀ r', some r' ∈ [some r] → r' < s.memories.cap ∧ (s.memories.slot r').state = .live := fun r' hr => by
      rw [show r' = r by simpa using hr]
      exact ⟨inCap, live⟩
    have owing := hs.recount (r := r) (m := (s.memories.slot r).maps + 1) single (by simp) fun r' hr =>
      List.count_eq_zero.mpr (by simpa using hr)
    have pushed : Granted [] _ := owing.setProcess (v := v) hp (fun i hi => (entitled i hi).recount)
      (by simp) fun r' => by
      rw [naming]
      simp
    refine wp_bind.mpr
      (wp_bind.mpr (wp_readMemory.mpr fun _ => wp_bind.mpr (wp_bump.mpr fun _ => wp_modifyMemory.mpr fun _ => ?_)))
    exact Granted.spares (by simp +decide) _ pushed

omit [Hal] in
theorem rows_dropRow {a : ProcessSlot} {k : Nat} (hk : k < a.grantCount) : (a.dropRow k).rows = a.rows.eraseIdx k := by
  have length : a.rows.length = a.grantCount := by simp [ProcessSlot.rows]
  refine List.ext_getElem ?_ fun i hi hi' => ?_
  · rw [List.length_eraseIdx_of_lt (by omega), length]
    simp [ProcessSlot.rows, ProcessSlot.dropRow]
  · rw [List.getElem_eraseIdx]
    simp only [ProcessSlot.rows, List.length_map, List.length_range, ProcessSlot.dropRow] at hi
    simp only [ProcessSlot.rows, List.getElem_map, List.getElem_range, ProcessSlot.dropRow]
    split
    · rw [dif_neg (by omega)]
    · rw [dif_pos (by omega)]

omit [Hal] in
/-- The row that is dropped was counted once. -/
theorem naming_dropRow {a : ProcessSlot} {k : Nat} (hk : k < a.grantCount) :
    (a.dropRow k).naming r + [(a.grants k).region].count (some r) = a.naming r := by
  have inside : k < a.rows.length := by simpa [ProcessSlot.rows] using hk
  have split : (a.rows[k] :: a.rows.eraseIdx k).Perm a.rows := List.getElem_cons_eraseIdx_perm inside
  have counts := (split.map GrantRow.region).count_eq (some r)
  have row : a.rows[k] = a.grants k := by simp [ProcessSlot.rows]
  rw [row, List.map_cons, List.count_cons] at counts
  rw [ProcessSlot.naming, ProcessSlot.naming, rows_dropRow hk, List.count_singleton]
  omega

theorem Granted.dropRow {k : Nat} (hs : Granted [] s) (hp : p < s.processes.cap)
    (hk : k < (s.processes.slot p).grantCount) :
    Granted [((s.processes.slot p).grants k).region]
      { s with processes := s.processes.set p ((s.processes.slot p).dropRow k) } := by
  refine hs.setProcess hp (fun i hi => ?_) (fun r hr => ?_) fun r => ?_
  · simp only [ProcessSlot.dropRow] at hi ⊢
    split
    · exact hs.entitled p (i + 1) (by omega)
    · exact hs.entitled p i (by omega)
  · have entitled := hs.entitled p k hk
    rw [Entitled, ← List.mem_singleton.mp hr] at entitled
    exact ⟨entitled.1, entitled.2.1⟩
  · rw [naming_dropRow hk]
    rfl

/-- The row that a Mapping names is taken out. -/
theorem Granted.unmap : Leads G n (Granted []) (fun s => Granted [] s ∧ Named s) (Granted []) (mappingUnmap p i) := by
  have w : Steady G n (Granted []) := Granted.steady
  rintro s ⟨hs, named⟩
  refine wp_bind.mpr (w.wp_mappedRow mortal_any hs fun row hi live hrow => wp_bind.mpr (wp_readMapping.mpr fun _ => ?_))
  have inside := named.installed i hi row live hrow
  generalize (s.mappings.slot i).target = q at inside ⊢
  refine wp_bind.mpr (wp_ite.mpr ⟨fun _ => ?_, fun _ => wp_halt.mpr trivial⟩)
  refine wp_bind.mpr (wp_readProcess.mpr fun hq => wp_bind.mpr (wp_mark.mpr fun _ => wp_bind.mpr ?_))
  refine wp_protTry.mpr fun u _ => wp_bind.mpr (wp_modifyProcess.mpr fun _ => ?_)
  have dropped := hs.dropRow hq inside
  have owing : Granted [((s.processes.slot q).grants row).region] { s with
      processes := s.processes.set q ((s.processes.slot q).dropRow row), prot := u } :=
    ⟨dropped.entitled, dropped.beyond, dropped.owes, dropped.counted⟩
  refine (Granted.unref _ owing).imp fun _ t ht => ?_
  refine Keeps.bind (Granted.spares (spares_mappings ?_)) (fun _ => ?_) t ht
  · simp +decide
  refine .bind (Granted.spares (by simp +decide)) fun _ => .bind (Granted.spares (by simp +decide)) fun _ => ?_
  exact .bind (Granted.spares (by simp +decide)) fun _ => keeps_pure

theorem Entitled.agree (same : Agree heldParts s t) (h : Entitled s row) : Entitled t row := by
  obtain ⟨cap, -, -, slots⟩ := agree_held same
  unfold Entitled at h ⊢
  split
  · rename_i r named
    rw [named] at h
    obtain ⟨state, base, len, -⟩ := slots r
    simp only [MemorySlot.Holds] at h ⊢
    rwa [cap, state, base, len]
  · rename_i named
    rwa [named] at h

/-- A row for bytes that it may open is installed wherever there is room. -/
theorem Granted.installRow {q base top perms : Nat} {device : Bool} (hs : Granted [] s)
    (may : ∀ va, Entitled s ⟨va, va + (top - base), base, perms, device, region⟩) :
    wp G n (installRow p q base top perms device region) (fun _ => Granted []) (.leaving A) s := by
  have after : ∀ {α : Type} {m : M α}, Spares heldParts m → ∀ t, Agree heldParts s t → ∀ Q : α → K → Prop,
      (∀ a u, Agree heldParts s u → Q a u) → wp G n m Q (.leaving A) t := fun hm t ht Q hQ =>
    wp_spares hm fun a u hu => hQ a u (ht.trans hu)
  refine wp_bind.mpr (after spares_quotaRoom s (.refl s) _ fun _ s₁ h₁ =>
    wp_ite.mpr ⟨fun _ => ?_, fun _ => wp_pure.mpr (hs.agree h₁)⟩)
  refine wp_bind.mpr (wp_readProcess.mpr fun _ =>
    wp_bind.mpr (wp_whenever.mpr ⟨fun _ => wp_fatalKernel.mpr trivial, fun _ => ?_⟩))
  refine wp_bind.mpr (after spares_freeUserVa s₁ h₁ _ fun cursor s₂ h₂ => ?_)
  refine wp_ite.mpr
    ⟨fun _ => wp_pure.mpr (hs.agree h₂), fun _ => wp_ite.mpr ⟨fun _ => wp_pure.mpr (hs.agree h₂), fun _ => ?_⟩⟩
  refine wp_bind.mpr (after (by simp) s₂ h₂ _ fun found s₃ h₃ => ?_)
  cases found with
  | none => exact wp_pure.mpr (hs.agree h₃)
  | some m =>
    refine wp_bind.mpr (after (by simp +decide) s₃ h₃ _ fun handle s₄ h₄ =>
      wp_ite.mpr ⟨fun _ => ?_, fun _ => wp_bind.mpr ?_⟩)
    · exact (Granted.spares (.bind (by simp) fun _ => spares_pure)) s₄ (hs.agree h₄)
    refine wp_bind.mpr (wp_readProcess.mpr fun _ => wp_bind.mpr ?_)
    refine ((hs.agree h₄).recordGrant ((may _).agree h₄)).imp fun _ s₅ h₅ => ?_
    have named : ∀ v, Keeps G n A (Granted []) (do mappings.write m v; quotaCharge q .mapping; domainChanged q) :=
      fun v => by
      refine .bind (Granted.spares (spares_mappings ?_)) fun _ => ?_
      · simp +decide
      · exact .bind (Granted.spares (by simp +decide)) fun _ => Granted.spares (by simp +decide)
    exact (named _ s₅ h₅).imp fun _ u hu => wp_pure.mpr hu

/-- A region that has bytes is mapped where it is. -/
theorem Granted.map {h raw : Nat} : Leads G n (Granted [])
    (fun s => Granted [] s ∧ ∀ j < s.memories.cap, (s.memories.slot j).state = .free → (s.memories.slot j).len = 0)
    (Granted [])
    (memoryMap p r i h raw) := by
  have w : Steady G n (Granted []) := Granted.steady
  rintro s ⟨hs, vacant⟩
  refine wp_bind.mpr (w.wp_mapTarget mortal_any hs fun t _ own => ?_)
  refine wp_bind.mpr (w.wp_mapAccess mortal_any hs fun mask nonzero => ?_)
  refine wp_bind.mpr (wp_whenever.mpr ⟨fun _ => w.wp_require mortal_any hs fun _ => ?_, fun _ => ?_⟩)
  all_goals
    refine wp_bind.mpr (wp_readMemory.mpr fun inCap => wp_bind.mpr (w.wp_check mortal_any hs fun bytes => ?_))
    refine wp_bind.mpr (w.wp_check mortal_any hs fun _ => wp_bind.mpr (wp_alignUpWord.mpr fun _ => ?_))
    refine wp_bind.mpr (w.wp_check mortal_any hs fun _ => hs.installRow fun va => ?_)
    have live : (s.memories.slot i).state = .live := by
      cases state : (s.memories.slot i).state with
      | live => rfl
      | free => simp [vacant i inCap state] at bytes
    refine ⟨inCap, live, Nat.le_refl _, ?_⟩
    have := le_alignUp ((s.memories.slot i).base + (s.memories.slot i).len) Hal.protGrain
    simp only [Nat.add_sub_cancel_left]
    omega

theorem Granted.mapDevice {h : Nat} : Keeps G n (Granted []) (Granted []) (iomemoryMap p i h) :=
  Steady.mapsWindow Granted.steady fun _ _ _ _ hs _ _ _ => hs.installRow fun _ => Or.inl rfl

theorem Granted.mapStats {d c : Nat} : Keeps G n (Granted []) (Granted []) (statsRegionMap p d c) := by
  have w : Steady G n (Granted []) := Granted.steady
  refine .bind (.whenever (w.faultProcess mortal_any)) fun _ => .bind (Granted.spares (by simp +decide)) fun _ => ?_
  refine .bind (w.refuse mortal_any) fun _ s hs => hs.installRow fun va => Or.inr (Or.inr ⟨rfl, ?_⟩)
  simp only [Nat.add_sub_cancel_left]

/-- A free slot is filled with what is cut off. -/
theorem Granted.split (loose : ∀ e, G e → CutsLoose e) {len : Nat} :
    Keeps G n (Granted []) (Granted []) (memorySplit p r len) := by
  have quiet : ∀ e : Ev, e.quiet → (⟨Granted [], fun _ => True⟩ : Conduct K Ev).emitted e := fun _ _ => trivial
  refine Granted.steady.carve mortal_any fun i _ s ⟨hs, inCap, free⟩ => ?_
  have unmapped : (s.memories.slot i).maps = 0 := Classical.byContradiction fun mapped => by
    rw [hs.live inCap mapped] at free
    cases free
  refine wp_bind.mpr ((Unmoved.cut quiet loose s (.refl s)).imp fun base t ht => ?_)
  refine wp_bind.mpr (wp_readMemory.mpr fun _ => wp_bind.mpr (wp_modifyMemory.mpr fun _ => ?_))
  exact Granted.spares (by simp +decide) _ ((hs.unmoved ht).replace ((ht.slots i).2.trans unmapped) rfl)

/-- New slots have no rows. -/
theorem Donated.naming (d : Donated s t) : t.naming r = s.naming r := by
  obtain ⟨more, cap⟩ := Nat.exists_eq_add_of_le d.processes.cap
  have fresh : ((List.range more).map (s.processes.cap + ·)).map (fun p => (t.processes.slot p).naming r) =
      (List.range more).map fun _ => 0 := by
    rw [List.map_map]
    refine List.map_congr_left fun j hj => ?_
    have := List.mem_range.mp hj
    rw [Function.comp_apply, d.processes.slot, if_pos ⟨Nat.le_add_right _ _, by omega⟩]
    rfl
  have old : (List.range s.processes.cap).map (fun p => (t.processes.slot p).naming r) =
      (List.range s.processes.cap).map fun p => (s.processes.slot p).naming r :=
    List.map_congr_left fun p hp => by rw [d.processes.old (List.mem_range.mp hp)]
  unfold K.naming
  rw [cap, List.range_add, List.map_append, List.sum_append, old, fresh]
  simp

theorem Granted.donated (d : Donated s t) (hs : Granted [] s) : Granted [] t := by
  have rows : ∀ q i, i < (t.processes.slot q).grantCount → t.processes.slot q = s.processes.slot q := fun q i hi => by
    rw [d.processes.slot] at hi ⊢
    split at hi
    · exact absurd hi (Nat.not_lt_zero i)
    · exact if_neg ‹_›
  refine ⟨fun q i hi => ?_, fun q hq => ?_, by simp, fun j hj => ?_⟩
  · have same := rows q i hi
    rw [same] at hi ⊢
    have entitled := hs.entitled q i hi
    rcases named : ((s.processes.slot q).grants i).region with _ | j
    · rwa [Entitled, named] at entitled ⊢
    · rw [Entitled, named] at entitled ⊢
      obtain ⟨inCap, live⟩ := entitled
      refine ⟨Nat.lt_of_lt_of_le inCap d.memories.cap, ?_⟩
      rwa [d.memories.old inCap]
  · have := d.processes.cap
    rw [d.processes.slot, if_neg (by omega)]
    exact hs.beyond q (by omega)
  · rw [d.naming, List.count_nil, Nat.add_zero]
    by_cases old : j < s.memories.cap
    · rw [d.memories.old old]
      simpa using hs.counted j old
    · rw [d.memories.slot, if_pos ⟨Nat.le_of_not_lt old, hj⟩]
      refine (Nat.eq_zero_of_not_pos fun pos => ?_).symm
      obtain ⟨q, -, i, hi, named⟩ := naming_pos.mp pos
      have entitled := hs.entitled q i hi
      rw [Entitled, named] at entitled
      exact old entitled.1

/-- A region that no row names is given away. -/
theorem Granted.retire (hs : Granted [] s) (unmapped : (s.memories.slot i).maps = 0) :
    wp G n (memoryRetireDonated i) (fun _ => Granted []) (.leaving A) s := by
  have quiet : ∀ e : Ev, e.quiet → (⟨A, fun _ => True⟩ : Conduct K Ev).emitted e := fun _ _ => trivial
  refine wp_bind.mpr (wp_readMemory.mpr fun _ => wp_bind.mpr ?_)
  refine (Keeps.whenever (Unmoved.spares quiet spares_listDrop) s (.refl s)).imp fun _ t ht => wp_bind.mpr ?_
  have recorded : Spares heldParts (recordDonated (s.memories.slot i)) := by
    unfold recordDonated
    split
    · exact spares_pure
    · exact spares_memories (by simp +decide)
  refine (Unmoved.spares quiet recorded t ht).imp fun _ u hu => wp_bind.mpr (wp_modifyMemory.mpr fun _ => ?_)
  exact Granted.spares (by simp +decide) _ ((hs.unmoved hu).replace ((hu.slots i).2.trans unmapped) rfl)

theorem Granted.donate {k h : Nat} : Leads G n (Granted []) (fun s => Granted [] s ∧ Backed s) (Granted [])
    (slabDonate p k h) := by
  have w : Steady G n (Granted []) := Granted.steady
  rintro s ⟨hs, backed⟩
  unfold Sawos.slabDonate
  cases SlabKind.ofRaw k with
  | none => exact w.faultProcess mortal_any s hs
  | some kind =>
    refine wp_bind.mpr (w.wp_memoryArg mortal_any hs fun _ _ => wp_bind.mpr (wp_readMemory.mpr fun inCap => ?_))
    generalize ((s.processes.slot p).lookup h).target = slot at inCap ⊢
    refine wp_bind.mpr (w.wp_check mortal_any hs fun _ => wp_bind.mpr (w.wp_check mortal_any hs fun unmapped => ?_))
    refine wp_bind.mpr (w.wp_check mortal_any hs fun _ => wp_bind.mpr (wp_reads.mpr ?_))
    refine wp_ite.mpr ⟨fun _ => wp_pure.mpr hs, fun _ => wp_bind.mpr (wp_addWord.mpr fun _ => ?_)⟩
    refine wp_ite.mpr ⟨fun _ => wp_pure.mpr hs, fun _ => wp_bind.mpr ?_⟩
    refine (Sheltered.longZero misses_nowhere (fun _ none => none.elim) s (.refl backed)).imp fun _ u hu =>
      wp_bind.mpr (wp_slabInstall fun _ v d => ?_)
    have zeroed : Agree heldParts s u := hu.2.parts.mono (by decide)
    have grown : Granted [] v := (hs.agree zeroed).donated d
    refine wp_bind.mpr (wp_whenever.mpr ⟨fun _ => wp_fatalKernel.mpr trivial, fun _ => wp_bind.mpr ?_⟩)
    refine wp_spares (S := heldParts) (by simp +decide) fun _ x same => wp_bind.mpr ?_
    have maps : (x.memories.slot slot).maps = 0 := by
      obtain ⟨cap, -, -, slots⟩ := agree_held zeroed
      rw [((agree_held same).2.2.2 slot).2.2.2, d.memories.old (cap ▸ inCap), (slots slot).2.2.2]
      simpa using unmapped
    exact ((grown.agree same).retire maps).imp fun _ _ done => wp_pure.mpr done

end

/-! ### Images -/

/-- Images are placed in the region of the root, or in a live region. -/
def Hosted (region : Option Nat) (dest : LoadRegion) (s : K) : Prop :=
  match region with
  | none => dest = rootRegion
  | some r => r < s.memories.cap ∧ (s.memories.slot r).state = .live ∧ dest = childRegion (s.memories.slot r)

/-- An image is being placed, and interrupts may come. -/
def Loading (region : Option Nat) (dest : LoadRegion) (s : K) : Prop := Granted [] s ∧ Backed s ∧ Hosted region dest s

section
variable {s t : K} {G : Ev → Prop} {n : Nat} {A : K → Prop} {r i p : Nat} {region : Option Nat} {dest : LoadRegion}

theorem Hosted.agree (same : Agree [.memory .region, .machine .slabs] s t) (h : Hosted region dest s) :
    Hosted region dest t := by
  have shape : s.shape = t.shape := same (.machine .slabs) (by decide)
  simp only [K.shape, List.cons.injEq, Prod.mk.injEq] at shape
  cases region with
  | none => exact h
  | some r =>
    obtain ⟨inCap, live, rfl⟩ := h
    obtain ⟨state, base, len, -⟩ := same (.memory .region) (by decide) r
    refine ⟨shape.2.2.2.2.2.2.2.1.1 ▸ inCap, state ▸ live, ?_⟩
    simp only [childRegion, base, len]

/-- The bytes between two addresses of the destination are the region's. -/
theorem Hosted.entitled {row : GrantRow} (h : Hosted region dest s) (own : row.region = region)
    (low : dest.base ≤ row.pa) (high : row.pa + (row.top - row.base) ≤ dest.top) : Entitled s row := by
  subst own
  unfold Entitled
  unfold Hosted at h
  split at h
  · rename_i none
    subst h
    rw [none]
    exact Or.inr (Or.inl ⟨low, high⟩)
  · rename_i r named
    obtain ⟨inCap, live, rfl⟩ := h
    rw [named]
    exact ⟨inCap, live, low, Nat.le_trans high (le_alignUp _ _)⟩

/-- Whatever lets only interrupts in between. -/
theorem Loading.sheltered {m : M Unit} (calm : ∀ s₀, Keeps G n A (Sheltered nowhere s₀) m) :
    Keeps G n A (Loading region dest) m :=
  fun s h => (calm s s (.refl h.2.1)).imp fun _ _ ht =>
    ⟨h.1.agree (ht.2.parts.mono (by decide)), ht.1, h.2.2.agree (ht.2.parts.mono (by decide))⟩

theorem Loading.recordGrant {base top pa perms : Nat} {device : Bool} {named : Option Nat} (h : Loading region dest s)
    (may : Entitled s ⟨base, top, pa, perms, device, named⟩) :
    wp G n (recordGrant p base top pa perms device named) (fun _ => Loading region dest) (.leaving A) s := by
  have others : Spares (backedParts ++ [.memory .region]) (Sawos.recordGrant p base top pa perms device named) :=
    spares_recordGrant (by decide)
  refine ((h.1.recordGrant may).and (others.wp (A := ⟨A, fun _ => True⟩) (fun _ _ => trivial) n s)).mono (fun _ => id)
    (fun _ t ht => ?_) (fun _ => And.left) (fun _ _ => trivial) fun _ _ => trivial
  obtain ⟨granted, same⟩ := ht
  exact ⟨granted, h.2.1.agree (same.mono (by decide)), h.2.2.agree (same.mono (by decide))⟩

/-- A segment that passed gets a row inside its region: a row may end a granule behind its segment, where the stack
    is. -/
theorem Loading.placeSegment (grain : Hal.protGrain ≤ Hal.rootStackLen) (stack : dest.stackLen = Hal.rootStackLen)
    (room : dest.base + dest.stackLen ≤ dest.top) {img imgLen rw : Nat} {seg : SosimgSeg} {allow : Bool}
    (h : Loading region dest s) (checked : checkSegment seg imgLen dest allow = none) :
    wp G n (placeSegment p img dest region seg rw) (fun _ => Loading region dest) (.leaving A) s := by
  refine wp_ite.mpr ⟨fun _ => ?_, fun memory => ?_⟩
  · refine wp_bind.mpr (wp_addWord.mpr fun _ => wp_bind.mpr ?_)
    have may : Entitled s ⟨seg.loadAddr, seg.loadAddr + seg.memLen, seg.loadAddr, seg.flags, true, none⟩ := Or.inl rfl
    exact (h.recordGrant may).imp fun _ _ ht => wp_pure.mpr ht
  refine wp_bind.mpr
    (wp_bind.mpr (wp_subWord.mpr fun _ => wp_addWord.mpr fun _ => wp_bind.mpr (wp_addWord.mpr fun _ => ?_)))
  refine wp_bind.mpr
    ((Loading.sheltered (fun _ => Sheltered.longCopy misses_nowhere fun _ none => none.elim) s h).imp fun _ t ht => ?_)
  refine wp_bind.mpr (wp_addWord.mpr fun _ => wp_bind.mpr (wp_subWord.mpr fun _ => ?_))
  refine wp_bind.mpr
    ((Loading.sheltered (fun _ => Sheltered.longZero misses_nowhere fun _ none => none.elim) t ht).imp fun _ u hu => ?_)
  refine wp_bind.mpr (wp_addWord.mpr fun _ => wp_bind.mpr (wp_alignUpWord.mpr fun _ => wp_bind.mpr ?_))
  have within := (checked_of_checkSegment checked).memory (by simpa using memory)
  obtain ⟨k, pow⟩ := Hal.protGrain_pow
  have above := alignUp_lt (v := seg.loadAddr + seg.memLen) (pow ▸ Nat.two_pow_pos k : 0 < Hal.protGrain)
  simp only [LoadRegion.linkTop] at within
  have may : Entitled u ⟨seg.loadAddr, alignUp (seg.loadAddr + seg.memLen) Hal.protGrain,
      dest.base + (seg.loadAddr - dest.linkBase), seg.flags, false, region⟩ := by
    refine hu.2.2.entitled rfl (Nat.le_add_right _ _) ?_
    show dest.base + (seg.loadAddr - dest.linkBase) +
      (alignUp (seg.loadAddr + seg.memLen) Hal.protGrain - seg.loadAddr) ≤ dest.top
    omega
  exact (hu.recordGrant may).imp fun _ _ hv => wp_pure.mpr hv

theorem Loading.placeImage (stands : ∀ e, G e → ImageStands e) (grain : Hal.protGrain ≤ Hal.rootStackLen)
    (stack : dest.stackLen = Hal.rootStackLen) {img : Nat} :
      Keeps G n A (Loading region dest) (placeImage p img dest region) := by
  intro s hs
  refine wp_bind.mpr (wp_mark.mpr fun good => wp_bind.mpr (wp_reads.mpr ?_))
  obtain ⟨-, _, _, valid⟩ := stands _ good
  have room : dest.base + dest.stackLen ≤ dest.top := validateImage_room valid
  refine wp_bind.mpr (wp_loop (I := fun _ => Loading region dest) ?_ hs)
  rintro ⟨i, rwBase⟩ t ht
  refine wp_ite.mpr ⟨fun _ => ?_, fun _ => wp_pure.mpr ?_⟩
  · refine wp_bind.mpr (wp_mark.mpr fun good' => wp_bind.mpr (wp_reads.mpr (wp_bind.mpr ?_)))
    obtain ⟨inside, imgLen, allow, valid'⟩ := stands _ good'
    have checked := (validateImage_checks valid').2.2 i inside
    exact (ht.placeSegment grain stack room checked).imp fun _ _ hu => wp_pure.mpr hu
  · refine wp_bind.mpr ((ht.recordGrant (ht.2.2.entitled rfl ?_ ?_)).imp fun _ _ hu => wp_pure.mpr hu)
    · show dest.base ≤ dest.top - dest.stackLen
      omega
    · show dest.top - dest.stackLen + (dest.linkTop - (dest.linkTop - dest.stackLen)) ≤ dest.top
      omega

theorem Granted.fillProcess (stands : ∀ e, G e → ImageStands e) (grain : Hal.protGrain ≤ Hal.rootStackLen)
    {slot img dst : Nat} (stack : dest.stackLen = Hal.rootStackLen) :
    Leads G n A (Loading (some dst) dest) (Granted []) (fillProcess slot img dest dst) := by
  refine (Loading.placeImage stands grain stack).leads.bind fun _ s hs => wp_bind.mpr (wp_reads.mpr ?_)
  refine wp_bind.mpr (wp_modifyProcess.mpr fun hp => ?_)
  refine Keeps.bind (Granted.spares (spares_statsClear (by decide))) (fun _ => ?_) _ (hs.1.sameRows hp ⟨rfl, rfl⟩)
  exact .bind (Granted.spares (by simp)) fun _ => Granted.spares (by simp +decide)

/-- An image is placed in a region that has room for it. -/
theorem Granted.processCreate (stands : ∀ e, G e → ImageStands e) (grain : Hal.protGrain ≤ Hal.rootStackLen) {m : Nat} :
    Leads G n (Granted []) (fun s => Granted [] s ∧ Backed s ∧
      ∀ j < s.memories.cap, (s.memories.slot j).state = .free → (s.memories.slot j).len = 0) (Granted [])
        (processCreate p i m) := by
  have w : Steady G n (Granted []) := Granted.steady
  rintro s ⟨hs, backed, vacant⟩
  refine wp_bind.mpr (w.wp_memoryArg mortal_any hs fun _ _ => wp_bind.mpr (w.wp_memoryArg mortal_any hs fun _ _ => ?_))
  generalize ((s.processes.slot p).lookup m).target = dst
  refine wp_bind.mpr (wp_readMemory.mpr fun _ => wp_bind.mpr (wp_readMemory.mpr fun inCap => ?_))
  refine wp_ite.mpr ⟨fun _ => wp_pure.mpr hs, fun fits => wp_bind.mpr (wp_reads.mpr ?_)⟩
  refine wp_ite.mpr ⟨fun _ => wp_pure.mpr hs, fun _ => wp_bind.mpr (wp_reads.mpr ?_)⟩
  split
  · exact wp_pure.mpr hs
  rename_i slot found
  have live : (s.memories.slot dst).state = .live := by
    have room := (imageFits_room (by simpa using fits)).1
    cases state : (s.memories.slot dst).state with
    | live => rfl
    | free =>
      rw [vacant dst inCap state] at room
      exact absurd room (Nat.not_lt_zero _)
  have loading : Loading (some dst) (childRegion (s.memories.slot dst)) s := ⟨hs, backed, inCap, live, rfl⟩
  refine wp_bind.mpr (wp_spares (S := heldParts ++ backedParts) (by simp +decide) fun _ t same => ?_)
  have hs' := hs.agree (same.mono (by decide))
  refine wp_ite.mpr ⟨fun _ => ?_, fun _ => wp_bind.mpr ?_⟩
  · exact (Granted.spares (.bind (by simp) fun _ => spares_pure)) t hs'
  · refine (Granted.fillProcess stands grain rfl t ⟨hs', backed.agree (same.mono (by decide)), ?_⟩).imp fun _ _ h =>
      wp_pure.mpr h
    exact Hosted.agree (same.mono (by decide)) loading.2.2

/-! ### The boot -/

theorem Granted.fresh (hs : s.Fresh) : Granted [] s := by
  have bare : ∀ q, (s.processes.slot q).grantCount = 0 := fun q => by rw [hs.processes]; rfl
  refine ⟨fun q i hi => ?_, fun q _ => bare q, by simp, fun j _ => ?_⟩
  · rw [bare q] at hi
    cases hi
  · have unmapped : (s.memories.slot j).maps = 0 := by rw [hs.memories]; rfl
    have unnamed : s.naming j = 0 := Nat.eq_zero_of_not_pos fun pos => by
      obtain ⟨q, -, i, hi, -⟩ := naming_pos.mp pos
      rw [bare q] at hi
      cases hi
    rw [unmapped, unnamed]
    rfl

/-- The regions of the boot table go into slots that are free. -/
theorem Granted.mintBootRegions : Keeps G n A (Granted []) (mintBootRegions p) := by
  refine .bind (.whenever (Granted.spares (by simp))) fun _ => .countUp fun i => ?_
  split
  · exact keeps_pure
  rename_i row _
  refine .bind (.whenever (Granted.spares (by simp))) fun _ => .bind (.whenever (Granted.spares (by simp))) fun _ => ?_
  refine .bind (Granted.spares (by simp)) fun _ => .bind (.whenever (Granted.spares (by simp))) fun _ =>
    .ite ?_ (Granted.spares ?_)
  · refine fun s hs => wp_bind.mpr (wp_allocMemory.mpr ?_)
    rcases found : s.memories.find (·.state = .free) with _ | slot
    · exact wp_halt.mpr trivial
    obtain ⟨inCap, free⟩ := Slab.find_some found
    have unmapped : (s.memories.slot slot).maps = 0 := Classical.byContradiction fun mapped => by
      rw [hs.live inCap mapped] at free
      simp at free
    refine wp_bind.mpr (wp_modifyMemory.mpr fun _ => Granted.spares ?_ _ (hs.replace unmapped rfl))
    exact .bind (by simp +decide) fun _ => .bind (.whenever spares_halt) fun _ => .bind (by simp +decide) fun _ =>
      by simp +decide
  · refine .bind (by simp) fun found => ?_
    cases found with
    | none => exact spares_halt
    | some slot =>
      refine .bind (spares_ioMemories (by simp +decide)) fun _ => .bind (by simp +decide) fun _ => ?_
      exact .bind (.whenever spares_halt) fun _ => .bind (by simp +decide) fun _ => by simp +decide

theorem Granted.startProcess {e sp rb rt wb wt : Nat} : Keeps G n A (Granted []) (startProcess e sp rb rt wb wt) := by
  refine .bind (fun _ hs => wp_modifyProcess.mpr fun hp => hs.sameRows hp ⟨rfl, rfl⟩) fun _ => ?_
  refine .bind (Granted.spares (spares_statsClear (by decide))) fun _ => .bind (Granted.spares (by simp)) fun _ => ?_
  refine .bind (Granted.spares (by simp +decide)) fun _ => .bind (Granted.spares (by simp +decide)) fun _ => ?_
  refine .bind (Granted.spares (by simp +decide)) fun _ => .bind (Granted.spares (by simp +decide)) fun _ => ?_
  refine .bind (Granted.spares (by simp)) fun found => ?_
  cases found with
  | none => exact Granted.spares spares_halt
  | some main =>
    refine .bind (Granted.spares (by simp +decide)) fun _ => .bind (Granted.spares (spares_threads ?_)) fun _ => ?_
    · simp +decide
    refine .bind (Granted.spares (by simp +decide)) fun _ => .bind (Granted.spares ?_) fun _ => ?_
    · simp +decide
    refine .bind (.whenever (Granted.spares spares_halt)) fun _ => .bind Granted.mintBootRegions fun _ =>
      Granted.spares (.bind ?_ fun _ => ?_)
    · simp +decide
    · exact spares_frameInit (by decide)

theorem Granted.boot (stands : ∀ e, G e → ImageStands e) (grain : Hal.protGrain ≤ Hal.rootStackLen) :
    Leads G n A K.Fresh (Granted []) loadRootAndEnter := fun s hs =>
  boot_leads (I := Loading none rootRegion) (J := Loading none rootRegion) (L := Granted [])
    (fun _ => (Loading.placeImage stands grain rfl).leads) (fun t ht => Granted.spares (by simp +decide) t ht.1)
    (fun _ _ _ _ _ _ => Granted.startProcess.leads) s ⟨.fresh hs, .fresh hs, rfl⟩

/-! ### Every step -/

/-- An image that was checked stands while it is placed, and no byte is cut off a region that rows name. -/
def Steadfast (e : Ev) : Prop := ImageStands e ∧ CutsLoose e

/-- The records alone, for no protection unit in particular. -/
theorem follows_any (room : Hal.maxRootSegments + 1 ≤ Hal.grantRowBudget) (stands : ∀ e, G e → ImageStands e) :
    Follows G fun _ => True where
  room := room
  stands := stands
  about _ _ _ _ := trivial
  load s p n _ := (spares_loadDomain (S := []) (by simp) (by simp) n s).mono (fun _ => id) (fun _ _ _ => trivial)
    (fun _ => id) (fun _ => id) fun _ _ => trivial
  install _ _ _ _ _ _ _ := trivial
  revoke _ _ _ _ _ _ _ _ := trivial
  clear _ _ _ := trivial

/-- The rows, beside what they rest on: who owns what, which rows Mappings name, and how the pools are divided. -/
def Secured (s : K) : Prop := (Owned none s ∧ Records (fun _ => True) none s) ∧ Lodged [] s ∧ Granted [] s

theorem Lodged.vacant {ds : List Donation} (h : Lodged ds s) :
    ∀ j < s.memories.cap, (s.memories.slot j).state = .free → (s.memories.slot j).len = 0 := by
  obtain ⟨-, more, banked⟩ := h
  exact fun j hj free => (banked.pooled.vacant j hj free).1

variable (room : Hal.maxRootSegments + 1 ≤ Hal.grantRowBudget) (grain : Hal.protGrain ≤ Hal.rootStackLen)
include room grain

theorem Secured.grounded : SteadyGrounded Steadfast n Secured := by
  have w : SteadyGrounded Steadfast n fun s => Owned none s ∧ Records (fun _ => True) none s :=
    Records.grounded (follows_any room fun _ => And.left)
  have w' : SteadyGrounded Steadfast n (Lodged []) := Lodged.grounded
  have g : Steady Steadfast n (Granted []) := Granted.steady
  have about : ∀ s t, Agree heldParts s t → Granted [] s → Granted [] t := fun _ _ => Granted.agree
  exact {
    toUpkeep := Steady.and w.toUpkeep (Steady.and w'.toUpkeep g)
    split := fun p r len hp => (w.split p r len hp).and ((w'.split p r len hp).and (Granted.split fun _ => And.right))
    map := fun p r i t a hp => ((w.map p r i t a hp).leads.and ((w'.map p r i t a hp).leads.and Granted.map)).imp
      (fun _ hs => ⟨hs.1, hs.2.1, hs.2.2, hs.2.1.vacant⟩) fun _ => id
    mapDevice := fun p i t hp => (w.mapDevice p i t hp).and ((w'.mapDevice p i t hp).and Granted.mapDevice)
    mapStats := fun p d c hp => ((w.mapStats p d c hp).and ((w'.mapStats p d c hp).and Granted.mapStats.leads)).imp
      (fun _ hs => ⟨⟨hs.1.1, hs.2⟩, ⟨hs.1.2.1, hs.2⟩, hs.1.2.2⟩) fun _ => id
    unmap := fun p i hp => ((w.unmap p i hp).leads.and ((w'.unmap p i hp).leads.and Granted.unmap)).imp
      (fun _ hs => ⟨hs.1, hs.2.1, hs.2.2, hs.1.2.toNamed⟩) fun _ => id
    donate := fun p k h hp => ((w.donate p k h hp).leads.and ((w'.donate p k h hp).leads.and Granted.donate)).imp
      (fun _ hs => ⟨hs.1, hs.2.1, hs.2.2, hs.2.1.1⟩) fun _ => id
    processCreate := fun p i m hp => ((w.processCreate p i m hp).leads.and ((w'.processCreate p i m hp).leads.and
      (Granted.processCreate (fun _ => And.left) grain))).imp
      (fun _ hs => ⟨hs.1, hs.2.1, hs.2.2, hs.2.1.1, hs.2.1.vacant⟩) fun _ => id
    start := fun p c f t hp => (w.start p c f t hp).and ((w'.start p c f t hp).and (g.start about (by decide) hp))
    threadCreate := fun q e sp a => ((w.threadCreate q e sp a).and ((w'.threadCreate q e sp a).and
      (g.threadCreate about (by decide)))).imp
      (fun _ hs => ⟨⟨hs.1.1, hs.2⟩, ⟨hs.1.2.1, hs.2⟩, hs.1.2.2, hs.2⟩) fun _ => id
    devices := w.devices.and (w'.devices.and (g.devices fun _ _ same => Granted.agree (same.mono (by decide)))) }

theorem Secured.reachable (h : ReachableWith Steadfast s) : Secured s :=
  Grounded.reachable (fun _ => Secured.grounded room grain) (fun _ s hs =>
    (((Owned.boot (A := fun _ => False)).and
      (Records.boot (A := fun _ => False) (follows_any room fun _ => And.left) fun _ _ => trivial)).and
      ((Lodged.boot (A := fun _ => False)).and (Granted.boot (A := fun _ => False) (fun _ => And.left) grain)) s
      ⟨⟨hs, hs⟩, hs, hs⟩).mono (fun _ => id) (fun _ _ => id) (fun _ h => h.1.1) (fun _ => id) fun _ => id) h

end

/-! ### Whose the bytes are -/

section
variable {s : K} {ds : List Donation} {r i j : Nat}

/-- No other live region has a byte of region `r`, no pool can cut one off, and no donation of `ds` took one. -/
structure Sole (ds : List Donation) (s : K) (r : Nat) : Prop where
  regions : ∀ i < s.memories.cap, i ≠ r → (s.memories.slot i).state = .live → (s.memories.slot i).span.Apart
    (s.memories.slot r).span
  ranges : ∀ k l, IsRoot s k → FreeList s k l → ∀ x ∈ s.freeSpans l, x.Apart (s.memories.slot r).span
  donations : ∀ d ∈ ds, d.region.Apart (s.memories.slot r).span

/-- What two pools have is apart. -/
theorem Pool.apart {k : Nat} {l l' : List Nat} {x y : Span} (boots : PoolsApart) (pool : Pool none [] s r l)
    (pool' : Pool none [] s k l') (ne : r ≠ k) (hx : x ∈ (s.memories.slot r).span :: (s.freeSpans l ++ s.pieces none r))
    (hy : y ∈ (s.memories.slot k).span :: (s.freeSpans l' ++ s.pieces none k)) : x.Apart y := fun a both =>
  boots r k _ _ ne pool.origin pool'.origin a ⟨(pool.given_apart hx).1 a both.1, (pool'.given_apart hy).1 a both.2⟩

theorem Pool.part {l : List Nat} {x : Span} (h : x ∈ (s.memories.slot r).span :: s.pieces none r) :
    x ∈ (s.memories.slot r).span :: (s.freeSpans l ++ s.pieces none r) := by
  rcases List.mem_cons.mp h with own | piece
  · exact own ▸ List.mem_cons_self
  · exact List.mem_cons_of_mem _ (List.mem_append_right _ piece)

/-- The frontier and the pieces of a pool are apart, and the free ranges from both. -/
theorem Pool.parts_apart {l : List Nat} (pool : Pool none [] s r l) :
    (∀ x ∈ s.pieces none r, (s.memories.slot r).span.Apart x) ∧ (s.pieces none r).Pairwise Span.Apart ∧
      ∀ x ∈ s.freeSpans l, ∀ y ∈ (s.memories.slot r).span :: s.pieces none r, x.Apart y := by
  have split : s.shares none [] r l = (s.memories.slot r).span :: (s.freeSpans l ++ s.pieces none r ++
      ((s.memories.slot r).history.lost ++ (s.memories.slot r).history.donated)) := by simp [K.shares]
  have fills := pool.fills
  rw [split] at fills
  obtain ⟨head, rest⟩ := List.pairwise_cons.mp fills.apart
  obtain ⟨-, pieces, across⟩ := List.pairwise_append.mp (List.pairwise_append.mp rest).1
  refine ⟨fun x hx => head x (by simp [hx]), pieces, fun x hx y hy => ?_⟩
  rcases List.mem_cons.mp hy with rfl | piece
  · exact (head x (by simp [hx])).symm
  · exact across x hx y piece

theorem Banked.sole (boots : PoolsApart) (h : Banked ds s) (inCap : r < s.memories.cap)
    (live : (s.memories.slot r).state = .live) :
    Sole ds s r := by
  by_cases empty : (s.memories.slot r).len = 0
  · have apart : ∀ x, Span.Apart x (s.memories.slot r).span := fun x => (Span.apart_of_empty empty).symm
    exact ⟨fun i _ _ _ => apart _, fun _ _ _ _ x _ => apart x, fun d _ => apart _⟩
  obtain ⟨k, l, root, pool, part, from'⟩ := h.pooled.pool_of inCap live empty
  refine ⟨fun i hi ne live' => ?_, fun k' l' root' list x hx => ?_, fun d hd => (h.live_apart boots hd inCap live).symm⟩
  · by_cases empty' : (s.memories.slot i).len = 0
    · exact Span.apart_of_empty empty'
    obtain ⟨k', l', root', pool', part', from''⟩ := h.pooled.pool_of hi live' empty'
    by_cases same : k' = k
    · subst same
      obtain ⟨head, pieces, -⟩ := pool.parts_apart
      have cut : ∀ j < s.memories.cap, j ≠ k' → (s.memories.slot j).state = .live → (s.memories.slot j).root = some k' →
          j ∈ (List.range s.memories.cap).filter fun j => (s.memories.slot j).CutFrom j k' ∧ some j ≠ none :=
            fun j hj other live of =>
        List.mem_filter.mpr ⟨List.mem_range.mpr hj, decide_eq_true ⟨⟨other, live, of⟩, by simp⟩⟩
      by_cases first : i = k'
      · subst first
        exact head _ (List.mem_map.mpr ⟨r, cut r inCap (Ne.symm ne) live from', rfl⟩)
      by_cases second : r = k'
      · subst second
        exact (head _ (List.mem_map.mpr ⟨i, cut i hi ne live' from'', rfl⟩)).symm
      have symm : Std.Symm fun i j => (s.memories.slot i).span.Apart (s.memories.slot j).span :=
        ⟨fun _ _ => Span.Apart.symm⟩
      exact (List.pairwise_map.mp pieces).forall (cut i hi first live' from'') (cut r inCap second live from') ne
    · exact pool'.apart boots pool same (Pool.part part') (Pool.part part)
  · obtain ⟨m, pool'⟩ := h.pooled.pools k' root'
    obtain rfl := list.unique pool'.toFreeList
    by_cases same : k' = k
    · subst same
      obtain rfl := list.unique pool.toFreeList
      exact pool.parts_apart.2.2 x hx _ part
    · exact pool'.apart boots pool same (List.mem_cons_of_mem _ (List.mem_append_left _ hx)) (Pool.part part)

end

end

section

attribute [local instance] sampleBuild sampleTarget Riscv32.board

/-- The events that the condition on a run is about, decided. -/
def steadfastTest (e : Ev) : Bool :=
  standsTest e && match e with
    | .mark (.cut r) s => decide ((s.memories.slot r).maps = 0)
    | _ => true

theorem steadfast_of_test {e : Ev} (h : steadfastTest e = true) : Steadfast e := by
  simp only [steadfastTest, Bool.and_eq_true] at h
  refine ⟨imageStands_of_test h.1, ?_⟩
  cases e with
  | mark p s =>
    cases p with
    | cut r => exact of_decide_eq_true (p := (s.memories.slot r).maps = 0) h.2
    | _ => trivial
  | _ => trivial

end

end Sawos
