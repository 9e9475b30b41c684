import Sawos.Boards.Arm64
import Sawos.Boards.PmpRecord
import Sawos.Lib.FirstFit
import Sawos.Kernel.Placement
import Sawos.Kernel.Rations
import Sawos.Kernel.Refusals
import Sawos.Kernel.Samples

/-! # Where a mapping goes

A map takes the lowest range of the process that no memory row has, above its image. The search is a cursor that jumps
over the rows, which stand in any order, and every pass that moves it leaves a row behind. -/

namespace Sawos
open Exec

section
variable [Hal]

/-- The memory rows of a record, for a range of `len` bytes: a cursor goes behind a row that its range meets. -/
def rowCourse (len : Nat) : Course Nat GrantRow where
  blocks row va := !row.device && decide (va < row.top) && decide (row.base < va + len)
  behind row := alignUp row.top Hal.protGrain
  ahead row va h := by
    simp only [Bool.and_eq_true, decide_eq_true_eq] at h
    exact Nat.lt_of_lt_of_le h.1.2 (le_alignUp _ _)

/-- A pass over the rows of a record. -/
def ProcessSlot.pass (slot : ProcessSlot) (len va : Nat) : Nat := (rowCourse len).pass slot.rows va

/-- The passes of a search that may still be made. -/
def ProcessSlot.search (slot : ProcessSlot) (len : Nat) : Nat → Nat → Nat
  | 0, va => va
  | k + 1, va => if wordMax - va < len ∨ slot.pass len va = va then va else slot.search len k (slot.pass len va)

/-- The address that a search for `len` bytes answers. -/
def ProcessSlot.freeVa (slot : ProcessSlot) (len : Nat) : Nat := slot.search len (slot.grantCount + 1) slot.regionTop

/-- A memory row of a record. -/
def ProcessSlot.MemoryRow (slot : ProcessSlot) (row : GrantRow) : Prop := row ∈ slot.rows ∧ row.device = false

/-- The range that a search of `len` bytes ends with. -/
structure Chosen (slot : ProcessSlot) (len va : Nat) : Prop where
  /-- A pass within the bound ended the search: the range leaves the address space, or nothing moved the cursor. -/
  ends : ∃ k ≤ slot.grantCount, va = (slot.pass len)^[k] slot.regionTop ∧ (wordMax - va < len ∨ slot.pass len va = va)
  above : slot.regionTop ≤ va
  free : wordMax - va < len ∨ ∀ row, slot.MemoryRow row → row.top ≤ va ∨ va + len ≤ row.base
  /-- A lower range would meet a row, or begin in the granule that the row ends in. -/
  lowest : ∀ v, slot.regionTop ≤ v → v < va →
    ∃ row, slot.MemoryRow row ∧ row.base < v + len ∧ v < alignUp row.top Hal.protGrain

/-- A range behind a row that ends above the image is in the address space, or no row ends further up. -/
def ProcessSlot.Roomy (slot : ProcessSlot) (len : Nat) : Prop :=
  ∀ row, slot.MemoryRow row → slot.regionTop < row.top → alignUp row.top Hal.protGrain < wordModulus ∧
    (alignUp row.top Hal.protGrain + len < wordModulus ∨
      ∀ row', slot.MemoryRow row' → row'.top ≤ alignUp row.top Hal.protGrain)

section
variable {slot : ProcessSlot} {len va : Nat} {row : GrantRow}

theorem blocks_iff : (rowCourse len).blocks row va = true ↔ row.device = false ∧ va < row.top ∧
    row.base < va + len := by
  simp [rowCourse, and_assoc]

theorem pass_eq_iff_free : slot.pass len va = va ↔ ∀ row, slot.MemoryRow row → row.top ≤ va ∨ va + len ≤ row.base := by
  unfold ProcessSlot.pass
  rw [Course.pass_eq_iff]
  constructor
  · rintro clear row ⟨mem, memory⟩
    have free : ¬(va < row.top ∧ row.base < va + len) := fun meets => by
      have blocked := blocks_iff.mpr ⟨memory, meets⟩
      rw [clear row mem] at blocked
      cases blocked
    omega
  · intro clear row mem
    rcases blocked : (rowCourse len).blocks row va with _ | _
    · rfl
    obtain ⟨memory, below, above⟩ := blocks_iff.mp blocked
    rcases clear row ⟨mem, memory⟩ with under | beyond <;> omega

theorem le_passes_regionTop {k : Nat} : slot.regionTop ≤ (slot.pass len)^[k] slot.regionTop := Course.le_passes

/-- What the passes of a search skip is no range that it could take. -/
theorem passes_skip {k v : Nat} (low : slot.regionTop ≤ v) (high : v < (slot.pass len)^[k] slot.regionTop) :
    ∃ row, slot.MemoryRow row ∧ row.base < v + len ∧ v < alignUp row.top Hal.protGrain := by
  obtain ⟨row, mem, a, -, before, blocks, behind⟩ := Course.passes_skipped low high
  obtain ⟨memory, -, meets⟩ := blocks_iff.mp blocks
  exact ⟨row, ⟨mem, memory⟩, by omega, behind⟩

/-- A cursor where the search ends. -/
theorem Chosen.of_passes {k : Nat} (within : k ≤ slot.grantCount)
    (ends : wordMax - (slot.pass len)^[k] slot.regionTop < len ∨
      slot.pass len ((slot.pass len)^[k] slot.regionTop) = (slot.pass len)^[k] slot.regionTop) :
    Chosen slot len ((slot.pass len)^[k] slot.regionTop) :=
  ⟨⟨k, within, rfl, ends⟩, le_passes_regionTop, ends.imp_right pass_eq_iff_free.mp, fun _ => passes_skip⟩

end

/-! ### The search -/

section
variable {n p len : Nat} {W : Stop → Prop} {s : K} {slot : ProcessSlot}

theorem landsOr_alignUpWord {v align : Nat} {Q : Nat → K → Prop} (wraps : wordModulus ≤ alignUp v align → W .panic)
    (h : Q (alignUp v align) s) : LandsOr W n (alignUpWord v align) Q s := by
  rcases Nat.lt_or_ge (alignUp v align) wordModulus with fits | long
  · rw [alignUpWord, if_pos fits]
    exact (lands_pure h).or
  · rw [alignUpWord, if_neg (Nat.not_lt.mpr long)]
    exact landsOr_halt (wraps long)

/-- The range at the cursor is in the address space, or the rows are behind it. -/
def ProcessSlot.FitsAt (slot : ProcessSlot) (len va : Nat) : Prop :=
  va + len < wordModulus ∨ ∀ row, slot.MemoryRow row → row.top ≤ va

omit [Hal] in
/-- The rows from `i` on. -/
theorem rows_drop {i : Nat} (hi : i < slot.grantCount) :
    slot.rows.drop i = slot.grants i :: slot.rows.drop (i + 1) := by
  have there : i < slot.rows.length := by simpa [ProcessSlot.rows] using hi
  rw [List.drop_eq_getElem_cons there]
  simp [ProcessSlot.rows]

omit [Hal] in
theorem memoryRow_grants {i : Nat} (hi : i < slot.grantCount) (memory : (slot.grants i).device = false) :
    slot.MemoryRow (slot.grants i) :=
  ⟨List.mem_map.mpr ⟨i, List.mem_range.mpr hi, rfl⟩, memory⟩

/-- A pass returns; where the record is roomy it stops nothing. -/
theorem landsOr_bumpPastRows {va : Nat} (low : slot.regionTop ≤ va) (fits : W .panic ∨ va + len < wordModulus)
    (safe : W .panic ∨ slot.Roomy len) (enough : slot.grantCount < n) :
    LandsOr W n (bumpPastRows slot len va) (fun r t => r = slot.pass len va ∧ t = s) s := by
  refine landsOr_loop (m := slot.grantCount) (I := fun m (at' : Nat × Nat) t => t = s ∧ m = slot.grantCount - at'.1 ∧
    slot.regionTop ≤ at'.2 ∧ (W .panic ∨ slot.FitsAt len at'.2) ∧
    (rowCourse len).pass (slot.rows.drop at'.1) at'.2 = slot.pass len va) ?_
      ⟨rfl, rfl, low, fits.imp_right Or.inl, rfl⟩ enough
  rintro m ⟨i, cur⟩ t ⟨rfl, rfl, above, fitsAt, ends⟩
  dsimp only at above fitsAt ends ⊢
  by_cases more : i < slot.grantCount
  · rw [if_pos more]
    have less : slot.grantCount - (i + 1) < slot.grantCount - i := by omega
    rw [rows_drop more, Course.pass_cons, Course.step] at ends
    by_cases under : (!(slot.grants i).device && decide (cur < (slot.grants i).top)) = true
    · rw [if_pos under]
      obtain ⟨memory, below⟩ : (slot.grants i).device = false ∧ cur < (slot.grants i).top := by simpa using under
      have row := memoryRow_grants more memory
      refine landsOr_bind (landsOr_addWord (fun wraps => ?_) ?_)
      · rcases fitsAt with stops | inside | behind
        · exact stops
        · omega
        · have := behind _ row
          omega
      by_cases meets : (slot.grants i).base < cur + len
      · rw [if_pos meets]
        rw [if_pos (blocks_iff.mpr ⟨memory, below, meets⟩)] at ends
        have moved := le_alignUp (slot.grants i).top Hal.protGrain
        refine landsOr_bind (landsOr_alignUpWord (fun wraps => ?_) ((lands_pure ⟨_, less, rfl, rfl, ?_, ?_, ends⟩).or))
        · rcases safe with stops | roomy
          · exact stops
          · have := (roomy _ row (by omega)).1
            omega
        · exact Nat.le_trans above (Nat.le_of_lt (Nat.lt_of_lt_of_le below moved))
        · exact safe.imp_right fun roomy => (roomy _ row (by omega)).2
      · rw [if_neg meets]
        rw [if_neg fun blocks => meets (blocks_iff.mp blocks).2.2] at ends
        exact (lands_pure ⟨_, less, rfl, rfl, above, fitsAt, ends⟩).or
    · rw [if_neg under]
      have free : ¬(rowCourse len).blocks (slot.grants i) cur = true := fun blocks => under <| by
        obtain ⟨memory, below, -⟩ := blocks_iff.mp blocks
        simp [memory, below]
      rw [if_neg free] at ends
      exact (lands_pure ⟨_, less, rfl, rfl, above, fitsAt, ends⟩).or
  · rw [if_neg more]
    have none : slot.rows.drop i = [] := List.drop_eq_nil_of_le (by simpa [ProcessSlot.rows] using more)
    rw [none, Course.pass_nil] at ends
    exact (lands_pure ⟨ends, rfl⟩).or

/-- The search returns what it is to choose; where the record is roomy it stops nothing. -/
theorem landsOr_freeUserVa (hp : p < s.processes.cap) (safe : W .panic ∨ 0 < len ∧
      (wordMax - (s.processes.slot p).regionTop < len ∨ (s.processes.slot p).Roomy len))
    (enough : (s.processes.slot p).grantCount < n) :
    LandsOr W n (freeUserVa p len) (fun va t => t = s ∧ Chosen (s.processes.slot p) len va) s := by
  generalize here : s.processes.slot p = slot at safe enough ⊢
  refine landsOr_bind (landsOr_readProcess hp ?_)
  rw [here]
  refine landsOr_loop (m := slot.grantCount) (I := fun m (at' : Nat × Nat) t => t = s ∧ m = slot.grantCount - at'.1 ∧
    at'.2 = (slot.pass len)^[at'.1] slot.regionTop ∧
    ∀ j < at'.1, slot.pass len ((slot.pass len)^[j] slot.regionTop) ≠ (slot.pass len)^[j] slot.regionTop) ?_
    ⟨rfl, rfl, rfl, fun _ h => absurd h (Nat.not_lt_zero _)⟩ enough
  rintro m ⟨k, va⟩ t ⟨rfl, rfl, at', moves⟩
  dsimp only at at' moves ⊢
  subst at'
  have within : ∀ {k},
    (∀ j < k, slot.pass len ((slot.pass len)^[j] slot.regionTop) ≠ (slot.pass len)^[j] slot.regionTop) →
      k ≤ slot.grantCount := fun moves => by
    simpa [ProcessSlot.rows] using Course.passes_le (c := rowCourse len) (l := slot.rows) moves
  by_cases leaves : wordMax - (slot.pass len)^[k] slot.regionTop < len
  · rw [if_pos (by simp [leaves])]
    exact (lands_pure ⟨rfl, Chosen.of_passes (within moves) (Or.inl leaves)⟩).or
  rw [if_neg (by simpa [leaves] using within moves)]
  have low : slot.regionTop ≤ (slot.pass len)^[k] slot.regionTop := le_passes_regionTop
  have fits : W .panic ∨ (slot.pass len)^[k] slot.regionTop + len < wordModulus := by
    refine safe.imp_right fun positive => ?_
    unfold wordMax at leaves
    omega
  have roomy : W .panic ∨ slot.Roomy len := safe.imp_right fun room => room.2.resolve_left (by omega)
  refine landsOr_bind ((landsOr_bumpPastRows low fits roomy enough).imp ?_)
  rintro _ _ ⟨rfl, rfl⟩
  by_cases stays : slot.pass len ((slot.pass len)^[k] slot.regionTop) = (slot.pass len)^[k] slot.regionTop
  · rw [if_pos stays]
    exact (lands_pure ⟨rfl, Chosen.of_passes (within moves) (Or.inr stays)⟩).or
  rw [if_neg stays]
  have next : ∀ j < k + 1, slot.pass len ((slot.pass len)^[j] slot.regionTop) ≠ (slot.pass len)^[j] slot.regionTop := by
    intro j hj
    rcases Nat.lt_succ_iff_lt_or_eq.mp hj with before | rfl
    · exact moves j before
    · exact stays
  have bound := within next
  exact (lands_pure
    ⟨_, Nat.sub_succ_lt_self _ _ bound, rfl, rfl,
      (Function.iterate_succ_apply' (slot.pass len) k slot.regionTop).symm, next⟩).or

/-- A pass that returns moves the cursor behind the rows that its range meets. -/
theorem wp_bumpPastRows {G : Ev → Prop} {A : Conduct K Ev} {va : Nat} :
    wp G n (bumpPastRows slot len va) (fun r t => r = slot.pass len va ∧ t = s) (.leaving A) s := by
  refine wp_loop (I := fun (at' : Nat × Nat) t => t = s ∧
    (rowCourse len).pass (slot.rows.drop at'.1) at'.2 = slot.pass len va) ?_ ⟨rfl, rfl⟩
  rintro ⟨i, cur⟩ t ⟨rfl, ends⟩
  dsimp only at ends ⊢
  refine wp_ite.mpr ⟨fun more => ?_, fun done => wp_pure.mpr ?_⟩
  · rw [rows_drop more, Course.pass_cons, Course.step] at ends
    refine wp_ite.mpr ⟨fun under => wp_bind.mpr (wp_addWord.mpr fun _ => ?_), fun beyond => wp_pure.mpr ⟨rfl, ?_⟩⟩
    · obtain ⟨memory, below⟩ : (slot.grants i).device = false ∧ cur < (slot.grants i).top := by simpa using under
      refine wp_ite.mpr ⟨fun meets => wp_bind.mpr (wp_alignUpWord.mpr fun _ => wp_pure.mpr ⟨rfl, ?_⟩),
        fun free => wp_pure.mpr ⟨rfl, ?_⟩⟩
      · rwa [if_pos (blocks_iff.mpr ⟨memory, below, meets⟩)] at ends
      · rwa [if_neg fun blocks => free (blocks_iff.mp blocks).2.2] at ends
    · rwa [if_neg fun blocks => beyond (by simp [(blocks_iff.mp blocks).1, (blocks_iff.mp blocks).2.1])] at ends
  · rw [List.drop_eq_nil_of_le (by simpa [ProcessSlot.rows] using done), Course.pass_nil] at ends
    exact ⟨ends, rfl⟩

/-- A search that returns answers the address that the passes lead to. -/
theorem wp_freeUserVa {G : Ev → Prop} {A : Conduct K Ev} :
    wp G n (freeUserVa p len) (fun va t => va = (s.processes.slot p).freeVa len ∧ t = s) (.leaving A) s := by
  refine wp_bind.mpr (wp_readProcess.mpr fun _ => ?_)
  generalize s.processes.slot p = slot
  refine wp_loop (I := fun (at' : Nat × Nat) t => t = s ∧
    slot.search len (slot.grantCount + 1 - at'.1) at'.2 = slot.freeVa len) ?_ ⟨rfl, rfl⟩
  rintro ⟨k, va⟩ t ⟨rfl, leads⟩
  dsimp only at leads ⊢
  refine wp_ite.mpr ⟨fun ends => wp_pure.mpr ⟨?_, rfl⟩, fun goes => wp_bind.mpr (wp_bumpPastRows.imp ?_)⟩
  · rcases more : slot.grantCount + 1 - k with _ | m <;> rw [more] at leads
    · exact leads
    · have leaves : wordMax - va < len := by
        simp only [Bool.or_eq_true, decide_eq_true_eq] at ends
        omega
      rwa [ProcessSlot.search, if_pos (Or.inl leaves)] at leads
  · rintro _ _ ⟨rfl, rfl⟩
    simp only [Bool.or_eq_true, decide_eq_true_eq, not_or, Nat.not_lt] at goes
    rw [show slot.grantCount + 1 - k = slot.grantCount + 1 - (k + 1) + 1 by omega, ProcessSlot.search] at leads
    by_cases stays : slot.pass len va = va
    · rw [if_pos (Or.inr stays)] at leads
      rw [if_pos stays]
      exact wp_pure.mpr ⟨leads, rfl⟩
    · rw [if_neg (by simp [stays, goes.2])] at leads
      rw [if_neg stays]
      exact wp_pure.mpr ⟨rfl, leads⟩

/-- A map whose search ends where the range leaves the address space is refused, where the row would go there. -/
theorem lands_installRow_leaves {q t base top perms : Nat} {device : Bool} {region : Option Nat}
    (ht : t < s.processes.cap) (search : Lands n (freeUserVa t (top - base))
      (fun va u => u = s ∧ wordMax - Hal.mapPlace va base device < top - base) s)
    (room : s.affords t .mapping 1 = true → (s.processes.slot t).grantCount < Hal.grantRowBudget) :
    Lands n (installRow q t base top perms device region)
      (fun r u => u = s ∧ r = opStatus (if s.affords t .mapping 1 then .noResource else .quotaExceeded)) s := by
  refine lands_bind (Q := _) (lands_bind (lands_read ht (lands_pure ?_)))
  show Lands n (if s.affords t .mapping 1 = true then _ else _) _ s
  by_cases affords : s.affords t .mapping 1 = true
  · rw [if_pos affords, if_pos affords]
    refine lands_bind (lands_read ht (lands_bind (lands_whenever (fun full => ?_) fun _ => lands_bind (search.imp ?_))))
    · exact absurd (room affords) (Nat.not_lt.mpr (of_decide_eq_true full))
    · rintro va u ⟨rfl, leaves⟩
      rw [if_pos leaves]
      exact lands_pure ⟨rfl, rfl⟩
  · rw [if_neg affords, if_neg affords]
    exact lands_pure ⟨rfl, rfl⟩

/-- What becomes of a row that goes where it is: the search is made, and its answer is not used. -/
def installInPlace (p t base top perms : Nat) (device : Bool) (region : Option Nat) : M SyscallResult := do
  if ← quotaRoom t .mapping then
    let _ ← freeUserVa t (top - base)
    if !device && !Hal.mapTargetOk base top then return opStatus .noResource
    mintRow p t base top base perms device region
  else
    return opStatus .quotaExceeded

theorem installRow_inPlace {q t base top perms : Nat} {device : Bool} {region : Option Nat} (ht : t < s.processes.cap)
    (room : s.affords t .mapping 1 = true → (s.processes.slot t).grantCount < Hal.grantRowBudget)
    (there : ∀ va, Hal.mapPlace va base device = base) (low : base ≤ top) (high : top ≤ wordMax) :
    installRow q t base top perms device region n s = installInPlace q t base top perms device region n s := by
  have fits : ¬wordMax - base < top - base := by omega
  unfold installRow installInPlace quotaRoom
  simp only [bind_assoc, pure_then, there, if_neg fits, Nat.add_sub_cancel' low]
  rw [read_then ht, read_then ht]
  show (if s.affords t .mapping 1 = true then _ else _ : M SyscallResult) n s =
    (if s.affords t .mapping 1 = true then _ else _ : M SyscallResult) n s
  by_cases affords : s.affords t .mapping 1 = true
  · rw [if_pos affords, if_pos affords, read_then ht, whenever, if_neg, pure_then]
    exact fun full => absurd (room affords) (Nat.not_lt.mpr (of_decide_eq_true full))
  · rw [if_neg affords, if_neg affords]

end

/-! ### Records that a run builds -/

/-- A row ends where an image that ends at `top` does, up to the grain. -/
def GrantRow.EndsBy (row : GrantRow) (top : Nat) : Prop :=
  row.top ≤ top ∨ row.top % Hal.protGrain = 0 ∧ row.top ≤ alignUp top Hal.protGrain ∧ row.top < wordModulus

/-- The memory rows are those of the image, and rows that went where a map may go. -/
def ProcessSlot.Fenced (a : ProcessSlot) : Prop :=
  ∀ i < a.grantCount, (a.grants i).device = false →
    Hal.mapTargetOk (a.grants i).base (a.grants i).top = true ∨ (a.grants i).EndsBy a.regionTop

section
variable {n p img : Nat} {dest : LoadRegion} {region : Option Nat} {s : K}

/-- The rows of an image that stands end where the image does. -/
theorem imageStands_lays : Lays ImageStands p img dest region
    fun _ a => ∀ i < a.grantCount, (a.grants i).device = false → (a.grants i).EndsBy dest.linkTop where
  same _ a b same h := by
    rwa [same.rows, same.count] at h
  device _ _ seg h := ProcessSlot.forall_pushRow (P := fun row => row.device = false → row.EndsBy dest.linkTop) h
    fun memory => by cases memory
  memory _ s i pa good _ _ laid seg there memory fits := by
    obtain ⟨k, pow⟩ := Hal.protGrain_pow
    obtain ⟨bound, imgLen, allow, valid⟩ := good
    have passed := passed_of_checkSegment (there ▸ (validateImage_checks valid).2.2 i bound) memory
    refine ProcessSlot.forall_pushRow (P := fun row => row.device = false → row.EndsBy dest.linkTop)
      laid fun _ => Or.inr ?_
    refine ⟨?_, ?_, fits⟩
    · simp only [SosimgSeg.rowTop, pow]
      exact alignUp_mod _ k
    · simp only [SosimgSeg.rowTop, pow]
      exact alignUp_mono (Nat.le_trans passed.high (Nat.sub_le _ _))
  stack _ _ h := ProcessSlot.forall_pushRow (P := fun row => row.device = false → row.EndsBy dest.linkTop) h
    fun _ => Or.inl (Nat.le_refl _)

theorem fenced_tends : Tends ImageStands fun _ a => a.Lives → a.Fenced where
  same _ a b same h live := by
    have fenced := h (same.lives.mpr live)
    unfold ProcessSlot.Fenced at fenced ⊢
    rwa [same.rows, same.count, same.window.2.1] at fenced
  push _ a row live target h _ := ProcessSlot.forall_pushRow
    (P := fun row => row.device = false → Hal.mapTargetOk row.base row.top = true ∨ row.EndsBy a.regionTop) (h live)
    fun memory => Or.inl (target memory)
  drop s p r live _ _ _ h _ i hi memory := by
    have fewer : i + 1 < (s.processes.slot p).grantCount := Nat.add_lt_of_lt_sub hi
    revert memory
    simp only [ProcessSlot.dropRow]
    split
    · exact h live (i + 1) fewer
    · exact h live i (Nat.lt_of_succ_lt fewer)
  dead _ _ _ _ dead _ live := absurd live dead
  ends _ _ _ _ dead _ live := absurd live dead
  place n p img dest region s free bare _ A := by
    refine (imageStands_lays.placeImage free fun i hi => absurd (bare ▸ hi) (Nat.not_lt_zero i)).imp ?_
    rintro rw t ⟨-, laid⟩ b placed _ i hi memory
    rw [placed.rows, placed.count] at *
    rw [placed.window.2.1]
    exact Or.inr (laid i hi memory)

end

/-! ### Boards -/

/-- A range has room behind all that may be mapped, or the end of the image leaves it none at all. -/
def ProcessSlot.Room (slot : ProcessSlot) (len : Nat) : Prop :=
  0 < len ∧ ((∀ base top, Hal.mapTargetOk base top = true → top + len ≤ wordMax) ∨ wordMax - slot.regionTop < len)

/-- Memory that may be mapped ends at `hi`, in front of as much room as a map may ask for. -/
structure MemoryEnds (hi : Nat) : Prop where
  grain : hi % Hal.protGrain = 0
  word : hi < wordModulus
  reached : ∃ lo, Hal.mapTargetOk lo hi = true
  target : ∀ base top, Hal.mapTargetOk base top = true → top ≤ hi
  source : ∀ base top, Hal.mapSourceOk base top = true → base < top ∧ hi + (top - base) ≤ wordMax
  window : ∀ base len, Hal.deviceWindowOk base len = true → base + len < wordModulus → 2 * len < wordModulus →
    0 < len ∧ hi + len ≤ wordMax

/-- A record that is fenced is roomy. -/
theorem ProcessSlot.Fenced.roomy {slot : ProcessSlot} {len hi : Nat} (fenced : slot.Fenced) (ends : MemoryEnds hi)
    (room : hi + len < wordModulus) : slot.Roomy len := by
  obtain ⟨k, pow⟩ := Hal.protGrain_pow
  have grain := ends.grain
  unfold ProcessSlot.Fenced GrantRow.EndsBy at fenced
  unfold ProcessSlot.Roomy
  rw [pow] at grain fenced ⊢
  have each : ∀ row, slot.MemoryRow row →
      row.top ≤ hi ∨ row.top ≤ slot.regionTop ∨ row.top % 2 ^ k = 0 ∧ row.top ≤ alignUp slot.regionTop (2 ^ k) ∧
        row.top < wordModulus := by
    rintro row ⟨mem, memory⟩
    obtain ⟨i, hi', rfl⟩ := List.mem_map.mp mem
    rcases fenced i (List.mem_range.mp hi') memory with target | image
    · exact Or.inl (ends.target _ _ target)
    · exact Or.inr image
  intro row here beyond
  rcases each row here with low | within | ⟨whole, bound, word⟩
  · have up := alignUp_le low grain
    exact ⟨by omega, Or.inl (by omega)⟩
  · omega
  · rw [alignUp_of_mod whole]
    refine ⟨word, ?_⟩
    rcases Nat.lt_or_ge hi row.top with past | short
    · refine Or.inr fun row' there => ?_
      have up := alignUp_le (Nat.le_of_lt beyond) whole
      rcases each row' there with low' | within' | ⟨-, bound', -⟩ <;> omega
    · exact Or.inl (by omega)

end

/-- The boards that isolate their processes. -/
inductive Supported : Hal → Prop
  | riscv32 [Build] [Riscv32.Target] : Supported Riscv32.board
  | arm64 [Build] [Arm64.Gic] : Supported Arm64.board

section
variable [Build] [Riscv32.Target]

attribute [local instance] Riscv32.board

theorem memoryEnds_riscv32 : MemoryEnds (Riscv32.ramTop Riscv32.Target.machine) := by
  have range : ∀ {base top}, Riscv32.mapRangeOk Riscv32.Target.machine base top = true →
      base < top ∧ Riscv32.ramBase Riscv32.Target.machine ≤ base ∧ top ≤ Riscv32.ramTop Riscv32.Target.machine := by
    intro base top h
    simpa [Riscv32.mapRangeOk, and_assoc] using h
  have word : wordMax = 2 ^ 32 - 1 := rfl
  have modulus : wordModulus = 2 ^ 32 := rfl
  refine ⟨?_, ?_, ⟨Riscv32.ramBase Riscv32.Target.machine, ?_⟩, fun base top h => (range h).2.2, fun base top h => ?_,
    fun base len h fits half => ?_⟩
  · show Riscv32.ramTop Riscv32.Target.machine % 4 = 0
    cases Riscv32.Target.machine <;> rfl
  · rw [modulus]
    cases Riscv32.Target.machine <;> decide
  · show Riscv32.mapRangeOk _ _ _ = true
    cases Riscv32.Target.machine <;> rfl
  · obtain ⟨some', low, high⟩ := range h
    refine ⟨some', ?_⟩
    rw [word]
    cases machine : Riscv32.Target.machine <;> rw [machine] at low high
      <;> simp only [Riscv32.ramBase, Riscv32.ramTop] at low high ⊢ <;> omega
  · obtain ⟨positive, pow, -⟩ := Pmp.deviceWindowOk_iff.mp h
    obtain ⟨k, rfl⟩ := (Nat.and_sub_one_eq_zero_iff_isPowerOfTwo (by omega)).mp pow
    have small : k ≤ 30 := by
      rw [modulus, ← Nat.pow_succ', Nat.pow_lt_pow_iff_right (by decide)] at half
      omega
    have bound : 2 ^ k ≤ 2 ^ 30 := Nat.pow_le_pow_right (by decide) small
    refine ⟨Nat.two_pow_pos k, ?_⟩
    rw [word]
    cases Riscv32.Target.machine <;> simp only [Riscv32.ramTop] <;> omega

end

section
variable [Build] [Arm64.Gic]

attribute [local instance] Arm64.board

theorem memoryEnds_arm64 : MemoryEnds (Arm64.ramBase + (Arm64.grantPages <<< Arm64.pageShift)) := by
  have word : wordMax = 2 ^ 64 - 1 := rfl
  have modulus : wordModulus = 2 ^ 64 := rfl
  have target : Arm64.ramBase + (Arm64.grantPages <<< Arm64.pageShift) = 0x40400000 := by decide
  have ram : Arm64.ramBase + Arm64.ramLen = 0x48000000 := by decide
  have devices : Arm64.deviceWindowBase + Arm64.deviceWindowLen = 0x9200000 := by decide
  have targets : ∀ base top, Hal.mapTargetOk base top = true ↔ (base < top ∧ Arm64.ramBase ≤ base) ∧
    top ≤ 0x40400000 := by
    intro base top
    change (base < top && Arm64.ramBase ≤ base &&
      top ≤ Arm64.ramBase + (Arm64.grantPages <<< Arm64.pageShift)) = true ↔ _
    rw [target]
    simp
  have sources : ∀ base top, Hal.mapSourceOk base top = true ↔ (base < top ∧ Arm64.ramBase ≤ base) ∧
    top ≤ 0x48000000 := by
    intro base top
    change (base < top && Arm64.ramBase ≤ base && top ≤ Arm64.ramBase + Arm64.ramLen) = true ↔ _
    rw [ram]
    simp
  rw [target]
  refine ⟨?_, by rw [modulus]; decide, ⟨Arm64.ramBase, (targets _ _).mpr (by decide)⟩, fun base top h =>
    ((targets _ _).mp h).2, fun base top h => ?_, fun base len h _ _ => ?_⟩
  · show 0x40400000 % 4096 = 0
    rfl
  · have inside := (sources _ _).mp h
    rw [word]
    omega
  · change Arm64.deviceWindowOk base len = true at h
    simp only [Arm64.deviceWindowOk] at h
    split at h
    · cases h
    split at h
    · cases h
    rename_i size _
    have inside : Arm64.deviceWindowBase ≤ base ∧ len ≤ Arm64.deviceWindowBase + Arm64.deviceWindowLen - base := by
      simpa using h
    have some' : Arm64.protGrain ≤ len ∧ len % Arm64.protGrain = 0 := by simpa using size
    have grain : Arm64.protGrain = 4096 := rfl
    rw [word]
    omega

end

theorem Supported.memoryEnds [h : Hal] (supported : Supported h) : ∃ hi, MemoryEnds hi := by
  cases supported with
  | riscv32 => exact ⟨_, memoryEnds_riscv32⟩
  | arm64 => exact ⟨_, memoryEnds_arm64⟩

section
variable [h : Hal]

/-- How a range is chosen for `p`: a search always ends by one of its two reasons, and in a run whose images stand
    nothing on the way overflows. In every state that is reached, what would leave the address space is refused with
    nothing written where it would go there, and a row that goes where it is goes there whatever the search
    answers. -/
structure Chooses (s : K) (p : Nat) : Prop where
  ends : ∀ len n, (s.processes.slot p).grantCount < n →
    LandsOr (· = .panic) n (freeUserVa p len) (fun va t => t = s ∧ Chosen (s.processes.slot p) len va) s
  fits : ReachableWith ImageStands s → ∀ len n, (s.processes.slot p).Room len → (s.processes.slot p).grantCount < n →
    Lands n (freeUserVa p len) (fun va t => t = s ∧ Chosen (s.processes.slot p) len va) s
  memory : ∀ base top, Hal.mapSourceOk base top = true → (s.processes.slot p).Room (top - base)
  window : ∀ base len, Hal.deviceWindowOk base len = true → base + len < wordModulus → 2 * len < wordModulus →
    (s.processes.slot p).Room len
  refuses : Reachable s → ∀ n va q base top perms device region, Lands n (freeUserVa p (top - base))
    (fun r _ => r = va) s →
    wordMax - va < top - base → Hal.mapPlace va base device = va → (s.processes.slot p).grantCount < n →
    Lands n (installRow q p base top perms device region)
      (fun r t => t = s ∧ r = opStatus (if s.affords p .mapping 1 then .noResource else .quotaExceeded)) s
  inPlace : Reachable s → ∀ n q base top perms device region, (∀ va, Hal.mapPlace va base device = base) → base ≤ top →
    top ≤ wordMax →
      installRow q p base top perms device region n s = installInPlace q p base top perms device region n s
  devices : ∀ va base, Hal.mapPlace va base true = base

omit h in
/-- No board maps a device window anywhere but where it is. -/
theorem Supported.devices [h : Hal] (supported : Supported h) (va base : Nat) : Hal.mapPlace va base true = base := by
  cases supported <;> rfl

/-- A free range is chosen on every board that isolates processes, from every record. -/
theorem free_ranges_are_chosen (supported : Supported h) {s : K} {p : Nat} (hp : p < s.processes.cap) :
    Chooses s p := by
  obtain ⟨hi, ends⟩ := supported.memoryEnds
  have returns : ∀ len n, (s.processes.slot p).grantCount < n →
      LandsOr (· = .panic) n (freeUserVa p len) (fun va t => t = s ∧ Chosen (s.processes.slot p) len va) s :=
    fun len n enough => landsOr_freeUserVa hp (Or.inl rfl) enough
  refine ⟨returns, fun reached len n room enough => ?_, fun base top ok => ?_, fun base len ok fits half => ?_,
    fun reached n va q base top perms device region lands leaves there enough => ?_,
    fun reached n q base top perms device region there low high => ?_, supported.devices⟩
  · obtain ⟨-, tended⟩ := Tended.reachable fenced_tends (fun _ live => absurd rfl live.1) reached
    have fenced : (s.processes.slot p).Fenced := by
      by_cases live : (s.processes.slot p).Lives
      · exact tended.holds p (by simp) live
      · intro i hi'
        exact absurd (tended.vacant p (by simp) live ▸ hi') (Nat.not_lt_zero i)
    refine (landsOr_freeUserVa (W := fun _ => False) hp (Or.inr ⟨room.1, ?_⟩) enough).lands
    rcases room.2 with behind | leaves
    · obtain ⟨lo, target⟩ := ends.reached
      have := behind lo hi target
      have := ends.word
      exact Or.inr (fenced.roomy ends (by unfold wordMax at *; omega))
    · exact Or.inl leaves
  · obtain ⟨some', room⟩ := ends.source base top ok
    refine ⟨Nat.sub_pos_of_lt some', Or.inl fun lo up target => ?_⟩
    have := ends.target lo up target
    omega
  · obtain ⟨some', room⟩ := ends.window base len ok fits half
    refine ⟨some', Or.inl fun lo up target => ?_⟩
    have := ends.target lo up target
    omega
  · refine lands_installRow_leaves hp ?_ (Rationed.reachable reached).affords
    obtain ⟨_, t, tr, run, rfl⟩ := lands
    rcases returns (top - base) n enough with ⟨r, u, tr', run', same, -⟩ | ⟨w, tr', -, run'⟩
    · obtain ⟨rfl, rfl, rfl⟩ := Outcome.ok.inj (run.symm.trans run')
      exact ⟨_, _, tr, run, same, by rwa [there]⟩
    · cases run.symm.trans run'
  · exact installRow_inPlace hp (Rationed.reachable reached).affords there low high

end

/-- Where a search for `len` bytes of the root ends. -/
def rootSearch [Hal] (len : Nat) (s : K) : Option Nat :=
  match freeUserVa rootProcess len 64 s with
  | .ok va _ _ => some va
  | _ => none

theorem lands_of_rootSearch [Hal] {len va : Nat} {s : K} (h : rootSearch len s = some va) :
    Lands 64 (freeUserVa rootProcess len) (fun r _ => r = va) s := by
  unfold rootSearch at h
  split at h
  · exact ⟨_, _, _, ‹_›, Option.some.inj h⟩
  · cases h

/-- The root of a machine has mapped its memory, and a search of 2 MiB goes behind the row. -/
def GoesBehind [Hal] : Prop := ∃ s : K, Reachable s ∧ (s.processes.slot rootProcess).regionTop < 0x80410000 ∧
  Lands 64 (freeUserVa rootProcess 0x200000)
    (fun va t => t = s ∧ Chosen (s.processes.slot rootProcess) 0x200000 va ∧ va = 0x80410000) s

/-- A range as long as the address space is refused the root of a machine. -/
def TurnsAway [Hal] : Prop := ∃ s : K, Reachable s ∧
  Lands 64 (installRow rootProcess rootProcess 0 wordMax segRead false none)
    (fun r t => t = s ∧ r = opStatus .noResource) s

/-- The lower half of a machine's address space is mapped where it is, and the search for as much ends outside. -/
def StaysInPlace [Hal] : Prop := ∃ s : K, Reachable s ∧ wordMax - 0x80240000 < 0x80000000 ∧
  Lands 64 (freeUserVa rootProcess 0x80000000) (fun va _ => va = 0x80240000) s ∧
  installRow rootProcess rootProcess 0 0x80000000 (segRead ||| segWrite) true none 64 s =
    installInPlace rootProcess rootProcess 0 0x80000000 (segRead ||| segWrite) true none 64 s

section

/-- A build whose root has the lower half of the address space for its devices. -/
@[reducible] def wideBuild : Build := smallBuild 1 0x20000000 [⟨0, 0x80000000, 1⟩]

/-- A machine with pages, and nothing in its boot table. -/
@[reducible] def pagedMachine : Hal := @Arm64.board (smallBuild 2 0x20003000 []) ⟨32⟩

theorem free_ranges_are_chosen_behind : @GoesBehind (@Riscv32.board sampleBuild sampleTarget) ∧
    @TurnsAway pagedMachine ∧ @StaysInPlace (@Riscv32.board wideBuild sampleTarget) := by
  refine ⟨?_, ?_, ?_⟩
  · let _ := @Riscv32.board sampleBuild sampleTarget
    obtain ⟨s, reached, found⟩ := reachable_of_played (i := [.call 4 1 2 3 0]) (G := ImageStands) (g := standsTest)
      (c := fun s => decide (rootProcess < s.processes.cap ∧ (s.processes.slot rootProcess).regionTop < 0x80410000 ∧
        (s.processes.slot rootProcess).grantCount < 64) && decide (rootSearch 0x200000 s = some 0x80410000))
      (by decide +kernel) fun _ => imageStands_of_test
    simp only [Bool.and_eq_true, decide_eq_true_eq] at found
    obtain ⟨⟨there, below, few⟩, ends⟩ := found
    have chooses := free_ranges_are_chosen (@Supported.riscv32 sampleBuild sampleTarget) there
    have room : (s.processes.slot rootProcess).Room 0x200000 := chooses.memory 0x80400000 0x80600000 (by decide)
    obtain ⟨va, t, tr, run, same, chosen⟩ := chooses.fits reached 0x200000 64 room few
    obtain ⟨_, _, _, run', rfl⟩ := lands_of_rootSearch ends
    obtain ⟨rfl, -, -⟩ := Outcome.ok.inj (run.symm.trans run')
    exact ⟨s, ⟨reached.choose, reached.choose_spec.1, fun _ _ => trivial⟩, below, _, t, tr, run, same, chosen, rfl⟩
  · let _ := pagedMachine
    obtain ⟨s, reached, found⟩ := reachable_of_played (i := []) (G := fun _ => True) (g := fun _ => true)
      (c := fun s => decide (rootProcess < s.processes.cap ∧ (s.processes.slot rootProcess).grantCount < 64) &&
        decide (rootSearch wordMax s = some 0x40240000) && s.affords rootProcess .mapping 1)
          (by decide +kernel) fun _ _ => trivial
    simp only [Bool.and_eq_true, decide_eq_true_eq] at found
    obtain ⟨⟨⟨there, few⟩, ends⟩, affords⟩ := found
    have chooses := free_ranges_are_chosen (@Supported.arm64 (smallBuild 2 0x20003000 []) ⟨32⟩) there
    have refused := chooses.refuses reached 64 0x40240000 rootProcess 0 wordMax segRead false none
      (lands_of_rootSearch ends) (by decide) rfl few
    rw [if_pos affords] at refused
    exact ⟨s, reached, refused⟩
  · let _ := @Riscv32.board wideBuild sampleTarget
    obtain ⟨s, reached, found⟩ := reachable_of_played (i := []) (G := fun _ => True) (g := fun _ => true)
      (c := fun s => decide (rootProcess < s.processes.cap) && decide (rootSearch 0x80000000 s = some 0x80240000))
      (by decide +kernel) fun _ _ => trivial
    simp only [Bool.and_eq_true, decide_eq_true_eq] at found
    have chooses := free_ranges_are_chosen (@Supported.riscv32 wideBuild sampleTarget) found.1
    exact ⟨s, reached, by decide, lands_of_rootSearch found.2,
      chooses.inPlace reached 64 rootProcess 0 0x80000000 _ true none (fun _ => chooses.devices _ _)
        (by decide) (by decide)⟩

end

section

attribute [local instance] wideBuild sampleTarget Riscv32.board

/-- A window of the root goes where it is, not where the search ends. -/
def rootInstalls (s : K) : Bool :=
  match installRow rootProcess rootProcess 0 0x80000000 (segRead ||| segWrite) true none 64 s with
  | .ok r _ _ => decide (r.status = .ok)
  | _ => false

/-- The search ends where the range leaves the address space, and the window is mapped. -/
theorem window_goes_elsewhere : ¬∀ s : K, Reachable s → ∀ i < s.ioMemories.cap, (s.ioMemories.slot i).state = .live →
    (s.ioMemories.slot i).process = rootProcess → ∀ va,
    Lands 64 (freeUserVa rootProcess (s.ioMemories.slot i).len) (fun r _ => r = va) s →
      wordMax - va < (s.ioMemories.slot i).len →
    Lands 64 (installRow rootProcess rootProcess (s.ioMemories.slot i).base
      ((s.ioMemories.slot i).base + (s.ioMemories.slot i).len)
      (segRead ||| segWrite) true none) (fun r t => t = s ∧ r = opStatus .noResource) s := by
  intro all
  obtain ⟨s, reached, found⟩ := reachable_of_played (i := []) (G := fun _ => True) (g := fun _ => true)
    (c := fun s => decide (0 < s.ioMemories.cap ∧ (s.ioMemories.slot 0).state = .live ∧
      (s.ioMemories.slot 0).process = rootProcess ∧
      (s.ioMemories.slot 0).base = 0 ∧ (s.ioMemories.slot 0).len = 0x80000000) &&
      decide (rootSearch 0x80000000 s = some 0x80240000) && rootInstalls s) (by decide +kernel) fun _ _ => trivial
  simp only [Bool.and_eq_true, decide_eq_true_eq] at found
  obtain ⟨⟨⟨there, live, own, base, len⟩, ends⟩, installs⟩ := found
  have refused := all s reached 0 there live own 0x80240000
  rw [base, len] at refused
  obtain ⟨_, _, _, run, -, rfl⟩ := refused (lands_of_rootSearch ends) (by decide)
  unfold rootInstalls at installs
  rw [Nat.zero_add] at run
  rw [run] at installs
  have fine : SosStatus.noResource = .ok := of_decide_eq_true installs
  cases fine

end

end Sawos
