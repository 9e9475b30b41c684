import Sawos.Kernel.Samples
import Sawos.Sysapi.Records

/-! # The table of boot regions in bytes

The build stitches the table into the machine's image, a header and one row behind the other, in the layout that both
widths of a machine word read. The kernel overlays the header and the rows on the section, and mints from what it
finds. -/

namespace Sawos
open Exec

/-! ### Data in memory -/

/-- The bytes `data` stand in the memory from `pa` on. -/
def StandsAt (mem : Nat → UInt8) (pa : Nat) (data : List UInt8) : Prop := loadBytes mem pa data.length = data

section
variable {mem : Nat → UInt8} {pa : Nat}

@[simp] theorem length_loadBytes {k : Nat} : (loadBytes mem pa k).length = k := by simp [loadBytes]

theorem loadBytes_add {k l : Nat} : loadBytes mem pa (k + l) = loadBytes mem pa k ++ loadBytes mem (pa + k) l := by
  simp only [loadBytes, List.range_add, List.map_append, List.map_map]
  congr 1
  exact List.map_congr_left fun i _ => congrArg mem (Nat.add_assoc pa k i).symm

theorem standsAt_append {a b : List UInt8} : StandsAt mem pa (a ++ b) ↔ StandsAt mem pa a ∧
    StandsAt mem (pa + a.length) b := by
  rw [StandsAt, List.length_append, loadBytes_add, StandsAt, StandsAt]
  exact ⟨fun h => List.append_inj h length_loadBytes, fun h => by rw [h.1, h.2]⟩

theorem standsAt_storeBytes {data : List UInt8} : StandsAt (storeBytes mem pa data) pa data := by
  refine List.ext_getElem length_loadBytes fun i _ hi => ?_
  simp only [loadBytes, List.getElem_map, List.getElem_range, storeBytes]
  rw [if_pos ⟨Nat.le_add_right pa i, Nat.add_lt_add_left hi pa⟩, Nat.add_sub_cancel_left, List.getD_eq_getElem?_getD,
    List.getElem?_eq_getElem hi, Option.getD_some]

/-- A number that stands in memory is read back. -/
theorem StandsAt.read {w v : Nat} (h : StandsAt mem pa (wordBytesLe w v)) (fits : v < 256 ^ w) :
    ofBytesLe (loadBytes mem pa w) = v := by
  rw [StandsAt, length_wordBytesLe] at h
  rw [h, ofBytesLe_wordBytesLe fits]

end

/-! ### What the stitcher emits -/

def regionTableMagic : Nat := 0x4E475253
def regionTableVersion : Nat := 2
def regionTableHeaderBytes : Nat := 8
def regionRowBytes : Nat := 24

section
variable [Hal]

/-- One 64-bit field. An assembler for 32 bits has no such field to point at a symbol, and writes the low half and a
    zero. -/
def emitWord64 (v : Nat) : List UInt8 :=
  if Hal.wordBits = 32 then wordBytesLe 4 v ++ wordBytesLe 4 0 else wordBytesLe 8 v

def emitRow (row : BootRegion) : List UInt8 :=
  emitWord64 row.base ++ (emitWord64 row.len ++ (wordBytesLe 1 row.kind ++ List.replicate 7 0))

def stitchRegions (rows : List BootRegion) : List UInt8 :=
  wordBytesLe 4 regionTableMagic ++
    (wordBytesLe 2 regionTableVersion ++ (wordBytesLe 1 rows.length ++ (wordBytesLe 1 0 ++ rows.flatMap emitRow)))

/-- What an assembler for the machine can write of a row. -/
structure BootRegion.Fits (row : BootRegion) : Prop where
  base : row.base < wordModulus
  len : row.len < wordModulus
  kind : row.kind < 256

end

/-! ### What the kernel reads -/

structure RegionTableHeader where
  magic : Nat
  version : Nat
  count : Nat

def regionHeaderAt (mem : Nat → UInt8) (addr : Nat) : RegionTableHeader :=
  ⟨ofBytesLe (loadBytes mem addr 4), ofBytesLe (loadBytes mem (addr + 4) 2), ofBytesLe (loadBytes mem (addr + 6) 1)⟩

def regionRowAt (mem : Nat → UInt8) (addr : Nat) : BootRegion :=
  ⟨ofBytesLe (loadBytes mem addr 8), ofBytesLe (loadBytes mem (addr + 8) 8), ofBytesLe (loadBytes mem (addr + 16) 1)⟩

section
variable [Hal]

/-- Mint the root process a handle on each region of the table that stands in the section from `start` to `stop`. -/
def mintRegionTable (p start stop : Nat) : M Unit := do
  whenever (stop < start) (halt .fatalImage)
  let len := stop - start
  if len = 0 then return
  whenever (len < regionTableHeaderBytes) (halt .fatalImage)
  let header ← reads fun s => regionHeaderAt s.mem start
  whenever (header.magic ≠ regionTableMagic) (halt .fatalImage)
  whenever (header.version ≠ regionTableVersion) (halt .fatalImage)
  whenever (maxMemories + maxIoMemories < header.count) (halt .fatalImage)
  whenever (len - regionTableHeaderBytes < header.count * regionRowBytes) (halt .fatalImage)
  countUp (fun i => do
    let row ← reads fun s => regionRowAt s.mem (start + regionTableHeaderBytes + i * regionRowBytes)
    mintBootRegion p i row) header.count 0

/-! ### One field and one row -/

@[simp] theorem length_emitWord64 {v : Nat} : (emitWord64 v).length = 8 := by
  unfold emitWord64
  split <;> simp

@[simp] theorem length_emitRow {row : BootRegion} : (emitRow row).length = regionRowBytes := by
  simp [emitRow, regionRowBytes]

@[simp] theorem length_flatMap_emitRow {rows : List BootRegion} :
    (rows.flatMap emitRow).length = rows.length * regionRowBytes := by
  induction rows with
  | nil => simp
  | cons row rows ih =>
    rw [List.flatMap_cons, List.length_append, length_emitRow, ih, List.length_cons, Nat.succ_mul, Nat.add_comm]

theorem length_stitchRegions {rows : List BootRegion} :
    (stitchRegions rows).length = regionTableHeaderBytes + rows.length * regionRowBytes := by
  simp only [stitchRegions, List.length_append, length_wordBytesLe, length_flatMap_emitRow, regionTableHeaderBytes]
  omega

/-- On either machine a field is the 64 bits of its value. -/
theorem emitWord64_eq (profile : Sos.Profiled) {v : Nat} (fits : v < wordModulus) :
    emitWord64 v = wordBytesLe 8 v ∧ v < 256 ^ 8 := by
  rcases profile with narrow | wide
  · rw [wordModulus, narrow] at fits
    have zero : v / 256 / 256 / 256 / 256 = 0 := by omega
    refine ⟨?_, by omega⟩
    rw [emitWord64, if_pos narrow]
    simp [wordBytesLe, zero]
  · rw [wordModulus, wide] at fits
    exact ⟨if_neg (by omega), by omega⟩

theorem regionRowAt_emitRow (profile : Sos.Profiled) {mem : Nat → UInt8} {addr : Nat}
    {row : BootRegion} (fits : row.Fits) (stands : StandsAt mem addr (emitRow row)) : regionRowAt mem addr = row := by
  obtain ⟨baseIs, baseFits⟩ := emitWord64_eq profile fits.base
  obtain ⟨lenIs, lenFits⟩ := emitWord64_eq profile fits.len
  rw [emitRow, baseIs, lenIs] at stands
  obtain ⟨base, stands⟩ := standsAt_append.mp stands
  obtain ⟨len, stands⟩ := standsAt_append.mp stands
  obtain ⟨kind, -⟩ := standsAt_append.mp stands
  simp only [length_wordBytesLe] at len kind
  rw [regionRowAt, base.read baseFits, len.read lenFits, kind.read (by simpa using fits.kind)]

/-- Each row of a table is read back at its place. -/
theorem regionRowAt_flatMap (profile : Sos.Profiled) {mem : Nat → UInt8} {addr : Nat} {rows : List BootRegion}
    (fits : ∀ row ∈ rows, row.Fits) (stands : StandsAt mem addr (rows.flatMap emitRow)) {i : Nat} {row : BootRegion}
    (here : rows[i]? = some row) : regionRowAt mem (addr + i * regionRowBytes) = row := by
  induction rows generalizing addr i with
  | nil => simp at here
  | cons first rows ih =>
    rw [List.flatMap_cons] at stands
    obtain ⟨head, rest⟩ := standsAt_append.mp stands
    cases i with
    | zero =>
      rw [List.getElem?_cons_zero] at here
      cases here
      rw [Nat.zero_mul]
      exact regionRowAt_emitRow profile (fits _ List.mem_cons_self) head
    | succ i =>
      rw [List.getElem?_cons_succ] at here
      rw [length_emitRow] at rest
      rw [Nat.succ_mul, Nat.add_comm (i * _), ← Nat.add_assoc]
      exact ih (fun r hr => fits r (List.mem_cons_of_mem _ hr)) rest here

theorem regionHeaderAt_stitchRegions {mem : Nat → UInt8} {start : Nat} {rows : List BootRegion}
    (few : rows.length < 256) (stands : StandsAt mem start (stitchRegions rows)) :
    regionHeaderAt mem start = ⟨regionTableMagic, regionTableVersion, rows.length⟩ ∧
      StandsAt mem (start + regionTableHeaderBytes) (rows.flatMap emitRow) := by
  rw [stitchRegions] at stands
  obtain ⟨magic, stands⟩ := standsAt_append.mp stands
  obtain ⟨version, stands⟩ := standsAt_append.mp stands
  obtain ⟨count, stands⟩ := standsAt_append.mp stands
  obtain ⟨-, rows⟩ := standsAt_append.mp stands
  simp only [length_wordBytesLe, Nat.add_assoc, Nat.reduceAdd] at version count rows
  refine ⟨?_, rows⟩
  rw [regionHeaderAt, magic.read (by decide), version.read (by decide), count.read (by simpa using few)]

/-! ### The loop over the rows -/

/-- Loops whose bodies do the same wherever what the bodies keep holds. -/
theorem countUp_congr {I : K → Prop} {body body' : Nat → M Unit} {n k i : Nat} {s : K} (hs : I s)
    (same : ∀ j t, i ≤ j → j < i + k → I t → body j n t = body' j n t)
    (keeps : ∀ j t, I t → wp (fun _ => True) n (body' j) (fun _ => I) (Exits.leaving Conduct.quiet) t) :
    countUp body k i n s = countUp body' k i n s := by
  induction k generalizing i s with
  | zero => rfl
  | succ k ih =>
    have first : body i n s = body' i n s := same i s (Nat.le_refl i) (by omega) hs
    have kept := keeps i s hs
    simp only [countUp, bind, Exec.bind, first]
    rw [wp] at kept
    rcases run : body' i n s with ⟨a, t, tr⟩ | ⟨t, tr⟩ | ⟨w, tr⟩ | tr
    · rw [run] at kept
      have next := kept.2 fun _ _ => trivial
      exact congrArg (Outcome.after tr) (ih next fun j u low high => same j u (by omega) (by omega))
    all_goals rfl

theorem spares_mintBootRegion {p i : Nat} {row : BootRegion} : Spares [.machine .mem] (mintBootRegion p i row) := by
  unfold mintBootRegion
  repeat' first
    | with_reducible refine .bind ?_ fun _ => ?_
    | with_reducible refine .whenever ?_
    | solve | with_reducible refine spares_memories ?_; simp
    | solve | with_reducible refine spares_ioMemories ?_; simp
    | solve | simp +decide
    | split

theorem wp_mintBootRegion_mem {p i n : Nat} {row : BootRegion} {mem : Nat → UInt8} {t : K} (ht : t.mem = mem) :
    wp (fun _ => True) n (mintBootRegion p i row) (fun _ u => u.mem = mem) (Exits.leaving Conduct.quiet) t :=
  (spares_mintBootRegion n t).imp fun _ _ same => (same (.machine .mem) (List.mem_singleton_self _)).symm.trans ht

/-! ### A stitched table -/

/-- From a section that holds the table stitched for the boot regions, the kernel mints just these. -/
theorem stitched_regions_are_minted (profile : Sos.Profiled) (fits : ∀ row ∈ Build.bootRegions, row.Fits)
    (few : Build.bootRegions.length < 256) {p start n : Nat} {s : K}
    (stands : StandsAt s.mem start (stitchRegions Build.bootRegions)) :
    mintRegionTable p start (start + (stitchRegions Build.bootRegions).length) n s = mintBootRegions p n s := by
  obtain ⟨header, rows⟩ := regionHeaderAt_stitchRegions few stands
  have size : start + (stitchRegions Build.bootRegions).length - start =
      regionTableHeaderBytes + Build.bootRegions.length * regionRowBytes := by
    rw [Nat.add_sub_cancel_left, length_stitchRegions]
  have ordered : ¬start + (stitchRegions Build.bootRegions).length < start := by omega
  have filled : ¬regionTableHeaderBytes + Build.bootRegions.length * regionRowBytes = 0 := by
    simp [regionTableHeaderBytes]
  have whole : ¬regionTableHeaderBytes + Build.bootRegions.length * regionRowBytes < regionTableHeaderBytes := by omega
  have fit : ¬regionTableHeaderBytes + Build.bootRegions.length * regionRowBytes - regionTableHeaderBytes <
    Build.bootRegions.length * regionRowBytes := by omega
  simp only [mintRegionTable, mintBootRegions, size, ordered, filled, whole, decide_false, whenever,
    Bool.false_eq_true, if_false, pure_then]
  rw [reads_then, header]
  simp only [fit, ne_eq, not_true_eq_false, decide_false, Bool.false_eq_true, if_false, pure_then]
  by_cases many : maxMemories + maxIoMemories < Build.bootRegions.length
  · simp only [many, decide_true, if_true]
    rfl
  simp only [many, decide_false, Bool.false_eq_true, if_false, pure_then]
  -- No round of the loop writes memory, so that each row is read as the stitcher emitted it.
  refine countUp_congr (I := fun t => t.mem = s.mem) rfl (fun j t _ inside ht => ?_) fun j t ht => ?_
  · have here : Build.bootRegions[j]? = some _ := List.getElem?_eq_getElem (by omega)
    have read := regionRowAt_flatMap profile fits rows here
    rw [reads_then, ht, read, here]
  · split
    · exact wp_pure.mpr ht
    · exact wp_mintBootRegion_mem ht

/-! ### What is minted from -/

/-- A row that the kernel can mint a handle on. -/
structure BootRegion.Mintable (row : BootRegion) : Prop where
  base : row.base < wordModulus
  len : row.len < wordModulus
  kind : row.kind ≤ 1

/-- The section from `start` to `stop` holds a table of rows that can be minted. -/
structure SoundTable (mem : Nat → UInt8) (start stop : Nat) : Prop where
  magic : (regionHeaderAt mem start).magic = regionTableMagic
  version : (regionHeaderAt mem start).version = regionTableVersion
  few : (regionHeaderAt mem start).count ≤ maxMemories + maxIoMemories
  whole : start + regionTableHeaderBytes + (regionHeaderAt mem start).count * regionRowBytes ≤ stop
  rows : ∀ i < (regionHeaderAt mem start).count,
    (regionRowAt mem (start + regionTableHeaderBytes + i * regionRowBytes)).Mintable

theorem wp_mintBootRegion_mintable {p i n : Nat} {row : BootRegion} {t : K} :
    wp (fun _ => True) n (mintBootRegion p i row) (fun _ _ => row.Mintable) (Exits.leaving Conduct.quiet) t := by
  by_cases mintable : row.Mintable
  · exact (spares_mintBootRegion n t).imp fun _ _ _ => mintable
  -- What cannot be minted is refused before anything is.
  refine wp_bind.mpr (wp_whenever.mpr ⟨fun _ => wp_halt.mpr trivial, fun inWord => ?_⟩)
  refine wp_bind.mpr (wp_whenever.mpr ⟨fun _ => wp_halt.mpr trivial, fun known => ?_⟩)
  simp only [Bool.or_eq_false_iff, decide_eq_false_iff_not, Nat.not_le, Nat.not_lt] at inWord known
  exact absurd ⟨inWord.1, inWord.2, known⟩ mintable

/-- Whatever stands in a section, the kernel goes on from it only if it is empty or holds a sound table. -/
theorem wp_mintRegionTable {p start stop n : Nat} {s : K} :
    wp (fun _ => True) n (mintRegionTable p start stop)
      (fun _ t => t.mem = s.mem ∧ (start = stop ∨ SoundTable s.mem start stop)) (Exits.leaving Conduct.quiet) s := by
  refine wp_bind.mpr (wp_whenever.mpr ⟨fun _ => wp_halt.mpr trivial, fun ordered => ?_⟩)
  rw [decide_eq_false_iff_not, Nat.not_lt] at ordered
  refine wp_ite.mpr ⟨fun empty => wp_pure.mpr ⟨rfl, .inl (by omega)⟩, fun _ => ?_⟩
  refine wp_bind.mpr (wp_whenever.mpr ⟨fun _ => wp_halt.mpr trivial, fun headed => wp_bind.mpr (wp_reads.mpr ?_)⟩)
  refine wp_bind.mpr (wp_whenever.mpr ⟨fun _ => wp_halt.mpr trivial, fun magic => ?_⟩)
  refine wp_bind.mpr (wp_whenever.mpr ⟨fun _ => wp_halt.mpr trivial, fun version => ?_⟩)
  refine wp_bind.mpr (wp_whenever.mpr ⟨fun _ => wp_halt.mpr trivial, fun few => ?_⟩)
  refine wp_bind.mpr (wp_whenever.mpr ⟨fun _ => wp_halt.mpr trivial, fun whole => ?_⟩)
  simp only [decide_eq_false_iff_not, ne_eq, not_not, Nat.not_lt] at headed magic version few whole
  refine (wp_countUp (I := fun j t => t.mem = s.mem ∧
    ∀ i < j, (regionRowAt s.mem (start + regionTableHeaderBytes + i * regionRowBytes)).Mintable)
    ⟨rfl, fun i hi => absurd hi (Nat.not_lt_zero i)⟩ fun j t _ _ ht => ?_).imp fun _ t ht => ?_
  · refine wp_bind.mpr (wp_reads.mpr ?_)
    rw [ht.1]
    refine (wp.and (wp_mintBootRegion_mem ht.1) wp_mintBootRegion_mintable).mono (fun _ => id)
      (fun _ u hu => ?_) (fun _ h => h.1) (fun _ _ => trivial) fun _ h => h.1
    refine ⟨hu.1, fun i hi => ?_⟩
    rcases Nat.lt_succ_iff_lt_or_eq.mp hi with before | rfl
    · exact ht.2 i before
    · exact hu.2
  · rw [Nat.zero_add] at ht
    exact ⟨ht.1, .inr ⟨magic, version, few, by omega, ht.2⟩⟩

/-- A boot that goes on from its table has the memory that it had, and the table is empty or sound. -/
theorem minted_tables_are_sound {p start stop n : Nat} {s t : K} {u : Unit} {tr : List Ev}
    (run : mintRegionTable p start stop n s = .ok u t tr) :
      t.mem = s.mem ∧ (start = stop ∨ SoundTable s.mem start stop) :=
  wp_mintRegionTable.ok run

end

section

attribute [local instance] sampleBuild sampleTarget Riscv32.board

/-- A machine whose memory holds the table stitched for `rows` from 0x80300000 on. -/
@[reducible] def stitched (rows : List BootRegion) : K :=
  { K.zero with mem := storeBytes (fun _ => 0) 0x80300000 (stitchRegions rows) }

theorem stitched_regions_are_minted_sample :
    mintRegionTable 0 0x80300000 0x80300038 64 (stitched Build.bootRegions) = mintBootRegions 0 64
      (stitched Build.bootRegions) :=
  stitched_regions_are_minted (.inl rfl) (List.forall_mem_cons.mpr ⟨⟨by decide, by decide, by decide⟩,
    List.forall_mem_cons.mpr ⟨⟨by decide, by decide, by decide⟩, fun _ none => absurd none List.not_mem_nil⟩⟩)
      (by decide)
    standsAt_storeBytes

/-- A machine that has booted, with the table stitched for a page of memory and a page of registers. -/
def restitched (s : K) : K :=
  { s with mem := storeBytes s.mem 0x80300000 (stitchRegions [⟨0x80500000, 0x1000, 0⟩, ⟨0x10002000, 0x1000, 1⟩]) }

/-- The root is minted two more handles. -/
def mintsTwo (s : K) : Bool :=
  match mintRegionTable rootProcess 0x80300000 0x80300038 64 (restitched s) with
  | .ok _ t _ =>
    decide ((t.processes.slot rootProcess).quotaUsed .handle = (s.processes.slot rootProcess).quotaUsed .handle + 2)
  | _ => false

theorem ran_of_mintsTwo {s : K} (h : mintsTwo s = true) :
    ∃ t tr, mintRegionTable rootProcess 0x80300000 0x80300038 64 (restitched s) = .ok () t tr ∧
      (t.processes.slot rootProcess).quotaUsed .handle = (s.processes.slot rootProcess).quotaUsed .handle + 2 := by
  unfold mintsTwo at h
  split at h
  · rename_i u t tr run
    simp only [decide_eq_true_eq] at h
    exact ⟨t, tr, run, h⟩
  · cases h

/-- A table of two rows is sound, and the root that mints from it has two more handles. -/
theorem minted_tables_are_sound_rows : ∃ s t : K, Reachable s ∧ t.mem = (restitched s).mem ∧
    (t.processes.slot rootProcess).quotaUsed .handle = (s.processes.slot rootProcess).quotaUsed .handle + 2 ∧
    SoundTable (restitched s).mem 0x80300000 0x80300038 := by
  obtain ⟨s, reached, found⟩ := reachable_of_played (i := []) (G := fun _ => True) (c := mintsTwo) (g := fun _ => true)
    (by decide +kernel) fun _ _ => trivial
  obtain ⟨t, tr, run, more⟩ := ran_of_mintsTwo found
  obtain ⟨same, sound⟩ := minted_tables_are_sound run
  exact ⟨s, t, reached, same, more, sound.resolve_left (by omega)⟩

end

end Sawos
