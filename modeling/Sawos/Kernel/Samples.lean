import Sawos.Boards.Riscv32
import Sawos.Kernel.Records

/-! # Small machines

Builds whose root image is one segment, and runs of them that are computed. -/

namespace Sawos
open Exec

/-! ### The image format

The format's own parser is not the kernel's; the decoders read the layout that the image dump tool prints. -/

/-- The number in the `bytes` bytes from `a` on, the lowest first. -/
def fieldAt (mem : Nat → UInt8) (a bytes : Nat) : Nat := ofBytesLe (loadBytes mem a bytes)

theorem fieldAt_congr {mem mem' : Nat → UInt8} {a bytes : Nat} (same : ∀ i < bytes, mem (a + i) = mem' (a + i)) :
    fieldAt mem a bytes = fieldAt mem' a bytes :=
  congrArg ofBytesLe (List.map_congr_left fun i hi => same i (List.mem_range.mp hi))

def sosimgHeaderLen : Nat := 24
def sosimgSegLen : Nat := 24

/-- The header of an image for the architecture `arch`. -/
def sosimgHeaderAt (arch : Nat) (mem : Nat → UInt8) (a : Nat) : SosimgHeader :=
  ⟨fieldAt mem a 4 == 0x49534F53, fieldAt mem (a + 4) 2 == 3, fieldAt mem (a + 7) 1 == arch, fieldAt mem (a + 6) 1,
    fieldAt mem (a + 16) 8⟩

/-- A segment is for reading or for execution, is not for writing alone, and a device grant is not for execution. -/
def sanePerms (flags : Nat) : Bool :=
  flags &&& (segRead ||| segExecute) ≠ 0 && (flags &&& segWrite = 0 || flags &&& segRead ≠ 0) &&
    (flags &&& 8 = 0 || flags &&& segExecute = 0)

theorem permits_of_sanePerms {flags : Nat} (h : sanePerms flags = true) : flags ≠ 0 := by
  rintro rfl
  cases h

def sosimgSegAt (mem : Nat → UInt8) (a : Nat) : SosimgSeg :=
  let flags := fieldAt mem (a + 20) 1
  ⟨fieldAt mem a 8, fieldAt mem (a + 8) 4, fieldAt mem (a + 12) 4, fieldAt mem (a + 16) 4, flags,
    flags &&& 8 ≠ 0, sanePerms flags, permits_of_sanePerms⟩

/-- A segment is decoded from its own bytes. -/
theorem sosimgSegAt_congr {mem mem' : Nat → UInt8} {a : Nat} (same : ∀ i < sosimgSegLen, mem (a + i) = mem' (a + i)) :
    sosimgSegAt mem a = sosimgSegAt mem' a := by
  have field : ∀ off bytes, off + bytes ≤ sosimgSegLen → fieldAt mem (a + off) bytes = fieldAt mem' (a + off) bytes :=
    fun off bytes fits => fieldAt_congr fun i hi => by
      rw [Nat.add_assoc]
      exact same (off + i) (by omega)
  simp only [sosimgSegAt, field 8 4 (by decide), field 12 4 (by decide), field 16 4 (by decide), field 20 1 (by decide),
    show fieldAt mem a 8 = fieldAt mem' a 8 from field 0 8 (by decide)]

/-- The row of an image's table for a segment. -/
structure SegRow where
  loadAddr : Nat
  fileOff : Nat
  fileLen : Nat
  memLen : Nat
  flags : Nat

/-- The bytes of an image: its header, its table, and the bytes of its segments. -/
def sosimg (arch entry : Nat) (rows : List SegRow) (file : List UInt8) : List UInt8 :=
  wordBytesLe 4 0x49534F53 ++ wordBytesLe 2 3 ++ wordBytesLe 1 rows.length ++ wordBytesLe 1 arch ++ wordBytesLe 8 0 ++
    wordBytesLe 8 entry ++
    rows.flatMap (fun row => wordBytesLe 8 row.loadAddr ++ wordBytesLe 4 row.fileOff ++ wordBytesLe 4 row.fileLen ++
      wordBytesLe 4 row.memLen ++ wordBytesLe 4 row.flags) ++ file

/-- The first instruction of the images. -/
def codeBytes : List UInt8 := [0x73, 0, 0, 0]

/-- An image of a page to run and to write, linked at `link`. -/
def pageImage (arch link : Nat) : List UInt8 := sosimg arch link [⟨link, 48, 4, 4096, 7⟩] codeBytes

/-- An image of a page of code at `code` and a page to write at `data`. -/
def splitImage (code data : Nat) : List UInt8 :=
  sosimg 1 code [⟨code, 72, 4, 4096, 5⟩, ⟨data, 76, 2, 4096, 3⟩] (codeBytes ++ [5, 6])

/-- An image of a page of code, a page to write at the same place, a device window, and a byte behind the page. -/
def looseImage : List UInt8 :=
  sosimg 1 0x80200000 [⟨0x80200000, 120, 4, 4096, 7⟩, ⟨0x80200000, 124, 0, 4096, 3⟩, ⟨0x10000000, 0, 0, 0x1000, 11⟩,
    ⟨0x80201000, 0, 0, 1, 1⟩] codeBytes

/-- What the flash of the sample machines holds, and, in the page of memory at `0x80400000`, the image of a child. -/
def flash : Nat → UInt8 := fun a =>
  if a < 0x20000000 then 0
  else if a < 0x20001000 then (pageImage 1 0x80200000).getD (a - 0x20000000) 0
  else if a < 0x20002000 then (splitImage 0x80200000 0x80201000).getD (a - 0x20001000) 0
  else if a < 0x20003000 then (splitImage 0x80201000 0x80200000).getD (a - 0x20002000) 0
  else if a < 0x20004000 then (pageImage 2 0x40200000).getD (a - 0x20003000) 0
  else if a < 0x20005000 then looseImage.getD (a - 0x20004000) 0
  else if a < 0x20006000 then (splitImage 0x80500000 0x80501000).getD (a - 0x20005000) 0
  else if a < 0x80400000 then 0
  else if a < 0x80401000 then (pageImage 1 0x80500000).getD (a - 0x80400000) 0
  else 0

/-! ### Builds -/

/-- A build for the architecture `arch` whose root image is in the page of flash at `payload`, and whose root gets
    `regions`. -/
@[reducible] def smallBuild (arch payload : Nat) (regions : List BootRegion) : Build where
  payloadStart := payload
  payloadEnd := payload + 4096
  bootRegions := regions
  statsRegionBase := 4096
  statsRegionLen := 4096
  headerLen := sosimgHeaderLen
  segLen := sosimgSegLen
  headerAt := sosimgHeaderAt arch
  segAt := sosimgSegAt
  slotBytes _ := 64
  slotAlign _ := 8
  exchangeSlotBytes := 64
  exchangeSlotAlign := 8
  slotBytes_pos _ := by decide
  slotAlign_pos _ := by decide

/-- A build for riscv32 virt whose root has the handles 1 on the system, 2 on itself, 3 on its thread, 4 on 64 KiB of
    memory and 5 on a page of device registers. -/
@[reducible] def sampleBuild : Build := smallBuild 1 0x20000000 [⟨0x80400000, 0x10000, 0⟩, ⟨0x10001000, 0x1000, 1⟩]

/-- A build for riscv32 virt whose root has, as its handle 4, a page of memory with the image of a child, and, as its
    handle 5, 64 KiB that the child may run in. -/
@[reducible] def pairBuild : Build := smallBuild 1 0x20000000 [⟨0x80400000, 0x1000, 0⟩, ⟨0x80500000, 0x10000, 0⟩]

@[reducible] def sampleTarget : Riscv32.Target := ⟨.virt⟩

variable [Hal]

/-- The machine before its boot. -/
def K.zero : K where
  processes := .fresh maxProcesses .vacant
  threads := .fresh maxThreads .vacant
  events := .fresh maxEvents .vacant
  waiters := .fresh maxWaiters .vacant
  interrupts := .fresh maxInterrupts .vacant
  timers := .fresh maxTimers .vacant
  attachments := .fresh maxAttachments .vacant
  memories := .fresh maxMemories .vacant
  freeRanges := .fresh maxFreeRanges .vacant
  ioMemories := .fresh maxIoMemories .vacant
  mappings := .fresh maxMappings .vacant
  pipes := .fresh maxPipes .vacant
  exchanges := .fresh pipeExchanges .vacant
  frames _ := ⟨0, 0, 0, 0⟩
  currentThread := none
  readyHead := none
  readyTail := none
  needResched := false
  sliceLeft := 0
  lastProtProcess := none
  tickPeriodNs := 0
  nextTickNs := 0
  inDelivery := false
  stats _ := ⟨0, 0, 0⟩
  mem := flash
  prot := Hal.protBoot
  masks := fun _ => none
  comparator := 0
  polls := []
  now := 0
  lapse := []

theorem K.fresh_zero : (K.zero : K).Fresh := by
  constructor <;> rfl

/-- What the machine does for a list of inputs. -/
def played (is : List Stimulus) : Option (K × List Ev) := Machine.play loadRootAndEnter act 64 is K.zero

/-- A number cut to a machine word. -/
def Word.cut (v : Nat) : Word := ⟨v % wordModulus, Nat.mod_lt _ (Nat.two_pow_pos _)⟩

/-- A system call, with its words cut to the machine's. -/
def Stimulus.call (handle op arg0 arg1 arg2 : Nat) : Stimulus :=
  ⟨.syscall (.cut handle) (.cut op) (.cut arg0) (.cut arg1) (.cut arg2), [], []⟩

/-- Bytes that the running thread stores from `base` on, where memory is zero. -/
def storesBytes (base : Nat) (bytes : List UInt8) : List Stimulus :=
  (List.range bytes.length).filterMap fun i =>
    if bytes.getD i 0 = 0 then none else some ⟨.store (base + i) (bytes.getD i 0), [], []⟩

/-- The image that is placed passes as one of a page. -/
def standsTest : Ev → Bool
  | .mark (.placing imgBase dest i) s =>
    decide (i < (Build.headerAt s.mem imgBase).segCount) && (validateImage s.mem imgBase 4096 dest true).isNone
  | _ => true

theorem imageStands_of_test {e : Ev} (h : standsTest e = true) : ImageStands e := by
  cases e with
  | mark p s =>
    cases p with
    | placing imgBase dest i =>
      simp only [standsTest, Bool.and_eq_true, decide_eq_true_eq, Option.isNone_iff_eq_none] at h
      exact ⟨h.1, 4096, true, h.2⟩
    | _ => trivial
  | _ => trivial

theorem reachable_of_played {G : Ev → Prop} {i : List Stimulus} {c : K → Bool} {g : Ev → Bool}
    (h : (played i).any (fun (s, t) => c s && t.all g) = true) (hg : ∀ e, g e = true → G e) :
    ∃ s, ReachableWith G s ∧ c s = true :=
  Machine.reach_of_play K.fresh_zero h hg

theorem ahead_of_played {i j : List Stimulus} {c : K → List Ev → K → Bool}
    (h : (played i).any (fun (s, _) => (Machine.goOn act 64 j s).any fun (t, h) => c s h t) = true) :
    ∃ s t h, Reachable s ∧ machine.Ahead s t h ∧ c s h t = true :=
  Machine.ahead_of_play K.fresh_zero h

end Sawos
