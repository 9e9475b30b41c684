import Sawos.Lib.Controller
import Sawos.Boards.Arm64

/-! # The interrupt controller of arm64

A distributor has an enable bit, a priority and a target of each line, and an interface of the core says how urgent a
line must be. A line that is handed out is active until the end of it is written, and meanwhile no line goes that is
not more urgent. Enable bits are set and cleared by writing ones, each at an address of its own. -/

namespace Sawos.Arm64
open Exec

/-! ### The controller -/

def gicDistBase : Nat := 0x08000000
def gicdIsenabler : Nat := 0x100
def gicdIcenabler : Nat := 0x180
def gicdIpriorityr : Nat := 0x400
def gicdItargetsr : Nat := 0x800
def gicEnable : Nat := 1
def gicPriorityFloor : Nat := 0xF0
def gicPriorityActive : Nat := 0x80
def gicCpu0 : Nat := 0x01
def gicPercoreLines : Nat := 32
def gicLinesPerWord : Nat := 32
def gicLinesPerTyperStep : Nat := 32
def gicTyperLinesMask : Nat := 0x1F
def gicSpurious : Nat := 1023
def registerBytes : Nat := 4
def irqNone : Nat := 0
def irqTimer : Nat := timerIrq
/-- The lines below are raised by software alone, and from here on numbers are special. -/
def gicSoftwareLines : Nat := 16
def gicSpecialLines : Nat := 1020

/-- The registers, and of each line whether its device asserts it, whether an edge was latched, and whether it is
    active. `fixed` says that lines raised by software cannot be disabled. -/
structure GicRegs where
  distCtlr : Nat
  typer : Nat
  enable : Nat → Bool
  priority : Nat → Nat
  target : Nat → Nat
  cpuCtlr : Nat
  pmr : Nat
  level : Nat → Bool
  latch : Nat → Bool
  active : Nat → Bool
  fixed : Bool

def lineCountOf (typer : Nat) : Nat := ((typer &&& gicTyperLinesMask) + 1) * gicLinesPerTyperStep

/-- Lines of devices. -/
def gicWired (typer line : Nat) : Prop := gicSoftwareLines ≤ line ∧ line < gicSpecialLines ∧ line < lineCountOf typer

instance (typer line : Nat) : Decidable (gicWired typer line) := inferInstanceAs (Decidable (_ ∧ _ ∧ _))

namespace GicRegs

def enabled (d : GicRegs) (l : Nat) : Bool := d.enable l || (d.fixed && decide (l < gicSoftwareLines))

def pending (d : GicRegs) (l : Nat) : Bool := d.level l || d.latch l

/-- What the registers say of a line lets it through to the core. -/
def through (d : GicRegs) (l : Nat) : Bool :=
  d.distCtlr.testBit 0 && d.cpuCtlr.testBit 0 && d.enabled l &&
    (decide (l < gicPercoreLines) || (d.target l).testBit 0) && decide (d.priority l < d.pmr)

/-- It can be handed out: no active line is as urgent. -/
def ready (d : GicRegs) (l : Nat) : Bool :=
  d.pending l && d.through l && !d.active l &&
    (List.range gicSpecialLines).all fun k => !d.active k || decide (d.priority l < d.priority k)

def winner (d : GicRegs) : Option Nat := foremost gicSpecialLines d.ready d.priority

/-- The acknowledge register is read. -/
def acknowledges (d : GicRegs) : Nat × GicRegs :=
  match d.winner with
  | none => (gicSpurious, d)
  | some l =>
    (l, { d with
      active := fun k => if k = l then true else d.active k
      latch := fun k => if k = l then false else d.latch k })

/-- The end of an interrupt is written. -/
def ends (d : GicRegs) (l : Nat) : GicRegs := { d with active := fun k => if k = l then false else d.active k }

/-- A word is stored in one of the arrays of the distributor that have a bit for each line. -/
def storeWord (d : GicRegs) (addr v : Nat) : GicRegs :=
  let off := addr - gicDistBase
  if gicdIsenabler ≤ off ∧ off < gicdIcenabler then
    { d with enable := fun l =>
        d.enable l ||
          (decide (l / gicLinesPerWord = (off - gicdIsenabler) / registerBytes) && v.testBit (l % gicLinesPerWord)) }
  else if gicdIcenabler ≤ off ∧ off < gicdIcenabler + 0x80 then
    { d with enable := fun l =>
        d.enable l &&
          !(decide (l / gicLinesPerWord = (off - gicdIcenabler) / registerBytes) && v.testBit (l % gicLinesPerWord)) }
  else d

/-- A byte is stored in one of those that have a byte for each line; the targets of the first lines are fixed. -/
def storeByte (d : GicRegs) (addr v : Nat) : GicRegs :=
  let off := addr - gicDistBase
  if gicdIpriorityr ≤ off ∧ off < gicdItargetsr then
    { d with priority := fun l => if l = off - gicdIpriorityr then v else d.priority l }
  else if gicdItargetsr + gicPercoreLines ≤ off ∧ off < gicdItargetsr + 0x400 then
    { d with target := fun l => if l = off - gicdItargetsr then v else d.target l }
  else d

end GicRegs

/-- Devices assert lines and lower them again, or give them a pulse. -/
inductive GicBeat where
  | raise (line : Nat)
  | lower (line : Nat)
  | pulse (line : Nat)

instance : Device GicRegs GicBeat where
  beat
    | .raise l, d => { d with level := fun k => if k = l ∧ gicWired d.typer l then true else d.level k }
    | .lower l, d => { d with level := fun k => if k = l then false else d.level k }
    | .pulse l, d => { d with latch := fun k => if k = l ∧ gicWired d.typer l then true else d.latch k }

/-! ### Its driver -/

abbrev GicDriver := Prog (Bus GicRegs GicBeat) GicRegs Unit

namespace GicRegs

def writeWord (addr v : Nat) : GicDriver Unit := Bus.access fun d => ((), d.storeWord addr v)
def writeByte (addr v : Nat) : GicDriver Unit := Bus.access fun d => ((), d.storeByte addr v)
def writeDistCtlr (v : Nat) : GicDriver Unit := Bus.access fun d => ((), { d with distCtlr := v })
def writeCpuCtlr (v : Nat) : GicDriver Unit := Bus.access fun d => ((), { d with cpuCtlr := v })
def writePmr (v : Nat) : GicDriver Unit := Bus.access fun d => ((), { d with pmr := v })

def lineCount : GicDriver Nat := do
  let typer ← Bus.access fun d => (d.typer, d)
  return ((typer &&& gicTyperLinesMask) + 1) * gicLinesPerTyperStep

def wordAt (base line : Nat) : Nat := gicDistBase + base + line / gicLinesPerWord * registerBytes
def byteAt (base line : Nat) : Nat := gicDistBase + base + line

def reset : GicDriver Unit := do
  writeDistCtlr 0
  let lines ← lineCount
  loop (fun word => do
    if word * gicLinesPerWord < lines then
      writeWord (gicDistBase + gicdIcenabler + word * registerBytes) 0xFFFFFFFF
      return .inl (word + 1)
    else
      return .inr ()) 0
  writeDistCtlr gicEnable
  writePmr gicPriorityFloor
  writeCpuCtlr gicEnable

def unmask (line : Nat) : GicDriver Unit := do
  writeByte (byteAt gicdIpriorityr line) gicPriorityActive
  -- The lines of the core go to it, and have no target to be written.
  whenever (gicPercoreLines ≤ line) (writeByte (byteAt gicdItargetsr line) gicCpu0)
  writeWord (wordAt gicdIsenabler line) (1 <<< (line % gicLinesPerWord))

def mask (line : Nat) : GicDriver Unit := writeWord (wordAt gicdIcenabler line) (1 <<< (line % gicLinesPerWord))

def claim : GicDriver Nat := Bus.access acknowledges
def complete (line : Nat) : GicDriver Unit := Bus.access fun d => ((), d.ends line)

end GicRegs

def intcInit : GicDriver Unit := GicRegs.reset
def irqUnmask (line : Nat) : GicDriver Unit := GicRegs.unmask line
def irqMask (line : Nat) : GicDriver Unit := GicRegs.mask line

/-- What a trap says of its cause is not needed. -/
def irqClaim : GicDriver Nat := do
  let acknowledged ← GicRegs.claim
  if acknowledged = gicSpurious then return irqNone
  return acknowledged

def irqComplete (line : Nat) : GicDriver Unit := GicRegs.complete line

def irqLineValid (typer line : Nat) : Bool := line ≠ irqNone && line < lineCountOf typer

/-- The board's kernel has these lines, for the number of lines that its controller reports. -/
theorem gic_lines [Build] (typer : Nat) : let board := @board _ ⟨lineCountOf typer⟩
    (board.irqNone, board.irqTimer, board.irqLineValid) = (irqNone, irqTimer, irqLineValid typer) := rfl

/-- The driver; a poll is a claim under another name. -/
def gic : LineDriver GicRegs GicBeat Unit Unit where
  init := intcInit
  unmask := irqUnmask
  mask := irqMask
  claim _ := irqClaim
  complete := irqComplete
  nothing := irqNone
  timer := irqTimer

def gicWiring (typer : Nat) : Wiring GicRegs Unit where
  valid l := irqLineValid typer l = true
  wired := gicWired typer
  asserted d l := d.pending l = true
  through d l := d.through l = true
  served d l := d.active l = true
  asks _ := True

/-! ### What it does -/

namespace GicRegs

/-- No line is active, and lines without a device are silent. -/
structure Off (typer : Nat) (d : GicRegs) : Prop where
  reports : d.typer = typer
  active : ∀ l, d.active l = false
  silent : ∀ l, ¬gicWired typer l → d.pending l = false

/-- The registers say what the gate says. -/
structure Stands (typer : Nat) (g : Gate) (d : GicRegs) : Prop where
  reports : d.typer = typer
  on : d.distCtlr = gicEnable ∧ d.cpuCtlr = gicEnable ∧ d.pmr = gicPriorityFloor
  lets : ∀ l, gicWired typer l → g.lets l = true →
    d.enable l = true ∧ d.priority l = gicPriorityActive ∧ (gicPercoreLines ≤ l → d.target l = gicCpu0)
  shut : ∀ l, gicWired typer l → g.lets l = false → d.enable l = false
  active : ∀ l, d.active l = true ↔ g.serving = some l
  serving : ∀ l, g.serving = some l → gicWired typer l
  silent : ∀ l, ¬gicWired typer l → d.pending l = false

variable {typer l v n : Nat} {g : Gate} {d : GicRegs}

theorem lineCountOf_le : lineCountOf typer ≤ 1024 := by
  have : typer &&& 0x1F ≤ 31 := Nat.and_le_right
  simp only [lineCountOf, gicTyperLinesMask, gicLinesPerTyperStep]
  omega

/-- Lines without a device stay silent. -/
theorem silent_beat (i : GicBeat) (reports : d.typer = typer) (silent : ∀ l, ¬gicWired typer l → d.pending l = false) :
    ∀ l, ¬gicWired typer l → (Device.beat i d).pending l = false := by
  intro l unwired
  obtain ⟨level, latch⟩ := Bool.or_eq_false_iff.mp (silent l unwired)
  refine Bool.or_eq_false_iff.mpr ?_
  cases i with
  | raise k =>
    refine ⟨(if_neg ?_).trans level, latch⟩
    rintro ⟨rfl, wired⟩
    exact unwired (reports ▸ wired)
  | lower k =>
    refine ⟨?_, latch⟩
    show (if l = k then false else d.level l) = false
    split
    · rfl
    · exact level
  | pulse k =>
    refine ⟨level, (if_neg ?_).trans latch⟩
    rintro ⟨rfl, wired⟩
    exact unwired (reports ▸ wired)

theorem Stands.beat (i : GicBeat) (h : Stands typer g d) : Stands typer g (Device.beat i d) := by
  have silent := silent_beat i h.reports h.silent
  cases i <;> exact ⟨h.reports, h.on, h.lets, h.shut, h.active, h.serving, silent⟩

theorem Off.beat (i : GicBeat) (h : Off typer d) : Off typer (Device.beat i d) := by
  have silent := silent_beat i h.reports h.silent
  cases i <;> exact ⟨h.reports, h.active, silent⟩

/-! ### Stores -/

/-- A store, after which `Q` holds. -/
theorem steers_writeWord {P Q : GicRegs → Prop} {addr : Nat} (beat : ∀ i d, P d → P (Device.beat i d))
    (h : ∀ d, P d → Q (d.storeWord addr v)) : Bus.Brings n P (writeWord addr v) fun _ => Q :=
  Bus.steers_store (Bus.lasts_of beat) fun d hd => ⟨trivial, fun _ => h d hd⟩

theorem steers_writeByte {P Q : GicRegs → Prop} {addr : Nat} (beat : ∀ i d, P d → P (Device.beat i d))
    (h : ∀ d, P d → Q (d.storeByte addr v)) : Bus.Brings n P (writeByte addr v) fun _ => Q :=
  Bus.steers_store (Bus.lasts_of beat) fun d hd => ⟨trivial, fun _ => h d hd⟩

theorem storeWord_enable {w : Nat} (h : w < 32) :
    d.storeWord (gicDistBase + gicdIsenabler + w * registerBytes) v =
      { d with enable := fun l => d.enable l || (decide (l / gicLinesPerWord = w) &&
        v.testBit (l % gicLinesPerWord)) } := by
  have off : gicDistBase + gicdIsenabler + w * registerBytes - gicDistBase = gicdIsenabler + w *
    registerBytes := by omega
  have index : (gicdIsenabler + w * registerBytes - gicdIsenabler) / registerBytes = w := by
    rw [Nat.add_sub_cancel_left]
    exact Nat.mul_div_cancel w (by decide)
  simp only [storeWord, off]
  rw [if_pos (by simp only [gicdIsenabler, gicdIcenabler, registerBytes]; omega), index]

theorem storeWord_disable {w : Nat} (h : w < 32) :
    d.storeWord (gicDistBase + gicdIcenabler + w * registerBytes) v =
      { d with enable := fun l => d.enable l && !(decide (l / gicLinesPerWord = w) &&
        v.testBit (l % gicLinesPerWord)) } := by
  have off : gicDistBase + gicdIcenabler + w * registerBytes - gicDistBase = gicdIcenabler + w *
    registerBytes := by omega
  have index : (gicdIcenabler + w * registerBytes - gicdIcenabler) / registerBytes = w := by
    rw [Nat.add_sub_cancel_left]
    exact Nat.mul_div_cancel w (by decide)
  simp only [storeWord, off]
  rw [if_neg (by simp only [gicdIsenabler, gicdIcenabler, registerBytes]; omega),
    if_pos (by simp only [gicdIcenabler, registerBytes]; omega), index]

theorem storeByte_priority (h : l < 1024) :
    d.storeByte (byteAt gicdIpriorityr l) v = { d with priority := fun k => if k = l then v else d.priority k } := by
  have off : byteAt gicdIpriorityr l - gicDistBase = gicdIpriorityr + l := by
    simp only [byteAt]
    omega
  simp only [storeByte, off]
  rw [if_pos (by simp only [gicdIpriorityr, gicdItargetsr]; omega), Nat.add_sub_cancel_left]

theorem storeByte_target (h : l < 1024) (shared : gicPercoreLines ≤ l) :
    d.storeByte (byteAt gicdItargetsr l) v = { d with target := fun k => if k = l then v else d.target k } := by
  have off : byteAt gicdItargetsr l - gicDistBase = gicdItargetsr + l := by
    simp only [byteAt]
    omega
  simp only [storeByte, off]
  rw [if_neg (by simp only [gicdIpriorityr, gicdItargetsr]; omega),
    if_pos (by simp only [gicPercoreLines, gicdItargetsr] at *; omega), Nat.add_sub_cancel_left]

/-- The bit of line `l` in its word is that of no other line. -/
theorem bit_iff {k : Nat} :
    (decide (k / gicLinesPerWord = l / gicLinesPerWord) && (1 <<< (l % gicLinesPerWord)).testBit
      (k % gicLinesPerWord)) =
    decide (k = l) := by
  rw [Nat.one_shiftLeft, Nat.testBit_two_pow, ← Bool.decide_and]
  refine decide_eq_decide.mpr ⟨fun ⟨word, bit⟩ => ?_, fun own => by simp [own]⟩
  simp only [gicLinesPerWord] at word bit
  omega

/-- The lines below `k` are disabled. -/
def Disabled (typer k : Nat) (d : GicRegs) : Prop := Off typer d ∧ ∀ l < k, d.enable l = false

theorem Disabled.beat {k : Nat} (i : GicBeat) (h : Disabled typer k d) : Disabled typer k (Device.beat i d) := by
  refine ⟨h.1.beat i, ?_⟩
  cases i <;> exact h.2

theorem Disabled.next {word : Nat} (inside : word * gicLinesPerWord < lineCountOf typer)
    (h : Disabled typer (word * gicLinesPerWord) d) :
    Disabled typer ((word + 1) * gicLinesPerWord)
      (d.storeWord (gicDistBase + gicdIcenabler + word * registerBytes) 0xFFFFFFFF) := by
  have room : word < 32 := by
    have most : lineCountOf typer ≤ 1024 := lineCountOf_le
    simp only [gicLinesPerWord] at inside
    omega
  rw [storeWord_disable room]
  refine ⟨⟨h.1.reports, h.1.active, h.1.silent⟩, fun l hl => ?_⟩
  by_cases before : l < word * gicLinesPerWord
  · simp [h.2 l before]
  · have here : l / gicLinesPerWord = word := by
      simp only [gicLinesPerWord] at hl before ⊢
      omega
    have bit : (0xFFFFFFFF : Nat).testBit (l % gicLinesPerWord) = true := by
      rw [show (0xFFFFFFFF : Nat) = 2 ^ 32 - 1 from rfl, Nat.testBit_two_pow_sub_one]
      exact decide_eq_true (Nat.mod_lt _ (by decide))
    simp [here, bit]

theorem steers_reset : Bus.Brings n (Off typer) reset fun _ => Stands typer .shut := by
  refine Bus.Steers.bind (R := fun _ => Off typer)
    (Bus.steers_store (Bus.lasts_of fun i _ => Off.beat i) fun d hd =>
      ⟨trivial, fun _ => ⟨hd.reports, hd.active, hd.silent⟩⟩) fun _ => ?_
  refine Bus.Steers.bind (R := fun lines d => Off typer d ∧ lines = lineCountOf typer) ?_ fun lines => ?_
  · refine Bus.Steers.bind (R := fun read d => Off typer d ∧ read = typer)
      (Bus.steers_load (Bus.lasts_of fun i _ => Off.beat i) fun d hd => ⟨trivial, fun _ => ⟨hd, hd.reports⟩⟩)
        fun read => ?_
    exact Bus.steers_pure fun d hd => ⟨hd.1, by rw [hd.2]; rfl⟩
  have disabled : Bus.Brings n (fun d => Off typer d ∧ lines = lineCountOf typer)
      (loop (fun word => do
        if word * gicLinesPerWord < lines then
          writeWord (gicDistBase + gicdIcenabler + word * registerBytes) 0xFFFFFFFF
          return .inl (word + 1)
        else
          return .inr ()) 0) fun _ => Disabled typer (lineCountOf typer) := by
    refine (Bus.Steers.loop (I := fun word d => Disabled typer (word * gicLinesPerWord) d ∧ lines = lineCountOf typer)
      (fun word => ?_) 0).imp (fun d hd => ⟨⟨hd.1, fun l hl => absurd hl (by simp)⟩, hd.2⟩) fun _ _ => id
    refine .ite (fun inside => ?_) fun past => Bus.steers_pure fun d hd => ⟨hd.1.1, fun l hl => hd.1.2 l ?_⟩
    · refine Bus.Steers.bind (R := fun _ d => Disabled typer ((word + 1) * gicLinesPerWord) d ∧
        lines = lineCountOf typer) ?_ fun _ =>
        Bus.steers_pure fun d hd => hd
      exact steers_writeWord (fun i d hd => ⟨hd.1.beat i, hd.2⟩) fun d hd => ⟨hd.1.next (hd.2 ▸ inside), hd.2⟩
    · exact Nat.lt_of_lt_of_le hl (hd.2 ▸ Nat.le_of_not_lt past)
  refine disabled.bind fun _ => ?_
  refine Bus.Steers.bind (R := fun _ d => Disabled typer (lineCountOf typer) d ∧ d.distCtlr = gicEnable) ?_ fun _ => ?_
  · exact Bus.steers_store (Bus.lasts_of fun i _ => Disabled.beat i) fun d hd =>
      ⟨trivial, fun _ => ⟨⟨⟨hd.1.reports, hd.1.active, hd.1.silent⟩, hd.2⟩, rfl⟩⟩
  refine Bus.Steers.bind
    (R := fun _ d => Disabled typer (lineCountOf typer) d ∧ d.distCtlr = gicEnable ∧ d.pmr = gicPriorityFloor) ?_
      fun _ => ?_
  · refine Bus.steers_store (Bus.lasts_of fun i d hd => ⟨hd.1.beat i, ?_⟩) fun d hd =>
      ⟨trivial, fun _ => ⟨⟨⟨hd.1.1.reports, hd.1.1.active, hd.1.1.silent⟩, hd.1.2⟩, hd.2, rfl⟩⟩
    cases i <;> exact hd.2
  refine Bus.steers_store (Bus.lasts_of fun i d hd => ⟨hd.1.beat i, ?_⟩) fun d hd => ⟨trivial, fun _ => ?_⟩
  · cases i <;> exact hd.2
  obtain ⟨⟨off, disabled⟩, on, floor⟩ := hd
  refine ⟨off.reports, ⟨on, rfl, floor⟩, fun l _ lets => ?_, fun l wired _ => disabled l wired.2.2,
    fun l => ?_, fun l serving => ?_, off.silent⟩
  · cases lets
  · simp [off.active, Gate.shut]
  · cases serving

/-- A line is told of: its priority and its target are right before its bit is set. -/
theorem Stands.enable (h : Stands typer g d) (room : l < 1024) (priority : d.priority l = gicPriorityActive)
    (target : gicPercoreLines ≤ l → d.target l = gicCpu0) :
    Stands typer (g.told l true) (d.storeWord (wordAt gicdIsenabler l) (1 <<< (l % gicLinesPerWord))) := by
  have word : l / gicLinesPerWord < 32 := by
    simp only [gicLinesPerWord]
    omega
  rw [wordAt, storeWord_enable word]
  simp only [bit_iff]
  refine ⟨h.reports, h.on, fun k wired lets => ?_, fun k wired shut => ?_, h.active, h.serving, h.silent⟩
  · by_cases own : k = l
    · subst own
      exact ⟨by simp, priority, target⟩
    · obtain ⟨enable, rest⟩ := h.lets k wired (by simpa [Gate.told, own] using lets)
      exact ⟨by simp [enable], rest⟩
  · by_cases own : k = l
    · simp [Gate.told, own] at shut
    · have := h.shut k wired (by simpa [Gate.told, own] using shut)
      simp [this, own]

theorem Stands.disable (h : Stands typer g d) (room : l < 1024) :
    Stands typer (g.told l false) (d.storeWord (wordAt gicdIcenabler l) (1 <<< (l % gicLinesPerWord))) := by
  have word : l / gicLinesPerWord < 32 := by
    simp only [gicLinesPerWord]
    omega
  rw [wordAt, storeWord_disable word]
  simp only [bit_iff]
  refine ⟨h.reports, h.on, fun k wired lets => ?_, fun k wired shut => ?_, h.active, h.serving, h.silent⟩
  · by_cases own : k = l
    · simp [Gate.told, own] at lets
    · obtain ⟨enable, rest⟩ := h.lets k wired (by simpa [Gate.told, own] using lets)
      exact ⟨by simp [enable, own], rest⟩
  · by_cases own : k = l
    · simp [own]
    · have := h.shut k wired (by simpa [Gate.told, own] using shut)
      simp [this]

theorem room_of_valid (valid : irqLineValid typer l = true) : l < 1024 := by
  rw [irqLineValid, Bool.and_eq_true, decide_eq_true_iff, decide_eq_true_iff] at valid
  exact Nat.lt_of_lt_of_le valid.2 lineCountOf_le

theorem steers_unmask (valid : irqLineValid typer l = true) :
    Bus.Brings n (Stands typer g) (unmask l) fun _ => Stands typer (g.told l true) := by
  have room := room_of_valid valid
  refine Bus.Steers.bind (R := fun _ d => Stands typer g d ∧ d.priority l = gicPriorityActive) ?_ fun _ => ?_
  · refine steers_writeByte (fun i _ => Stands.beat i) fun d hd => ?_
    rw [storeByte_priority room]
    refine ⟨⟨hd.reports, hd.on, fun k wired lets => ?_, hd.shut, hd.active, hd.serving, hd.silent⟩, if_pos rfl⟩
    obtain ⟨enable, priority, target⟩ := hd.lets k wired lets
    refine ⟨enable, ?_, target⟩
    show (if k = l then gicPriorityActive else d.priority k) = _
    split
    · rfl
    · exact priority
  refine Bus.Steers.bind
    (R := fun _ d => Stands typer g d ∧ d.priority l = gicPriorityActive ∧
      (gicPercoreLines ≤ l → d.target l = gicCpu0)) ?_ fun _ => ?_
  · refine .whenever (fun shared => ?_) fun own d hd =>
      ⟨hd.1, hd.2, fun shared => absurd shared (of_decide_eq_false own)⟩
    refine steers_writeByte (fun i d hd => ⟨hd.1.beat i, ?_⟩) fun d hd => ?_
    · cases i <;> exact hd.2
    obtain ⟨hd, active⟩ := hd
    rw [storeByte_target room (of_decide_eq_true shared)]
    refine ⟨⟨hd.reports, hd.on, fun k wired lets => ?_, hd.shut, hd.active, hd.serving, hd.silent⟩,
      active, fun _ => if_pos rfl⟩
    obtain ⟨enable, priority, target⟩ := hd.lets k wired lets
    refine ⟨enable, priority, fun shared => ?_⟩
    show (if k = l then gicCpu0 else d.target k) = _
    split
    · rfl
    · exact target shared
  · refine steers_writeWord (fun i d hd => ⟨hd.1.beat i, ?_⟩) fun d hd => hd.1.enable room hd.2.1 hd.2.2
    cases i <;> exact hd.2

theorem steers_mask (valid : irqLineValid typer l = true) :
    Bus.Brings n (Stands typer g) (mask l) fun _ => Stands typer (g.told l false) :=
  steers_writeWord (fun i _ => Stands.beat i) fun _ hd => hd.disable (room_of_valid valid)

/-- The registers let a line of a device through exactly when the gate does. -/
theorem Stands.through_iff (h : Stands typer g d) (wired : gicWired typer l) :
    d.through l = true ↔ g.lets l = true := by
  obtain ⟨dist, cpu, floor⟩ := h.on
  have hardware : decide (l < gicSoftwareLines) = false := decide_eq_false (Nat.not_lt.mpr wired.1)
  rw [through, enabled, hardware, Bool.and_false, Bool.or_false, dist, cpu, floor]
  rcases lets : g.lets l with _ | _
  · simp [h.shut l wired lets]
  · obtain ⟨enable, priority, target⟩ := h.lets l wired lets
    rw [enable, priority]
    by_cases shared : gicPercoreLines ≤ l
    · rw [target shared]
      simp +decide
    · simp +decide [Nat.not_le.mp shared]

theorem Stands.winner (h : Stands typer g d) (found : d.winner = some l) : gicWired typer l ∧ g.lets l = true := by
  obtain ⟨-, here⟩ := foremost_some found
  simp only [ready, Bool.and_eq_true] at here
  obtain ⟨⟨⟨pending, through⟩, -⟩, -⟩ := here
  have wired : gicWired typer l := by
    refine Classical.byContradiction fun unwired => ?_
    rw [h.silent l unwired] at pending
    cases pending
  exact ⟨wired, (h.through_iff wired).mp through⟩

theorem Stands.idle (h : Stands typer g d) (idle : g.serving = none) (k : Nat) : d.active k = false := by
  refine Bool.eq_false_iff.mpr fun active => ?_
  rw [(h.active k).mp active] at idle
  cases idle

theorem Stands.quiet (h : Stands typer g d) (idle : g.serving = none) (none : d.winner = none)
    (wired : gicWired typer l) (lets : g.lets l = true) : d.pending l ≠ true := by
  intro pending
  have silent := foremost_none none l wired.2.1
  have asks : d.ready l = true := by
    rw [ready, pending, (h.through_iff wired).mpr lets, h.idle idle l]
    simp [h.idle idle]
  rw [asks] at silent
  cases silent

theorem Stands.hand (h : Stands typer g d) (idle : g.serving = none) (wired : gicWired typer l) :
    Stands typer (g.handed l) { d with
      active := fun k => if k = l then true else d.active k
      latch := fun k => if k = l then false else d.latch k } := by
  refine ⟨h.reports, h.on, h.lets, h.shut, fun k => ?_, fun k serving => ?_, fun k unwired => ?_⟩
  · by_cases own : k = l
    · simp [own, Gate.handed]
    · simp [own, h.idle idle, Gate.handed, Ne.symm own]
  · cases serving
    exact wired
  · obtain ⟨level, latch⟩ := Bool.or_eq_false_iff.mp (h.silent k unwired)
    refine Bool.or_eq_false_iff.mpr ⟨level, ?_⟩
    show (if k = l then false else d.latch k) = false
    split
    · rfl
    · exact latch

theorem steers_claim (idle : g.serving = none) :
    Bus.Brings n (Stands typer g) irqClaim (Handed gic (gicWiring typer) (Stands typer) g ()) := by
  refine Bus.Steers.bind
    (R := fun a d => (a = gicSpurious ∧ Handed gic (gicWiring typer) (Stands typer) g () irqNone d) ∨
    a ≠ gicSpurious ∧ Handed gic (gicWiring typer) (Stands typer) g () a d) ?_ fun a => ?_
  · refine Bus.steers_access (Bus.lasts_of fun i _ => Stands.beat i) fun d hd => ⟨trivial, fun _ => ?_⟩
    rcases found : d.winner with _ | l
    · rw [acknowledges, found]
      exact Or.inl ⟨rfl, .nothing hd fun _ l wired lets => hd.quiet idle found wired lets⟩
    · obtain ⟨wired, lets⟩ := hd.winner found
      have number : l ≠ gicSpurious ∧ l ≠ irqNone := by
        obtain ⟨above, below, -⟩ := wired
        simp only [gicSoftwareLines, gicSpecialLines, gicSpurious, irqNone] at *
        omega
      rw [acknowledges, found]
      exact Or.inr ⟨number.1, .line wired number.2 lets (hd.hand idle wired)⟩
  · refine .ite (fun spurious => Bus.steers_pure fun d hd => ?_) fun other => Bus.steers_pure fun d hd => ?_
    · exact hd.elim And.right fun hd => absurd spurious hd.1
    · exact hd.elim (fun hd => absurd hd.1 other) And.right

theorem Stands.ends (h : Stands typer g d) (serving : ∀ k, g.serving = some k → k = l) :
    Stands typer g.completed (d.ends l) := by
  refine ⟨h.reports, h.on, h.lets, h.shut, fun k => ?_, fun k no => ?_, h.silent⟩
  · show (if k = l then false else d.active k) = true ↔ _
    by_cases own : k = l
    · simp [own, Gate.completed]
    · have : ¬d.active k = true := fun active => own (serving k ((h.active k).mp active))
      simp [own, this, Gate.completed]
  · cases no

theorem steers_complete (serving : ∀ k, g.serving = some k → k = l) :
    Bus.Brings n (Stands typer g) (complete l) fun _ => Stands typer g.completed :=
  Bus.steers_store (Bus.lasts_of fun i _ => Stands.beat i) fun _ hd => ⟨trivial, fun _ => hd.ends serving⟩

end GicRegs

/-- The driver does at the controller what is asked of it. -/
theorem gic_drives (typer : Nat) : Drives gic (gicWiring typer) (GicRegs.Off typer) (GicRegs.Stands typer) where
  apart := by decide
  wired l wired := by
    show irqLineValid typer l = true
    rw [irqLineValid, Bool.and_eq_true, decide_eq_true_iff, decide_eq_true_iff]
    refine ⟨?_, wired.2.2⟩
    rintro rfl
    exact absurd wired.1 (by decide)
  through g d l h _ wired := h.through_iff wired
  served g d l h idle := by
    show ¬d.active l = true
    simp [h.idle idle]
  beat g i d h := h.beat i
  init n := GicRegs.steers_reset
  unmask n g l valid _ := GicRegs.steers_unmask valid
  mask n g l valid := GicRegs.steers_mask valid
  claim n g how idle := GicRegs.steers_claim idle
  complete n g l serving := GicRegs.steers_complete fun k own => Option.some.inj (own.symm.trans serving)
  due n g idle := by
    have completed : Bus.Brings n (GicRegs.Stands typer g) (irqComplete irqTimer) fun _ =>
      GicRegs.Stands typer g.completed :=
      GicRegs.steers_complete fun k own => by cases idle.symm.trans own
    rwa [Gate.completed_idle idle] at completed

/-- Wherever it was brought, the controller lets through the lines of devices that the kernel told it to; it serves none
    between two calls, and what it hands out is one of them, as long as one of them is asserted. -/
theorem gic_obeys {typer : Nat} {r : Rig GicRegs} (reached : gic.Reached (gicWiring typer) (GicRegs.Off typer) r) :
    Obeys gic (gicWiring typer) r := (gic_drives typer).obeys reached

section

/-- A controller of 64 lines whose first 16 cannot be disabled. -/
def GicRegs.zero : GicRegs :=
  ⟨0, 1, fun _ => false, fun _ => 0, fun _ => 0, 0, 0, fun _ => false, fun _ => false, fun _ => false, true⟩

/-- The controller is brought up, lines 33 and 30 are unmasked and asserted, and two traps are served. -/
def gicServes : Bool :=
  Bus.returns gic.init 128 .zero fun _ d =>
    Bus.returns (gic.unmask 33) 0 d fun _ d =>
      Bus.returns (gic.unmask irqTimer) 0 d fun _ d =>
        Bus.returns (gic.serve ()) 0
          (Device.beat (GicBeat.raise irqTimer) (Device.beat (GicBeat.pulse 33) d)) fun a d =>
          a == irqTimer && Bus.returns (gic.serve ()) 0 (Device.beat (GicBeat.lower irqTimer) d) fun a _ => a == 33

theorem gic_serves : gicServes = true := by decide +kernel

/-- The timer's line is handed out first, and then line 33, which is not let through any more once it was served. -/
theorem gic_obeys_two : ∃ (r : Rig GicRegs) (b : Bus GicRegs GicBeat) (t : List GicRegs),
    gic.Reached (gicWiring 1) (GicRegs.Off 1) r ∧ gic.serve () 0 ⟨r.dev, fun _ => []⟩ = .ok 33 b t ∧
    (gicWiring 1).through r.dev irqTimer ∧ (gicWiring 1).through r.dev 33 ∧ ¬(gicWiring 1).through b.dev 33 := by
  obtain ⟨_, b₀, t₀, boot, opens⟩ := Bus.of_returns gic_serves
  obtain ⟨_, b₁, t₁, unmasked, opens⟩ := Bus.of_returns opens
  obtain ⟨_, b₂, t₂, unmasked', serves⟩ := Bus.of_returns opens
  obtain ⟨a, b₃, t₃, first, serves⟩ := Bus.of_returns serves
  obtain ⟨timer, again⟩ := Bool.and_eq_true_iff.mp serves
  obtain rfl := beq_iff_eq.mp timer
  obtain ⟨a, b, t, second, line⟩ := Bus.of_returns again
  obtain rfl := beq_iff_eq.mp line
  have off : GicRegs.Off 1 .zero := ⟨rfl, fun _ => rfl, fun _ _ => rfl⟩
  have booted : gic.Reached (gicWiring 1) (GicRegs.Off 1) _ := .boot off boot
  have valid : (gicWiring 1).valid 33 := rfl
  have valid' : (gicWiring 1).valid irqTimer := rfl
  have told := (booted.step (.unmask _ valid unmasked)).step (.unmask _ valid' unmasked')
  have served := ((told.step (.beat _ (.pulse 33))).step (.beat _ (.raise irqTimer))).step (.serve _ first)
  have reached := served.step (.beat _ (.lower irqTimer))
  have wired : (gicWiring 1).wired 33 := (by decide : gicWired 1 33)
  have wired' : (gicWiring 1).wired irqTimer := (by decide : gicWired 1 irqTimer)
  have obeys := gic_obeys reached
  refine ⟨_, b, t, reached, second, (obeys.through _ wired').mpr rfl, (obeys.through _ wired).mpr rfl, ?_⟩
  exact ((obeys.claims _ _ _ _ _ _ second).1 (by decide) (by decide)).2.2

end

end Sawos.Arm64
