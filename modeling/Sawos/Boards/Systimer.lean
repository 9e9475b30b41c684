import Sawos.Kernel.State
import Sawos.Boards.Clocks
import Sawos.Boards.MachineTimer

/-! # The system timer of the ESP32-C3

A counter, and an alarm that is latched when the counter comes to the loaded target. The kernel programs the next
target in the service of an alarm and on a process's behalf, while the counter goes on. -/

namespace Sawos.Esp32c3
open Exec

def systimerClkEn : BitVec 32 := 0x80000000
def systimerUnit0WorkEn : BitVec 32 := 1 <<< 30
def systimerTarget0WorkEn : BitVec 32 := 1 <<< 24
def systimerUnit0Update : BitVec 32 := 1 <<< 30
def systimerUnit0ValueValid : BitVec 32 := 1 <<< 29
def systimerComp0Load : BitVec 32 := 1
def systimerTarget0Int : BitVec 32 := 1

/-- The timer, at a moment. -/
structure Systimer where
  conf : BitVec 32
  target0Conf : BitVec 32
  target0Hi : BitVec 32
  target0Lo : BitVec 32
  unit0ValueHi : BitVec 32
  unit0ValueLo : BitVec 32
  intEna : BitVec 32
  count : Nat
  /-- The value registers are to be latched. -/
  updating : Bool
  valid : Bool
  /-- The target that was loaded. -/
  target : Option Nat
  /-- The alarm is latched. -/
  raw : Bool

/-- The timer, what the kernel keeps beside it, and what has come of the alarms so far. -/
structure Moment extends Systimer where
  /-- The kernel has enabled the timer's class of interrupts. -/
  timerClass : Bool
  /-- The targets that the counter has come to, and that no service of a fire has been late enough for. -/
  standing : List Nat
  /-- A target is loaded, and the latch is still to be cleared for it. -/
  clearing : Bool
  /-- A service of a fire is about to read the clock ... -/
  asked : Bool
  /-- ... or has read it, and has still to acknowledge the fire. -/
  serving : Bool
  /-- The counter has come to a target at a bad time, or a target was loaded at one. -/
  strayed : Bool
  /-- An alarm was standing and was not latched. -/
  missed : Bool

namespace Moment

/-- The loaded target is watched. -/
def enabled (m : Moment) : Bool := m.conf &&& systimerTarget0WorkEn != 0

/-- Each alarm that stands is latched. -/
def kept (m : Moment) : Bool := m.standing.isEmpty || m.raw

def record (m : Moment) : Moment := { m with missed := m.missed || !m.kept }

/-- The counter goes on. It comes to the target at a bad time when that is still to be enabled or to be cleared for, and
    between a service's reading of the clock and its acknowledgement. -/
def counts (m : Moment) : Moment :=
  if m.target = some (m.count + 1) then
    { m with
      count := m.count + 1
      raw := m.raw || m.enabled
      standing := (m.count + 1) :: m.standing
      strayed := m.strayed || !m.enabled || m.clearing || m.serving }
  else { m with count := m.count + 1 }

/-- The counter is latched into the value registers. -/
def latches (m : Moment) : Moment :=
  if m.updating then
    { m with
      updating := false
      valid := true
      unit0ValueHi := .ofNat 32 (m.count / 2 ^ 32)
      unit0ValueLo := .ofNat 32 m.count
      asked := false
      serving := m.serving || m.asked }
  else m

end Moment

inductive Beat where
  | count
  | latch

instance : Device Moment Beat where
  beat
    | .count, m => m.counts.record
    | .latch, m => m.latches.record

/-- The registers that the kernel reaches; `elsewhere` is any register of another device. -/
inductive Reg where
  | conf | unit0Op | target0Hi | target0Lo | target0Conf | unit0ValueHi | unit0ValueLo | comp0Load
  | intEna | intRaw | intClr | elsewhere

namespace Moment

def read (m : Moment) : Reg → BitVec 32
  | .conf => m.conf
  | .unit0Op => if m.valid then systimerUnit0ValueValid else 0
  | .target0Hi => m.target0Hi
  | .target0Lo => m.target0Lo
  | .target0Conf => m.target0Conf
  | .unit0ValueHi => m.unit0ValueHi
  | .unit0ValueLo => m.unit0ValueLo
  | .intEna => m.intEna
  | .intRaw => if m.raw then systimerTarget0Int else 0
  | _ => 0

/-- A write. A target is loaded at a bad time when an alarm stands that no fire is being served for. -/
def write (m : Moment) (v : BitVec 32) : Reg → Moment
  | .conf => { m with conf := v }
  | .unit0Op => if v &&& systimerUnit0Update = 0 then m else { m with updating := true, valid := false }
  | .target0Hi => { m with target0Hi := v }
  | .target0Lo => { m with target0Lo := v }
  | .target0Conf => { m with target0Conf := v }
  | .comp0Load =>
    if v &&& systimerComp0Load = 0 then m
    else { m with
      target := some (ofHalves m.target0Hi m.target0Lo).toNat
      clearing := true
      strayed := m.strayed || !m.serving && !m.standing.isEmpty }
  | .intEna => { m with intEna := v }
  | .intClr => if v &&& systimerTarget0Int = 0 then m else { m with raw := false, clearing := false }
  | _ => m

end Moment

abbrev Driver := Prog (Bus Moment Beat) Moment Unit

def read (r : Reg) : Driver (BitVec 32) := Bus.access fun m => (m.read r, m)
def write (r : Reg) (v : BitVec 32) : Driver Unit := Bus.access fun m => ((), (m.write v r).record)

/-- An overflow is a panic. -/
def orPanic {α : Type} : Option α → Driver α
  | some a => return a
  | none => halt ()

/-! ### The driver -/

namespace Systimer

def start : Driver Unit := do
  write .conf ((← read .conf) ||| systimerClkEn ||| systimerUnit0WorkEn)

def now : Driver (BitVec 64) := do
  write .unit0Op systimerUnit0Update
  loop (fun () => do
    if (← read .unit0Op) &&& systimerUnit0ValueValid = 0 then return .inl () else return .inr ()) ()
  let hi ← read .unit0ValueHi
  let lo ← read .unit0ValueLo
  return ofHalves hi lo

def deadline : Driver (BitVec 64) := do
  let hi ← read .target0Hi
  let lo ← read .target0Lo
  return ofHalves hi lo

def setDeadline (at' : BitVec 64) : Driver Unit := do
  write .target0Conf 0
  write .target0Hi ((at' >>> 32).setWidth 32)
  write .target0Lo (at'.setWidth 32)
  write .comp0Load systimerComp0Load
  write .intClr systimerTarget0Int
  write .intEna systimerTarget0Int
  write .conf ((← read .conf) ||| systimerTarget0WorkEn)

def expired : Driver Bool := do
  if (← read .intRaw) &&& systimerTarget0Int ≠ 0 then return true
  let now ← now
  return (← deadline) ≤ now

def ack : Driver Unit := write .intClr systimerTarget0Int

end Systimer

/-! ### The seam, and the kernel's use of it -/

namespace Seam

def timerNowNs : Driver Nat := do orPanic (Esp32c3.timerNowNs (← Systimer.now).toNat)

def irqClassEnable : Driver Unit := do
  Bus.notes ({ · with timerClass := true })
  write .elsewhere 0

def timerSetDeadlineNs (atNs : Nat) : Driver Unit := do
  Systimer.start
  Systimer.setDeadline (.ofNat 64 (← orPanic (nsToUnits atNs)))
  irqClassEnable

/-- Whether a poll finds the timer's line. -/
def irqPoll : Driver Bool := do
  if ← reads (·.dev.timerClass) then Systimer.expired else return false

/-- The end of the service of the timer's line; the pulse at the interrupt matrix is cleared by two writes. -/
def irqComplete : Driver Unit := do
  Systimer.ack
  Bus.notes ({ · with serving := false })
  write .elsewhere 0
  write .elsewhere 0

/-- The next deadline is programmed, where `next` is the earliest that the kernel owes. -/
def reprogramTimer (next : Nat) : Driver Unit := do
  if next = neverNs then timerSetDeadlineNs neverNs
  else
    let floor ← orPanic (checked64 ((← timerNowNs) + timerMinLeadNs))
    timerSetDeadlineNs (if next < floor then floor else next)

/-- A fire is serviced: what is due by the reading of the clock is expired, and then the next deadline is programmed. -/
def onTimerInterrupt (next : Nat) : Driver Unit := do
  Bus.notes ({ · with asked := true })
  let count ← Systimer.now
  let _now ← orPanic (Esp32c3.timerNowNs count.toNat)
  Bus.notes fun m => { m with standing := m.standing.filter (count.toNat < ·) }
  reprogramTimer next

def deliverLine (next : Nat) : Driver Unit := do
  onTimerInterrupt next
  irqComplete

end Seam

/-- What the kernel does with the timer: it services a fire, polls for one, programs a deadline, and reads the clock;
    `pause` is whatever else it does. -/
inductive TimerUse where
  | fire (next : Nat)
  | poll (next : Nat)
  | reprogram (next : Nat)
  | now
  | pause

def TimerUse.run : TimerUse → Driver Unit
  | .fire next => Seam.deliverLine next
  | .poll next => do whenever (← Seam.irqPoll) (Seam.deliverLine next)
  | .reprogram next => Seam.reprogramTimer next
  | .now => do
    let _now ← Seam.timerNowNs
    return
  | .pause => write .elsewhere 0

def runUses : List TimerUse → Driver Unit
  | [] => return
  | op :: ops => do
    op.run
    runUses ops

/-! ### What is kept at each moment -/

section
variable {n : Nat} {m : Moment} {fired loaded polls : Bool} {v : BitVec 32} {r : Reg}

/-- What holds whatever the kernel is about. -/
structure Tidy (m : Moment) : Prop where
  missed : m.missed = true → m.strayed = true
  strayed : m.strayed = true → m.missed = true ∨ (m.clearing = true ∨ m.serving = true) ∧ m.standing ≠ []
  past : ∀ t ∈ m.standing, t ≤ m.count
  latched : m.strayed = false → m.standing ≠ [] → m.raw = true
  cleared : m.strayed = false → m.clearing = true → m.standing = []
  disabled : m.target ≠ none → m.enabled = true ∨ m.clearing = true ∨ m.raw = false

theorem Tidy.counts (h : Tidy m) : Tidy m.counts.record := by
  obtain ⟨missed, strayed, past, latched, cleared, disabled⟩ := h
  unfold Moment.counts
  split
  · rename_i reached
    constructor <;> simp only [Moment.record, Moment.kept, Moment.enabled] at * <;> grind
  · constructor <;> simp only [Moment.record, Moment.kept, Moment.enabled] at * <;> grind

theorem Tidy.latches (h : Tidy m) : Tidy m.latches.record := by
  obtain ⟨missed, strayed, past, latched, cleared, disabled⟩ := h
  unfold Moment.latches
  split
  · constructor <;> simp only [Moment.record, Moment.kept, Moment.enabled] at * <;> grind
  · constructor <;> simp only [Moment.record, Moment.kept, Moment.enabled] at * <;> grind

/-- The registers that change what is latched, watched or loaded. -/
def Reg.Steering : Reg → Prop
  | .conf | .comp0Load | .intClr => True
  | _ => False

theorem Tidy.write (h : Tidy m) (plain : ¬r.Steering) : Tidy (m.write v r).record := by
  obtain ⟨missed, strayed, past, latched, cleared, disabled⟩ := h
  cases r <;> simp only [Reg.Steering, not_true_eq_false] at plain <;> simp only [Moment.write] <;> (try split) <;>
    constructor <;> simp only [Moment.record, Moment.kept, Moment.enabled] at * <;> grind

/-- The configuration is written back with what enables the target, if that was enabled. -/
theorem Tidy.configure (h : Tidy m) (still : m.enabled = true → v &&& systimerTarget0WorkEn ≠ 0) :
    Tidy (m.write v .conf).record := by
  obtain ⟨missed, strayed, past, latched, cleared, disabled⟩ := h
  constructor <;> simp only [Moment.write, Moment.record, Moment.kept, Moment.enabled, bne_iff_ne] at * <;> grind

theorem Tidy.load (h : Tidy m) (served : m.serving = true → m.strayed = false → m.standing = []) :
    Tidy (m.write systimerComp0Load .comp0Load).record := by
  obtain ⟨missed, strayed, past, latched, cleared, disabled⟩ := h
  have bit : ¬systimerComp0Load &&& systimerComp0Load = 0 := by decide
  constructor <;> simp only [Moment.write, if_neg bit, Moment.record, Moment.kept, Moment.enabled] at * <;> grind

/-- The latch is cleared, which loses nothing while the run has not strayed; and if it has, nothing stands that is not
    lost. -/
theorem Tidy.clear (h : Tidy m) (served : m.strayed = false → m.standing = []) :
    Tidy (m.write systimerTarget0Int .intClr).record ∧
    ((m.write systimerTarget0Int .intClr).record.strayed = true →
      (m.write systimerTarget0Int .intClr).record.missed = true) := by
  obtain ⟨missed, strayed, past, latched, cleared, disabled⟩ := h
  have bit : ¬systimerTarget0Int &&& systimerTarget0Int = 0 := by decide
  refine ⟨?_, ?_⟩
  · constructor <;> simp only [Moment.write, if_neg bit, Moment.record, Moment.kept, Moment.enabled] at * <;> grind
  · simp only [Moment.write, if_neg bit, Moment.record, Moment.kept] at *
    grind

/-- The kernel is in the service of a fire or not, is programming a target or not, and is polling for a value or not;
    what a service has read the clock for stands no longer. -/
structure Mode (fired loaded polls : Bool) (m : Moment) : Prop where
  tidy : Tidy m
  asked : m.asked = false
  serving : m.serving = fired
  clearing : m.clearing = loaded
  served : fired = true → m.strayed = false → m.standing = []
  settled : (polls = true → m.valid = true) → m.updating = false

theorem Mode.beat (h : Mode fired loaded polls m) (i : Beat) : Mode fired loaded polls (Device.beat i m) := by
  obtain ⟨tidy, asked, serving, clearing, served, settled⟩ := h
  cases i with
  | count =>
    refine ⟨tidy.counts, ?_, ?_, ?_, ?_, ?_⟩ <;> simp only [Device.beat, Moment.counts, Moment.record]
      <;> split <;> grind
  | latch =>
    refine ⟨tidy.latches, ?_, ?_, ?_, ?_, ?_⟩ <;> simp only [Device.beat, Moment.latches, Moment.record]
      <;> split <;> grind

/-- A register that neither steers the alarm nor asks for the counter's value. -/
def Reg.Plain (r : Reg) : Prop := ¬r.Steering ∧ r ≠ .unit0Op

theorem Mode.write (h : Mode fired loaded polls m) (plain : r.Plain) :
    Mode fired loaded polls (m.write v r).record := by
  obtain ⟨tidy, asked, serving, clearing, served, settled⟩ := h
  obtain ⟨plain, other⟩ := plain
  refine ⟨tidy.write plain, ?_, ?_, ?_, ?_, ?_⟩ <;> cases r <;> simp only [Reg.Steering, not_true_eq_false] at plain <;>
    first | assumption | exact absurd rfl other

/-! ### What each access keeps -/

/-- The counter's 52 bits have not run over. -/
def InTime (m : Moment) : Prop := m.count < 2 ^ 52

/-- While the run has not strayed, each alarm that stands is latched. -/
def Honest (m : Moment) : Prop := m.strayed = false → m.standing ≠ [] → m.raw = true

/-- At all moments in time, and with honest ones before them, the program keeps to `P` and answers with `R`. -/
abbrev Drives {α : Type} (n : Nat) (P : Moment → Prop) (m : Driver α) (R : α → Moment → Prop) : Prop :=
  Bus.Steers InTime n Honest P m R

theorem Mode.lasts : Bus.Lasts InTime Honest (Mode fired loaded polls) :=
  fun i _ h => ⟨(h.beat i).tidy.latched, fun _ => h.beat i⟩

theorem drives_read : Drives n (Mode fired loaded polls) (read r) fun _ => Mode fired loaded polls :=
  Bus.steers_access Mode.lasts fun _ h => ⟨h.tidy.latched, fun _ => h⟩

theorem drives_write (r : Reg) (plain : r.Plain) : Drives n (Mode fired loaded polls) (write r v) fun _ =>
    Mode fired loaded polls :=
  Bus.steers_access Mode.lasts fun _ h => ⟨(h.write plain).tidy.latched, fun _ => h.write plain⟩

theorem beat_conf (i : Beat) (m : Moment) : (Device.beat i m).conf = m.conf := by
  cases i <;> simp only [Device.beat, Moment.counts, Moment.latches, Moment.record] <;> split <;> rfl

/-- The configuration is written back with more bits set. -/
theorem drives_configure (bits : BitVec 32 → BitVec 32)
    (more : ∀ conf, conf &&& systimerTarget0WorkEn ≠ 0 → bits conf &&& systimerTarget0WorkEn ≠ 0) :
    Drives n (Mode fired loaded polls) (do write .conf (bits (← read .conf))) fun _ => Mode fired loaded polls := by
  refine (Bus.steers_access (R := fun conf m => Mode fired loaded polls m ∧ m.conf = conf) Mode.lasts
    fun m h => ?_).bind fun conf => ?_
  · exact ⟨h.tidy.latched, fun _ => ⟨h, rfl⟩⟩
  · refine Bus.steers_access ?_ ?_
    · rintro i m ⟨h, rfl⟩
      exact ⟨(h.beat i).tidy.latched, fun _ => ⟨h.beat i, beat_conf i m⟩⟩
    · rintro m ⟨h, rfl⟩
      have tidy := h.tidy.configure (v := bits m.conf) fun on => more m.conf (bne_iff_ne.mp on)
      exact ⟨tidy.latched, fun _ => ⟨tidy, h.asked, h.serving, h.clearing, h.served, h.settled⟩⟩

theorem drives_load : Drives n (Mode fired loaded polls) (write .comp0Load systimerComp0Load) fun _ =>
    Mode fired true polls := by
  refine Bus.steers_access Mode.lasts fun m h => ?_
  have tidy := h.tidy.load fun on => h.served (h.serving.symm.trans on)
  refine ⟨tidy.latched, fun _ => ⟨tidy, h.asked, h.serving, rfl, fun on calm => h.served on ?_, h.settled⟩⟩
  exact (Bool.or_eq_false_iff.mp calm).1

theorem drives_clear (window : fired = true ∨ loaded = true) :
    Drives n (Mode fired loaded polls) (write .intClr systimerTarget0Int)
      fun _ m => Mode fired false polls m ∧ (m.strayed = true → m.missed = true) := by
  refine Bus.steers_access Mode.lasts fun m h => ?_
  have none : m.strayed = false → m.standing = [] := fun calm => by
    rcases window with rfl | rfl
    · exact h.served rfl calm
    · exact h.tidy.cleared calm h.clearing
  obtain ⟨tidy, lost⟩ := h.tidy.clear none
  exact ⟨tidy.latched, fun _ => ⟨⟨tidy, h.asked, h.serving, rfl, h.served, h.settled⟩, lost⟩⟩

theorem drives_update : Drives n (Mode fired loaded false) (write .unit0Op systimerUnit0Update) fun _ =>
    Mode fired loaded true := by
  refine Bus.steers_access Mode.lasts fun m h => ?_
  have tidy := h.tidy.write (v := systimerUnit0Update) (r := .unit0Op) not_false
  exact ⟨tidy.latched, fun _ =>
    ⟨tidy, h.asked, h.serving, h.clearing, h.served, fun valid => (Bool.false_ne_true (valid rfl)).elim⟩⟩

theorem read_valid (m : Moment) : m.read .unit0Op &&& systimerUnit0ValueValid = 0 ↔ m.valid = false := by
  cases h : m.valid <;> simp only [Moment.read, h] <;> decide

/-- A poll for the value: it goes on while there is none. -/
theorem drives_poll {P Q : Moment → Prop} (lasts : Bus.Lasts InTime Honest P) (honest : ∀ m, P m → Honest m)
    (valid : ∀ m, P m → m.valid = true → Q m) :
    Drives n P (loop (fun () => do
      if (← read .unit0Op) &&& systimerUnit0ValueValid = 0 then return .inl () else return .inr ()) ()) fun _ => Q := by
  refine Bus.Steers.loop (I := fun _ => P) (fun _ => ?_) ()
  refine (Bus.steers_access (R := fun v m => P m ∧ m.read .unit0Op = v) lasts fun m h =>
    ⟨honest m h, fun _ => ⟨h, rfl⟩⟩).bind fun v => ?_
  refine .ite (fun _ => Bus.steers_pure fun _ h => h.1) fun some => Bus.steers_pure ?_
  rintro m ⟨h, rfl⟩
  exact valid m h (Bool.eq_true_of_not_eq_false fun none => some ((read_valid m).mpr none))

theorem drives_now : Drives n (Mode fired loaded false) Systimer.now fun _ => Mode fired loaded false := by
  refine drives_update.bind fun _ => ?_
  refine (drives_poll (Q := Mode fired loaded false) Mode.lasts (fun m h => h.tidy.latched) fun m h valid => ?_).bind
    fun _ => ?_
  · exact ⟨h.tidy, h.asked, h.serving, h.clearing, h.served, fun _ => h.settled fun _ => valid⟩
  · exact drives_read.bind fun _ => drives_read.bind fun _ => Bus.steers_pure fun _ h => h

theorem drives_orPanic {α : Type} {P : Moment → Prop} (o : Option α) : Drives n P (orPanic o) fun _ => P := by
  cases o with
  | none => exact Bus.steers_halt
  | some a => exact Bus.steers_pure fun _ h => h

/-! ### The driver and its seam -/

theorem enables_start (conf : BitVec 32) (on : conf &&& systimerTarget0WorkEn ≠ 0) :
    (conf ||| systimerClkEn ||| systimerUnit0WorkEn) &&& systimerTarget0WorkEn ≠ 0 := by
  have others : (systimerClkEn ||| systimerUnit0WorkEn) &&& systimerTarget0WorkEn = 0#32 := by decide
  rwa [BitVec.or_assoc, BitVec.and_or_distrib_right, others, BitVec.or_zero]

theorem enables_setDeadline (conf : BitVec 32) : (conf ||| systimerTarget0WorkEn) &&& systimerTarget0WorkEn ≠ 0 := by
  intro none
  have bit := congrArg (·.getLsbD 24) none
  rw [BitVec.getLsbD_and, BitVec.getLsbD_or] at bit
  revert bit
  cases conf.getLsbD 24 <;> decide

theorem drives_start : Drives n (Mode fired loaded false) Systimer.start fun _ => Mode fired loaded false :=
  drives_configure _ enables_start

theorem drives_setDeadline (at' : BitVec 64) :
    Drives n (Mode fired false false) (Systimer.setDeadline at') fun _ => Mode fired false false := by
  refine (drives_write .target0Conf ⟨not_false, nofun⟩).bind fun _ => ?_
  refine (drives_write .target0Hi ⟨not_false, nofun⟩).bind fun _ => ?_
  refine (drives_write .target0Lo ⟨not_false, nofun⟩).bind fun _ => drives_load.bind fun _ => ?_
  refine ((drives_clear (Or.inr rfl)).imp (fun _ => id) fun _ _ h => h.1).bind fun _ => ?_
  refine (drives_write .intEna ⟨not_false, nofun⟩).bind fun _ => ?_
  exact drives_configure _ fun conf _ => enables_setDeadline conf

theorem drives_expired : Drives n (Mode fired loaded false) Systimer.expired fun _ => Mode fired loaded false := by
  refine drives_read.bind fun raw => .ite (fun _ => Bus.steers_pure fun _ h => h) fun _ => drives_now.bind fun _ => ?_
  refine Bus.Steers.bind ?_ fun _ => Bus.steers_pure fun _ h => h
  exact drives_read.bind fun _ => drives_read.bind fun _ => Bus.steers_pure fun _ h => h

theorem drives_timerNowNs : Drives n (Mode fired loaded false) Seam.timerNowNs fun _ => Mode fired loaded false :=
  drives_now.bind fun _ => drives_orPanic _

theorem drives_irqClassEnable : Drives n (Mode fired loaded polls) Seam.irqClassEnable fun _ =>
    Mode fired loaded polls := by
  refine (Bus.steers_notes fun m h => ?_).bind fun _ => drives_write .elsewhere ⟨not_false, nofun⟩
  obtain ⟨⟨missed, strayed, past, latched, cleared, disabled⟩, asked, serving, clearing, served, settled⟩ := h
  exact ⟨⟨missed, strayed, past, latched, cleared, disabled⟩, asked, serving, clearing, served, settled⟩

theorem drives_timerSetDeadlineNs (ns : Nat) :
    Drives n (Mode fired false false) (Seam.timerSetDeadlineNs ns) fun _ => Mode fired false false :=
  drives_start.bind fun _ => (drives_orPanic _).bind fun _ => (drives_setDeadline _).bind fun _ => drives_irqClassEnable

theorem drives_reprogramTimer (next : Nat) :
    Drives n (Mode fired false false) (Seam.reprogramTimer next) fun _ => Mode fired false false := by
  unfold Seam.reprogramTimer
  split
  · exact drives_timerSetDeadlineNs _
  · refine drives_timerNowNs.bind fun now => ?_
    generalize checked64 (now + timerMinLeadNs) = floor
    exact (drives_orPanic floor).bind fun _ => drives_timerSetDeadlineNs _

theorem drives_irqPoll : Drives n (Mode fired loaded false) Seam.irqPoll fun _ => Mode fired loaded false :=
  (Bus.steers_reads (f := fun m => m.timerClass) (R := fun _ => Mode fired loaded false) fun _ h => h).bind fun _ =>
    .ite (fun _ => drives_expired) fun _ => Bus.steers_pure fun _ h => h

/-! ### The service of a fire -/

/-- A service is about to read the clock. -/
structure Asked (m : Moment) : Prop where
  tidy : Tidy m
  asked : m.asked = true
  serving : m.serving = false
  clearing : m.clearing = false

/-- A service's reading of the clock has been latched. Each alarm that stands is covered by it, unless the run has
    strayed. -/
structure Taken (now : BitVec 64) (m : Moment) : Prop where
  tidy : Tidy m
  asked : m.asked = false
  serving : m.serving = true
  clearing : m.clearing = false
  settled : m.updating = false
  value : ofHalves m.unit0ValueHi m.unit0ValueLo = now
  past : now.toNat ≤ m.count
  covered : m.strayed = false → ∀ t ∈ m.standing, t ≤ now.toNat
  lost : m.strayed = true → m.missed = true ∨ ∃ t ∈ m.standing, now.toNat < t

/-- The service polls for the value. -/
def Asking (m : Moment) : Prop := Asked m ∧ m.valid = false ∨ ∃ now, Taken now m

theorem Asked.count (h : Asked m) : Asked m.counts.record := by
  obtain ⟨tidy, asked, serving, clearing⟩ := h
  refine ⟨tidy.counts, ?_, ?_, ?_⟩ <;> simp only [Moment.counts, Moment.record] <;> split <;> assumption

theorem Asked.idle (h : Asked m) (idle : m.updating = false) : Asked m.latches.record := by
  obtain ⟨tidy, asked, serving, clearing⟩ := h
  have same : m.latches = m := if_neg (ne_true_of_eq_false idle)
  exact ⟨tidy.latches, same.symm ▸ asked, same.symm ▸ serving, same.symm ▸ clearing⟩

theorem value_latched (inTime : m.count < 2 ^ 52) :
    (ofHalves (.ofNat 32 (m.count / 2 ^ 32)) (.ofNat 32 m.count)).toNat = m.count := by
  rw [toNat_ofHalves, BitVec.toNat_ofNat, BitVec.toNat_ofNat]
  omega

theorem Asked.latch (h : Asked m) (inTime : m.count < 2 ^ 52) (updating : m.updating = true) :
    Taken (ofHalves (.ofNat 32 (m.count / 2 ^ 32)) (.ofNat 32 m.count)) m.latches.record := by
  have tidy := h.tidy.latches
  obtain ⟨⟨missed, strayed, past, latched, cleared, disabled⟩, asked, serving, clearing⟩ := h
  have now := value_latched inTime
  have taken : m.latches = _ := if_pos updating
  rw [taken] at tidy ⊢
  refine ⟨tidy, rfl, ?_, clearing, rfl, rfl, Nat.le_of_eq now, fun _ => now.symm ▸ past, fun on => Or.inl ?_⟩
  · simp only [Moment.record, serving, asked, Bool.false_or]
  · simp only [Moment.record] at on ⊢
    grind

theorem Taken.beat {now : BitVec 64} (h : Taken now m) (i : Beat) : Taken now (Device.beat i m) := by
  obtain ⟨tidy, asked, serving, clearing, settled, value, past, covered, lost⟩ := h
  cases i with
  | count =>
    have later : (Device.beat .count m).strayed = true →
        (Device.beat .count m).missed = true ∨ ∃ t ∈ (Device.beat .count m).standing, now.toNat < t := by
      simp only [Device.beat, Moment.counts, Moment.record]
      split
      · exact fun _ => Or.inr ⟨_, List.mem_cons_self, Nat.lt_succ_of_le past⟩
      · grind
    refine ⟨tidy.counts, ?_, ?_, ?_, ?_, ?_, ?_, ?_, later⟩ <;> simp only [Device.beat, Moment.counts, Moment.record]
      <;> split <;> grind
  | latch =>
    have same : m.latches = m := if_neg (ne_true_of_eq_false settled)
    refine ⟨tidy.latches, ?_, ?_, ?_, ?_, ?_, ?_, ?_, ?_⟩ <;> simp only [Device.beat, same, Moment.record] <;> grind

theorem Asking.lasts : Bus.Lasts InTime Honest Asking := by
  rintro i m (⟨h, invalid⟩ | ⟨now, h⟩)
  · cases i with
    | count =>
      refine ⟨h.count.tidy.latched, fun _ => Or.inl ⟨h.count, ?_⟩⟩
      simp only [Device.beat, Moment.counts, Moment.record]
      split <;> exact invalid
    | latch =>
      by_cases updating : m.updating = true
      · refine ⟨h.tidy.latches.latched, fun inTime => Or.inr ⟨_, h.latch ?_ updating⟩⟩
        simp only [InTime, Device.beat, Moment.latches, if_pos updating, Moment.record] at inTime
        exact inTime
      · have same : m.latches = m := if_neg updating
        have idle := h.idle (Bool.eq_false_of_not_eq_true updating)
        refine ⟨idle.tidy.latched, fun _ => Or.inl ⟨idle, ?_⟩⟩
        simp only [Device.beat, same]
        exact invalid
  · exact ⟨(h.beat i).tidy.latched, fun _ => Or.inr ⟨now, h.beat i⟩⟩

theorem Asking.honest (m : Moment) (h : Asking m) : Honest m := by
  rcases h with ⟨h, -⟩ | ⟨now, h⟩
  · exact h.tidy.latched
  · exact h.tidy.latched

/-- The value registers are read one after the other. -/
theorem drives_values : Drives n (fun m => ∃ now, Taken now m)
    (do
      let hi ← read .unit0ValueHi
      let lo ← read .unit0ValueLo
      return ofHalves hi lo)
    Taken := by
  have lasts : Bus.Lasts InTime Honest fun m => ∃ now, Taken now m := by
    rintro i m ⟨now, h⟩
    exact ⟨(h.beat i).tidy.latched, fun _ => ⟨now, h.beat i⟩⟩
  refine (Bus.steers_access (R := fun hi m => ∃ lo, Taken (ofHalves hi lo) m ∧ m.unit0ValueLo = lo) lasts ?_).bind
    fun hi => ?_
  · rintro m ⟨now, h⟩
    have same := h.value
    exact ⟨h.tidy.latched, fun _ => ⟨m.unit0ValueLo, same.symm ▸ h, rfl⟩⟩
  · refine (Bus.steers_access (R := fun lo => Taken (ofHalves hi lo)) ?_ ?_).bind fun lo => Bus.steers_pure fun _ h => h
    · rintro i m ⟨lo, h, rfl⟩
      refine ⟨(h.beat i).tidy.latched, fun _ => ⟨m.unit0ValueLo, h.beat i, ?_⟩⟩
      cases i with
      | count =>
        simp only [Device.beat, Moment.counts, Moment.record]
        split <;> rfl
      | latch => simp only [Device.beat, Moment.latches, h.settled, Bool.false_eq_true, if_false, Moment.record]
    · rintro m ⟨lo, h, rfl⟩
      exact ⟨h.tidy.latched, fun _ => h⟩

/-- The clock as a service reads it. -/
theorem drives_reading : Drives n (fun m => Asked m ∧ m.updating = false) Systimer.now Taken := by
  refine (Bus.steers_access (R := fun _ => Asking) ?_ ?_).bind fun _ => ?_
  · rintro i m ⟨h, idle⟩
    cases i with
    | count =>
      refine ⟨h.count.tidy.latched, fun _ => ⟨h.count, ?_⟩⟩
      simp only [Device.beat, Moment.counts, Moment.record]
      split <;> exact idle
    | latch =>
      have same : m.latches = m := if_neg (ne_true_of_eq_false idle)
      refine ⟨(h.idle idle).tidy.latched, fun _ => ⟨h.idle idle, ?_⟩⟩
      simp only [Device.beat, same]
      exact idle
  · rintro m ⟨h, -⟩
    have tidy := h.tidy.write (v := systimerUnit0Update) (r := .unit0Op) not_false
    exact ⟨tidy.latched, fun _ => Or.inl ⟨⟨tidy, h.asked, h.serving, h.clearing⟩, rfl⟩⟩
  · refine (drives_poll (Q := fun m => ∃ now, Taken now m) Asking.lasts Asking.honest ?_).bind fun _ => drives_values
    rintro m (⟨-, invalid⟩ | h) valid
    · exact absurd (valid.symm.trans invalid) (by decide)
    · exact h

/-- What is due by the reading has been expired, and stands no longer. -/
theorem Taken.serve {now : BitVec 64} (h : Taken now m) :
    Mode true false false { m with standing := m.standing.filter (now.toNat < ·) } := by
  obtain ⟨⟨missed, strayed, past, latched, cleared, disabled⟩, asked, serving, clearing, settled, value,
    early, covered, lost⟩ := h
  have none : m.strayed = false → m.standing.filter (now.toNat < ·) = [] := fun calm => by
    rw [List.filter_eq_nil_iff]
    intro t ht
    simpa using covered calm t ht
  refine ⟨⟨missed, fun on => ?_, ?_, ?_, fun calm _ => none calm, disabled⟩, asked, serving, clearing,
    fun _ => none, fun _ => settled⟩
  · rcases lost on with lost | ⟨t, ht, later⟩
    · exact Or.inl lost
    · exact Or.inr ⟨Or.inr serving, List.ne_nil_of_mem (List.mem_filter.mpr ⟨ht, decide_eq_true later⟩)⟩
  · exact fun t ht => past t (List.mem_of_mem_filter ht)
  · exact fun calm some => absurd (none calm) some

theorem drives_onTimerInterrupt (next : Nat) :
    Drives n (Mode false false false) (Seam.onTimerInterrupt next) fun _ => Mode true false false := by
  refine (Bus.steers_notes (R := fun _ m => Asked m ∧ m.updating = false) fun m h => ?_).bind fun _ => ?_
  · obtain ⟨⟨missed, strayed, past, latched, cleared, disabled⟩, asked, serving, clearing, served, settled⟩ := h
    exact ⟨⟨⟨missed, strayed, past, latched, cleared, disabled⟩, rfl, serving, clearing⟩, settled nofun⟩
  · refine drives_reading.bind fun now => (drives_orPanic _).bind fun _ => ?_
    exact (Bus.steers_notes fun m h => h.serve).bind fun _ => drives_reprogramTimer next

theorem drives_irqComplete : Drives n (Mode true false false) Seam.irqComplete fun _ => Mode false false false := by
  refine (drives_clear (Or.inl rfl)).bind fun _ => ?_
  refine (Bus.steers_notes (R := fun _ => Mode false false false) ?_).bind fun _ => ?_
  · rintro m ⟨⟨⟨missed, strayed, past, latched, cleared, disabled⟩, asked, serving, clearing, served, settled⟩, lost⟩
    exact ⟨⟨missed, fun on => Or.inl (lost on), past, latched, cleared, disabled⟩, asked, rfl, clearing, nofun, settled⟩
  · exact (drives_write .elsewhere ⟨not_false, nofun⟩).bind fun _ => drives_write .elsewhere ⟨not_false, nofun⟩

theorem drives_deliverLine (next : Nat) :
    Drives n (Mode false false false) (Seam.deliverLine next) fun _ => Mode false false false :=
  (drives_onTimerInterrupt next).bind fun _ => drives_irqComplete

theorem drives_use (use : TimerUse) : Drives n (Mode false false false) use.run fun _ => Mode false false false := by
  cases use with
  | fire next => exact drives_deliverLine next
  | poll next =>
    refine drives_irqPoll.bind fun expired => ?_
    exact .whenever (fun _ => drives_deliverLine next) fun _ _ h => h
  | reprogram next => exact drives_reprogramTimer next
  | now => exact drives_timerNowNs.bind fun _ => Bus.steers_pure fun _ h => h
  | pause => exact drives_write .elsewhere ⟨not_false, nofun⟩

theorem drives_uses (uses : List TimerUse) : Drives n (Mode false false false) (runUses uses) fun _ =>
    Mode false false false := by
  induction uses with
  | nil => exact Bus.steers_pure fun _ h => h
  | cons use uses ih => exact (drives_use use).bind fun _ => ih

/-- Before the first target is loaded. -/
structure Fresh (m : Moment) : Prop where
  target : m.target = none
  updating : m.updating = false
  standing : m.standing = []
  clearing : m.clearing = false
  asked : m.asked = false
  serving : m.serving = false
  strayed : m.strayed = false
  missed : m.missed = false

theorem Fresh.mode (h : Fresh m) : Mode false false false m := by
  obtain ⟨target, updating, standing, clearing, asked, serving, strayed, missed⟩ := h
  refine ⟨⟨?_, ?_, ?_, ?_, ?_, ?_⟩, asked, serving, clearing, nofun, fun _ => updating⟩ <;> grind

/-- In a run that is in time, each alarm that stands is latched up to the moment at which the run strays; and a run
    that has strayed has missed an alarm when the kernel is through with the timer. -/
theorem alarms_are_kept {b : Bus Moment Beat} (fresh : Fresh b.dev) (uses : List TimerUse)
    (inTime : ∀ m ∈ (runUses uses n b).trace, InTime m) :
    (∀ m ∈ (runUses uses n b).trace, m.strayed = false → m.standing ≠ [] → m.raw = true) ∧
    ∀ b' t, runUses uses n b = .ok () b' t → (b'.dev.missed = true ↔ b'.dev.strayed = true) := by
  have drives := drives_uses (n := n) uses
  refine ⟨drives.moments fresh.mode inTime, fun b' t run => ?_⟩
  rw [run] at inTime
  obtain ⟨tidy, -, serving, clearing, -, -⟩ := drives.ok fresh.mode run inTime
  refine ⟨tidy.missed, fun strayed => ?_⟩
  rcases tidy.strayed strayed with lost | ⟨window, -⟩
  · exact lost
  · rw [serving, clearing] at window
    exact absurd window (by decide)

end

end Sawos.Esp32c3

namespace Sawos
open Exec Esp32c3

/-- The counter of riscv32 virt is read as it is at some moment of the call, and its comparator names no instant
    before both deadlines while it is written; and on the ESP32-C3 no alarm is lost exactly as long as the counter
    comes to no target that is still to be cleared for or to be enabled, nor to one between a service's reading of the
    clock and its acknowledgement, and no target is loaded for a process while an alarm stands. -/
theorem no_alarm_is_lost_iff (n : Nat) (c : Bus Riscv32.MachineTimer Unit) (at' : BitVec 64) (b : Bus Moment Beat)
    (uses : List TimerUse) :
    (Riscv32.MachineTimer.InTime c → 2 ^ 32 ≤ n →
      ∃ v c' t, Riscv32.MachineTimer.now n c = .ok v c' t ∧ ∃ m ∈ t, m.count = v.toNat) ∧
    (∃ c' t, Riscv32.MachineTimer.setDeadline at' n c = .ok () c' t ∧ c'.dev.deadline = at' ∧
      ∀ m ∈ t, min c.dev.deadline.toNat at'.toNat ≤ m.deadline.toNat) ∧
    (Fresh b.dev → (∀ m ∈ (runUses uses n b).trace, InTime m) →
      (∀ m ∈ (runUses uses n b).trace, m.strayed = false → m.standing ≠ [] → m.raw = true) ∧
      ∀ b' t, runUses uses n b = .ok () b' t → (b'.dev.missed = true ↔ b'.dev.strayed = true)) :=
  ⟨Riscv32.MachineTimer.now_answers, Riscv32.MachineTimer.setDeadline_writes at', fun fresh =>
    alarms_are_kept fresh uses⟩

/-- A machine on which the timer has not been used, with 50 microseconds before the access `late`. -/
def lateBus (late : Nat) : Bus Moment Beat where
  dev :=
    { conf := 0, target0Conf := 0, target0Hi := 0, target0Lo := 0, unit0ValueHi := 0, unit0ValueLo := 0, intEna := 0
      count := 0, updating := false, valid := false, target := none, raw := false, timerClass := false
      standing := [], clearing := false, asked := false, serving := false, strayed := false, missed := false }
  gaps k := .latch :: if k = late then List.replicate 800 .count else []

theorem fresh_lateBus (late : Nat) : Fresh (lateBus late).dev := ⟨rfl, rfl, rfl, rfl, rfl, rfl, rfl, rfl⟩

/-- A machine timer whose counter does not move. -/
def stillBus : Bus Riscv32.MachineTimer Unit := ⟨⟨5, 0, 0⟩, fun _ => []⟩

theorem inTime_stillBus : Riscv32.MachineTimer.InTime stillBus := by
  intro k
  have none : Bus.steps k stillBus.gaps = 0 := by
    induction k with
    | zero => rfl
    | succ k ih => exact (Nat.zero_add _).trans ih
  rw [none]
  decide

/-- A still counter is read, its comparator is written, and a deadline that is programmed in time is not lost. -/
theorem no_alarm_is_lost_iff_late :
    (∃ v b' t, Riscv32.MachineTimer.now (2 ^ 32) stillBus = .ok v b' t ∧ ∃ m ∈ t, m.count = v.toNat) ∧
    (∃ b' t, Riscv32.MachineTimer.setDeadline 7 4 stillBus = .ok () b' t ∧ b'.dev.deadline = 7 ∧
      ∀ m ∈ t, min stillBus.dev.deadline.toNat (7 : BitVec 64).toNat ≤ m.deadline.toNat) ∧
    ∀ m ∈ (runUses [.reprogram 0, .pause, .fire 0] 4 (lateBus 15)).trace, m.strayed = false →
      m.standing ≠ [] → m.raw = true := by
  have still := no_alarm_is_lost_iff (2 ^ 32) stillBus 7 (lateBus 15) []
  have kept := no_alarm_is_lost_iff 4 stillBus 7 (lateBus 15) [.reprogram 0, .pause, .fire 0]
  refine ⟨still.1 inTime_stillBus (Nat.le_refl _), kept.2.1, (kept.2.2 (fresh_lateBus 15) ?_).1⟩
  show ∀ m ∈ (runUses [.reprogram 0, .pause, .fire 0] 4 (lateBus 15)).trace, m.count < 2 ^ 52
  decide +kernel

def lastMoment {α : Type} : Outcome (Bus Moment Beat) Moment Unit α → Option Moment
  | .ok _ b _ => some b.dev
  | _ => none

/-- The counter comes to the target between its load and the clearing of the latch, or between the end of a service's
    programming and its acknowledgement: an alarm stands, and is not latched. -/
theorem alarm_is_cleared :
    (lastMoment (runUses [.reprogram 0, .reprogram 0] 4 (lateBus 25))).map (fun m => (m.standing, m.raw)) = some
    ([800], false) ∧
    (lastMoment (runUses [.reprogram 0, .fire 0] 4 (lateBus 34))).map (fun m => (m.standing, m.raw)) = some
    ([800], false) := by
  decide +kernel

end Sawos
