import Sawos.Lib.Controller
import Sawos.Boards.Riscv32

/-! # The interrupt controller of riscv32 virt

Each source has a priority register and a bit in the enable words of the context that the kernel runs in. The
controller hands a source out when its claim register is read, and holds it back until its number is written there
again; it ignores that write for a source whose bit is clear. So a line is masked by its priority, and its bit stays
set. -/

namespace Sawos.Riscv32
open Exec

/-! ### The controller -/

def plicPriorityBase : Nat := 0x0C000000
def plicEnableBase : Nat := 0x0C002000
def plicContextBase : Nat := 0x0C200000
def plicMaxSource : Nat := maxSource .virt
def plicPriorityMasked : Nat := 0
def plicPriorityActive : Nat := 1
def plicSourcesPerWord : Nat := 32
def registerBytes : Nat := 4
/-- The sources that the registers have room for. -/
def plicSources : Nat := 1024
def irqNone : Nat := 0
def irqTimer : Nat := 1024
def interruptFlag : Nat := 2 ^ 31
def irqClassTimer : Nat := 0x80
def irqClassExternal : Nat := 0x800

/-- The registers; of each source whether its device asserts it, whether it waits to be handed out, and whether it was
    and is held back; and the classes of interrupts that reach the hart, with whether its timer has expired. -/
structure Plic where
  priority : Nat → Nat
  enable : Nat → Nat
  threshold : Nat
  level : Nat → Bool
  pending : Nat → Bool
  claimed : Nat → Bool
  classes : Nat
  mie : Nat
  expired : Bool

namespace Plic

def enabled (d : Plic) (l : Nat) : Bool := (d.enable (l / plicSourcesPerWord)).testBit (l % plicSourcesPerWord)

/-- The source can be handed out. -/
def ready (d : Plic) (l : Nat) : Bool := l ≠ 0 && d.pending l && d.enabled l && d.priority l ≠ plicPriorityMasked

/-- The source that wins: of the greatest priority, and among these the lowest. -/
def winner (d : Plic) : Option Nat := foremost (plicMaxSource + 1) d.ready fun l => OrderDual.toDual (d.priority l)

/-- The claim register is read. -/
def claims (d : Plic) : Nat × Plic :=
  match d.winner with
  | none => (0, d)
  | some l =>
    (l, { d with
      pending := fun k => if k = l then false else d.pending k
      claimed := fun k => if k = l then true else d.claimed k })

/-- A number is written to the claim register: a source that is still asserted waits again. -/
def completes (d : Plic) (l : Nat) : Plic :=
  if d.enabled l && d.claimed l then
    { d with
      claimed := fun k => if k = l then false else d.claimed k
      pending := fun k => if k = l then d.level l else d.pending k }
  else d

/-- A word is stored at an address of the controller. -/
def store (d : Plic) (addr v : Nat) : Plic :=
  if plicPriorityBase ≤ addr ∧ addr < plicPriorityBase + plicSources * registerBytes then
    { d with priority := fun i => if i = (addr - plicPriorityBase) / registerBytes then v else d.priority i }
  else if plicEnableBase ≤ addr ∧ addr < plicEnableBase + plicSources / plicSourcesPerWord * registerBytes then
    { d with enable := fun i => if i = (addr - plicEnableBase) / registerBytes then v else d.enable i }
  else if addr = plicContextBase then { d with threshold := v }
  else if addr = plicContextBase + registerBytes then d.completes v
  else d

/-- A word is loaded from an enable word of the controller. -/
def loadEnable (d : Plic) (addr : Nat) : Nat := d.enable ((addr - plicEnableBase) / registerBytes)

end Plic

/-- Devices assert lines and lower them again; the timer expires, or is set again by its own driver. -/
inductive PlicBeat where
  | raise (line : Nat)
  | lower (line : Nat)
  | expires (b : Bool)
  | timerClass

/-- A line that is asserted waits to be handed out, unless it is held back, and waits on when it is lowered. -/
instance : Device Plic PlicBeat where
  beat
    | .raise l, d =>
      { d with
        level := fun k => if k = l then true else d.level k
        pending := fun k => if k = l then !d.claimed l || d.pending l else d.pending k }
    | .lower l, d => { d with level := fun k => if k = l then false else d.level k }
    | .expires b, d => { d with expired := b }
    | .timerClass, d => { d with classes := d.classes ||| irqClassTimer, mie := d.classes ||| irqClassTimer }

/-! ### Its driver -/

abbrev PlicDriver := Prog (Bus Plic PlicBeat) Plic Unit

namespace Plic

def write (addr v : Nat) : PlicDriver Unit := Bus.access fun d => ((), d.store addr v)
def readEnable (addr : Nat) : PlicDriver Nat := Bus.access fun d => (d.loadEnable addr, d)

def priorityAt (line : Nat) : Nat := plicPriorityBase + line * registerBytes
def enableWordAt (line : Nat) : Nat := plicEnableBase + line / plicSourcesPerWord * registerBytes

def reset : PlicDriver Unit := do
  loop (fun line => do
    if line ≤ plicMaxSource then
      write (priorityAt line) plicPriorityMasked
      return .inl (line + 1)
    else
      return .inr ()) 1
  loop (fun word => do
    if word * plicSourcesPerWord ≤ plicMaxSource then
      write (plicEnableBase + word * registerBytes) 0
      return .inl (word + 1)
    else
      return .inr ()) 0
  write plicContextBase 0

def setPriority (line priority : Nat) : PlicDriver Unit := write (priorityAt line) priority

def setEnabled (line : Nat) : PlicDriver Unit := do
  let word ← readEnable (enableWordAt line)
  write (enableWordAt line) (word ||| 1 <<< (line % plicSourcesPerWord))

def claim : PlicDriver Nat := Bus.access claims
def complete (line : Nat) : PlicDriver Unit := write (plicContextBase + registerBytes) line

end Plic

def irqClassEnable (bit : Nat) : PlicDriver Unit := do
  Bus.notes fun d => { d with classes := d.classes ||| bit }
  Bus.access fun d => ((), { d with mie := d.classes })

def intcInit : PlicDriver Unit := do
  Plic.reset
  irqClassEnable irqClassExternal

def irqUnmask (line : Nat) : PlicDriver Unit := do
  Plic.setEnabled line
  Plic.setPriority line plicPriorityActive

def irqMask (line : Nat) : PlicDriver Unit := Plic.setPriority line plicPriorityMasked

/-- The causes of a trap that are interrupts. -/
def machineTimer : Nat := 7
def machineExternal : Nat := 11

def irqClaim (cause : Nat) : PlicDriver Nat :=
  if cause % interruptFlag = machineTimer then pure irqTimer
  else if cause % interruptFlag = machineExternal then Plic.claim
  else pure irqNone

def irqComplete (line : Nat) : PlicDriver Unit :=
  if line = irqTimer then pure () else Plic.complete line

def irqPoll : PlicDriver Nat := do
  let classes ← reads fun b => b.dev.classes
  if classes &&& irqClassTimer ≠ 0 then
    let expired ← Bus.access fun d => (d.expired, d)
    if expired then return irqTimer
    Plic.claim
  else Plic.claim

def irqLineValid (line : Nat) : Bool := line ≠ irqNone && line ≤ plicMaxSource

/-- The board's kernel has these lines. -/
theorem plic_lines [Build] : let board := @Riscv32.board _ ⟨.virt⟩
    (board.irqNone, board.irqTimer, board.irqLineValid) = (irqNone, irqTimer, irqLineValid) := rfl

/-- How the kernel asks for a line: with the cause of a trap, or on its own. -/
inductive Asked where
  | trap (cause : Nat)
  | poll

def plic : LineDriver Plic PlicBeat Unit Asked where
  init := intcInit
  unmask := irqUnmask
  mask := irqMask
  claim
    | .trap cause => irqClaim cause
    | .poll => irqPoll
  complete := irqComplete
  nothing := irqNone
  timer := irqTimer

/-- A line gets through whose bit is set and whose priority beats the threshold. -/
def plicWiring : Wiring Plic Asked where
  valid l := irqLineValid l = true
  wired l := irqLineValid l = true
  asserted d l := d.level l = true
  through d l := d.enabled l = true ∧ d.threshold < d.priority l
  served d l := d.claimed l = true
  asks
    | .trap cause => cause % interruptFlag = machineExternal
    | .poll => True

/-! ### What it does -/

namespace Plic

/-- No line was handed out, and lines that are asserted wait. -/
structure Off (d : Plic) : Prop where
  claimed : ∀ l, d.claimed l = false
  waits : ∀ l, d.level l = true → d.pending l = true

/-- The registers say what the gate says. -/
structure Stands (g : Gate) (d : Plic) : Prop where
  threshold : d.threshold = 0
  priority : ∀ l, irqLineValid l = true → d.priority l = if g.lets l then plicPriorityActive else plicPriorityMasked
  enabled : ∀ l, irqLineValid l = true → g.lets l = true → d.enabled l = true
  claimed : ∀ l, d.claimed l = true ↔ g.serving = some l
  serving : ∀ l, g.serving = some l → irqLineValid l = true ∧ d.enabled l = true
  waits : ∀ l, d.level l = true → d.claimed l = false → d.pending l = true

variable {g : Gate} {d : Plic} {l v : Nat}

theorem irqLineValid_iff : irqLineValid l = true ↔ l ≠ 0 ∧ l ≤ 95 := by
  rw [irqLineValid, Bool.and_eq_true, decide_eq_true_iff, decide_eq_true_iff]
  exact Iff.rfl

theorem store_priority (h : l ≤ plicMaxSource) :
    d.store (priorityAt l) v = { d with priority := fun i => if i = l then v else d.priority i } := by
  have room : l ≤ 95 := h
  unfold store priorityAt
  rw [if_pos (by simp only [plicPriorityBase, plicSources, registerBytes]; omega)]
  have index : (plicPriorityBase + l * registerBytes - plicPriorityBase) / registerBytes = l := by
    rw [Nat.add_sub_cancel_left]
    exact Nat.mul_div_cancel l (by decide)
  rw [index]

theorem store_enable {w : Nat} (h : w < 32) :
    d.store (plicEnableBase + w * registerBytes) v = { d with enable := fun i => if i = w then v else d.enable i } := by
  unfold store
  rw [if_neg (by simp only [plicPriorityBase, plicEnableBase, plicSources, registerBytes]; omega),
    if_pos (by simp only [plicEnableBase, plicSources, plicSourcesPerWord, registerBytes]; omega)]
  have index : (plicEnableBase + w * registerBytes - plicEnableBase) / registerBytes = w := by
    rw [Nat.add_sub_cancel_left]
    exact Nat.mul_div_cancel w (by decide)
  rw [index]

theorem load_enable {w : Nat} : d.loadEnable (plicEnableBase + w * registerBytes) = d.enable w := by
  rw [loadEnable, Nat.add_sub_cancel_left]
  exact congrArg d.enable (Nat.mul_div_cancel w (by decide))

theorem store_threshold : d.store plicContextBase v = { d with threshold := v } := rfl

theorem Stands.beat (i : PlicBeat) (h : Stands g d) : Stands g (Device.beat i d) := by
  cases i with
  | raise k =>
    refine ⟨h.threshold, h.priority, h.enabled, h.claimed, h.serving, fun l level free => ?_⟩
    show (if l = k then !d.claimed k || d.pending k else d.pending l) = true
    by_cases own : l = k
    · subst own
      have : d.claimed l = false := free
      simp [this]
    · rw [if_neg own]
      exact h.waits l ((if_neg own).symm.trans level) free
  | lower k =>
    refine ⟨h.threshold, h.priority, h.enabled, h.claimed, h.serving, fun l level free => ?_⟩
    have level : (if l = k then false else d.level l) = true := level
    by_cases own : l = k
    · simp [own] at level
    · rw [if_neg own] at level
      exact h.waits l level free
  | expires b => exact ⟨h.threshold, h.priority, h.enabled, h.claimed, h.serving, h.waits⟩
  | timerClass => exact ⟨h.threshold, h.priority, h.enabled, h.claimed, h.serving, h.waits⟩

theorem Stands.classed (h : Stands g d) {classes mie : Nat} : Stands g { d with classes := classes, mie := mie } :=
  ⟨h.threshold, h.priority, h.enabled, h.claimed, h.serving, h.waits⟩

theorem Off.beat (i : PlicBeat) (h : Off d) : Off (Device.beat i d) := by
  cases i with
  | raise k =>
    refine ⟨h.claimed, fun l level => ?_⟩
    show (if l = k then !d.claimed k || d.pending k else d.pending l) = true
    by_cases own : l = k
    · simp [own, h.claimed]
    · rw [if_neg own]
      exact h.waits l ((if_neg own).symm.trans level)
  | lower k =>
    refine ⟨h.claimed, fun l level => ?_⟩
    have level : (if l = k then false else d.level l) = true := level
    by_cases own : l = k
    · simp [own] at level
    · rw [if_neg own] at level
      exact h.waits l level
  | expires b => exact ⟨h.claimed, h.waits⟩
  | timerClass => exact ⟨h.claimed, h.waits⟩

/-- The sources below `k` are masked. -/
def Masked (k : Nat) (d : Plic) : Prop := Off d ∧ ∀ l < k, l ≠ 0 → d.priority l = plicPriorityMasked

theorem Masked.beat {k : Nat} (i : PlicBeat) (h : Masked k d) : Masked k (Device.beat i d) := by
  refine ⟨h.1.beat i, ?_⟩
  cases i <;> exact h.2

section
variable {n : Nat}

/-- A store, after which `Q` holds. -/
theorem steers_write {P Q : Plic → Prop} {addr : Nat} (beat : ∀ i d, P d → P (Device.beat i d))
    (h : ∀ d, P d → Q (d.store addr v)) :
    Bus.Brings n P (write addr v) fun _ => Q :=
  Bus.steers_store (Bus.lasts_of beat) fun d hd => ⟨trivial, fun _ => h d hd⟩

theorem steers_reset : Bus.Brings n Off reset fun _ => Stands .shut := by
  refine (Bus.Steers.loop (I := fun line d => Masked line d ∧ line ≤ plicMaxSource + 1)
    (R := fun _ => Masked (plicMaxSource + 1)) (fun line => ?_) 1).imp (fun d off => ?_)
    (fun _ _ => id) |>.bind fun _ => ?_
  · refine .ite (fun inside => ?_) fun past => ?_
    · refine (steers_write (Q := fun d => Masked (line + 1) d ∧ line + 1 ≤ plicMaxSource + 1)
        (fun i d hd => ⟨hd.1.beat i, hd.2⟩) fun d hd => ?_).bind fun _ => Bus.steers_pure fun d hd => hd
      rw [store_priority inside]
      refine ⟨⟨⟨hd.1.1.claimed, hd.1.1.waits⟩, fun l hl some' => ?_⟩, Nat.succ_le_succ inside⟩
      by_cases own : l = line
      · exact if_pos own
      · exact (if_neg own).trans (hd.1.2 l (by omega) some')
    · exact Bus.steers_pure fun d hd => (by omega : line = plicMaxSource + 1) ▸ hd.1
  · exact ⟨⟨off, fun l hl some' => absurd hl (by omega)⟩, by decide⟩
  refine (Bus.Steers.loop (I := fun _ => Masked (plicMaxSource + 1)) (R := fun _ => Masked (plicMaxSource + 1))
    (fun word => ?_) 0).bind fun _ => ?_
  · refine .ite (fun inside => ?_) fun past => Bus.steers_pure fun _ => id
    refine (steers_write (Q := Masked (plicMaxSource + 1)) (fun i d hd => hd.beat i) fun d hd => ?_).bind fun _ =>
      Bus.steers_pure fun _ => id
    have room : word < 32 := by
      simp only [plicSourcesPerWord, plicMaxSource, maxSource] at inside
      omega
    rw [store_enable room]
    exact ⟨⟨hd.1.claimed, hd.1.waits⟩, hd.2⟩
  refine steers_write (fun i d hd => hd.beat i) fun d hd => ?_
  rw [store_threshold]
  obtain ⟨off, masked⟩ := hd
  refine ⟨rfl, fun l valid => ?_, fun l _ lets => ?_, fun l => ?_, fun l serving => ?_,
    fun l level _ => off.waits l level⟩
  · obtain ⟨some', room⟩ := irqLineValid_iff.mp valid
    exact masked l (Nat.lt_succ_of_le room) some'
  · cases lets
  · simp [off.claimed, Gate.shut]
  · cases serving

/-- A store of a priority, for a gate that is told of the line. -/
theorem Stands.store (h : Stands g d) (valid : irqLineValid l = true) (b : Bool)
    (enabled : b = true → d.enabled l = true) :
    Stands (g.told l b) (d.store (priorityAt l) (if b then plicPriorityActive else plicPriorityMasked)) := by
  obtain ⟨-, room⟩ := irqLineValid_iff.mp valid
  rw [store_priority room]
  refine ⟨h.threshold, fun k valid' => ?_, fun k valid' lets => ?_, h.claimed, h.serving, h.waits⟩
  · by_cases own : k = l
    · simp [Gate.told, own]
    · simpa [Gate.told, own] using h.priority k valid'
  · by_cases own : k = l
    · subst own
      exact enabled (by simpa [Gate.told] using lets)
    · exact h.enabled k valid' (by simpa [Gate.told, own] using lets)

/-- A bit is set in the word that has it, and no other bit changes. -/
theorem enabled_store (room : l ≤ plicMaxSource) (k : Nat) :
    (d.store (enableWordAt l) (d.enable (l / plicSourcesPerWord) ||| 1 <<< (l % plicSourcesPerWord))).enabled k =
      (d.enabled k || decide (k = l)) := by
  have word : l / plicSourcesPerWord < 32 := by
    have : l ≤ 95 := room
    simp only [plicSourcesPerWord]
    omega
  rw [enableWordAt, store_enable word]
  simp only [enabled]
  by_cases same : k / plicSourcesPerWord = l / plicSourcesPerWord
  · rw [if_pos same, same, Nat.testBit_or, Nat.one_shiftLeft, Nat.testBit_two_pow]
    congr 1
    refine decide_eq_decide.mpr ⟨fun bit => ?_, fun own => by rw [own]⟩
    simp only [plicSourcesPerWord] at same bit
    omega
  · rw [if_neg same, decide_eq_false (p := k = l) (fun own => same (by rw [own])), Bool.or_false]

theorem Stands.enable (h : Stands g d) (room : l ≤ plicMaxSource) {w : Nat}
    (word : w = d.enable (l / plicSourcesPerWord)) :
    Stands g (d.store (enableWordAt l) (w ||| 1 <<< (l % plicSourcesPerWord))) ∧
      (d.store (enableWordAt l) (w ||| 1 <<< (l % plicSourcesPerWord))).enabled l = true := by
  subst word
  have set := fun k => enabled_store (d := d) room k
  have stored := store_enable (d := d) (v := d.enable (l / plicSourcesPerWord) ||| 1 <<< (l % plicSourcesPerWord))
    (w := l / plicSourcesPerWord) (by
      have : l ≤ 95 := room
      simp only [plicSourcesPerWord]
      omega)
  rw [← enableWordAt] at stored
  refine ⟨⟨?_, ?_, fun k valid lets => ?_, ?_, fun k serving => ?_, ?_⟩, ?_⟩
  · exact stored ▸ h.threshold
  · exact stored ▸ h.priority
  · rw [set, h.enabled k valid lets, Bool.true_or]
  · exact stored ▸ h.claimed
  · obtain ⟨valid, enabled⟩ := h.serving k serving
    exact ⟨valid, by rw [set, enabled, Bool.true_or]⟩
  · exact stored ▸ h.waits
  · rw [set, decide_eq_true rfl, Bool.or_true]

theorem steers_unmask (valid : irqLineValid l = true) :
    Bus.Brings n (Stands g) (irqUnmask l) fun _ => Stands (g.told l true) := by
  obtain ⟨-, room⟩ := irqLineValid_iff.mp valid
  refine Bus.Steers.bind (R := fun _ d => Stands g d ∧ d.enabled l = true) ?_ fun _ => ?_
  · refine Bus.Steers.bind (R := fun w d => Stands g d ∧ w = d.enable (l / plicSourcesPerWord))
      (Bus.steers_load (Bus.lasts_of fun i _ => Stands.beat i) fun d hd => ⟨trivial, fun _ => ⟨hd, load_enable⟩⟩)
        fun w => ?_
    refine steers_write (fun i d hd => ⟨hd.1.beat i, ?_⟩) fun d hd => hd.1.enable room hd.2
    cases i <;> exact hd.2
  · refine steers_write (fun i d hd => ⟨hd.1.beat i, ?_⟩) fun d hd => hd.1.store valid true fun _ => hd.2
    cases i <;> exact hd.2

theorem steers_mask (valid : irqLineValid l = true) :
    Bus.Brings n (Stands g) (irqMask l) fun _ => Stands (g.told l false) :=
  steers_write (fun i _ => Stands.beat i) fun _ hd => hd.store valid false fun no => by cases no

/-- The source that wins is one that is let through. -/
theorem Stands.winner (h : Stands g d) (found : d.winner = some l) :
    irqLineValid l = true ∧ g.lets l = true ∧ d.enabled l = true := by
  obtain ⟨room, here⟩ := foremost_some found
  simp only [ready, Bool.and_eq_true, decide_eq_true_iff] at here
  obtain ⟨⟨⟨some', -⟩, enabled⟩, urgent⟩ := here
  have valid := irqLineValid_iff.mpr ⟨some', Nat.le_of_lt_succ room⟩
  refine ⟨valid, ?_, enabled⟩
  rw [h.priority l valid] at urgent
  by_contra shut
  simp [shut] at urgent

/-- No source wins: none is asserted that is let through. -/
theorem Stands.quiet (h : Stands g d) (idle : g.serving = none) (none : d.winner = none) (valid : irqLineValid l = true)
    (lets : g.lets l = true) : d.level l ≠ true := by
  intro level
  obtain ⟨some', room⟩ := irqLineValid_iff.mp valid
  have free : d.claimed l = false := by
    refine Bool.eq_false_iff.mpr fun held => ?_
    rw [(h.claimed l).mp held] at idle
    cases idle
  have silent := foremost_none none l (Nat.lt_succ_of_le room)
  have asks : d.ready l = true := by
    rw [ready, h.waits l level free, h.enabled l valid lets, h.priority l valid, lets]
    simp [some', plicPriorityActive, plicPriorityMasked]
  rw [asks] at silent
  cases silent

theorem Stands.hand (h : Stands g d) (idle : g.serving = none) (valid : irqLineValid l = true)
    (enabled : d.enabled l = true) :
    Stands (g.handed l) { d with
      pending := fun k => if k = l then false else d.pending k
      claimed := fun k => if k = l then true else d.claimed k } := by
  refine ⟨h.threshold, h.priority, h.enabled, fun k => ?_, fun k serving => ?_, fun k level free => ?_⟩
  · by_cases own : k = l
    · simp [own, Gate.handed]
    · have : ¬d.claimed k = true := fun held => by
        rw [(h.claimed k).mp held] at idle
        cases idle
      simp [own, this, Gate.handed, Ne.symm own]
  · cases serving
    exact ⟨valid, enabled⟩
  · by_cases own : k = l
    · simp [own] at free
    · simp only [own, if_false] at free ⊢
      exact h.waits k level free

theorem steers_claim {how : Asked} (idle : g.serving = none) :
    Bus.Brings n (Stands g) claim (Handed plic plicWiring Stands g how) := by
  refine Bus.steers_access (Bus.lasts_of fun i _ => Stands.beat i) fun d hd => ⟨trivial, fun _ => ?_⟩
  rcases found : d.winner with _ | l
  · rw [claims, found]
    exact .nothing hd fun _ l valid lets => hd.quiet idle found valid lets
  · rw [claims, found]
    obtain ⟨valid, lets, enabled⟩ := hd.winner found
    exact .line valid (irqLineValid_iff.mp valid).1 lets (hd.hand idle valid enabled)

theorem Stands.complete (h : Stands g d) (serving : g.serving = some l) : Stands g.completed (d.completes l) := by
  rw [completes, if_pos (by rw [(h.serving l serving).2, (h.claimed l).mpr serving]; rfl)]
  refine ⟨h.threshold, h.priority, h.enabled, fun k => ?_, fun k no => ?_, fun k level free => ?_⟩
  · by_cases own : k = l
    · simp [own, Gate.completed]
    · have : ¬d.claimed k = true := fun held => own (Option.some.inj (((h.claimed k).mp held).symm.trans serving))
      simp [own, this, Gate.completed]
  · cases no
  · by_cases own : k = l
    · rw [own] at level
      exact (if_pos own).trans level
    · exact (if_neg own).trans (h.waits k level ((if_neg own).symm.trans free))

end

end Plic

/-- The driver does at the controller what is asked of it. -/
theorem plic_drives : Drives plic plicWiring Plic.Off Plic.Stands where
  apart := by decide
  wired _ := id
  through g d l h idle valid := by
    show d.enabled l = true ∧ d.threshold < d.priority l ↔ _
    rw [h.threshold, h.priority l valid]
    by_cases lets : g.lets l = true
    · simp [lets, h.enabled l valid lets, plicPriorityActive]
    · simp [lets, plicPriorityMasked]
  served g d l h idle held := by
    rw [(h.claimed l).mp held] at idle
    cases idle
  beat g i d h := h.beat i
  init n := by
    refine Plic.steers_reset.bind fun _ => ?_
    refine Bus.Steers.bind (R := fun _ => Plic.Stands .shut) (Bus.steers_notes fun d hd => hd.classed) fun _ => ?_
    exact Bus.steers_store (Bus.lasts_of fun i _ => Plic.Stands.beat i) fun d hd => ⟨trivial, fun _ => hd.classed⟩
  unmask n g l valid _ := Plic.steers_unmask valid
  mask n g l valid := Plic.steers_mask valid
  claim n g how idle := by
    cases how with
    | trap cause =>
      refine .ite (fun _ => Bus.steers_pure fun d hd => .due hd) fun _ => ?_
      refine .ite (fun _ => Plic.steers_claim idle) fun other => Bus.steers_pure fun d hd => .nothing hd fun asks =>
        absurd asks other
    | poll =>
      refine Bus.Steers.bind (R := fun _ => Plic.Stands g) (Bus.steers_reads fun d hd => hd) fun classes => ?_
      refine .ite (fun _ => ?_) fun _ => Plic.steers_claim idle
      refine Bus.Steers.bind (R := fun _ => Plic.Stands g) ?_ fun expired => ?_
      · exact Bus.steers_load (Bus.lasts_of fun i _ => Plic.Stands.beat i) fun d hd => ⟨trivial, fun _ => hd⟩
      · exact .ite (fun _ => Bus.steers_pure fun d hd => .due hd) fun _ => Plic.steers_claim idle
  complete n g l serving := by
    intro b hb
    have own : l ≠ irqTimer := by
      rintro rfl
      exact absurd (hb.serving _ serving).1 (by decide)
    show wp _ _ (if l = irqTimer then pure () else Plic.complete l) _ _ _
    rw [if_neg own]
    exact Plic.steers_write (fun i _ => Plic.Stands.beat i) (fun d hd => hd.complete serving) b hb
  due n g idle := Bus.steers_pure fun d hd => hd

/-- Wherever it was brought, the controller lets through the lines that the kernel told it to; it serves none between
    two calls, and what it hands out is one of them, as long as one of them is asserted. -/
theorem plic_obeys {r : Rig Plic} (reached : plic.Reached plicWiring Plic.Off r) : Obeys plic plicWiring r :=
  plic_drives.obeys reached

section

def Plic.zero : Plic := ⟨fun _ => 0, fun _ => 0, 0, fun _ => false, fun _ => false, fun _ => false, 0, 0, false⟩

/-- The controller is brought up, line 10 is unmasked and asserted, and a trap is served. -/
def plicServes : Bool :=
  Bus.returns plic.init 128 .zero fun _ d =>
    Bus.returns (plic.unmask 10) 0 d fun _ d =>
      Bus.returns (plic.serve (.trap (interruptFlag + machineExternal))) 0
        (Device.beat (PlicBeat.raise 10) d) fun a _ => a == 10

theorem plic_serves : plicServes = true := by decide +kernel

/-- Line 10 is handed out, and not let through any more once it was served. -/
theorem plic_obeys_ten : ∃ (r : Rig Plic) (b : Bus Plic PlicBeat) (t : List Plic), plic.Reached plicWiring Plic.Off r ∧
    plic.serve (.trap (interruptFlag + machineExternal)) 0 ⟨r.dev, fun _ => []⟩ = .ok 10 b t ∧
      plicWiring.through r.dev 10 ∧
    ¬plicWiring.through b.dev 10 := by
  obtain ⟨_, b₀, t₀, boot, opens⟩ := Bus.of_returns plic_serves
  obtain ⟨_, b₁, t₁, unmasked, serves⟩ := Bus.of_returns opens
  obtain ⟨a, b, t, served, ten⟩ := Bus.of_returns serves
  obtain rfl := beq_iff_eq.mp ten
  have off : Plic.Off .zero := ⟨fun _ => rfl, fun _ no => by cases no⟩
  have booted : plic.Reached plicWiring Plic.Off _ := .boot off boot
  have valid : plicWiring.valid 10 := rfl
  have reached := (booted.step (.unmask _ valid unmasked)).step (.beat _ (.raise 10))
  have obeys := plic_obeys reached
  refine ⟨_, b, t, reached, served, (obeys.through 10 rfl).mpr rfl, ?_⟩
  exact ((obeys.claims _ _ _ _ _ _ served).1 (by decide) (by decide)).2.2

end

end Sawos.Riscv32
