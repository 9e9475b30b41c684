import Sawos.Hal
import Sawos.Lib.Exec
import Sawos.Lib.Generations
import Sawos.Lib.Spans

/-! # The kernel's state

The slabs of kernel objects, with the fields of the source's slots. A link or a reverse index that the source
keeps as `slot + 1` or 0, and one that it keeps as a slot or -1, is an `Option` here. -/

namespace Sawos
open Spans

/-! ### Limits -/

def maxProcesses : Nat := 3
def rootProcess : Nat := 0
def maxMemories : Nat := 16
def maxFreeRanges : Nat := 32
def maxIoMemories : Nat := 8
def maxMappings : Nat := 8
def maxGrantRows : Nat := 9
def maxThreads : Nat := 8
def maxEvents : Nat := 8
def maxWaiters : Nat := 4
def maxInterrupts : Nat := 4
def maxTimers : Nat := 8
def maxAttachments : Nat := maxEvents + maxInterrupts + maxTimers + maxProcesses
def maxPipes : Nat := 4
def pipeInflight : Nat := 2 * maxThreads
def maxHandles : Nat := 16
def maxSlabExtents : Nat := 4
def maxSlabCapacity : Nat := 1 <<< 20
def threadFrameStride : Nat := 512
def pipeExchanges : Nat := maxPipes * pipeInflight
def quotaUnlimited : Nat := 0xFFFF
def sliceTicks : Nat := 1
def neverNs : Nat := 2 ^ 64 - 1
def timerMinLeadNs : Nat := 50000
def preemptStride : Nat := 4096

/-! ### Slabs -/

/-- Memory that a slab was given: where, how many slots, and where their second array is. -/
structure Extent where
  base : Nat
  slots : Nat
  side : Nat

/-- Slots 0 … `cap` - 1, the first of them in the kernel's image and the rest in donated memory. -/
structure Slab (α : Type) where
  cap : Nat
  slot : Nat → α
  extents : List Extent

namespace Slab
variable {α : Type}

def set (s : Slab α) (i : Nat) (v : α) : Slab α := { s with slot := fun j => if j = i then v else s.slot j }

@[simp] theorem set_cap (s : Slab α) (i : Nat) (v : α) : (s.set i v).cap = s.cap := rfl

@[simp] theorem set_extents (s : Slab α) (i : Nat) (v : α) : (s.set i v).extents = s.extents := rfl

@[simp] theorem set_slot (s : Slab α) (i : Nat) (v : α) (j : Nat) :
    (s.set i v).slot j = if j = i then v else s.slot j := rfl

theorem set_set {s : Slab α} {i : Nat} {v w : α} : (s.set i v).set i w = s.set i w := by
  simp only [set, mk.injEq, true_and, and_true]
  funext j
  split <;> rfl

theorem set_same {s : Slab α} {i : Nat} : s.set i (s.slot i) = s := by
  cases s
  simp only [set, mk.injEq, true_and, and_true]
  funext j
  split
  · rename_i same
    rw [same]
  · rfl

def extentsLeft (s : Slab α) : Nat := maxSlabExtents - s.extents.length

/-- Take donated memory, whose zero bytes read as slots `zero`; refused without a change when it does not fit. -/
def donatePaired (zero : α) (s : Slab α) (base slots side : Nat) : Option (Slab α) :=
  if slots = 0 then none
  else if maxSlabExtents ≤ s.extents.length then none
  else if maxSlabCapacity - s.cap < slots then none
  else some
    { cap := s.cap + slots,
      slot := fun i => if s.cap ≤ i ∧ i < s.cap + slots then zero else s.slot i,
      extents := s.extents ++ [⟨base, slots, side⟩] }

end Slab

/-! ### Slots -/

inductive SlotState where
  | free | live
  deriving DecidableEq

inductive QuotaKind where
  | thread | event | waiter | interrupt | timer | memory | ioMemory | mapping | handle | pipe
  deriving DecidableEq

inductive ProcessState where
  | free | running | gone | created
  deriving DecidableEq

inductive ThreadState where
  | free | created | runnable | running | blocked | exited
  deriving DecidableEq

inductive ExchangeState where
  | free | staged | taken | replied | settled
  deriving DecidableEq

inductive WaitableKind where
  | event | interrupt | timer | process | pipeOutlet | pipeInlet | pipeReply | pipeRequest
  deriving DecidableEq

structure HandleEntry where
  objType : ObjType
  rights : Nat
  target : Nat
  gen : Nat

structure BootHandleSlot where
  tag : Nat
  kind : BootHandleKind
  handle : Nat
  taken : Bool

/-- How a boot handle reaches its process: in the first register of its first thread, or from `BootHandleNext`. -/
inductive BootDoor where
  | start | next
  deriving DecidableEq

structure GrantRow where
  base : Nat
  top : Nat
  pa : Nat
  perms : Nat
  device : Bool
  region : Option Nat

/-- The boot handles are the first `boot_count` records of the source's array. Three fields are there for the record,
    and nothing reads them: `history` is what was done to the handles, `imageRows` is how many rows the image and the
    stack of the process have, and `bootLog` is which boot handles were handed over, the last first. -/
structure ProcessSlot where
  state : ProcessState
  entry : Nat
  stackTop : Nat
  regionBase : Nat
  regionTop : Nat
  rwBase : Nat
  rwTop : Nat
  grantCount : Nat
  grants : Nat → GrantRow
  imageRows : Nat
  exitKind : ProcessStatusKind
  exitCode : Nat
  handles : Nat → HandleEntry
  history : List Generations.Op
  bootHandles : List BootHandleSlot
  bootNext : Nat
  bootLog : List (Nat × BootDoor)
  quotaUsed : QuotaKind → Nat
  quotaLimit : QuotaKind → Nat
  refs : Nat
  attachment : Option Nat

structure ThreadSlot where
  state : ThreadState
  process : Nat
  exitCode : Nat
  joiners : Option Nat
  link : Option Nat
  waitBuf : Nat
  callPipe : Option Nat
  callClaim : Option Nat
  callSrc : Nat
  callLen : Nat

/-- The registers of a thread that the kernel sets: its program counter and stack at the start, and the two
    words an answer is returned in. -/
structure Frame where
  pc : Nat
  sp : Nat
  a0 : Nat
  a1 : Nat

structure EventSlot where
  state : SlotState
  process : Nat
  mode : EventMode
  word : Nat
  attachment : Option Nat
  refs : Nat

structure WaiterSlot where
  state : SlotState
  process : Nat
  attached : Option Nat
  blocked : Option Nat
  refs : Nat

/-- What became of one fire of a line: how many Waits it was delivered to, and whether it was acknowledged. -/
structure Fire where
  waits : Nat
  acked : Bool
  deriving DecidableEq

/-- `fires` are the fires since the line was bound, the last first, which nothing reads. -/
structure InterruptSlot where
  state : SlotState
  process : Nat
  line : Nat
  pending : Bool
  attachment : Option Nat
  refs : Nat
  fires : List Fire

/-- What became of a timer since it was last armed or disarmed: the deadline it was armed with, the instant at which the
    timers were last looked at, and how many fires were delivered and how many did not fit its counter. -/
structure TimerHistory where
  first : Option Nat
  expired : Option Nat
  delivered : Nat
  lost : Nat

/-- Nothing reads the `history`. -/
structure TimerSlot where
  state : SlotState
  process : Nat
  clock : Nat
  armed : Bool
  deadlineNs : Nat
  intervalNs : Nat
  fires : Nat
  attachment : Option Nat
  refs : Nat
  history : TimerHistory

structure Attachment where
  state : SlotState
  kind : WaitableKind
  target : Nat
  waiter : Nat
  key : Nat
  oneshot : Bool
  owns : Bool
  link : Option Nat

/-- What a pool was at the boot and what it has given up for good, which nothing reads. -/
structure PoolHistory where
  whole : Span
  lost : List Span
  donated : List Span

structure MemorySlot where
  state : SlotState
  process : Nat
  base : Nat
  len : Nat
  refs : Nat
  maps : Nat
  root : Option Nat
  freeHead : Option Nat
  outBytes : Nat
  dropped : Nat
  history : PoolHistory

structure FreeRange where
  state : SlotState
  base : Nat
  len : Nat
  next : Option Nat

structure IoMemorySlot where
  state : SlotState
  process : Nat
  base : Nat
  len : Nat
  refs : Nat

/-- `installed` is the row that the Mapping was made for, which nothing reads. -/
structure MappingSlot where
  state : SlotState
  process : Nat
  target : Nat
  row : Option Nat
  refs : Nat
  installed : GrantRow

structure PipeSlot where
  state : SlotState
  process : Nat
  staged : Option Nat
  inletAttachment : Option Nat
  outletAttachment : Option Nat
  inletRefs : Nat
  outletRefs : Nat

structure StagedRef where
  objType : ObjType
  rights : Nat
  target : Nat

structure Exchange where
  state : ExchangeState
  len : Nat
  replyRefs : Nat
  requestRefs : Nat
  replyAttach : Option Nat
  requestAttach : Option Nat
  caller : Option Nat
  next : Option Nat
  held : Nat → StagedRef
  body : List UInt8

/-! ### Free slots

What a slot holds before it is allocated and after it is freed. -/

def HandleEntry.unbound (gen : Nat) : HandleEntry := ⟨.unbound, 0, 0, gen⟩

def StagedRef.none : StagedRef := ⟨.unbound, 0, 0⟩

def GrantRow.none : GrantRow := ⟨0, 0, 0, 0, false, .none⟩

def ProcessSlot.vacant : ProcessSlot where
  state := .free
  entry := 0
  stackTop := 0
  regionBase := 0
  regionTop := 0
  rwBase := 0
  rwTop := 0
  grantCount := 0
  grants := fun _ => .none
  imageRows := 0
  exitKind := .running
  exitCode := 0
  handles := fun _ => .unbound 0
  history := []
  bootHandles := []
  bootNext := 0
  bootLog := []
  quotaUsed := fun _ => 0
  quotaLimit := fun _ => 0
  refs := 0
  attachment := none

def ThreadSlot.vacant : ThreadSlot := ⟨.free, 0, 0, none, none, 0, none, none, 0, 0⟩
def EventSlot.vacant : EventSlot := ⟨.free, 0, .or, 0, none, 0⟩
def WaiterSlot.vacant : WaiterSlot := ⟨.free, 0, none, none, 0⟩
def InterruptSlot.vacant : InterruptSlot := ⟨.free, 0, 0, false, none, 0, []⟩
def TimerHistory.none : TimerHistory := ⟨.none, .none, 0, 0⟩
def TimerSlot.vacant : TimerSlot := ⟨.free, 0, 0, false, 0, 0, 0, none, 0, .none⟩
def Attachment.vacant : Attachment := ⟨.free, .event, 0, 0, 0, false, false, none⟩
def PoolHistory.none : PoolHistory := ⟨⟨0, 0⟩, [], []⟩

def MemorySlot.vacant : MemorySlot := ⟨.free, 0, 0, 0, 0, 0, none, none, 0, 0, .none⟩
def FreeRange.vacant : FreeRange := ⟨.free, 0, 0, none⟩
def IoMemorySlot.vacant : IoMemorySlot := ⟨.free, 0, 0, 0, 0⟩
def MappingSlot.vacant : MappingSlot := ⟨.free, 0, 0, none, 0, .none⟩
def PipeSlot.vacant : PipeSlot := ⟨.free, 0, none, none, none, 0, 0⟩
def Exchange.vacant : Exchange := ⟨.free, 0, 0, 0, none, none, none, none, fun _ => .none, []⟩

/-! ### The machine -/

structure StatsRow where
  syscalls : Nat
  interrupts : Nat
  faults : Nat

/-- The kernel's tables and the machine it drives. `masks` is what the interrupt controller was told last of each line:
    that it is masked, or that it is not. `polls` and `lapse` are the environment's part in what
    happens next: the lines that the interrupt controller answers, one for each poll, and how far the clock
    moves on before each reading. -/
structure K [Hal] where
  processes : Slab ProcessSlot
  threads : Slab ThreadSlot
  events : Slab EventSlot
  waiters : Slab WaiterSlot
  interrupts : Slab InterruptSlot
  timers : Slab TimerSlot
  attachments : Slab Attachment
  memories : Slab MemorySlot
  freeRanges : Slab FreeRange
  ioMemories : Slab IoMemorySlot
  mappings : Slab MappingSlot
  pipes : Slab PipeSlot
  exchanges : Slab Exchange
  frames : Nat → Frame
  currentThread : Option Nat
  readyHead : Option Nat
  readyTail : Option Nat
  needResched : Bool
  sliceLeft : Nat
  lastProtProcess : Option Nat
  tickPeriodNs : Nat
  nextTickNs : Nat
  inDelivery : Bool
  stats : Nat → StatsRow
  mem : Nat → UInt8
  prot : Hal.Prot
  comparator : Nat
  masks : Nat → Option Bool
  polls : List Nat
  now : Nat
  lapse : List Nat

/-- Why the machine stopped. -/
inductive Stop where
  | panic | fatalKernel | fatalImage | fatalDoor | overrun | exitPass
  | exitFail (status : Nat)
  deriving DecidableEq

/-- The points of the code that a history keeps. -/
inductive Point where
  /-- The reaper is about to settle an exchange. -/
  | reap (x : Nat)
  /-- The loader is about to read segment `i` of the image at `imgBase`, or, with 0, how many there are. -/
  | placing (imgBase : Nat) (dest : LoadRegion) (i : Nat)
  /-- Bytes are about to be cut from the front of a region's own extent. -/
  | cut (region : Nat)
  /-- A row of a record is about to be revoked. -/
  | revoke (p row : Nat)
  /-- A process is about to be torn down. -/
  | ends (p : Nat)
  /-- A thread is about to be parked, answered or made ready. -/
  | move (t : Nat)
  /-- The machine is about to wait for an interrupt. -/
  | idle
  /-- Nothing can make a thread ready any more, and a process is about to be ended for it. -/
  | stuck
  deriving DecidableEq

/-- What the machine does to the outside, and the points it passed, with the state there. -/
inductive Ev [Hal] where
  | answered (t : Nat) (status : SosStatus) (value : Nat)
  | console (b : Nat)
  | irqMask (line : Nat)
  | irqUnmask (line : Nat)
  | irqComplete (line : Nat)
  /-- A process is about to end. -/
  | ending (p : Nat) (kind : ProcessStatusKind) (code : Nat)
  | mark (p : Point) (s : K)

abbrev M [Hal] := Exec.Prog K Ev Stop

/-! ### Slots by index -/

/-- A slab of the kernel's state. -/
structure Column [Hal] (α : Type) where
  get : K → Slab α
  put : K → Slab α → K

section
open Exec
variable [Hal] {α : Type}

/-- An index out of range stops the machine. -/
def Column.read (c : Column α) (i : Nat) : M α := do
  if i < (← reads fun s => (c.get s).cap) then
    reads fun s => (c.get s).slot i
  else
    halt .panic

def Column.modify (c : Column α) (i : Nat) (f : α → α) : M Unit := do
  if i < (← reads fun s => (c.get s).cap) then
    modifies fun s => c.put s ((c.get s).set i (f ((c.get s).slot i)))
  else
    halt .panic

@[reducible] def Column.write (c : Column α) (i : Nat) (v : α) : M Unit := c.modify i fun _ => v

def Column.capacity (c : Column α) : M Nat := reads fun s => (c.get s).cap

def processes : Column ProcessSlot := ⟨K.processes, fun s v => { s with processes := v }⟩
def threads : Column ThreadSlot := ⟨K.threads, fun s v => { s with threads := v }⟩
def events : Column EventSlot := ⟨K.events, fun s v => { s with events := v }⟩
def waiters : Column WaiterSlot := ⟨K.waiters, fun s v => { s with waiters := v }⟩
def interrupts : Column InterruptSlot := ⟨K.interrupts, fun s v => { s with interrupts := v }⟩
def timers : Column TimerSlot := ⟨K.timers, fun s v => { s with timers := v }⟩
def attachments : Column Attachment := ⟨K.attachments, fun s v => { s with attachments := v }⟩
def memories : Column MemorySlot := ⟨K.memories, fun s v => { s with memories := v }⟩
def freeRanges : Column FreeRange := ⟨K.freeRanges, fun s v => { s with freeRanges := v }⟩
def ioMemories : Column IoMemorySlot := ⟨K.ioMemories, fun s v => { s with ioMemories := v }⟩
def mappings : Column MappingSlot := ⟨K.mappings, fun s v => { s with mappings := v }⟩
def pipes : Column PipeSlot := ⟨K.pipes, fun s v => { s with pipes := v }⟩
def exchanges : Column Exchange := ⟨K.exchanges, fun s v => { s with exchanges := v }⟩

/-- The first slot for which `p` holds, as the source's allocators and searches scan. -/
def Slab.find (s : Slab α) (p : α → Bool) : Option Nat := (List.range s.cap).find? fun i => p (s.slot i)

/-- A sum of machine words; one that does not fit stops the machine. -/
def addWord (a b : Nat) : M Nat := if a + b < wordModulus then pure (a + b) else halt .panic

/-- A difference of machine words; one below zero stops the machine. -/
def subWord (a b : Nat) : M Nat := if b ≤ a then pure (a - b) else halt .panic

/-- A 16-bit counter, one up. -/
def bump (n : Nat) : M Nat := if n < 0xFFFF then pure (n + 1) else halt .panic

def mark (p : Point) : M Unit := emits (.mark p)

def fatalKernel {β : Type} : M β := halt .fatalKernel

end

end Sawos
