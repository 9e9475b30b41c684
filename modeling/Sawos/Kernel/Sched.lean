import Sawos.Kernel.Refs

/-! # Interrupts, the scheduler and the end of a process -/

namespace Sawos
open Exec

variable [Hal]

/-! ### Interrupts -/

def expireTimers (now : Nat) : M Unit := do
  countUp (fun i => do
    let timer ← timers.read i
    whenever (timer.state = .live) (timers.modify i (·.seen now))
    whenever (timer.state = .live && timer.isDue now) do
      whenever (timer.stepOverflows now) (halt .panic)
      timers.modify i (·.fire now)
      notifyReady .timer i) (← timers.capacity) 0

def onTimerTick : M Unit :=
  modifies fun s =>
    if s.currentThread.isNone then s
    else if s.sliceLeft - 1 = 0 then { s with needResched := true, sliceLeft := sliceTicks }
    else { s with sliceLeft := s.sliceLeft - 1 }

def onTimerInterrupt : M Unit := do
  let now ← timerNowNs
  whenever (← reads fun s => s.tickPeriodNs ≠ 0 && s.nextTickNs ≤ now) do
    modifies fun s => { s with nextTickNs := now + s.tickPeriodNs }
    onTimerTick
  expireTimers now
  reprogramTimer

def onExternalIrq (line : Nat) : M Unit := do
  match ← interruptByLine line with
  | none => return
  | some irq =>
    interrupts.modify irq (·.raise)
    notifyReady .interrupt irq

def serviceClaimedLine (line : Nat) : M Unit := do
  if line = Hal.irqNone then return
  if line = Hal.irqTimer then
    onTimerInterrupt
    emits fun _ => .irqComplete line
  else
    irqMask line
    onExternalIrq line
    emits fun _ => .irqComplete line

def deliverLine (line : Nat) : M Unit := do
  modifies ({ · with inDelivery := true })
  serviceClaimedLine line
  modifies ({ · with inDelivery := false })

/-- The line that the interrupt controller answers to a poll. -/
def irqPoll : M Nat := do
  let line ← reads fun s => s.polls.headD Hal.irqNone
  modifies fun s => { s with polls := s.polls.tail }
  return line

def K.hasExternalWakeSource (s : K) : Bool :=
  (s.interrupts.find (·.state = .live)).isSome || (s.timers.find fun t => t.state = .live && t.armed).isSome

def hasExternalWakeSource : M Bool := reads K.hasExternalWakeSource

/-- Wait for interrupts until one of them makes a thread runnable. The run is cut off where the environment
    has no further interrupt to offer. -/
def idleUntilRunnable : M Unit :=
  loop (fun _ : Unit => do
    if (← reads K.readyHead).isSome then return .inr ()
    mark .idle
    if (← reads K.polls).isEmpty then spent
    else
      let line ← irqPoll
      whenever (line ≠ Hal.irqNone) (deliverLine line)
      return .inl ()) ()

def preemptPoint : M Unit := do
  if ← reads K.inDelivery then return
  let line ← irqPoll
  whenever (line ≠ Hal.irqNone) (deliverLine line)

/-- Physical memory after `len` bytes from `src` were copied to `dst`, the lowest first. -/
def copyBytes (mem : Nat → UInt8) (dst src len : Nat) : Nat → UInt8 := fun a =>
  if dst ≤ a ∧ a < dst + len then
    -- Where the ranges overlap upwards, what was copied is copied again.
    if src < dst then mem (src + (a - dst) % (dst - src)) else mem (src + (a - dst))
  else mem a

def zeroBytes (mem : Nat → UInt8) (dst len : Nat) : Nat → UInt8 := fun a =>
  if dst ≤ a ∧ a < dst + len then 0 else mem a

/-- Work on `len` bytes, `preemptStride` at a time, with a look at the interrupt controller after each. -/
def inStrides (work : Nat → Nat → M Unit) (len : Nat) : M Unit :=
  loop (fun done : Nat => do
    if done < len then
      let chunk := min (len - done) preemptStride
      work done chunk
      preemptPoint
      return .inl (done + chunk)
    else
      return .inr ()) 0

def longCopy (dst src len : Nat) : M Unit :=
  inStrides (fun done chunk => modifies fun s => { s with mem := copyBytes s.mem (dst + done) (src + done) chunk }) len

def longZero (dst len : Nat) : M Unit :=
  inStrides (fun done chunk => modifies fun s => { s with mem := zeroBytes s.mem (dst + done) chunk }) len

/-! ### The end of a process -/

/-- Close a table: each bound entry gives its reference up and is unbound. -/
def closeHandles (p : Nat) : M Unit :=
  countUp (fun h => do
    let entry := (← processes.read p).handles h
    whenever (entry.objType ≠ .unbound) do
      unrefTeardown entry.objType entry.target
      unbindHandle p h) maxHandles 0

/-- Free every slot of a slab that belongs to a process. -/
def sweep {α : Type} (c : Column α) (owned : α → Bool) (free : α → M Unit) (vacant : α) : M Unit := do
  countUp (fun i => do
    let v ← c.read i
    whenever (owned v) do
      free v
      c.write i vacant) (← c.capacity) 0

def sweepAttachments (p : Nat) : M Unit := do
  countUp (fun a => do
    let att ← attachments.read a
    whenever (att.state = .live) do
      let waiter ← waiters.read att.waiter
      whenever (waiter.process = p) do
        attachments.write a .vacant
        setWaitableAttachment att.kind att.target none
        unrefWaitableTeardown att.kind att.target) (← attachments.capacity) 0

def sweepMappings (p : Nat) : M Unit := do
  countUp (fun i => mappings.modify i fun m =>
    if m.state = .free then m
    else if m.process = p then .vacant
    else if m.target = p then { m with row := none }
    else m) (← mappings.capacity) 0

/-- Everything that ends with a process, up to its slot. -/
def teardown (p : Nat) (kind : ProcessStatusKind) (code : Nat) : M Unit := do
  mark (.ends p)
  emits fun _ => .ending p kind code
  processes.modify p ({ · with state := .gone, exitKind := kind, exitCode := code })
  notifyReady .process p
  releasePendingCalls p
  closeHandles p
  readyRemoveProcess p
  sweep threads (fun t => t.process = p && t.state ≠ .free) (fun _ => pure ()) .vacant
  modifies ({ · with currentThread := none })
  sweep interrupts (fun q => q.process = p && q.state = .live) (fun q => irqMask q.line) .vacant
  sweepAttachments p
  sweep events (fun e => e.process = p && e.state = .live) (fun _ => pure ()) .vacant
  sweep waiters (fun w => w.process = p && w.state = .live) (fun _ => pure ()) .vacant
  sweep timers (fun t => t.process = p && t.state = .live) (fun _ => pure ()) .vacant
  reprogramTimer
  reapUnreferenced
  sweepMappings p
  clearDomain p
  clearBootHandles p
  quotaClear p
  reclaimProcessSlot p

def exitCodeUmodeFault : Nat := 2
def exitCodeProcessFault : Nat := 5

/-- The machine goes down with its root process. -/
def exitMachine {α : Type} (status : Nat) : M α := if status = 0 then halt .exitPass else halt (.exitFail status)

def runThread (next : Nat) : M Unit := do
  modifies ({ · with currentThread := some next })
  threads.modify next ({ · with state := .running })
  modifies ({ · with sliceLeft := sliceTicks })
  let np := (← threads.read next).process
  whenever ((← reads K.lastProtProcess) ≠ some np) (loadDomain np)

/-- Run a thread that an interrupt made ready. -/
def runWoken : M Unit := do
  idleUntilRunnable
  match ← readyPop with
  | none => halt .panic
  | some next => runThread next

/-- Go on with another thread after the death of a process that the machine survives. -/
def resumeAfterDeath {α : Type} : M α := do
  match ← readyPop with
  | some next =>
    runThread next
    leave
  | none =>
    if ← hasExternalWakeSource then
      runWoken
      leave
    else
      mark .stuck
      teardown rootProcess .faulted FaultReason.deadlock.word
      exitMachine exitCodeProcessFault

def endProcess {α : Type} (p : Nat) (kind : ProcessStatusKind) (code machineStatus : Nat) : M α := do
  teardown p kind code
  if p = rootProcess then exitMachine machineStatus
  else resumeAfterDeath

def faultProcess {α : Type} (p : Nat) (reason : FaultReason) : M α :=
  endProcess p .faulted reason.word exitCodeProcessFault

def faultTrap {α : Type} : M α := do
  match ← reads K.currentThread with
  | none => halt (.exitFail exitCodeUmodeFault)
  | some t => endProcess (← threads.read t).process .faulted 0 exitCodeUmodeFault

/-- Answer the joiners of a thread that exits. -/
def wakeJoiners (code : Nat) (head : Option Nat) : M Unit :=
  loop (fun cur : Option Nat => do
    match cur with
    | none => return .inr ()
    | some waiter =>
      let next := (← threads.read waiter).link
      writeResult waiter (opValue code)
      makeRunnable waiter
      return .inl next) head

def exitThread (slot code : Nat) : M Unit := do
  mark (.move slot)
  threads.modify slot ({ · with state := .exited, exitCode := code })
  let joiners := (← threads.read slot).joiners
  threads.modify slot ({ · with joiners := none })
  wakeJoiners code joiners
  let p := (← threads.read slot).process
  whenever ((← liveThreads p) = 0) (endProcess p .exited code code)
  reschedule

/-! ### Choosing a thread -/

def staysRunning (slot : Nat) : M Bool := do
  return (← threads.read slot).state = .running && !(← reads K.needResched)

/-- The current thread, if it can still run, goes to the end of the queue. -/
def requeueCurrent (cur : Nat) : M Unit := do
  whenever ((← threads.read cur).state = .running) (makeRunnable cur)
  modifies ({ · with needResched := false })

def pickNext : M Unit := do
  match ← reads K.currentThread with
  | none => return
  | some cur =>
    if ← staysRunning cur then return
    requeueCurrent cur
    match ← readyPop with
    | some next => runThread next
    | none =>
      if ← hasExternalWakeSource then runWoken
      else
        mark .stuck
        faultProcess (← threads.read cur).process .deadlock

end Sawos
