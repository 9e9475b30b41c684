import Sawos.Kernel.Objects

/-! # Threads, timers and what a thread can wait for -/

namespace Sawos
open Exec

variable [Hal]

/-! ### Results -/

/-- What a system call answers. -/
structure SyscallResult where
  status : SosStatus
  value : Nat
  blocked : Bool

def opOk : SyscallResult := ⟨.ok, 0, false⟩
def opValue (v : Nat) : SyscallResult := ⟨.ok, v, false⟩
def opStatus (s : SosStatus) : SyscallResult := ⟨s, 0, false⟩
def opStatusValue (s : SosStatus) (v : Nat) : SyscallResult := ⟨s, v, false⟩
def opBlocked : SyscallResult := ⟨.ok, 0, true⟩

def Frame.answer (f : Frame) (result : SyscallResult) : Frame :=
  { f with pc := Hal.resumePc f.pc, a0 := result.status.word, a1 := result.value }

def K.setFrame (s : K) (t : Nat) (f : Frame) : K := { s with frames := fun i => if i = t then f else s.frames i }

/-- Put an answer in the frame of thread `t`. -/
def writeResult (t : Nat) (result : SyscallResult) : M Unit := do
  modifies fun s => s.setFrame t ((s.frames t).answer result)
  emits fun _ => .answered t result.status result.value

/-- Set a thread up to start at `entry`. -/
def frameInit (t entry stackTop arg : Nat) : M Unit := modifies fun s => s.setFrame t ⟨entry, stackTop, arg, 0⟩

/-! ### The ready queue -/

def readyPush (slot : Nat) : M Unit := do
  threads.modify slot ({ · with link := none })
  match ← reads K.readyTail with
  | none => modifies ({ · with readyHead := some slot, readyTail := some slot })
  | some tail =>
    threads.modify tail ({ · with link := some slot })
    modifies ({ · with readyTail := some slot })

def readyPop : M (Option Nat) := do
  match ← reads K.readyHead with
  | none => return none
  | some slot =>
    let next := (← threads.read slot).link
    modifies ({ · with readyHead := next })
    whenever next.isNone (modifies ({ · with readyTail := none }))
    threads.modify slot ({ · with link := none })
    return some slot

/-- Point the link after `prev`, the head of the queue when there is none, at `next`. -/
def readyLink (prev next : Option Nat) : M Unit :=
  match prev with
  | none => modifies ({ · with readyHead := next })
  | some q => threads.modify q ({ · with link := next })

/-- Take a thread out of the queue, given the one before it. -/
def readyUnlink (prev : Option Nat) (slot : Nat) (next : Option Nat) : M Unit := do
  readyLink prev next
  whenever ((← reads K.readyTail) = some slot) (modifies ({ · with readyTail := prev }))
  threads.modify slot ({ · with link := none })

def readyRemoveProcess (p : Nat) : M Unit := do
  loop (fun (at' : Option Nat × Option Nat) => do
    match at'.2 with
    | none => return .inr ()
    | some slot =>
      let thread ← threads.read slot
      if thread.process = p then
        readyUnlink at'.1 slot thread.link
        return .inl (at'.1, thread.link)
      else
        return .inl (some slot, thread.link)) (none, ← reads K.readyHead)

def allocThread : M (Option Nat) := alloc threads (·.state = .free)

/-- How many threads of a process are neither free nor exited. -/
def liveThreads (p : Nat) : M Nat := reads fun s =>
  ((List.range s.threads.cap).filter fun i =>
    let t := s.threads.slot i
    t.process = p && t.state ≠ .free && t.state ≠ .exited).length

def reschedule : M Unit := modifies ({ · with needResched := true })

def blockOnJoin (slot target : Nat) : M Unit := do
  mark (.move slot)
  let joiners := (← threads.read target).joiners
  threads.modify slot ({ · with state := .blocked, link := joiners })
  threads.modify target ({ · with joiners := some slot })
  reschedule

def callingProcess : M Nat := do
  match ← reads K.currentThread with
  | none => return 0
  | some t => return (← threads.read t).process

/-- The answer of a parked thread is ready: it may run. -/
def makeRunnable (t : Nat) : M Unit := do
  mark (.move t)
  threads.modify t ({ · with state := .runnable })
  readyPush t

/-! ### Timers -/

def allocTimer : M (Option Nat) := alloc timers (·.state = .free)

def saturatingAdd (a b : Nat) : Nat := if wordModulus ≤ a + b then wordMax else a + b

def firesWord (n : Nat) : Nat := if wordMax < n then wordMax else n

def TimerSlot.arm (t : TimerSlot) (deadline interval : Nat) : TimerSlot :=
  { t with
    armed := true, deadlineNs := deadline, intervalNs := interval, fires := 0, history := ⟨some deadline, none, 0, 0⟩ }

def TimerSlot.disarm (t : TimerSlot) : TimerSlot :=
  { t with armed := false, deadlineNs := 0, intervalNs := 0, fires := 0, history := .none }

def TimerSlot.isDue (t : TimerSlot) (now : Nat) : Bool := t.armed && t.deadlineNs ≤ now

def TimerSlot.soonerOf (t : TimerSlot) (deadline : Nat) : Nat :=
  if t.armed && t.deadlineNs < deadline then t.deadlineNs else deadline

/-- How many deadlines of a periodic timer are past. -/
def TimerSlot.missed (t : TimerSlot) (now : Nat) : Nat := (now - t.deadlineNs) / t.intervalNs + 1

/-- The checked product of `fire` does not fit 64 bits, which stops the machine. -/
def TimerSlot.stepOverflows (t : TimerSlot) (now : Nat) : Bool :=
  t.intervalNs ≠ 0 && neverNs < t.missed now * t.intervalNs

/-- Count `n` fires, as far as they fit. -/
def TimerSlot.count (t : TimerSlot) (n : Nat) : TimerSlot :=
  let counted := saturatingAdd t.fires (firesWord n)
  { t with fires := counted, history := { t.history with lost := t.history.lost + (t.fires + n - counted) } }

def TimerSlot.fire (t : TimerSlot) (now : Nat) : TimerSlot :=
  if t.intervalNs = 0 then { t.count 1 with armed := false }
  else
    let step := t.missed now * t.intervalNs
    { t.count (t.missed now) with
      deadlineNs := if neverNs - t.deadlineNs < step then neverNs else t.deadlineNs + step }

def TimerSlot.seen (t : TimerSlot) (now : Nat) : TimerSlot :=
  { t with history := { t.history with expired := some now } }

/-- The fires that were counted are delivered. -/
def TimerSlot.consume (t : TimerSlot) : TimerSlot :=
  { t with fires := 0, history := { t.history with delivered := t.history.delivered + t.fires } }

/-- A reading of the clock, which the environment moved on before. -/
def timerNowNs : M Nat := do
  modifies fun s => { s with now := s.now + s.lapse.headD 0, lapse := s.lapse.tail }
  reads K.now

def earliestTimerDeadline (soonest : Nat) : M Nat := reads fun s =>
  (List.range s.timers.cap).foldl (fun next i =>
    let t := s.timers.slot i
    if t.state = .live then t.soonerOf next else next) soonest

def timerSetDeadlineNs (ns : Nat) : M Unit := modifies ({ · with comparator := ns })

def reprogramTimer : M Unit := do
  let tick ← reads fun s => if s.tickPeriodNs ≠ 0 && s.nextTickNs < neverNs then s.nextTickNs else neverNs
  let next ← earliestTimerDeadline tick
  if next = neverNs then timerSetDeadlineNs neverNs
  else
    let floor := (← timerNowNs) + timerMinLeadNs
    timerSetDeadlineNs (if next < floor then floor else next)

/-! ### Lines -/

def irqMask (line : Nat) : M Unit := do
  modifies fun s => { s with masks := fun l => if l = line then some true else s.masks l }
  emits fun _ => .irqMask line

def irqUnmask (line : Nat) : M Unit := do
  modifies fun s => { s with masks := fun l => if l = line then some false else s.masks l }
  emits fun _ => .irqUnmask line

/-- A line fires; while the fire before is not acknowledged, it is the same one. -/
def InterruptSlot.raise (q : InterruptSlot) : InterruptSlot :=
  { q with pending := true, fires := if q.pending then q.fires else ⟨0, false⟩ :: q.fires }

def InterruptSlot.ack (q : InterruptSlot) : InterruptSlot :=
  { q with pending := false, fires := q.fires.modifyHead ({ · with acked := true }) }

/-- The last fire is delivered to a Wait, which leaves the line as it is. -/
def InterruptSlot.deliver (q : InterruptSlot) : InterruptSlot :=
  { q with fires := q.fires.modifyHead fun f => { f with waits := f.waits + 1 } }

/-! ### Waitables -/

def allocEvent : M (Option Nat) := alloc events (·.state = .free)

def allocWaiter : M (Option Nat) := alloc waiters (·.state = .free)

def allocInterrupt : M (Option Nat) := alloc interrupts (·.state = .free)

def allocAttachment : M (Option Nat) := alloc attachments (·.state = .free)

def accumulate (slot bits : Nat) : M Unit :=
  events.modify slot fun e => match e.mode with
    | .or => { e with word := e.word ||| bits }
    | .saturatingSum => { e with word := saturatingAdd e.word bits }

def waitableAttachment : WaitableKind → Nat → M (Option Nat)
  | .event, slot => do return (← events.read slot).attachment
  | .interrupt, slot => do return (← interrupts.read slot).attachment
  | .timer, slot => do return (← timers.read slot).attachment
  | .process, slot => do return (← processes.read slot).attachment
  | .pipeOutlet, slot => do return (← pipes.read slot).outletAttachment
  | .pipeInlet, slot => do return (← pipes.read slot).inletAttachment
  | .pipeReply, slot => do return (← exchanges.read slot).replyAttach
  | .pipeRequest, slot => do return (← exchanges.read slot).requestAttach

def setWaitableAttachment : WaitableKind → Nat → Option Nat → M Unit
  | .event, slot, a => events.modify slot ({ · with attachment := a })
  | .interrupt, slot, a => interrupts.modify slot ({ · with attachment := a })
  | .timer, slot, a => timers.modify slot ({ · with attachment := a })
  | .process, slot, a => processes.modify slot ({ · with attachment := a })
  | .pipeOutlet, slot, a => pipes.modify slot ({ · with outletAttachment := a })
  | .pipeInlet, slot, a => pipes.modify slot ({ · with inletAttachment := a })
  | .pipeReply, slot, a => exchanges.modify slot ({ · with replyAttach := a })
  | .pipeRequest, slot, a => exchanges.modify slot ({ · with requestAttach := a })

def waitableReady : WaitableKind → Nat → M Bool
  | .event, slot => do return (← events.read slot).word ≠ 0
  | .interrupt, slot => do return (← interrupts.read slot).pending
  | .timer, slot => do return (← timers.read slot).fires ≠ 0
  | .process, slot => do return (← processes.read slot).state = .gone
  | .pipeOutlet, slot => do
    let pipe ← pipes.read slot
    return pipe.staged.isSome || pipe.inletRefs = 0
  | .pipeInlet, slot => do
    if (← pipes.read slot).outletRefs = 0 then return true else pipeHasRoom slot
  | .pipeReply, slot => do
    let ex ← exchanges.read slot
    match ex.state with
    | .replied => return true
    | .taken => return ex.requestRefs = 0
    | .staged => return (← pipes.read (exchangePipe slot)).outletRefs = 0
    | .settled => return false
    | .free => return false
  | .pipeRequest, slot => do
    let ex ← exchanges.read slot
    return ex.state = .taken && ex.replyRefs = 0

/-- What a waitable reports: its tag, its payload, and the body it carries. -/
structure WaitAnswer where
  tag : WaitTag
  payload : Nat
  bodyLen : Nat
  body : List UInt8

def waitableAnswer : WaitableKind → Nat → M WaitAnswer
  | .event, slot => do return ⟨.event, (← events.read slot).word, 0, []⟩
  | .interrupt, slot => do return ⟨.interrupt, (← interrupts.read slot).line, 0, []⟩
  | .timer, slot => do return ⟨.timer, (← timers.read slot).fires, 0, []⟩
  | .process, slot => do
    let p ← processes.read slot
    return ⟨.process, processStatusWord p.exitKind p.exitCode, 0, []⟩
  | .pipeOutlet, slot => do
    return ⟨.readable, if (← pipes.read slot).staged.isSome then outletLevelMsg else outletLevelPeerGone, 0, []⟩
  | .pipeInlet, slot => do
    return ⟨.room, if (← pipes.read slot).outletRefs = 0 then inletLevelPeerGone else inletLevelRoom, 0, []⟩
  | .pipeReply, slot => do
    let ex ← exchanges.read slot
    return if ex.state = .replied then ⟨.reply, replyLevelData, ex.len, ex.body.take ex.len⟩
      else ⟨.reply, replyLevelPeerClosed, 0, []⟩
  | .pipeRequest, _ => do return ⟨.abandoned, 0, 0, []⟩

def waitableConsume : WaitableKind → Nat → M Unit
  | .event, slot => events.modify slot ({ · with word := 0 })
  | .timer, slot => timers.modify slot (·.consume)
  | .pipeReply, slot => exchanges.modify slot ({ · with state := .settled })
  | .interrupt, slot => interrupts.modify slot (·.deliver)
  | .process, _ => pure ()
  | .pipeOutlet, _ => pure ()
  | .pipeInlet, _ => pure ()
  | .pipeRequest, _ => pure ()

/-- The first attachment of a Waiter, from the head of its list, for which `found` holds. -/
def searchAttached (w : Nat) (found : Nat → Attachment → M Bool) : M (Option Nat) := do
  loop (fun cur : Option Nat => do
    match cur with
    | none => return .inr none
    | some a =>
      let att ← attachments.read a
      return if ← found a att then .inr (some a) else .inl att.link) (← waiters.read w).attached

def waiterReadyAttachment (w : Nat) : M (Option Nat) := searchAttached w fun _ att => waitableReady att.kind att.target

def attachedByKey (w key : Nat) : M (Option Nat) := searchAttached w fun _ att => return att.key = key

/-- Point the link after `prev`, the head of the Waiter's list when there is none, at `next`. -/
def attachedLink (w : Nat) (prev next : Option Nat) : M Unit :=
  match prev with
  | none => waiters.modify w ({ · with attached := next })
  | some q => attachments.modify q ({ · with link := next })

/-- Unlink an attachment from its Waiter's list, given the one before it, and free it. -/
def unlinkAttachment (w : Nat) (prev : Option Nat) (a : Nat) : M Unit := do
  let att ← attachments.read a
  attachedLink w prev att.link
  setWaitableAttachment att.kind att.target none
  attachments.write a .vacant

def detachAttachment (w a : Nat) : M Unit := do
  loop (fun (at' : Option Nat × Option Nat) => do
    match at'.2 with
    | none => return .inr ()
    | some slot =>
      if slot = a then
        unlinkAttachment w at'.1 a
        return .inr ()
      else
        return .inl (some slot, (← attachments.read slot).link)) (none, (← waiters.read w).attached)

def interruptByLine (line : Nat) : M (Option Nat) :=
  reads fun s => s.interrupts.find fun q => q.state = .live && q.line = line

/-! ### Parking -/

def blockOnWait (slot w dst : Nat) : M Unit := do
  mark (.move slot)
  let blocked := (← waiters.read w).blocked
  threads.modify slot ({ · with state := .blocked, waitBuf := dst, link := blocked })
  waiters.modify w ({ · with blocked := some slot })
  reschedule

def blockOnCallRoom (slot c src len dst : Nat) : M Unit := do
  mark (.move slot)
  threads.modify slot fun t =>
    { t with state := .blocked, waitBuf := dst, callPipe := some c, callClaim := none, callSrc := src, callLen := len }
  reschedule

def tieCallReply (slot x dst : Nat) : M Unit := do
  mark (.move slot)
  threads.modify slot fun t =>
    { t with state := .blocked, waitBuf := dst, callPipe := none, callClaim := some x, callSrc := 0, callLen := 0 }
  exchanges.modify x ({ · with caller := some slot })

def blockOnCallReply (slot x dst : Nat) : M Unit := do
  tieCallReply slot x dst
  reschedule

/-- Take the first of the threads parked on a Waiter off its list. -/
def takeBlocked (w : Nat) : M (Option Nat) := do
  match (← waiters.read w).blocked with
  | none => return none
  | some slot =>
    mark (.move slot)
    let next := (← threads.read slot).link
    waiters.modify w ({ · with blocked := next })
    threads.modify slot ({ · with link := none })
    return some slot

def clearCaller (claim : Option Nat) : M Unit :=
  match claim with
  | none => pure ()
  | some x => exchanges.modify x ({ · with caller := none })

def clearPendingCall (slot : Nat) : M Unit := do
  clearCaller (← threads.read slot).callClaim
  threads.modify slot ({ · with callPipe := none, callClaim := none, callSrc := 0, callLen := 0, waitBuf := 0 })

def callRoomWaiter (c : Nat) : M (Option Nat) := reads fun s => s.threads.find fun t => t.callPipe = some c

end Sawos
