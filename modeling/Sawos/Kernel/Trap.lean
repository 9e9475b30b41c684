import Sawos.Kernel.Pipes
import Sawos.Lib.History

/-! # Traps, and the machine as a whole -/

namespace Sawos
open Exec

variable [Hal]

def releaseHandle (p word : Nat) (entry : HandleEntry) : M SyscallResult := do
  whenever (entry.objType = .unbound) (faultProcess p .badHandle)
  unbindHandle p (handleWordIndex word)
  unrefObject entry.objType entry.target
  return opOk

def mintSibling (p : Nat) (entry : HandleEntry) (keep : Nat) : M SyscallResult := do
  whenever (entry.objType = .unbound) (faultProcess p .badHandle)
  whenever (!rightsAllowMint entry.rights) (faultProcess p .accessDenied)
  let word ← mintHandle p entry.objType (entry.rights &&& truncate32 keep) entry.target
  minted p word (refObject entry.objType entry.target)

/-- The operations of the kind of object that a handle names. -/
def objectOp (p handle op arg0 arg1 arg2 : Nat) (entry : HandleEntry) : M SyscallResult :=
  match entry.objType with
  | .unbound => faultProcess p .badHandle
  | .system => systemOp p op entry.rights arg0 arg1
  | .process => processOp p op entry.rights entry.target arg0 arg1 arg2
  | .thread => threadOp p op entry.rights entry.target arg0
  | .event => eventOp p op entry.rights entry.target arg0
  | .waiter => waiterOp p op entry.rights entry.target arg0 arg1 arg2
  | .interrupt => interruptOp p op entry.rights entry.target
  | .clock => clockOp p op entry.rights entry.target arg0 arg1
  | .timer => timerOp p op entry.rights entry.target arg0 arg1
  | .memory => memoryOp p op entry.rights entry.target arg0 arg1
  | .ioMemory => iomemoryOp p op entry.rights entry.target arg0 arg1
  | .mapping => mappingOp p op entry.rights entry.target
  | .pipeInlet => pipeInletOp p op entry.rights entry.target arg0 arg1 arg2
  | .pipeOutlet => pipeOutletOp p op entry.rights entry.target arg0 arg1
  | .pipeReply => pipeReplyOp p op entry.rights handle entry.target arg0 arg1
  | .pipeRequest => pipeRequestOp p op entry.rights handle entry.target arg0 arg1 arg2

def dispatch (handle op arg0 arg1 arg2 : Nat) : M SyscallResult := do
  let p ← callingProcess
  let entry ← lookupHandle p handle
  if op = releaseOp then releaseHandle p handle entry
  else if op = mintOp then mintSibling p entry arg0
  else objectOp p handle op arg0 arg1 arg2 entry

/-- A machine word. -/
def Word : Type := Fin wordModulus

/-- What takes the machine from one boundary to the next: a trap of the running thread, with the registers it
    holds, or a store of its own. -/
inductive Input where
  | syscall (handle op arg0 arg1 arg2 : Word)
  | fault
  | interrupt (line : Nat)
  | store (va : Nat) (b : UInt8)

/-- An input, and the environment's part while it is handled. -/
structure Stimulus where
  input : Input
  polls : List Nat
  lapse : List Nat

/-- The columns of a process's statistics. -/
inductive TrapKind where
  | syscall | interrupt | fault

def StatsRow.count (row : StatsRow) : TrapKind → StatsRow
  | .syscall => { row with syscalls := row.syscalls + 1 }
  | .interrupt => { row with interrupts := row.interrupts + 1 }
  | .fault => { row with faults := row.faults + 1 }

def countTrap (kind : TrapKind) : M Unit := do
  match ← reads K.currentThread with
  | none => return
  | some t =>
    let p := (← threads.read t).process
    modifies fun s => { s with stats := fun i => if i = p then (s.stats p).count kind else s.stats i }

/-- Answer the thread whose frame the trap saved. -/
def answerTrapped (trapped : Option Nat) (result : SyscallResult) : M Unit :=
  match trapped with
  | none => pure ()
  | some t => whenever (!result.blocked) (writeResult t result)

/-- The end of a system call's trap, once its operation has a result. -/
def finishTrap (trapped : Option Nat) (result : SyscallResult) : M Unit := do
  answerTrapped trapped result
  pickNext

def ktrapSyscall (handle op arg0 arg1 arg2 : Nat) : M Unit := do
  countTrap .syscall
  let trapped ← reads K.currentThread
  finishTrap trapped (← dispatch handle op arg0 arg1 arg2)

def ktrapInterrupt (line : Nat) : M Unit := do
  countTrap .interrupt
  deliverLine line
  pickNext

def ktrapFault : M Unit := do
  countTrap .fault
  faultTrap

/-- A row through which its process may store at `va`. -/
def GrantRow.stores (row : GrantRow) (va : Nat) : Bool :=
  !row.device && row.perms &&& segWrite ≠ 0 && row.base ≤ va && va < row.top

/-- A store by the running thread, where its process may write. -/
def userStore (va : Nat) (b : UInt8) : M Unit := do
  match (← processes.read (← callingProcess)).rows.find? (·.stores va) with
  | none => return
  | some row => modifies fun s => { s with mem := storeBytes s.mem (row.pa + (va - row.base)) [b] }

def handle : Input → M Unit
  | .syscall h op arg0 arg1 arg2 => ktrapSyscall h.val op.val arg0.val arg1.val arg2.val
  | .fault => ktrapFault
  | .interrupt line => ktrapInterrupt line
  | .store va b => userStore va b

def act (i : Stimulus) : M Unit := do
  modifies ({ · with polls := i.polls, lapse := i.lapse })
  handle i.input

/-! ### The machine -/

def Slab.fresh {α : Type} (cap : Nat) (v : α) : Slab α := ⟨cap, fun _ => v, []⟩

/-- Every slab empty and no thread running. -/
structure K.Fresh (s : K) : Prop where
  processes : s.processes = .fresh maxProcesses .vacant
  threads : s.threads = .fresh maxThreads .vacant
  events : s.events = .fresh maxEvents .vacant
  waiters : s.waiters = .fresh maxWaiters .vacant
  interrupts : s.interrupts = .fresh maxInterrupts .vacant
  timers : s.timers = .fresh maxTimers .vacant
  attachments : s.attachments = .fresh maxAttachments .vacant
  memories : s.memories = .fresh maxMemories .vacant
  freeRanges : s.freeRanges = .fresh maxFreeRanges .vacant
  ioMemories : s.ioMemories = .fresh maxIoMemories .vacant
  mappings : s.mappings = .fresh maxMappings .vacant
  pipes : s.pipes = .fresh maxPipes .vacant
  exchanges : s.exchanges = .fresh pipeExchanges .vacant
  currentThread : s.currentThread = none
  readyHead : s.readyHead = none
  readyTail : s.readyTail = none
  needResched : s.needResched = false
  lastProtProcess : s.lastProtProcess = none
  inDelivery : s.inDelivery = false
  masks : s.masks = fun _ => none
  prot : s.prot = Hal.protBoot

/-- The kernel on its machine: it boots, and then handles one input after the other. -/
def machine : Machine K Ev := .ofPrograms K.Fresh loadRootAndEnter act

/-- The states at a boundary that a run reaches whose events all satisfy `G`. -/
abbrev ReachableWith (G : Ev → Prop) (s : K) : Prop := machine.Reach G s

/-- The states at a boundary that a run reaches. -/
abbrev Reachable (s : K) : Prop := ReachableWith (fun _ => True) s

end Sawos
